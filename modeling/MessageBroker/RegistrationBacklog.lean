import MessageBroker.IsolatedRuns
import MessageBroker.RunInvariants

namespace MessageBroker.RegistrationBacklog

open ByteStrings WireMessages WireCodec OrderedSelection MessageStore ProgramTrees SequentialRuns ThreadPools
  BrokerState SessionQueues ClientRegistry MessageHandlers ServerJobs OperationEffects StoreInvariant
  SharedInvariant ServerOutlines RunInvariants IsolatedRuns

variable {i : ℕ} {j : Job} {env : Op → Choice} {w w' w₁ : World} {α : Type} {s : ℕ} {n : Bytes} {c : Copy}
  {p : PendingMessage} {ids ids' : List ℕ} {id : ℕ} {rows : List PendingMessage} {parts : List Part}

/-- What a thread may write on its way without touching the tables or a queue. -/
def passing : List Part := [.log, .registryOwner, .owners, .queueOwners, .destroyed, .pendingSends]

theorem frame_op {o : Op} {r : o.Res} (he : alone i j env o w = some (r, w')) (hsub : .log :: writes o ⊆ parts) :
    Frame parts w w' := (exec_frame he).weaken hsub

theorem yields_withRegistryLock {q : Program α} {R Q : Except String α → World → Prop}
    (h : ∀ w₁, Frame passing w w₁ → Yields (alone i j env) q w₁ R)
    (hQ : ∀ r w₁ w₂, R r w₁ → Frame passing w₁ w₂ → Q r w₂) :
    Yields (alone i j env) (withRegistryLock q) w Q := by
  refine .op fun _ w₁ he ↦ Yields.ensuring (h w₁ (frame_op he (by simp [writes, passing]))) fun r w₂ hr ↦ ?_
  exact Yields.perform fun _ w₃ he ↦ ⟨rfl, hQ r w₂ w₃ hr (frame_op he (by simp [writes, passing]))⟩

theorem yields_withQueueLock {q : Program α} {R Q : Except String α → World → Prop}
    (h : ∀ w₁, Frame passing w w₁ → Yields (alone i j env) q w₁ R)
    (hQ : ∀ r w₁ w₂, R r w₁ → Frame passing w₁ w₂ → Q r w₂) :
    Yields (alone i j env) (withQueueLock s q) w Q := by
  refine .op fun _ w₁ he ↦ Yields.ensuring (h w₁ (frame_op he (by simp [writes, passing]))) fun r w₂ hr ↦ ?_
  exact Yields.perform fun _ w₃ he ↦ ⟨rfl, hQ r w₂ w₃ hr (frame_op he (by simp [writes, passing]))⟩

theorem yields_findSession : Yields (alone i j env) (findSession n) w fun r w' ↦
    r = .ok (w.activeClients.lookup n) ∧ Frame passing w w' := by
  refine yields_withRegistryLock (R := fun r w' ↦ r = .ok (w.activeClients.lookup n) ∧ Frame passing w w')
    (fun w₁ h₁ ↦ .perform fun x w₂ he ↦ ⟨?_, h₁.trans (frame_op he (by simp [writes, passing]))⟩)
    fun r w₁ w₂ h₁ h₂ ↦ ⟨h₁.1, h₁.2.trans h₂⟩
  rw [← (exec_findClient he).1, h₁.clients (by simp [passing])]

theorem yields_dropSession (hq : (w.sessions s).outgoingQueue = []) :
    Yields (alone i j env) (dropSession s) w fun r w' ↦ r = .ok () ∧ Frame passing w w' := by
  refine .op fun last w₁ he₁ ↦ ?_
  have hf₁ : Frame passing w w₁ := frame_op he₁ (by simp [writes, passing])
  rw [Prog.ret_bind, Prog.when]
  split
  · have hpersist : Yields (alone i j env) (persistQueueToDatabase s) w₁ fun r w' ↦
        r = .ok () ∧ Frame passing w w' := by
      refine yields_withQueueLock (R := fun r w' ↦ r = .ok () ∧ Frame passing w w')
        (fun w₂ h₂ ↦ .op fun size w₃ he₃ ↦ ?_) fun r w₂ w₃ h₂ h₃ ↦ ⟨h₂.1, h₂.2.trans h₃⟩
      have hf₂ := hf₁.trans h₂
      have hsize : some (w₂.sessions s).outgoingQueue.length = some size := exec_reads he₃
      rw [hf₂.queues (by simp [passing]), hq] at hsize
      obtain rfl : 0 = size := Option.some.inj hsize
      exact .ret ⟨rfl, hf₂.trans (frame_op he₃ (by simp [writes, passing]))⟩
    refine Yields.bind (Yields.recover (Q := fun r w' ↦ r = .ok () ∧ Frame passing w w') hpersist
      (fun a w' h ↦ h) fun e w' h ↦ by cases h.1) (fun _ w' h ↦ ?_) fun e w' h ↦ by cases h.1
    exact .perform fun _ w₃ he ↦ ⟨rfl, h.2.trans (frame_op he (by simp [writes, passing]))⟩
  · exact .ret ⟨rfl, hf₁⟩

theorem yields_holding {q : Program α} {session : Option ℕ} {R Q : Except String α → World → Prop}
    (h : Yields (alone i j env) q w R)
    (hempty : ∀ r w₁, R r w₁ → ∀ s, session = some s → (w₁.sessions s).outgoingQueue = [])
    (hQ : ∀ r w₁ w₂, R r w₁ → Frame passing w₁ w₂ → Q r w₂) :
    Yields (alone i j env) (holding session q) w Q := by
  cases session with
  | none => exact h.mono fun r w₁ hr ↦ hQ r w₁ w₁ hr (.refl _)
  | some s =>
    refine Yields.ensuring h fun r w₁ hr ↦ ?_
    exact (yields_dropSession (hempty r w₁ hr s rfl)).mono fun _ w₂ h₂ ↦ ⟨h₂.1, hQ r w₁ w₂ hr h₂.2⟩

def serving : List Part := .messages :: passing

/-- The rows with these ids, and no others, are no longer pending. -/
structure Served (ids : List ℕ) (w w' : World) : Prop where
  frame : Frame serving w w'
  rows : ∃ f : Row → MessageStatus, w'.db.messages = w.db.messages.map (fun r ↦ { r with status := f r }) ∧
    ∀ r ∈ w.db.messages, f r = .pending ↔ r.status = .pending ∧ r.id ∉ ids

theorem Served.of_frame (h : Frame passing w w') : Served [] w w' := by
  refine ⟨h.weaken (by simp [serving]), (·.status), ?_, by simp⟩
  rw [(h.messages (by simp [passing])).1]
  exact (List.map_id' _).symm

theorem Served.trans (h : Served ids w w₁) (h' : Served ids' w₁ w') : Served (ids ++ ids') w w' := by
  obtain ⟨f, hf, hids⟩ := h.rows
  obtain ⟨g, hg, hids'⟩ := h'.rows
  refine ⟨h.frame.trans h'.frame, fun r ↦ g { r with status := f r }, ?_, fun r hr ↦ ?_⟩
  · rw [hg, hf, List.map_map]
    rfl
  · have hmem : { r with status := f r } ∈ w₁.db.messages := hf ▸ List.mem_map_of_mem hr
    rw [hids' _ hmem, List.mem_append]
    simp only [hids r hr]
    tauto

theorem Served.congr (h : Served ids w w') (hids : ∀ x, x ∈ ids ↔ x ∈ ids') : Served ids' w w' := by
  obtain ⟨f, hf, hpending⟩ := h.rows
  exact ⟨h.frame, f, hf, fun r hr ↦ by rw [hpending r hr, hids]⟩

theorem served_setStatus {st : MessageStatus} {g : MessageStatus → Bool} (hst : st ≠ .pending)
    (hg : g .pending = true) (hf : Frame serving w w')
    (hdb : w'.db = w.db.setStatus id st g) : Served [id] w w' := by
  refine ⟨hf, fun r ↦ if r.id = id ∧ g r.status then st else r.status, ?_, fun r _ ↦ ?_⟩
  · rw [hdb]
    refine List.map_congr_left fun r _ ↦ ?_
    by_cases hr : r.id = id ∧ g r.status = true
    · simp only [if_pos hr]
    · simp only [if_neg hr]
  · rw [List.mem_singleton]
    by_cases hr : r.id = id ∧ g r.status = true
    · simp [hr, hst]
    · simp only [if_neg hr]
      exact ⟨fun hp ↦ ⟨hp, fun hid ↦ hr ⟨hid, by rw [hp, hg]⟩⟩, And.left⟩

theorem yields_markSent (henv : Unfailing env) :
    Yields (alone i j env) (markSent id) w fun r w' ↦ r = .ok () ∧ Served [id] w w' := by
  refine .op fun r w₁ he ↦ .lift ?_
  obtain ⟨hd, -⟩ | ⟨hr, hdb⟩ := exec_markSent he
  · cases hd.symm.trans (henv _)
  · exact ⟨hr, served_setStatus (by simp) rfl (frame_op he (by simp [writes, serving, passing])) hdb⟩

theorem yields_markDelivered (henv : Unfailing env) :
    Yields (alone i j env) (markDelivered id) w fun r w' ↦ r = .ok () ∧ Served [id] w w' := by
  refine .op fun r w₁ he ↦ .lift ?_
  obtain ⟨hd, -⟩ | ⟨⟨hr, -⟩, hdb⟩ := exec_markDelivered he
  · cases hd.symm.trans (henv _)
  · exact ⟨hr, served_setStatus (by simp) rfl (frame_op he (by simp [writes, serving, passing])) hdb⟩

theorem yields_sendMessage (hon : (w.sessions s).isOnline = true) (hfits : c.msg.Fits) :
    Yields (alone i j env) (sendMessage s c) w fun r w' ↦ r = .ok true ∧ Frame passing w w' := by
  obtain ⟨data, hdata⟩ : ∃ data, serialize c.msg = .ok data := ⟨_, serialize_frame hfits⟩
  have hzmq : sendZmqMessage s c =
      .op (.pushPendingSend s c data) fun _ ↦ .op .postSendTask .ret := by
    unfold sendZmqMessage
    rw [hdata]
    rfl
  refine .op fun _ w₁ h₁ ↦ ?_
  have hf₁ : Frame passing w w₁ := frame_op h₁ (by simp [writes, passing])
  refine .op fun online w₂ h₂ ↦ ?_
  have hf₂ : Frame passing w w₂ := hf₁.trans (frame_op h₂ (by simp [writes, passing]))
  have honline : online = true := by
    have hr : some (w₁.sessions s).isOnline = some online := exec_reads h₂
    rw [← Option.some.inj hr, hf₁.presence (by simp [passing]), hon]
  subst honline
  change Yields _ ((sendZmqMessage s c).bind fun _ ↦ .ret true) _ _
  rw [hzmq]
  refine .op fun _ w₃ h₃ ↦ .op fun _ w₄ h₄ ↦ .ret ⟨rfl, ?_⟩
  exact (hf₂.trans (frame_op h₃ (by simp [writes, passing]))).trans (frame_op h₄ (by simp [writes, passing]))

theorem yields_when {b : Bool} {q : Program Unit}
    (h : Yields (alone i j env) q w fun r w' ↦ r = .ok () ∧ Served [id] w w') :
    Yields (alone i j env) (Prog.when b q) w fun r w' ↦ r = .ok () ∧ Served (if b then [id] else []) w w' := by
  cases b with
  | true => exact h
  | false => exact .ret ⟨rfl, .of_frame (.refl w)⟩

theorem yields_handOver (henv : Unfailing env) (hon : (w.sessions s).isOnline = true) (hfits : p.msg.Fits)
    {before after : Bool} (hmark : (before || after) = true) {k : Bool → Program Unit} {q : Program Unit}
    {Q : Except String Unit → World → Prop} (hk : k true = (Prog.when after (markDelivered p.id)).bind fun _ ↦ q)
    (h : ∀ w₁, Served [p.id] w w₁ → Yields (alone i j env) q w₁ Q) :
    Yields (alone i j env) ((Prog.when before (markSent p.id)).bind fun _ ↦ (sendMessage s p.copy).bind k)
      w Q := by
  refine Yields.bind (yields_when (yields_markSent henv)) (fun _ w₁ h₁ ↦ ?_) fun e w₁ h₁ ↦ by cases h₁.1
  have hon₁ : (w₁.sessions s).isOnline = true := by
    rw [h₁.2.frame.presence (by simp [serving, passing]), hon]
  refine Yields.bind (yields_sendMessage hon₁ hfits) (fun sent w₂ h₂ ↦ ?_) fun e w₂ h₂ ↦ by cases h₂.1
  obtain ⟨hsent, hf₂⟩ := h₂
  obtain rfl := Except.ok.inj hsent
  rw [hk]
  refine Yields.bind (yields_when (yields_markDelivered henv)) (fun _ w₃ h₃ ↦ ?_) fun e w₃ h₃ ↦ by cases h₃.1
  refine h w₃ (((h₁.2.trans (.of_frame hf₂)).trans h₃.2).congr fun x ↦ ?_)
  cases before with
  | true => cases after <;> simp
  | false =>
    obtain rfl : after = true := hmark
    simp

theorem yields_online {k : Bool → Program α} {Q : Except String α → World → Prop}
    (hon : (w.sessions s).isOnline = true)
    (h : ∀ w₁, Frame passing w w₁ → Yields (alone i j env) (k true) w₁ Q) :
    Yields (alone i j env) (.op (.isOnline s) k) w Q := by
  refine .op fun online w₁ h₁ ↦ ?_
  have hr : some (w.sessions s).isOnline = some online := exec_reads h₁
  rw [hon] at hr
  exact Option.some.inj hr ▸ h w₁ (frame_op h₁ (by simp [writes, passing]))

theorem yields_offlineLoop (henv : Unfailing env) (hon : (w.sessions s).isOnline = true)
    (hfits : ∀ p ∈ rows, p.msg.Fits) :
    Yields (alone i j env) (offlineLoop s rows) w fun r w' ↦ r = .ok () ∧ Served (rows.map (·.id)) w w' := by
  induction rows generalizing w with
  | nil => exact .ret ⟨rfl, .of_frame (.refl w)⟩
  | cons p rows ih =>
    refine yields_online hon fun w₁ hf₁ ↦ ?_
    have hon₁ : (w₁.sessions s).isOnline = true := by rw [hf₁.presence (by simp [passing]), hon]
    refine yields_handOver henv hon₁ (hfits p (List.mem_cons_self ..)) (Bool.or_not_self _) rfl fun w₂ h₂ ↦ ?_
    have hon₂ : (w₂.sessions s).isOnline = true := by
      rw [h₂.frame.presence (by simp [serving, passing]), hon₁]
    refine (ih hon₂ fun q hq ↦ hfits q (List.mem_cons_of_mem _ hq)).mono fun r w' h' ↦ ⟨h'.1, ?_⟩
    exact ((Served.of_frame hf₁).trans h₂).trans h'.2

theorem yields_repliesLoop (henv : Unfailing env) (hon : (w.sessions s).isOnline = true)
    (hfits : ∀ p ∈ rows, p.msg.Fits) :
    Yields (alone i j env) (repliesLoop s rows) w fun r w' ↦ r = .ok () ∧ Served (rows.map (·.id)) w w' := by
  induction rows generalizing w with
  | nil => exact .ret ⟨rfl, .of_frame (.refl w)⟩
  | cons p rows ih =>
    refine yields_online hon fun w₁ hf₁ ↦ ?_
    have hon₁ : (w₁.sessions s).isOnline = true := by rw [hf₁.presence (by simp [passing]), hon]
    refine yields_handOver henv hon₁ (hfits p (List.mem_cons_self ..)) (Bool.or_true _) rfl fun w₂ h₂ ↦ ?_
    have hon₂ : (w₂.sessions s).isOnline = true := by
      rw [h₂.frame.presence (by simp [serving, passing]), hon₁]
    refine (ih hon₂ fun q hq ↦ hfits q (List.mem_cons_of_mem _ hq)).mono fun r w' h' ↦ ⟨h'.1, ?_⟩
    exact ((Served.of_frame hf₁).trans h₂).trans h'.2

theorem yields_flushQueue (hq : (w.sessions s).outgoingQueue = []) :
    Yields (alone i j env) (flushQueue s) w fun r w' ↦ r = .ok () ∧ Frame passing w w' := by
  refine yields_withQueueLock (R := fun r w' ↦ r = .ok () ∧ Frame passing w w')
    (fun w₁ h₁ ↦ .op fun size w₂ he₂ ↦ ?_) fun r w₁ w₂ h₁ h₂ ↦ ⟨h₁.1, h₁.2.trans h₂⟩
  have hsize : some (w₁.sessions s).outgoingQueue.length = some size := exec_reads he₂
  rw [h₁.queues (by simp [passing]), hq] at hsize
  obtain rfl : 0 = size := Option.some.inj hsize
  exact .ret ⟨rfl, h₁.trans (frame_op he₂ (by simp [writes, passing]))⟩

/-- An undelivered message that is not a reply. -/
def WaitingMessage (n : Bytes) (r : Row) : Prop :=
  r.destination = .of n ∧ r.status = .pending ∧ r.type ≠ MessageType.reply.toByte.toNat

/-- Exactly the rows that satisfy `P` are no longer pending. -/
def Drains (P : Row → Prop) (w w' : World) : Prop :=
  ∃ ids, Served ids w w' ∧ ∀ x, x ∈ ids ↔ ∃ r ∈ w.db.messages, r.id = x ∧ P r

theorem Drains.after {P : Row → Prop} (h : Drains P w₁ w') (hf : Frame passing w w₁) : Drains P w w' := by
  obtain ⟨ids, hserved, hids⟩ := h
  refine ⟨ids, (Served.of_frame hf).trans hserved, fun x ↦ ?_⟩
  rw [hids, (hf.messages (by simp [passing])).1]

theorem Drains.passing {P : Row → Prop} (h : Drains P w w₁) (hf : Frame passing w₁ w') : Drains P w w' := by
  obtain ⟨ids, hserved, hids⟩ := h
  refine ⟨ids, (hserved.trans (.of_frame hf)).congr fun x ↦ ?_, hids⟩
  rw [List.append_nil]

theorem mem_loaded {tie : ℕ → ℕ} {key : Row → ℤ} {q : Row → Bool} {P : Row → Prop} {messages : List Row}
    (hq : ∀ r, q r = true ↔ P r) (x : ℕ) :
    x ∈ (((orderBy key (fun r ↦ tie r.id) (messages.filter q)).map Row.load).map (·.id)) ↔
      ∃ r ∈ messages, r.id = x ∧ P r := by
  simp only [List.map_map, List.mem_map, mem_orderBy, List.mem_filter, hq]
  constructor
  · rintro ⟨r, ⟨hr, hP⟩, hid⟩
    exact ⟨r, hr, hid, hP⟩
  · rintro ⟨r, hr, hid, hP⟩
    exact ⟨r, ⟨hr, hP⟩, hid⟩

/-- The session is registered, online and has nothing in its queue. -/
structure Ready (n : Bytes) (s : ℕ) (w : World) : Prop where
  client : w.activeClients.lookup n = some s
  online : (w.sessions s).isOnline = true
  queue : (w.sessions s).outgoingQueue = []
  fits : ∀ r ∈ w.db.messages, r.message.Fits

theorem Ready.served (h : Ready n s w) (hs : Served ids w w') : Ready n s w' := by
  obtain ⟨f, hf, -⟩ := hs.rows
  refine ⟨?_, ?_, ?_, fun r hr ↦ ?_⟩
  · rw [hs.frame.clients (by simp [serving, passing]), h.client]
  · rw [hs.frame.presence (by simp [serving, passing]), h.online]
  · rw [hs.frame.queues (by simp [serving, passing]), h.queue]
  · rw [hf] at hr
    obtain ⟨r₀, hr₀, rfl⟩ := List.mem_map.mp hr
    exact h.fits r₀ hr₀

theorem Ready.passing (h : Ready n s w) (hf : Frame passing w w') : Ready n s w' := h.served (.of_frame hf)

theorem Drains.frame {P : Row → Prop} (h : Drains P w w') : Frame serving w w' := by
  obtain ⟨ids, hs, -⟩ := h
  exact hs.frame

theorem Ready.drains {P : Row → Prop} (h : Ready n s w) (hd : Drains P w w') : Ready n s w' := by
  obtain ⟨ids, hs, -⟩ := hd
  exact h.served hs

theorem yields_deliverOffline (henv : Unfailing env) (h : Ready n s w) :
    Yields (alone i j env) (deliverOffline n (some s)) w fun r w' ↦ r = .ok () ∧
      Drains (WaitingMessage n) w w' := by
  refine .op fun rows w₁ he₁ ↦ ?_
  have hf₁ : Frame passing w w₁ := frame_op he₁ (by simp [writes, passing])
  have hrows : some (dbSelect (env (.loadPendingMessagesOnly n)) _) = some rows := exec_reads he₁
  rw [dbSelect, henv, if_neg (by simp)] at hrows
  have hids : ∀ x, x ∈ rows.map (·.id) ↔ ∃ r ∈ w.db.messages, r.id = x ∧ WaitingMessage n r := by
    rw [← Option.some.inj hrows]
    exact mem_loaded fun r ↦ decide_eq_true_iff
  have hmem : ∀ p ∈ rows, p.msg.Fits := by
    rw [← Option.some.inj hrows]
    intro p hp
    obtain ⟨r, hr, rfl, -⟩ := mem_loadPendingMessagesOnly hp
    exact h.fits r hr
  rw [Prog.ret_bind]
  split
  · refine .op fun _ w₂ he₂ ↦ .op fun _ w₃ he₃ ↦ .op fun _ w₄ he₄ ↦ ?_
    have hf₄ : Frame passing w w₄ := ((hf₁.trans (frame_op he₂ (by simp [writes, passing]))).trans
      (frame_op he₃ (by simp [writes, passing]))).trans (frame_op he₄ (by simp [writes, passing]))
    have hready := h.passing hf₄
    rw [Prog.ret_bind]
    refine Yields.bind (yields_offlineLoop henv hready.online hmem) (fun _ w₅ h₅ ↦ ?_)
      fun e w₅ h₅ ↦ by cases h₅.1
    refine (yields_flushQueue (hready.served h₅.2).queue).mono fun r w₆ h₆ ↦ ⟨h₆.1, rows.map (·.id), ?_, hids⟩
    exact (((Served.of_frame hf₄).trans h₅.2).trans (.of_frame h₆.2)).congr fun x ↦ by simp
  · next hnil =>
    have hnil : rows = [] := by simpa using hnil
    refine .ret ⟨rfl, rows.map (·.id), ?_, hids⟩
    rw [hnil]
    exact .of_frame hf₁

theorem yields_deliverReplies (henv : Unfailing env) (h : Ready n s w) :
    Yields (alone i j env) (deliverReplies n (some s)) w fun r w' ↦
      r = .ok () ∧ Drains (w.db.isPendingReplyFor n) w w' := by
  refine .op fun rows w₁ he₁ ↦ ?_
  have hf₁ : Frame passing w w₁ := frame_op he₁ (by simp [writes, passing])
  have hrows : some (dbSelect (env (.loadPendingRepliesForSenderOnly n)) _) = some rows := exec_reads he₁
  rw [dbSelect, henv, if_neg (by simp)] at hrows
  have hids : ∀ x, x ∈ rows.map (·.id) ↔ ∃ r ∈ w.db.messages, r.id = x ∧ w.db.isPendingReplyFor n r := by
    rw [← Option.some.inj hrows]
    exact mem_loaded fun r ↦ decide_eq_true_iff
  have hmem : ∀ p ∈ rows, p.msg.Fits := by
    rw [← Option.some.inj hrows]
    intro p hp
    obtain ⟨r, hr, rfl, -⟩ := mem_loadPendingRepliesForSenderOnly hp
    exact h.fits r hr
  rw [Prog.ret_bind]
  split
  · refine .op fun _ w₂ he₂ ↦ .op fun _ w₃ he₃ ↦ ?_
    have hf₃ : Frame passing w w₃ := (hf₁.trans (frame_op he₂ (by simp [writes, passing]))).trans
      (frame_op he₃ (by simp [writes, passing]))
    have hready := h.passing hf₃
    refine (yields_repliesLoop henv hready.online hmem).mono fun r w₄ h₄ ↦ ⟨h₄.1, rows.map (·.id), ?_, hids⟩
    exact ((Served.of_frame hf₃).trans h₄.2).congr fun x ↦ by simp
  · next hnil =>
    have hnil : rows = [] := by simpa using hnil
    refine .ret ⟨rfl, rows.map (·.id), ?_, hids⟩
    rw [hnil]
    exact .of_frame hf₁

theorem yields_withSession {f : Option ℕ → Program Unit} {P : Row → Prop} (h : Ready n s w)
    (hf : ∀ w₁, Frame passing w w₁ → Ready n s w₁ →
      Yields (alone i j env) (f (some s)) w₁ fun r w' ↦ r = .ok () ∧ Drains P w₁ w') :
    Yields (alone i j env) ((findSession n).bind fun session ↦ holding session (f session)) w fun r w' ↦
      r = .ok () ∧ Drains P w w' := by
  refine Yields.bind yields_findSession (fun session w₁ h₁ ↦ ?_) fun e w₁ h₁ ↦ by cases h₁.1
  obtain ⟨hsession, hf₁⟩ := h₁
  rw [h.client] at hsession
  obtain rfl := Except.ok.inj hsession
  have hready := h.passing hf₁
  refine yields_holding (hf w₁ hf₁ hready) (fun r w₂ h₂ s' hs' ↦ ?_) fun r w₂ w₃ h₂ h₃ ↦
    ⟨h₂.1, (h₂.2.passing h₃).after hf₁⟩
  obtain rfl := Option.some.inj hs'
  exact (hready.drains h₂.2).queue

theorem yields_printLoop (l : List (Bytes × ℕ)) :
    Yields (alone i j env) (printLoop l) w fun r w' ↦ r = .ok () ∧ Frame passing w w' := by
  induction l generalizing w with
  | nil => exact .ret ⟨rfl, .refl w⟩
  | cons e l ih =>
    have hsize : Yields (alone i j env) (withQueueLock e.2 (perform (.queueSize e.2))) w fun r w' ↦
        (∃ n, r = .ok n) ∧ Frame passing w w' :=
      yields_withQueueLock (R := fun r w' ↦ (∃ n, r = .ok n) ∧ Frame passing w w')
        (fun w₁ h₁ ↦ .perform fun n w₂ he ↦ ⟨⟨n, rfl⟩, h₁.trans (frame_op he (by simp [writes, passing]))⟩)
        fun r w₁ w₂ h₁ h₂ ↦ ⟨h₁.1, h₁.2.trans h₂⟩
    refine Yields.bind hsize (fun _ w₁ h₁ ↦ ih.mono fun r w' h' ↦ ⟨h'.1, h₁.2.trans h'.2⟩) fun e w₁ h₁ ↦ ?_
    obtain ⟨⟨n, hn⟩, -⟩ := h₁
    cases hn

theorem yields_printActiveClients :
    Yields (alone i j env) printActiveClients w fun r w' ↦ r = .ok () ∧ Frame passing w w' := by
  refine yields_withRegistryLock (R := fun r w' ↦ r = .ok () ∧ Frame passing w w')
    (fun w₁ h₁ ↦ .op fun l w₂ he₂ ↦ ?_) fun r w₁ w₂ h₁ h₂ ↦ ⟨h₁.1, h₁.2.trans h₂⟩
  have hf₂ : Frame passing w w₂ := h₁.trans (frame_op he₂ (by simp [writes, passing]))
  exact (yields_printLoop l).mono fun r w' h' ↦ ⟨h'.1, hf₂.trans h'.2⟩

/-- The ids of the rows are in use. -/
structure Ids (db : Database) : Prop where
  nodup : (db.messages.map (·.id)).Nodup
  bound : ∀ r ∈ db.messages, r.id ≤ db.lastMessageId

theorem Ids.saveMessage {db : Database} {now : ℤ} (h : Ids db) : Ids (db.saveMessage now c).2 := by
  refine ⟨?_, fun r hr ↦ ?_⟩
  · simp only [Database.saveMessage, List.map_append, List.map_singleton, List.nodup_append]
    refine ⟨h.nodup, List.nodup_singleton _, fun x hx y hy hxy ↦ ?_⟩
    obtain ⟨r, hr, rfl⟩ := List.mem_map.mp hx
    obtain rfl := List.mem_singleton.mp hy
    have hbound := h.bound r hr
    have hid : r.id = db.lastMessageId + 1 := hxy
    omega
  · rcases List.mem_append.mp hr with hr | hr
    · exact (h.bound r hr).trans (Nat.le_succ _)
    · rw [List.mem_singleton.mp hr]
      exact Nat.le_refl _

theorem Ids.of_eq {db db' : Database} (h : Ids db) (hm : db'.messages = db.messages)
    (hl : db'.lastMessageId = db.lastMessageId) : Ids db' :=
  ⟨hm ▸ h.nodup, hm ▸ hl ▸ h.bound⟩

def SavedFor (n : Bytes) (c : Copy) (r : Row) : Prop :=
  r.status = .pending ∧ Records r { c.msg with destination := n }

def persisting : List Part := .messages :: .queues :: passing

/-- The queue of the session has been saved. -/
structure Emptied (s : ℕ) (n : Bytes) (w w' : World) : Prop where
  frame : Frame persisting w w'
  rows : ∃ rows, w'.db.messages = w.db.messages ++ rows ∧
    List.Forall₂ (SavedFor n) (w.sessions s).outgoingQueue rows
  ids : Ids w.db → Ids w'.db
  queue : (w'.sessions s).outgoingQueue = []
  others : ∀ s' ≠ s, (w'.sessions s').outgoingQueue = (w.sessions s').outgoingQueue

theorem Emptied.after (h : Emptied s n w₁ w') (hf : Frame passing w w₁) : Emptied s n w w' := by
  obtain ⟨hframe, ⟨rows, hrows, hall⟩, hids, hqueue, hothers⟩ := h
  have hmsg := hf.messages (by simp [passing])
  refine ⟨(hf.weaken (by simp [persisting, passing])).trans hframe, ⟨rows, hmsg.1 ▸ hrows, ?_⟩,
    fun h ↦ hids (h.of_eq hmsg.1 hmsg.2), hqueue, fun s' hs' ↦ ?_⟩
  · rwa [hf.queues (by simp [passing])] at hall
  · rw [hothers s' hs', hf.queues (by simp [passing])]

theorem Emptied.passing (h : Emptied s n w w₁) (hf : Frame passing w₁ w') : Emptied s n w w' := by
  obtain ⟨hframe, ⟨rows, hrows, hall⟩, hids, hqueue, hothers⟩ := h
  have hmsg := hf.messages (by simp [RegistrationBacklog.passing])
  have hq := hf.queues (by simp [RegistrationBacklog.passing])
  refine ⟨hframe.trans (hf.weaken (by simp [persisting, RegistrationBacklog.passing])),
    ⟨rows, hmsg.1.trans hrows, hall⟩, fun h ↦ (hids h).of_eq hmsg.1 hmsg.2, (hq s).trans hqueue,
    fun s' hs' ↦ (hq s').trans (hothers s' hs')⟩

theorem yields_persistFront {q : List Copy} (henv : Unfailing env) (hq : (w.sessions s).outgoingQueue = c :: q)
    (hname : (w.sessions s).name = n) :
    Yields (alone i j env) (persistFront s c) w fun r w' ↦ r = .ok () ∧ Frame persisting w w' ∧
      (∃ row, w'.db.messages = w.db.messages ++ [row] ∧ SavedFor n c row) ∧ (Ids w.db → Ids w'.db) ∧
      (w'.sessions s).outgoingQueue = q ∧
      ∀ s' ≠ s, (w'.sessions s').outgoingQueue = (w.sessions s').outgoingQueue := by
  refine .op fun name w₁ he₁ ↦ ?_
  have hf₁ : Frame passing w w₁ := frame_op he₁ (by simp [writes, passing])
  have hname₁ : some (w.sessions s).name = some name := exec_reads he₁
  obtain rfl : n = name := hname ▸ Option.some.inj hname₁
  have hmsg₁ := hf₁.messages (by simp [passing])
  have hsave : Yields (alone i j env) (persistMessageForClient n c) w₁ fun r w₂ ↦ r = .ok () ∧
      Frame (.messages :: passing) w w₂ ∧
      (∃ row, w₂.db.messages = w.db.messages ++ [row] ∧ SavedFor n c row) ∧ (Ids w.db → Ids w₂.db) := by
    refine Yields.bind (R := fun r w₂ ↦ (∃ id, r = .ok id) ∧ Frame (.messages :: passing) w w₂ ∧
      (∃ row, w₂.db.messages = w.db.messages ++ [row] ∧ SavedFor n c row) ∧ (Ids w.db → Ids w₂.db))
      (.op fun r w₂ he₂ ↦ .lift ?_) (fun _ w₂ h₂ ↦ .ret ⟨rfl, h₂.2⟩) fun e w₂ h₂ ↦ ?_
    · obtain ⟨hd, -⟩ | ⟨hr, hdb⟩ := exec_saveMessage he₂
      · cases hd.symm.trans (henv _)
      · refine ⟨⟨_, hr⟩, (hf₁.weaken (by simp)).trans (frame_op he₂ (by simp [writes, passing])),
          ⟨w₁.db.newRow w₁.wallClock { c with msg := { c.msg with destination := n } }, ?_, rfl,
            records_newRow _ _⟩,
          fun hids ↦ ?_⟩
        · rw [hdb, ← hmsg₁.1]
          rfl
        · rw [hdb]
          exact (hids.of_eq hmsg₁.1 hmsg₁.2).saveMessage
    · obtain ⟨⟨id, hid⟩, -⟩ := h₂
      cases hid
  rw [Prog.ret_bind]
  refine Yields.bind hsave (fun _ w₂ h₂ ↦ ?_) fun e w₂ h₂ ↦ by cases h₂.1
  obtain ⟨-, hf₂, ⟨row, hrow, hsaved⟩, hids⟩ := h₂
  refine .perform fun _ w₃ he₃ ↦ ⟨rfl, ?_, ⟨row, ?_, hsaved⟩, fun h ↦ ?_, ?_, fun s' hs' ↦ ?_⟩
  · exact (hf₂.weaken (by simp [persisting])).trans (frame_op he₃ (by simp [writes, persisting, passing]))
  · rw [((exec_frame he₃).messages (by simp [writes])).1, hrow]
  · have hmsg₃ := (exec_frame he₃).messages (by simp [writes])
    exact (hids h).of_eq hmsg₃.1 hmsg₃.2
  · rw [exec_popQueue he₃, if_pos rfl, hf₂.queues (by simp [passing]), hq]
    rfl
  · rw [exec_popQueue he₃, if_neg hs', hf₂.queues (by simp [passing])]

theorem yields_persistLoop (henv : Unfailing env) {k : ℕ} (hk : (w.sessions s).outgoingQueue.length = k)
    (hname : (w.sessions s).name = n) :
    Yields (alone i j env) (persistLoop s k) w fun r w' ↦ r = .ok () ∧ Emptied s n w w' := by
  induction k generalizing w with
  | zero =>
    have hnil := List.length_eq_zero_iff.mp hk
    refine .ret ⟨rfl, .refl w, ⟨[], (List.append_nil _).symm, ?_⟩, id, hnil, fun _ _ ↦ rfl⟩
    rw [hnil]
    exact .nil
  | succ k ih =>
    obtain ⟨c, q, hq⟩ := List.exists_cons_of_length_eq_add_one hk
    refine .op fun c' w₁ he₁ ↦ ?_
    have hf₁ : Frame passing w w₁ := frame_op he₁ (by simp [writes, passing])
    have hmsg₁ := hf₁.messages (by simp [passing])
    have hfront : some (w.sessions s).outgoingQueue.head? = some c' := exec_reads he₁
    rw [hq] at hfront
    obtain rfl := Option.some.inj hfront
    have hq₁ : (w₁.sessions s).outgoingQueue = c :: q := by rw [hf₁.queues (by simp [passing]), hq]
    have hname₁ : (w₁.sessions s).name = n := by rw [hf₁.name (by simp [passing]), hname]
    rw [Prog.ret_bind]
    refine Yields.bind (yields_persistFront henv hq₁ hname₁) (fun _ w₂ h₂ ↦ ?_) fun e w₂ h₂ ↦ by cases h₂.1
    obtain ⟨-, hf₂, ⟨row, hrow, hsaved⟩, hids, hqueue, hothers⟩ := h₂
    have hlen : (w₂.sessions s).outgoingQueue.length = k := by
      rw [hqueue]
      simpa [hq] using hk
    have hname₂ : (w₂.sessions s).name = n := by rw [hf₂.name (by simp [persisting, passing]), hname₁]
    refine (ih hlen hname₂).mono fun r w' h' ↦ ⟨h'.1, ?_⟩
    obtain ⟨hf, ⟨rows, hrows, hall⟩, hids', hempty, hothers'⟩ := h'.2
    refine ⟨((hf₁.weaken (by simp [persisting, passing])).trans hf₂).trans hf, ⟨row :: rows, ?_, ?_⟩, fun h ↦ ?_,
      hempty, fun s' hs' ↦ ?_⟩
    · rw [hrows, hrow, hmsg₁.1, List.append_assoc]
      rfl
    · rw [hqueue] at hall
      rw [hq]
      exact .cons hsaved hall
    · exact hids' (hids (h.of_eq hmsg₁.1 hmsg₁.2))
    · rw [hothers' s' hs', hothers s' hs', hf₁.queues (by simp [passing])]

theorem yields_persistQueue (henv : Unfailing env) (hname : (w.sessions s).name = n) :
    Yields (alone i j env) (persistQueueToDatabase s) w fun r w' ↦ r = .ok () ∧ Emptied s n w w' := by
  refine yields_withQueueLock (R := fun r w' ↦ r = .ok () ∧ Emptied s n w w')
    (fun w₁ hf₁ ↦ .op fun size w₂ he₂ ↦ ?_) fun r w₁ w₂ h₁ hf ↦ ⟨h₁.1, h₁.2.passing hf⟩
  have hf₂ : Frame passing w w₂ := hf₁.trans (frame_op he₂ (by simp [writes, passing]))
  have hsize : some (w₁.sessions s).outgoingQueue.length = some size := exec_reads he₂
  rw [hf₁.queues (by simp [passing]), ← hf₂.queues (by simp [passing])] at hsize
  rw [Prog.ret_bind]
  refine (yields_persistLoop henv (Option.some.inj hsize) ?_).mono fun r w' h' ↦ ⟨h'.1, h'.2.after hf₂⟩
  rw [hf₂.name (by simp [passing]), hname]

/-- The new session has taken the place of `old`, whose queue has been saved. -/
structure Upserted (n : Bytes) (s : ℕ) (old : Option ℕ) (w w' : World) : Prop where
  frame : Frame (.clients :: .presence :: persisting) w w'
  client : w'.activeClients.lookup n = some s
  rows : ∃ rows, w'.db.messages = w.db.messages ++ rows ∧
    List.Forall₂ (SavedFor n) (old.elim [] fun o ↦ (w.sessions o).outgoingQueue) rows
  ids : Ids w.db → Ids w'.db
  queue : ∀ o, old = some o → (w'.sessions o).outgoingQueue = []
  others : ∀ s', old ≠ some s' → (w'.sessions s').outgoingQueue = (w.sessions s').outgoingQueue ∧
    (w'.sessions s').isOnline = (w.sessions s').isOnline

theorem yields_placeSession (henv : Unfailing env) {old : Option ℕ}
    (hname : ∀ o, old = some o → (w.sessions o).name = n) :
    Yields (alone i j env) (placeSession n s old) w fun r w' ↦ r = .ok () ∧ Upserted n s old w w' := by
  cases old with
  | none =>
    refine .perform fun _ w₁ he ↦ ⟨rfl, frame_op he (by simp [writes, persisting, passing]), ?_,
      ⟨[], ?_, .nil⟩, fun h ↦ ?_,
      fun o ho ↦ (by cases ho), fun s' _ ↦ ⟨(exec_frame he).queues (by simp [writes]) s',
        (exec_frame he).presence (by simp [writes]) s'⟩⟩
    · rw [exec_setClient he, AList.lookup_insert]
    · rw [((exec_frame he).messages (by simp [writes])).1, List.append_nil]
    · have hmsg := (exec_frame he).messages (by simp [writes])
      exact h.of_eq hmsg.1 hmsg.2
  | some o =>
    refine Yields.recover (R := fun r w' ↦ r = .ok () ∧ Upserted n s (some o) w w')
      (Yields.bind (yields_persistQueue henv (hname o rfl)) (fun _ w₁ h₁ ↦ ?_) fun e w₁ h₁ ↦ by cases h₁.1)
      (fun _ w' h ↦ h) fun e w' h ↦ by cases h.1
    obtain ⟨-, hf₁, hrows, hids, hempty, hothers⟩ := h₁
    refine .op fun _ w₂ he₂ ↦ .op fun _ w₃ he₃ ↦ .op fun _ w₄ he₄ ↦ .perform fun _ w₅ he₅ ↦ ⟨rfl, ?_⟩
    have hf₂ := exec_frame he₂
    have hf₃ := exec_frame he₃
    have hf₄ := exec_frame he₄
    have hf₅ := exec_frame he₅
    have hq : ∀ s', (w₅.sessions s').outgoingQueue = (w₁.sessions s').outgoingQueue := fun s' ↦ by
      rw [hf₅.queues (by simp [writes]), hf₄.queues (by simp [writes]), hf₃.queues (by simp [writes]),
        hf₂.queues (by simp [writes])]
    have hmsg : w₅.db.messages = w₁.db.messages ∧ w₅.db.lastMessageId = w₁.db.lastMessageId := by
      rw [(hf₅.messages (by simp [writes])).1, (hf₅.messages (by simp [writes])).2,
        (hf₄.messages (by simp [writes])).1, (hf₄.messages (by simp [writes])).2,
        (hf₃.messages (by simp [writes])).1, (hf₃.messages (by simp [writes])).2,
        (hf₂.messages (by simp [writes])).1, (hf₂.messages (by simp [writes])).2]
      exact ⟨rfl, rfl⟩
    refine ⟨?_, ?_, ?_, fun h ↦ (hids h).of_eq hmsg.1 hmsg.2, fun o' ho ↦ ?_, fun s' hs' ↦ ⟨?_, ?_⟩⟩
    · exact ((((hf₁.weaken (by simp)).trans (frame_op he₂ (by simp [writes, persisting, passing]))).trans
        (frame_op he₃ (by simp [writes, persisting, passing]))).trans
        (frame_op he₄ (by simp [writes, persisting, passing]))).trans
        (frame_op he₅ (by simp [writes, persisting, passing]))
    · rw [exec_setClient he₅, AList.lookup_insert]
    · obtain ⟨rows, hrows, hall⟩ := hrows
      exact ⟨rows, hmsg.1.trans hrows, hall⟩
    · obtain rfl := Option.some.inj ho
      exact (hq o).trans hempty
    · exact (hq s').trans (hothers s' fun heq ↦ hs' (heq ▸ rfl))
    · have hne : s' ≠ o := fun heq ↦ hs' (heq ▸ rfl)
      rw [hf₅.presence (by simp [writes]), hf₄.presence (by simp [writes]), hf₃.presence (by simp [writes]),
        exec_markOffline he₂, hf₁.presence (by simp [persisting, passing]), decide_eq_false hne]
      rfl

theorem Upserted.after {old : Option ℕ} (h : Upserted n s old w₁ w') (hf : Frame passing w w₁) :
    Upserted n s old w w' := by
  have hmsg := hf.messages (by simp [passing])
  obtain ⟨rows, hrows, hall⟩ := h.rows
  refine ⟨(hf.weaken (by simp [persisting, passing])).trans h.frame, h.client, ⟨rows, hmsg.1 ▸ hrows, ?_⟩,
    fun hids ↦ h.ids (hids.of_eq hmsg.1 hmsg.2), h.queue, fun s' hs' ↦ ?_⟩
  · cases old with
    | none => exact hall
    | some o => rwa [Option.elim_some, hf.queues (by simp [passing])] at hall
  · rw [← hf.queues (by simp [passing]), ← hf.presence (by simp [passing])]
    exact h.others s' hs'

theorem Upserted.passing {old : Option ℕ} (h : Upserted n s old w w₁) (hf : Frame passing w₁ w') :
    Upserted n s old w w' := by
  have hmsg := hf.messages (by simp [RegistrationBacklog.passing])
  have hq := hf.queues (by simp [RegistrationBacklog.passing])
  obtain ⟨rows, hrows, hall⟩ := h.rows
  refine ⟨h.frame.trans (hf.weaken (by simp [persisting, RegistrationBacklog.passing])), ?_,
    ⟨rows, hmsg.1.trans hrows, hall⟩, fun hids ↦ (h.ids hids).of_eq hmsg.1 hmsg.2,
    fun o ho ↦ (hq o).trans (h.queue o ho), fun s' hs' ↦ ?_⟩
  · rw [hf.clients (by simp [RegistrationBacklog.passing]), h.client]
  · rw [hq, hf.presence (by simp [RegistrationBacklog.passing])]
    exact h.others s' hs'

theorem yields_countUpsert {b : Bool} :
    Yields (alone i j env) (countUpsert b) w fun r w' ↦ r = .ok () ∧ Frame passing w w' := by
  refine .op fun _ w₁ he₁ ↦ ?_
  have hf₁ : Frame passing w w₁ := frame_op he₁ (by simp [writes, passing])
  cases b with
  | true =>
    refine .op fun _ w₂ he₂ ↦ .perform fun _ w₃ he₃ ↦ ⟨rfl, ?_⟩
    exact (hf₁.trans (frame_op he₂ (by simp [writes, passing]))).trans (frame_op he₃ (by simp [writes, passing]))
  | false =>
    exact .perform fun _ w₂ he₂ ↦ ⟨rfl, hf₁.trans (frame_op he₂ (by simp [writes, passing]))⟩

theorem yields_upsertClient (henv : Unfailing env)
    (hname : ∀ o, w.activeClients.lookup n = some o → (w.sessions o).name = n) :
    Yields (alone i j env) (upsertClient n s) w fun r w' ↦
      r = .ok (w.activeClients.lookup n) ∧ Upserted n s (w.activeClients.lookup n) w w' := by
  refine yields_withRegistryLock (R := fun r w' ↦ r = .ok (w.activeClients.lookup n) ∧
    Upserted n s (w.activeClients.lookup n) w w') (fun w₁ hf₁ ↦ .op fun old w₂ he₂ ↦ ?_)
    fun r w₁ w₂ h₁ hf ↦ ⟨h₁.1, h₁.2.passing hf⟩
  have hf₂ : Frame passing w w₂ := hf₁.trans (frame_op he₂ (by simp [writes, passing]))
  have hold : w.activeClients.lookup n = old := by
    rw [← hf₁.clients (by simp [passing])]
    exact (exec_findClient he₂).1
  rw [hold]
  have hname₂ : ∀ o, old = some o → (w₂.sessions o).name = n := fun o ho ↦ by
    rw [hf₂.name (by simp [passing]), hname o (hold.trans ho)]
  rw [Prog.ret_bind]
  refine Yields.bind (yields_placeSession henv hname₂) (fun _ w₃ h₃ ↦ ?_) fun e w₃ h₃ ↦ by cases h₃.1
  have h₃ : Upserted n s old w w₃ := h₃.2.after hf₂
  refine .op fun _ w₄ he₄ ↦ .op fun _ w₅ he₅ ↦ .op fun b w₆ he₆ ↦ ?_
  have h₆ : Upserted n s old w w₆ := ((h₃.passing (frame_op he₄ (by simp [writes, passing]))).passing
    (frame_op he₅ (by simp [writes, passing]))).passing (frame_op he₆ (by simp [writes, passing]))
  rw [Prog.ret_bind]
  cases b with
  | true =>
    refine Yields.bind yields_countUpsert (fun _ w₇ h₇ ↦ .ret ⟨rfl, h₆.passing h₇.2⟩) fun e w₇ h₇ ↦ by cases h₇.1
  | false => exact .ret ⟨rfl, h₆⟩

theorem Drains.exists_rows {P : Row → Prop} (h : Drains P w w') (hids : (w.db.messages.map (·.id)).Nodup) :
    ∃ f : Row → MessageStatus, w'.db.messages = w.db.messages.map (fun r ↦ { r with status := f r }) ∧
      ∀ r ∈ w.db.messages, f r = .pending ↔ r.status = .pending ∧ ¬ P r := by
  obtain ⟨ids, hserved, hmem⟩ := h
  obtain ⟨f, hf, hpending⟩ := hserved.rows
  refine ⟨f, hf, fun r hr ↦ ?_⟩
  rw [hpending r hr, hmem]
  refine and_congr_right fun _ ↦ not_congr ⟨?_, fun hP ↦ ⟨r, hr, rfl, hP⟩⟩
  rintro ⟨r', hr', hid, hP⟩
  rwa [← List.inj_on_of_nodup_map hids hr' hr hid]

theorem isPendingReplyFor_congr {db db' : Database} (h : db'.correlations = db.correlations) :
    db'.isPendingReplyFor n = db.isPendingReplyFor n := by
  unfold Database.isPendingReplyFor
  rw [h]

/-- What is left of the rows when both loaders have done their work. -/
def Left (db : Database) (n : Bytes) (r : Row) : Prop :=
  r.status = .pending ∧ ¬ WaitingMessage n r ∧ ¬ db.isPendingReplyFor n r

theorem Drains.both (hids : (w.db.messages.map (·.id)).Nodup) (h : Drains (WaitingMessage n) w w₁)
    (h' : Drains (w₁.db.isPendingReplyFor n) w₁ w') :
    ∃ f : Row → MessageStatus, w'.db.messages = w.db.messages.map (fun r ↦ { r with status := f r }) ∧
      ∀ r ∈ w.db.messages, f r = .pending ↔ Left w.db n r := by
  obtain ⟨f, hf, hpending⟩ := h.exists_rows hids
  have hids₁ : (w₁.db.messages.map (·.id)).Nodup := by
    rw [hf, List.map_map]
    exact hids
  have hcorr : w₁.db.correlations = w.db.correlations :=
    h.frame.correlations (by simp [serving, RegistrationBacklog.passing])
  obtain ⟨g, hg, hpending'⟩ := h'.exists_rows hids₁
  refine ⟨fun r ↦ g { r with status := f r }, ?_, fun r hr ↦ ?_⟩
  · rw [hg, hf, List.map_map]
    rfl
  · have hmem : { r with status := f r } ∈ w₁.db.messages := hf ▸ List.mem_map_of_mem hr
    rw [hpending' _ hmem]
    simp only [hpending r hr, Left, Database.isPendingReplyFor, hcorr]
    constructor
    · rintro ⟨⟨hp, hw⟩, hr⟩
      exact ⟨hp, hw, fun ⟨_, hreply⟩ ↦ hr ⟨.inl ⟨hp, hw⟩, hreply⟩⟩
    · rintro ⟨hp, hw, hr⟩
      exact ⟨⟨hp, hw⟩, fun ⟨_, hreply⟩ ↦ hr ⟨.inl hp, hreply⟩⟩

/-- The rows after the registration of `n`: those of the queue of the replaced
session are new, and exactly those that no loader finds are still pending. -/
def Drained (n : Bytes) (w w' : World) : Prop :=
  ∃ rows, List.Forall₂ (SavedFor n) ((w.activeClients.lookup n).elim [] fun o ↦ (w.sessions o).outgoingQueue)
    rows ∧ ∃ f : Row → MessageStatus,
      w'.db.messages = (w.db.messages ++ rows).map (fun r ↦ { r with status := f r }) ∧
      ∀ r ∈ w.db.messages ++ rows, f r = .pending ↔ Left w.db n r

theorem Drained.passing (h : Drained n w w₁) (hf : Frame passing w₁ w') : Drained n w w' := by
  unfold Drained
  rw [(hf.messages (by simp [RegistrationBacklog.passing])).1]
  exact h

theorem yields_deliveries (henv : Unfailing env) (h : Ready n s w) (hids : (w.db.messages.map (·.id)).Nodup) :
    Yields (alone i j env) (do deliverOfflineMessages n; deliverPendingReplies n; printActiveClients) w
      fun r w' ↦ r = .ok () ∧ Frame serving w w' ∧ Ready n s w' ∧ ∃ f : Row → MessageStatus,
        w'.db.messages = w.db.messages.map (fun r ↦ { r with status := f r }) ∧
        ∀ r ∈ w.db.messages, f r = .pending ↔ Left w.db n r := by
  refine Yields.bind (yields_withSession h fun w₁ _ hr ↦ yields_deliverOffline henv hr) (fun _ w₁ h₁ ↦ ?_)
    fun e w₁ h₁ ↦ by cases h₁.1
  have hready := h.drains h₁.2
  have hreplies : Yields (alone i j env) (deliverPendingReplies n) w₁ fun r w' ↦
      r = .ok () ∧ Drains (w₁.db.isPendingReplyFor n) w₁ w' := by
    refine yields_withSession hready fun w₂ hf₂ hr ↦ ?_
    rw [← isPendingReplyFor_congr (hf₂.correlations (by simp [passing]))]
    exact yields_deliverReplies henv hr
  refine Yields.bind hreplies (fun _ w₂ h₂ ↦ ?_) fun e w₂ h₂ ↦ by cases h₂.1
  refine yields_printActiveClients.mono fun r w' h' ↦
    ⟨h'.1, (h₁.2.frame.trans h₂.2.frame).trans (h'.2.weaken (by simp [serving])),
      (hready.drains h₂.2).passing h'.2, ?_⟩
  rw [(h'.2.messages (by simp [passing])).1]
  exact h₁.2.both hids h₂.2

theorem fits_of_savedFor {q : List Copy} {rs : List Row} (h : List.Forall₂ (SavedFor n) q rs)
    (hq : ∀ c ∈ q, c.msg.Fits) (hn : n.length ≤ 255) : ∀ r ∈ rs, r.message.Fits := by
  induction h with
  | nil => simp
  | cons hs _ ih =>
    rw [List.forall_mem_cons] at hq ⊢
    obtain ⟨⟨hsender, -, hpayload⟩, hq⟩ := hq
    exact ⟨hs.2.fits ⟨hsender, hn, hpayload⟩, ih hq⟩

theorem consistent_ids (hw : Consistent w) : Ids w.db := ⟨hw.store.ids, fun r hr ↦ (hw.store.bound r hr).2⟩

theorem yields_registerHandler {msg : Message} {identity : Bytes} (henv : Unfailing env) (hw : Consistent w)
    (hfits : msg.Fits) (hn : msg.sender ≠ []) :
    Yields (alone i j env) (registerHandler msg identity) w fun r w' ↦ r = .ok () ∧ Drained msg.sender w w' := by
  unfold registerHandler
  rw [if_pos hn]
  refine .op fun s w₁ he₁ ↦ ?_
  obtain ⟨rfl, -, hothers, hnew⟩ := exec_newSession he₁
  have hf₁ := exec_frame he₁
  have hmsg₁ := hf₁.messages (by simp [writes])
  have hclients₁ := hf₁.clients (by simp [writes])
  have hold : ∀ o, w.activeClients.lookup msg.sender = some o → w₁.sessions o = w.sessions o := fun o ho ↦
    hothers o (hw.clients _ o ho).1.ne
  rw [Prog.ret_bind]
  have hbody : Yields (alone i j env) (do
      perform (.updateLastActivity w.nextSession)
      perform (.updateLastReceive w.nextSession)
      let oldSession ← upsertClient msg.sender w.nextSession
      holding oldSession do
        deliverOfflineMessages msg.sender
        deliverPendingReplies msg.sender
        printActiveClients) w₁ fun r w' ↦
      r = .ok () ∧ (w'.sessions w.nextSession).outgoingQueue = [] ∧ Drained msg.sender w w' := by
    refine .op fun _ w₂ he₂ ↦ .op fun _ w₃ he₃ ↦ ?_
    have hf₃ : Frame passing w₁ w₃ :=
      (frame_op he₂ (by simp [writes, passing])).trans (frame_op he₃ (by simp [writes, passing]))
    have hlookup : w₃.activeClients = w.activeClients := (hf₃.clients (by simp [passing])).trans hclients₁
    have hname : ∀ o, w₃.activeClients.lookup msg.sender = some o → (w₃.sessions o).name = msg.sender := by
      intro o ho
      rw [hlookup] at ho
      rw [hf₃.name (by simp [passing]), hold o ho, (hw.clients _ o ho).2]
    refine Yields.bind (p := upsertClient msg.sender w.nextSession) (yields_upsertClient henv hname)
      (fun old w₄ h₄ ↦ ?_) fun e w₄ h₄ ↦ by cases h₄.1
    obtain ⟨hret, hup⟩ := h₄
    obtain rfl : old = w₃.activeClients.lookup msg.sender := Except.ok.inj hret
    rw [hlookup] at hup ⊢
    obtain ⟨rows, hrows, hall⟩ := (hup.after hf₃).rows
    have hqueue : ((w.activeClients.lookup msg.sender).elim [] fun o ↦ (w₁.sessions o).outgoingQueue) =
        (w.activeClients.lookup msg.sender).elim [] fun o ↦ (w.sessions o).outgoingQueue := by
      cases ho : w.activeClients.lookup msg.sender with
      | none => rfl
      | some o => rw [Option.elim_some, Option.elim_some, hold o ho]
    rw [hqueue] at hall
    rw [hmsg₁.1] at hrows
    have hids₄ : Ids w₄.db := (hup.after hf₃).ids ((consistent_ids hw).of_eq hmsg₁.1 hmsg₁.2)
    have hready : Ready msg.sender w.nextSession w₄ := by
      obtain ⟨hq, hon⟩ := (hup.after hf₃).others w.nextSession fun ho ↦
        (hw.clients _ _ ho).1.ne rfl
      refine ⟨hup.client, by rw [hon, hnew], by rw [hq, hnew], ?_⟩
      rw [hrows]
      intro r hr
      rcases List.mem_append.mp hr with hr | hr
      · obtain ⟨m, hm, hrecords⟩ := hw.store.columns r hr
        exact hrecords.fits hm
      · refine fits_of_savedFor hall (fun c hc ↦ ?_) hfits.1 r hr
        cases ho : w.activeClients.lookup msg.sender with
        | none =>
          rw [ho] at hc
          exact absurd hc (List.not_mem_nil)
        | some o =>
          rw [ho] at hc
          exact (hw.queues o c hc).fits
    have hcorr : w₄.db.correlations = w.db.correlations :=
      ((hup.after hf₃).frame.correlations (by simp [persisting, passing])).trans
        (hf₁.correlations (by simp [writes]))
    refine yields_holding (yields_deliveries henv hready hids₄.nodup) (fun r w₅ h₅ o ho ↦ ?_)
      fun r w₅ w₆ h₅ hf ↦ ⟨h₅.1, (h₅.2.2.1.passing hf).queue, ?_⟩
    · rw [h₅.2.1.queues (by simp [serving, passing])]
      exact hup.queue o ho
    · obtain ⟨f, hmsg, hleft⟩ := h₅.2.2.2
      refine Drained.passing ⟨rows, hall, f, hrows ▸ hmsg, fun r hr ↦ ?_⟩ hf
      rw [hleft r (hrows ▸ hr)]
      unfold Left
      rw [isPendingReplyFor_congr hcorr]
  exact yields_holding hbody (fun r w₂ h₂ s hs ↦ Option.some.inj hs ▸ h₂.2.1) fun r w₂ w₃ h₂ hf ↦
    ⟨h₂.1, h₂.2.2.passing hf⟩

/-- Whether the loader of the replies finds a correlation of the client. -/
def Joins (db : Database) (n : Bytes) (correlationId : Int64) : Prop :=
  ∃ k ∈ db.correlations, k.correlationId = correlationId ∧ k.originalSender = .of n

theorem left_iff {db : Database} {r : Row} (hdest : r.destination = .of n) :
    Left db n r ↔ r.status = .pending ∧ r.type = MessageType.reply.toByte.toNat ∧
      ¬ Joins db n r.correlationId := by
  constructor
  · rintro ⟨hp, hwait, hreply⟩
    have htype : r.type = MessageType.reply.toByte.toNat := by
      by_contra htype
      exact hwait ⟨hdest, hp, htype⟩
    exact ⟨hp, htype, fun hk ↦ hreply ⟨.inl hp, htype, hk⟩⟩
  · rintro ⟨hp, htype, hk⟩
    exact ⟨hp, fun hwait ↦ hwait.2.2 htype, fun hreply ↦ hk hreply.2.2⟩

theorem left_iff_of_savedFor {db : Database} {r : Row} (h : SavedFor n c r) :
    Left db n r ↔ c.msg.type = .reply ∧ ¬ Joins db n c.msg.correlationId.toInt64 := by
  obtain ⟨hp, htype, -, hcorr, -, hdest, -⟩ := h
  rw [left_iff hdest, hcorr, htype]
  constructor
  · rintro ⟨-, ht, hk⟩
    refine ⟨?_, hk⟩
    rw [← MessageType.ofByte_toByte c.msg.type, UInt8.toNat_inj.mp ht, MessageType.ofByte_toByte]
  · rintro ⟨ht, hk⟩
    exact ⟨hp, by rw [ht], hk⟩

theorem left_saved_iff {db : Database} {q : List Copy} {rs : List Row} (h : List.Forall₂ (SavedFor n) q rs) :
    (∀ r ∈ rs, r.destination = .of n → ¬ Left db n r) ↔
      ∀ c ∈ q, c.msg.type = .reply → Joins db n c.msg.correlationId.toInt64 := by
  induction h with
  | nil => simp
  | cons hs _ ih =>
    rw [List.forall_mem_cons, List.forall_mem_cons, ih, left_iff_of_savedFor hs, not_and, not_not]
    exact and_congr_left fun _ ↦ forall_prop_of_true hs.2.destination

/-- No reply for `n` is pending, or in the queue of its session, without a
correlation of the client under its correlation id. -/
structure Joined (w : World) (n : Bytes) : Prop where
  rows : ∀ r ∈ w.db.messages, r.destination.val = n → r.status = .pending →
    r.type = MessageType.reply.toByte.toNat → Joins w.db n r.correlationId
  queue : ∀ s, w.activeClients.lookup n = some s → ∀ c ∈ (w.sessions s).outgoingQueue,
    c.msg.type = .reply → Joins w.db n c.msg.correlationId.toInt64

theorem destination_iff {r : Row} (hn : NulFree n) : r.destination.val = n ↔ r.destination = .of n :=
  ⟨fun h ↦ by rw [← h, CText.of_val], fun h ↦ by rw [h, CText.val_of hn]⟩

theorem drained_iff (hn : NulFree n) (h : Drained n w w') :
    (∀ r ∈ w'.db.messages, r.destination.val = n → r.status ≠ .pending) ↔ Joined w n := by
  obtain ⟨rows, hall, f, hmsg, hf⟩ := h
  have hleft : (∀ r ∈ w'.db.messages, r.destination.val = n → r.status ≠ .pending) ↔
      ∀ r ∈ w.db.messages ++ rows, r.destination = .of n → ¬ Left w.db n r := by
    rw [hmsg, List.forall_mem_map]
    refine forall₂_congr fun r hr ↦ ?_
    rw [destination_iff hn, ← hf r hr]
  rw [hleft, List.forall_mem_append, left_saved_iff hall]
  constructor
  · rintro ⟨hrows, hqueue⟩
    refine ⟨fun r hr hdest hp ht ↦ ?_, fun s hs c hc ↦ hqueue c ?_⟩
    · have hdest := (destination_iff hn).mp hdest
      by_contra hk
      exact hrows r hr hdest ((left_iff hdest).mpr ⟨hp, ht, hk⟩)
    · rw [hs]
      exact hc
  · rintro ⟨hrows, hqueue⟩
    refine ⟨fun r hr hdest hl ↦ ?_, fun c hc ↦ ?_⟩
    · obtain ⟨hp, ht, hk⟩ := (left_iff hdest).mp hl
      exact hk (hrows r hr ((destination_iff hn).mpr hdest) hp ht)
    · cases hs : w.activeClients.lookup n with
      | none =>
        rw [hs] at hc
        exact absurd hc List.not_mem_nil
      | some s =>
        rw [hs] at hc
        exact hqueue s hs c hc

variable {cfg : Config} {ok : State → Step → Prop} {metrics : Option Metrics} {S : State} {msg : Message}
  {identity : Bytes} {r : Except String Unit}

/-- The registration of `n` that meets no storage error leaves no row for `n`
pending exactly when every reply for `n` has a correlation by which it is found. -/
theorem registration_drains_iff (hS : (broker cfg).Reachable ok (initial metrics) S) (henv : Unfailing env)
    (htype : msg.type = .register) (hfits : msg.Fits) (hn : msg.sender ≠ []) (hnul : NulFree msg.sender)
    (hrun : interp (alone i j env) (handle msg identity) S.world = some (r, w')) :
    (∀ r ∈ w'.db.messages, r.destination.val = msg.sender → r.status ≠ .pending) ↔
    Joined S.world msg.sender := by
  have hhandle : handle msg identity = registerHandler msg identity := by
    unfold handle
    rw [htype]
  rw [hhandle] at hrun
  exact drained_iff hnul (yields_registerHandler henv (holds_of_reachable hS).inv hfits hn r w' hrun).2

def registration : Message := { type := .register, sender := [97] }

def reply : Message :=
  { type := .reply, flags := flagNeedsAck, correlationId := 7, sender := [98], destination := [97] }

/-- The two replies of bob have been sent to alice, who has left. The first one
has expired, and alice has acknowledged the second one, with whose correlation
went the only one by which the first is found. -/
def leaving : List Step :=
  inTurn 0 [(arrival registration, 31), (arrival reply, 17)] ++ .tick ⟨20, 0⟩ ::
    (inTurn 2 [(arrival reply, 17), (arrival { type := .unregister, sender := [97] }, 28)] ++ .tick ⟨31, 0⟩ ::
      inTurn 4 [(.checkExpiredAcks, 6), (arrival { type := .ack, correlationId := 7, sender := [97] }, 14)])

/-- What the rows are like when alice has come back. -/
def afterReturn (w : World) : Option (List (Bytes × MessageStatus)) :=
  (interp (alone 6 (arrival registration) fun _ ↦ {}) (handle registration [97]) w).map fun r ↦
    r.2.db.messages.map fun row ↦ (row.destination.val, row.status)

theorem exists_leaving : ∃ S, (broker {}).Reachable (fun _ _ ↦ True) (initial none) S ∧
    afterReturn S.world = some [([97], .pending), ([97], .delivered), ([97], .delivered)] := by
  have hrun : ((broker {}).runs (fun _ _ ↦ True) leaving ⟨initial none, []⟩).map
      (fun S ↦ afterReturn S.world) =
      some (some [([97], .pending), ([97], .delivered), ([97], .delivered)]) := by decide +kernel
  exact exists_run hrun

theorem registration_drains_iff_alice : ∃ (S : State) (r : Except String Unit) (w' : World),
    interp (alone 6 (arrival registration) fun _ ↦ {}) (handle registration [97]) S.world = some (r, w') ∧
      ((∀ r ∈ w'.db.messages, r.destination.val = [97] → r.status ≠ .pending) ↔ Joined S.world [97]) := by
  obtain ⟨S, hS, hv⟩ := exists_leaving
  obtain ⟨⟨r, w'⟩, hrun, -⟩ := Option.map_eq_some_iff.mp hv
  exact ⟨S, r, w', hrun, registration_drains_iff hS (fun _ ↦ rfl) rfl ⟨by decide, by decide, by decide⟩
    (by decide) (by decide) hrun⟩

/-- The first reply stays in the table, where no loader finds it. -/
theorem reply_stranded : ¬ ∀ cfg metrics S msg i j env identity r w',
    (broker cfg).Reachable (fun _ _ ↦ True) (initial metrics) S → Unfailing env → msg.type = .register →
    msg.Fits →
      msg.sender ≠ [] → NulFree msg.sender →
      interp (alone i j env) (handle msg identity) S.world = some (r, w') →
        ∀ r ∈ w'.db.messages, r.destination.val = msg.sender → r.status ≠ .pending := by
  intro h
  obtain ⟨S, hS, hv⟩ := exists_leaving
  obtain ⟨⟨r, w'⟩, hrun, hrows⟩ := Option.map_eq_some_iff.mp hv
  have hnone := h {} none S registration 6 (arrival registration) (fun _ ↦ {}) [97] r w' hS (fun _ ↦ rfl) rfl
    ⟨by decide, by decide, by decide⟩ (by decide) (by decide) hrun
  have hmem : (([97] : Bytes), MessageStatus.pending) ∈ w'.db.messages.map fun row ↦
      (row.destination.val, row.status) := by
    rw [hrows]
    exact List.mem_cons_self ..
  obtain ⟨row, hrow, heq⟩ := List.mem_map.mp hmem
  exact hnone row hrow (congrArg Prod.fst heq) (congrArg Prod.snd heq)

end MessageBroker.RegistrationBacklog
