import MessageBroker.RegistrationBacklog
import MessageBroker.Restarts

namespace MessageBroker.Recovery

open ByteStrings WireMessages WireCodec OrderedSelection MessageStore ProgramTrees SequentialRuns
  ThreadPools BrokerState SessionQueues ClientRegistry MessageHandlers ServerJobs OperationEffects
  StoreInvariant ThreadViews SharedInvariant ServerOutlines RunInvariants IsolatedRuns TransitionSystems
  RegistrationBacklog RowLifecycle Restarts

variable {i : ℕ} {j : Job} {env : Op → Choice} {w w' w₁ : World} {α : Type} {s : ℕ} {n x : Bytes} {c : Copy}
  {p : PendingMessage} {id : ℕ} {rows rows' : List PendingMessage} {marks marks' : List (ℕ × MessageStatus)}

/-- The session has been created for the identity. -/
def Bound (s : ℕ) (x : Bytes) (w : World) : Prop := s < w.nextSession ∧ (w.sessions s).identity = x

theorem bound_exec {o : Op} {a : o.Res} (he : alone i j env o w = some (a, w')) (h : Bound s x w) :
    Bound s x w' := by
  refine ⟨?_, (step_identity he s h.1).trans h.2⟩
  cases o with
  | newSession identity n =>
    obtain ⟨-, hnext, -⟩ := exec_newSession he
    exact hnext ▸ Nat.lt_succ_of_lt h.1
  | _ => exact (exec_frame he).nextSession (by simp [writes]) ▸ h.1

def Unlocked (w : World) : Prop := ∀ s, (w.sessions s).queueOwner = none

/-- The session of a client that registers while no other thread runs. -/
structure Serving (n : Bytes) (s : ℕ) (x : Bytes) (w : World) : Prop extends Ready n s w where
  bound : Bound s x w
  running : w.terminated = false
  registry : w.registryOwner = none
  unlocked : Unlocked w

/-- What the marks make of a row; the latest mark of a row comes first. -/
def remark (marks : List (ℕ × MessageStatus)) (r : Row) : Row :=
  { r with status := (marks.lookup r.id).getD r.status }

theorem remark_nil (r : Row) : remark [] r = r := rfl

theorem remark_append (r : Row) : remark marks' (remark marks r) = remark (marks' ++ marks) r := by
  simp only [remark, List.lookup_append]
  cases marks'.lookup r.id <;> rfl

/-- The rows have been handed to the session, in this order, and the marks made. -/
structure HandsOver (n : Bytes) (s : ℕ) (x : Bytes) (rows : List PendingMessage)
    (marks : List (ℕ × MessageStatus)) (w w' : World) : Prop where
  serving : Serving n s x w'
  frame : Frame RegistrationBacklog.serving w w'
  sends : ∃ sends, w'.pendingSends = w.pendingSends ++ sends ∧
    sends.map (fun y ↦ (y.copy, y.session, y.identity)) = rows.map (fun p ↦ (p.copy, s, x)) ∧
    ∀ y ∈ sends, serialize y.copy.msg = .ok y.data
  messages : w'.db.messages = w.db.messages.map (remark marks)

theorem HandsOver.trans (h : HandsOver n s x rows marks w w₁) (h' : HandsOver n s x rows' marks' w₁ w') :
    HandsOver n s x (rows ++ rows') (marks' ++ marks) w w' := by
  obtain ⟨sends, hsends, hmap, hdata⟩ := h.sends
  obtain ⟨sends', hsends', hmap', hdata'⟩ := h'.sends
  refine ⟨h'.serving, h.frame.trans h'.frame, ⟨sends ++ sends', ?_, ?_, ?_⟩, ?_⟩
  · rw [hsends', hsends, List.append_assoc]
  · rw [List.map_append, List.map_append, hmap, hmap']
  · exact List.forall_mem_append.mpr ⟨hdata, hdata'⟩
  · rw [h'.messages, h.messages, List.map_map]
    exact List.map_congr_left fun r _ ↦ remark_append r

/-- What a thread writes besides the tables and the sends. -/
def locking : List Part := [.log, .registryOwner, .owners, .queueOwners]

theorem Serving.kept (h : Serving n s x w) (hk : Kept locking w w') (hb : Bound s x w')
    (hr : w'.registryOwner = none) (hu : Unlocked w') : HandsOver n s x [] [] w w' := by
  have hf : Frame passing w w' := hk.frame.weaken (by simp [locking, passing])
  refine ⟨⟨h.toReady.passing hf, hb, hk.running, hr, hu⟩, hf.weaken (by simp [RegistrationBacklog.serving]),
    ⟨[], ?_, rfl, ?_⟩, ?_⟩
  · rw [hk.frame.pendingSends (by simp [locking]), List.append_nil]
  · exact fun _ hy ↦ absurd hy List.not_mem_nil
  · rw [(hk.frame.messages (by simp [locking])).1]
    exact (List.map_id _).symm

theorem Serving.refl (h : Serving n s x w) : HandsOver n s x [] [] w w :=
  h.kept (.refl h.running) h.bound h.registry h.unlocked

theorem Serving.op {o : Op} {a : o.Res} (h : Serving n s x w) (he : alone i j env o w = some (a, w'))
    (hw : writes o = []) (hn : renames o = false) : HandsOver n s x [] [] w w' := by
  have hk : Kept [.log] w w' := by
    have hk := kept_exec he hn
    rwa [hw] at hk
  refine h.kept (hk.weaken (by simp [locking])) (bound_exec he h.bound) ?_ fun s ↦ ?_
  · rw [hk.frame.registryOwner (by simp), h.registry]
  · rw [hk.frame.queueOwners (by simp), h.unlocked]

theorem messages_setStatus {db : Database} {st : MessageStatus} {g : MessageStatus → Bool}
    (h : ∀ r ∈ db.messages, r.id = id → g r.status = true ∨ r.status = st) :
    (db.setStatus id st g).messages = db.messages.map (remark [(id, st)]) := by
  refine List.map_congr_left fun r hr ↦ ?_
  by_cases hid : r.id = id
  · have hmark : remark [(id, st)] r = { r with status := st } := by simp [remark, hid]
    rw [hmark]
    split
    · rfl
    · next hg =>
      have hst : r.status = st := (h r hr hid).resolve_left fun hg' ↦ hg ⟨hid, hg'⟩
      rw [← hst]
  · have hne : (r.id == id) = false := beq_eq_false_iff_ne.mpr hid
    rw [if_neg fun h ↦ hid h.1, remark, List.lookup_cons, hne]
    rfl

theorem Serving.marked {o : Op} {a : o.Res} {st : MessageStatus} (h : Serving n s x w)
    (he : alone i j env o w = some (a, w')) (hw : writes o = [.messages]) (hn : renames o = false)
    (hdb : w'.db.messages = w.db.messages.map (remark [(id, st)])) : HandsOver n s x [] [(id, st)] w w' := by
  have hk : Kept [.log, .messages] w w' := by
    have hk := kept_exec he hn
    rwa [hw] at hk
  have hready : Ready n s w' := by
    refine ⟨?_, ?_, ?_, fun r hr ↦ ?_⟩
    · rw [hk.frame.clients (by simp), h.client]
    · rw [hk.frame.presence (by simp), h.online]
    · rw [hk.frame.queues (by simp), h.queue]
    · rw [hdb] at hr
      obtain ⟨r₀, hr₀, rfl⟩ := List.mem_map.mp hr
      exact h.fits r₀ hr₀
  refine ⟨⟨hready, bound_exec he h.bound, hk.running, ?_, fun s ↦ ?_⟩,
    hk.frame.weaken (by simp [RegistrationBacklog.serving, passing]), ⟨[], ?_, rfl, ?_⟩, hdb⟩
  · rw [hk.frame.registryOwner (by simp), h.registry]
  · rw [hk.frame.queueOwners (by simp), h.unlocked]
  · rw [hk.frame.pendingSends (by simp), List.append_nil]
  · exact fun _ hy ↦ absurd hy List.not_mem_nil

theorem ends_markSent (henv : Unfailing env) (h : Serving n s x w)
    (hpending : ∀ r ∈ w.db.messages, r.id = id → r.status = .pending ∨ r.status = .sent) :
    Ends (alone i j env) (markSent id) w fun r w' ↦ r = .ok () ∧ HandsOver n s x [] [(id, .sent)] w w' := by
  refine ends_op h.running rfl fun r w₁ he ↦ .lift ?_
  obtain ⟨hd, -⟩ | ⟨hr, hdb⟩ := exec_markSent he
  · cases hd.symm.trans (henv _)
  · refine ⟨hr, h.marked he rfl rfl ?_⟩
    rw [hdb]
    exact messages_setStatus fun r hr hid ↦ (hpending r hr hid).imp_left fun hp ↦ decide_eq_true hp

theorem ends_markDelivered (henv : Unfailing env) (h : Serving n s x w) :
    Ends (alone i j env) (markDelivered id) w fun r w' ↦ r = .ok () ∧
      HandsOver n s x [] [(id, .delivered)] w w' := by
  refine ends_op h.running rfl fun r w₁ he ↦ .lift ?_
  obtain ⟨hd, -⟩ | ⟨⟨hr, -⟩, hdb⟩ := exec_markDelivered he
  · cases hd.symm.trans (henv _)
  · refine ⟨hr, h.marked he rfl rfl ?_⟩
    rw [hdb]
    exact messages_setStatus fun _ _ _ ↦ .inl rfl

theorem ends_send (h : Serving n s x w) (hfits : p.msg.Fits) :
    Ends (alone i j env) (sendMessage s p.copy) w fun r w' ↦ r = .ok true ∧ HandsOver n s x [p] [] w w' := by
  obtain ⟨data, hdata⟩ : ∃ data, serialize p.msg = .ok data := ⟨_, serialize_frame hfits⟩
  have hzmq : sendZmqMessage s p.copy =
      .op (.pushPendingSend s p.copy data) fun _ ↦ .op .postSendTask .ret := by
    unfold sendZmqMessage
    rw [show serialize p.copy.msg = .ok data from hdata]
    rfl
  refine ends_op h.running rfl fun _ w₁ h₁ ↦ ?_
  have hs₁ : HandsOver n s x [] [] w w₁ := h.op h₁ rfl rfl
  refine ends_op hs₁.serving.running rfl fun online w₂ h₂ ↦ ?_
  have hs₂ : HandsOver n s x [] [] w w₂ := hs₁.trans (hs₁.serving.op h₂ rfl rfl)
  have honline : some (w₁.sessions s).isOnline = some online := exec_reads h₂
  rw [hs₁.serving.online] at honline
  obtain rfl := Option.some.inj honline
  change Ends _ ((sendZmqMessage s p.copy).bind fun _ ↦ .ret true) _ _
  rw [hzmq]
  refine ends_op hs₂.serving.running rfl fun _ w₃ h₃ ↦ ?_
  have hs₃ : HandsOver n s x [p] [] w₂ w₃ := by
    have hk : Kept [.log, .pendingSends] w₂ w₃ := kept_exec h₃ rfl
    have hf : Frame passing w₂ w₃ := hk.frame.weaken (by simp [passing])
    refine ⟨⟨hs₂.serving.toReady.passing hf, bound_exec h₃ hs₂.serving.bound, hk.running, ?_, fun s ↦ ?_⟩,
      hf.weaken (by simp [RegistrationBacklog.serving]), ⟨_, exec_pushPendingSend h₃, ?_, ?_⟩, ?_⟩
    · rw [hk.frame.registryOwner (by simp), hs₂.serving.registry]
    · rw [hk.frame.queueOwners (by simp), hs₂.serving.unlocked]
    · simp [hs₂.serving.bound.2]
    · exact List.forall_mem_singleton.mpr hdata
    · rw [(hk.frame.messages (by simp)).1]
      exact (List.map_id _).symm
  refine ends_op hs₃.serving.running rfl fun _ w₄ h₄ ↦ .ret ⟨rfl, ?_⟩
  exact (hs₂.trans hs₃).trans (hs₃.serving.op h₄ rfl rfl)

theorem ends_when {b : Bool} {q : Program Unit} (h : Serving n s x w)
    (hq : b = true → Ends (alone i j env) q w fun r w' ↦ r = .ok () ∧ HandsOver n s x [] marks w w') :
    Ends (alone i j env) (Prog.when b q) w fun r w' ↦
      r = .ok () ∧ HandsOver n s x [] (if b then marks else []) w w' := by
  cases b with
  | true => exact hq rfl
  | false => exact .ret ⟨rfl, h.refl⟩

def marksOf (before after : Bool) (id : ℕ) : List (ℕ × MessageStatus) :=
  (if after then [(id, .delivered)] else []) ++ if before then [(id, .sent)] else []

theorem ends_turn (henv : Unfailing env) (h : Serving n s x w) (hfits : p.msg.Fits) {before after : Bool}
    (hpending : ∀ r ∈ w.db.messages, r.id = p.id → r.status = .pending ∨ r.status = .sent)
    {k : Bool → Program Unit} {q : Program Unit} {Q : Except String Unit → World → Prop}
    (hk : k true = (Prog.when after (markDelivered p.id)).bind fun _ ↦ q)
    (hq : ∀ w₁, HandsOver n s x [p] (marksOf before after p.id) w w₁ → Ends (alone i j env) q w₁ Q) :
    Ends (alone i j env) ((Prog.when before (markSent p.id)).bind fun _ ↦ (sendMessage s p.copy).bind k)
      w Q := by
  refine Ends.bind (ends_when h fun _ ↦ ends_markSent henv h hpending) (fun _ w₁ h₁ ↦ ?_)
    fun e w₁ h₁ ↦ by cases h₁.1
  refine Ends.bind (ends_send h₁.2.serving hfits) (fun sent w₂ h₂ ↦ ?_) fun e w₂ h₂ ↦ by cases h₂.1
  obtain ⟨hsent, h₂⟩ := h₂
  obtain rfl := Except.ok.inj hsent
  rw [hk]
  refine Ends.bind (ends_when h₂.serving fun _ ↦ ends_markDelivered henv h₂.serving) (fun _ w₃ h₃ ↦ ?_)
    fun e w₃ h₃ ↦ by cases h₃.1
  exact hq w₃ ((h₁.2.trans h₂).trans h₃.2)

def allMarks (before after : PendingMessage → Bool) : List PendingMessage → List (ℕ × MessageStatus)
  | [] => []
  | p :: rows => allMarks before after rows ++ marksOf (before p) (after p) p.id

/-- The rows have been loaded, and none has been marked delivered since. -/
structure Unsettled (rows : List PendingMessage) (w : World) : Prop where
  nodup : (rows.map (·.id)).Nodup
  fits : ∀ p ∈ rows, p.msg.Fits
  status : ∀ p ∈ rows, ∀ r ∈ w.db.messages, r.id = p.id → r.status = .pending ∨ r.status = .sent

theorem lookup_marksOf {before after : Bool} {id' : ℕ} (h : id' ≠ id) :
    (marksOf before after id).lookup id' = none := by
  have hne : (id' == id) = false := beq_eq_false_iff_ne.mpr h
  cases before <;> cases after <;> simp [marksOf, List.lookup_cons, hne]

theorem Unsettled.tail {before after : Bool} (h : Unsettled (p :: rows) w)
    (hp : HandsOver n s x [p] (marksOf before after p.id) w w₁) : Unsettled rows w₁ := by
  obtain ⟨hid, hnodup⟩ := List.nodup_cons.mp h.nodup
  refine ⟨hnodup, fun q hq ↦ h.fits q (List.mem_cons_of_mem _ hq), fun q hq r hr heq ↦ ?_⟩
  rw [hp.messages] at hr
  obtain ⟨r₀, hr₀, rfl⟩ := List.mem_map.mp hr
  have heq : r₀.id = q.id := heq
  have hmem : q.id ∈ rows.map (·.id) := List.mem_map_of_mem hq
  have hne : r₀.id ≠ p.id := by
    intro heq'
    rw [← heq, heq'] at hmem
    exact hid hmem
  have hsame : remark (marksOf before after p.id) r₀ = r₀ := by
    rw [remark, lookup_marksOf hne]
    rfl
  rw [hsame]
  exact h.status q (List.mem_cons_of_mem _ hq) r₀ hr₀ heq

theorem Unsettled.same (h : Unsettled rows w) (hs : HandsOver n s x [] [] w w') : Unsettled rows w' := by
  refine ⟨h.nodup, h.fits, ?_⟩
  rw [hs.messages]
  exact fun p hp r hr ↦ h.status p hp r (by simpa [remark_nil] using hr)

theorem ends_loop (henv : Unfailing env) {before after : PendingMessage → Bool}
    {loop : List PendingMessage → Program Unit}
    {k : PendingMessage → List PendingMessage → Bool → Program Unit} (hnil : loop [] = .ret ())
    (hcons : ∀ p rows, ∃ q : Bool → Program Unit, loop (p :: rows) = .op (.isOnline s) q ∧
      q true = (Prog.when (before p) (markSent p.id)).bind fun _ ↦ (sendMessage s p.copy).bind (k p rows))
    (hk : ∀ p rows, k p rows true = (Prog.when (after p) (markDelivered p.id)).bind fun _ ↦ loop rows)
    (h : Serving n s x w) (hrows : Unsettled rows w) :
    Ends (alone i j env) (loop rows) w fun r w' ↦
      r = .ok () ∧ HandsOver n s x rows (allMarks before after rows) w w' := by
  induction rows generalizing w with
  | nil =>
    rw [hnil]
    exact .ret ⟨rfl, h.refl⟩
  | cons p rows ih =>
    obtain ⟨q, hloop, hq⟩ := hcons p rows
    rw [hloop]
    refine ends_op h.running rfl fun online w₁ h₁ ↦ ?_
    have honline : some (w.sessions s).isOnline = some online := exec_reads h₁
    rw [h.online] at honline
    obtain rfl := Option.some.inj honline
    have hs₁ : HandsOver n s x [] [] w w₁ := h.op h₁ rfl rfl
    have hrows₁ := hrows.same hs₁
    rw [hq]
    refine ends_turn henv hs₁.serving (hrows.fits p (List.mem_cons_self ..))
      (hrows₁.status p (List.mem_cons_self ..)) (hk p rows) fun w₂ h₂ ↦ ?_
    refine (ih h₂.serving (hrows₁.tail h₂)).mono fun r w' h' ↦ ⟨h'.1, ?_⟩
    have hall := (hs₁.trans h₂).trans h'.2
    simpa [allMarks] using hall

theorem ends_offlineLoop (henv : Unfailing env) (h : Serving n s x w) (hrows : Unsettled rows w) :
    Ends (alone i j env) (offlineLoop s rows) w fun r w' ↦
      r = .ok () ∧ HandsOver n s x rows (allMarks (·.msg.needsAck) (!·.msg.needsAck) rows) w w' :=
  ends_loop henv rfl (fun _ _ ↦ ⟨_, rfl, rfl⟩) (fun _ _ ↦ rfl) h hrows

theorem ends_repliesLoop (henv : Unfailing env) (h : Serving n s x w) (hrows : Unsettled rows w) :
    Ends (alone i j env) (repliesLoop s rows) w fun r w' ↦
      r = .ok () ∧ HandsOver n s x rows (allMarks (·.msg.needsAck) (fun _ ↦ true) rows) w w' :=
  ends_loop henv rfl (fun _ _ ↦ ⟨_, rfl, rfl⟩) (fun _ _ ↦ rfl) h hrows

theorem lookup_allMarks_of_notMem {before after : PendingMessage → Bool} (h : id ∉ rows.map (·.id)) :
    (allMarks before after rows).lookup id = none := by
  induction rows with
  | nil => rfl
  | cons p rows ih =>
    rw [List.map_cons, List.mem_cons, not_or] at h
    rw [allMarks, List.lookup_append, ih h.2, lookup_marksOf h.1]
    rfl

theorem lookup_allMarks {before after : PendingMessage → Bool} (hnodup : (rows.map (·.id)).Nodup) (hp : p ∈ rows)
    (hmark : (before p || after p) = true) :
    (allMarks before after rows).lookup p.id = some (if after p then .delivered else .sent) := by
  have hown : (marksOf (before p) (after p) p.id).lookup p.id = some
    (if after p then .delivered else .sent) := by
    cases hb : before p <;> cases ha : after p <;> simp_all [marksOf]
  induction rows with
  | nil => cases hp
  | cons q rows ih =>
    obtain ⟨hid, hnodup⟩ := List.nodup_cons.mp hnodup
    rw [allMarks, List.lookup_append]
    rcases List.mem_cons.mp hp with rfl | hp
    · rw [lookup_allMarks_of_notMem hid, hown]
      rfl
    · rw [ih hnodup hp]
      rfl

theorem ends_withQueueLock {q : Program α} {Q : Except String α → Prop} (ht : w.terminated = false)
    (hu : Unlocked w) (hq : ∀ w₁, Kept [.log, .queueOwners] w w₁ →
      Ends (alone i j env) q w₁ fun r w₂ ↦ Q r ∧ Kept [.log] w₁ w₂) :
    Ends (alone i j env) (withQueueLock s q) w fun r w' ↦ Q r ∧ Kept [.log, .queueOwners] w w' ∧
      Unlocked w' := by
  obtain ⟨w₁, he⟩ : ∃ w₁, alone i j env (.lockQueue s) w = some ((), w₁) :=
    ⟨_, by simp [alone, exec, effect, ht, hu s]; rfl⟩
  have hk₁ : Kept [.log, .queueOwners] w w₁ := kept_exec he rfl
  refine Ends.step he (Ends.ensuring (hq w₁ hk₁) fun r w₂ h₂ ↦ ?_)
  have hk₂ : Kept [.log, .queueOwners] w w₂ := hk₁.trans (h₂.2.weaken (by simp))
  refine ends_perform h₂.2.running rfl fun _ w₃ he₃ ↦ ⟨rfl, h₂.1, hk₂.trans (kept_exec he₃ rfl), fun s' ↦ ?_⟩
  rw [exec_unlockQueue he₃]
  split
  · rfl
  · next hne =>
    rw [h₂.2.frame.queueOwners (by simp), (exec_lockQueue he).2, if_neg hne, hu]

theorem Serving.locked (h : Serving n s x w) (hk : Kept [.log, .queueOwners] w w') (hu : Unlocked w')
    (hb : Bound s x w') : HandsOver n s x [] [] w w' := by
  refine h.kept (hk.weaken (by simp [locking])) hb ?_ hu
  rw [hk.frame.registryOwner (by simp), h.registry]

theorem ends_bound {q : Program α} {Q : Except String α → World → Prop} (hb : Bound s x w)
    (h : Ends (alone i j env) q w fun r w' ↦ Bound s x w' → Q r w') : Ends (alone i j env) q w Q :=
  (h.invariant bound_exec hb).mono fun _ _ h ↦ h.1 h.2

theorem ends_flushQueue (h : Serving n s x w) :
    Ends (alone i j env) (flushQueue s) w fun r w' ↦ r = .ok () ∧ HandsOver n s x [] [] w w' := by
  refine ends_bound h.bound ((ends_withQueueLock (Q := (· = .ok ())) h.running h.unlocked fun w₁ h₁ ↦ ?_).mono
    fun r w' h' hb ↦ ⟨h'.1, h.locked h'.2.1 h'.2.2 hb⟩)
  refine ends_op h₁.running rfl fun size w₂ he₂ ↦ ?_
  have hsize : some (w₁.sessions s).outgoingQueue.length = some size := exec_reads he₂
  rw [h₁.frame.queues (by simp), h.queue] at hsize
  obtain rfl : 0 = size := Option.some.inj hsize
  exact .ret ⟨rfl, kept_exec he₂ rfl⟩

theorem unsettled_load {key : Row → ℤ} {tie : Row → ℕ} {q : Row → Bool} (h : Serving n s x w)
    (hids : (w.db.messages.map (·.id)).Nodup)
    (hq : ∀ r ∈ w.db.messages, q r = true → r.status = .pending ∨ r.status = .sent) :
    Unsettled ((orderBy key tie (w.db.messages.filter q)).map Row.load) w := by
  refine ⟨loaded_ids_nodup hids _ _ _, fun p hp ↦ ?_, fun p hp r hr hid ↦ ?_⟩
  · obtain ⟨r, hr, rfl⟩ := List.mem_map.mp hp
    exact h.fits r (List.mem_filter.mp (mem_orderBy.mp hr)).1
  · obtain ⟨r₀, hr₀, rfl⟩ := List.mem_map.mp hp
    obtain ⟨hmem, hsel⟩ := List.mem_filter.mp (mem_orderBy.mp hr₀)
    obtain rfl := List.inj_on_of_nodup_map hids hr hmem hid
    exact hq r hr hsel

section

variable (env : Op → Choice) (n : Bytes) (db : Database)

def offlineRows : List PendingMessage := db.loadPendingMessagesOnly (env (.loadPendingMessagesOnly n)).tie n

def replyRows : List PendingMessage :=
  db.loadPendingRepliesForSenderOnly (env (.loadPendingRepliesForSenderOnly n)).tie n

def offlineMarks : List (ℕ × MessageStatus) := allMarks (·.msg.needsAck) (!·.msg.needsAck) (offlineRows env n db)

def replyMarks : List (ℕ × MessageStatus) := allMarks (·.msg.needsAck) (fun _ ↦ true) (replyRows env n db)

end

theorem ends_deliverOffline (henv : Unfailing env) (h : Serving n s x w)
    (hids : (w.db.messages.map (·.id)).Nodup) :
    Ends (alone i j env) (deliverOffline n (some s)) w fun r w' ↦
      r = .ok () ∧ HandsOver n s x (offlineRows env n w.db) (offlineMarks env n w.db) w w' := by
  refine ends_op h.running rfl fun rows w₁ he₁ ↦ ?_
  have hrows : some (dbSelect (env (.loadPendingMessagesOnly n)) (offlineRows env n w.db)) = some rows :=
    exec_reads he₁
  rw [dbSelect, henv, if_neg (by simp)] at hrows
  obtain rfl := Option.some.inj hrows
  have hs₁ : HandsOver n s x [] [] w w₁ := h.op he₁ rfl rfl
  have hunsettled : Unsettled (offlineRows env n w.db) w :=
    unsettled_load h hids fun r _ hsel ↦ .inl (of_decide_eq_true hsel).2.1
  rw [Prog.ret_bind]
  split
  · refine ends_op hs₁.serving.running rfl fun _ w₂ he₂ ↦ ?_
    have hs₂ := hs₁.trans (hs₁.serving.op he₂ rfl rfl)
    refine ends_op hs₂.serving.running rfl fun _ w₃ he₃ ↦ ?_
    have hs₃ := hs₂.trans (hs₂.serving.op he₃ rfl rfl)
    refine ends_op hs₃.serving.running rfl fun _ w₄ he₄ ↦ ?_
    have hs₄ : HandsOver n s x [] [] w w₄ := hs₃.trans (hs₃.serving.op he₄ rfl rfl)
    rw [Prog.ret_bind]
    refine Ends.bind (ends_offlineLoop henv hs₄.serving (hunsettled.same hs₄)) (fun _ w₅ h₅ ↦ ?_)
      fun e w₅ h₅ ↦ by cases h₅.1
    have hs₅ : HandsOver n s x (offlineRows env n w.db) (offlineMarks env n w.db) w w₅ := by
      simpa [offlineMarks] using hs₄.trans h₅.2
    exact (ends_flushQueue hs₅.serving).mono fun r w₆ h₆ ↦ ⟨h₆.1, by simpa using hs₅.trans h₆.2⟩
  · next hnil =>
    have hnil : offlineRows env n w.db = [] := by simpa using hnil
    refine .ret ⟨rfl, ?_⟩
    rw [offlineMarks, hnil]
    exact hs₁

theorem ends_deliverReplies (henv : Unfailing env) (h : Serving n s x w)
    (hids : (w.db.messages.map (·.id)).Nodup) :
    Ends (alone i j env) (deliverReplies n (some s)) w fun r w' ↦
      r = .ok () ∧ HandsOver n s x (replyRows env n w.db) (replyMarks env n w.db) w w' := by
  refine ends_op h.running rfl fun rows w₁ he₁ ↦ ?_
  have hrows : some (dbSelect (env (.loadPendingRepliesForSenderOnly n)) (replyRows env n w.db)) = some rows :=
    exec_reads he₁
  rw [dbSelect, henv, if_neg (by simp)] at hrows
  obtain rfl := Option.some.inj hrows
  have hs₁ : HandsOver n s x [] [] w w₁ := h.op he₁ rfl rfl
  have hunsettled : Unsettled (replyRows env n w.db) w :=
    unsettled_load h hids fun r _ hsel ↦ (of_decide_eq_true hsel).1
  rw [Prog.ret_bind]
  split
  · refine ends_op hs₁.serving.running rfl fun _ w₂ he₂ ↦ ?_
    have hs₂ := hs₁.trans (hs₁.serving.op he₂ rfl rfl)
    refine ends_op hs₂.serving.running rfl fun _ w₃ he₃ ↦ ?_
    have hs₃ : HandsOver n s x [] [] w w₃ := hs₂.trans (hs₂.serving.op he₃ rfl rfl)
    refine (ends_repliesLoop henv hs₃.serving (hunsettled.same hs₃)).mono fun r w₄ h₄ ↦ ⟨h₄.1, ?_⟩
    simpa [replyMarks] using hs₃.trans h₄.2
  · next hnil =>
    have hnil : replyRows env n w.db = [] := by simpa using hnil
    refine .ret ⟨rfl, ?_⟩
    rw [replyMarks, hnil]
    exact hs₁

theorem ends_withSession {f : Option ℕ → Program Unit} (h : Serving n s x w)
    (hf : ∀ w₁, HandsOver n s x [] [] w w₁ →
      Ends (alone i j env) (f (some s)) w₁ fun r w' ↦ r = .ok () ∧ HandsOver n s x rows marks w₁ w') :
    Ends (alone i j env) ((findSession n).bind fun session ↦ holding session (f session)) w fun r w' ↦
      r = .ok () ∧ HandsOver n s x rows marks w w' := by
  refine Ends.bind ((ends_findSession h.running h.registry).invariant bound_exec h.bound)
    (fun session w₁ h₁ ↦ ?_) fun e w₁ h₁ ↦ by cases h₁.1.1
  obtain ⟨⟨hsession, hlooked⟩, hb₁⟩ := h₁
  rw [h.client] at hsession
  obtain rfl := Except.ok.inj hsession
  have hs₁ : HandsOver n s x [] [] w w₁ := by
    refine h.kept (hlooked.kept.weaken (by simp [locking])) hb₁ hlooked.free fun s' ↦ ?_
    rw [hlooked.kept.frame.queueOwners (by simp), h.unlocked]
  refine ends_bound hb₁ (ends_holding (hf w₁ hs₁) (fun r w₂ h₂ ↦ ⟨h₂.2.serving.running, fun s' hs' ↦ ?_⟩)
    fun r w₂ w₃ h₂ h₃ hb ↦ ⟨h₂.1, ?_⟩)
  · exact Option.some.inj hs' ▸ registered_of_lookup h₂.2.serving.client
  · have hs₃ : HandsOver n s x [] [] w₂ w₃ := by
      refine h₂.2.serving.kept (h₃.weaken (by simp [locking])) hb ?_ fun s' ↦ ?_
      · rw [h₃.frame.registryOwner (by simp), h₂.2.serving.registry]
      · rw [h₃.frame.queueOwners (by simp), h₂.2.serving.unlocked]
    simpa using (hs₁.trans h₂.2).trans hs₃

theorem ends_printLoop (l : List (Bytes × ℕ)) (ht : w.terminated = false) (hu : Unlocked w) :
    Ends (alone i j env) (printLoop l) w fun r w' ↦ r = .ok () ∧ Kept [.log, .queueOwners] w w' ∧
      Unlocked w' := by
  induction l generalizing w with
  | nil => exact .ret ⟨rfl, .refl ht, hu⟩
  | cons e l ih =>
    refine Ends.bind (ends_withQueueLock (Q := fun r ↦ ∃ n, r = .ok n) ht hu fun w₁ h₁ ↦
      ends_perform h₁.running rfl fun n w₂ he ↦ ⟨⟨n, rfl⟩, kept_exec he rfl⟩) (fun _ w₁ h₁ ↦ ?_) fun e w₁ h₁ ↦ ?_
    · exact (ih h₁.2.1.running h₁.2.2).mono fun r w' h' ↦ ⟨h'.1, h₁.2.1.trans h'.2.1, h'.2.2⟩
    · obtain ⟨⟨n, hn⟩, -⟩ := h₁
      cases hn

theorem ends_printActiveClients (h : Serving n s x w) :
    Ends (alone i j env) printActiveClients w fun r w' ↦ r = .ok () ∧ HandsOver n s x [] [] w w' := by
  refine ends_bound h.bound (ends_withRegistryLock (R := fun r w₂ ↦ r = .ok () ∧ Kept locking w w₂ ∧ Unlocked w₂)
    h.running h.registry (fun w₁ h₁ ↦ ends_op h₁.running rfl fun l w₂ he₂ ↦ ?_) (fun _ _ h₂ ↦ h₂.2.1.running)
    fun r w₂ w₃ h₂ h₃ hfree hb ↦ ⟨h₂.1, ?_⟩)
  · have hk₂ : Kept [.log, .registryOwner] w w₂ := h₁.trans ((kept_exec he₂ rfl).weaken (by simp [writes]))
    have hu₂ : Unlocked w₂ := fun s ↦ by rw [hk₂.frame.queueOwners (by simp), h.unlocked]
    refine (ends_printLoop l hk₂.running hu₂).mono fun r w' h' ↦ ⟨h'.1, ?_, h'.2.2⟩
    exact (hk₂.weaken (by simp [locking])).trans (h'.2.1.weaken (by simp [locking]))
  · refine h.kept (h₂.2.1.trans (h₃.weaken (by simp [locking]))) hb hfree fun s ↦ ?_
    rw [h₃.frame.queueOwners (by simp), h₂.2.2]

/-- What a registration writes in the registry. -/
def registering : List Part := [.log, .registryOwner, .clients, .owners]

/-- The session is placed in the registry. -/
structure Placed (n : Bytes) (s : ℕ) (w w' : World) : Prop where
  frame : Frame registering w w'
  running : w'.terminated = false
  client : w'.activeClients.lookup n = some s

theorem running_exec {o : Op} {a : o.Res} (he : alone i j env o w = some (a, w')) (ho : .terminated ∉ writes o) :
    w'.terminated = false :=
  ((exec_frame he).terminated (by simp [ho])).trans (exec_cases he).1

theorem Placed.step {o : Op} {a : o.Res} (h : Placed n s w w₁) (he : alone i j env o w₁ = some (a, w'))
    (hw : writes o = []) : Placed n s w w' := by
  have hf : Frame [.log] w₁ w' := hw ▸ exec_frame he
  refine ⟨h.frame.trans (hf.weaken (by simp [registering])), running_exec he (by simp [hw]), ?_⟩
  rw [hf.clients (by simp), h.client]

theorem ends_upsertClient (ht : w.terminated = false) (hfree : w.registryOwner = none)
    (hnone : w.activeClients.lookup n = none) :
    Ends (alone i j env) (upsertClient n s) w fun r w' ↦ r = .ok none ∧ Placed n s w w' ∧
      w'.registryOwner = none := by
  refine ends_withRegistryLock (R := fun r w₂ ↦ r = .ok none ∧ Placed n s w w₂) ht hfree (fun w₁ h₁ ↦ ?_)
    (fun _ _ h₂ ↦ h₂.2.running) fun r w₂ w₃ h₂ h₃ hfree ↦ ⟨h₂.1, ⟨?_, h₃.running, ?_⟩, hfree⟩
  · refine ends_op h₁.running rfl fun old w₂ he₂ ↦ ?_
    have hf₂ : Frame registering w w₂ :=
      (h₁.frame.weaken (by simp [registering])).trans ((exec_frame he₂).weaken (by simp [registering, writes]))
    obtain rfl : none = old := by rw [← (exec_findClient he₂).1, h₁.frame.clients (by simp), hnone]
    refine ends_op (running_exec he₂ (by simp [writes])) rfl fun _ w₃ he₃ ↦ ?_
    have hp₃ : Placed n s w w₃ := by
      refine ⟨hf₂.trans ((exec_frame he₃).weaken (by simp [registering, writes])),
        running_exec he₃ (by simp [writes]), ?_⟩
      rw [exec_setClient he₃, AList.lookup_insert]
    refine ends_op hp₃.running rfl fun x w₄ he₄ ↦ ?_
    have hp₄ := hp₃.step he₄ rfl
    refine ends_op hp₄.running rfl fun _ w₅ he₅ ↦ ?_
    have hp₅ := hp₄.step he₅ rfl
    refine ends_op hp₅.running rfl fun metrics w₆ he₆ ↦ ?_
    have hp₆ := hp₅.step he₆ rfl
    cases metrics with
    | false => exact .ret ⟨rfl, hp₆⟩
    | true =>
      refine ends_op hp₆.running rfl fun _ w₇ he₇ ↦ ?_
      have hp₇ := hp₆.step he₇ rfl
      refine ends_op hp₇.running rfl fun _ w₈ he₈ ↦ .ret ⟨rfl, hp₇.step he₈ rfl⟩
  · exact h₂.2.frame.trans (h₃.frame.weaken (by simp [registering]))
  · rw [h₃.frame.clients (by simp), h₂.2.client]

structure Idle (w : World) : Prop where
  running : w.terminated = false
  registry : w.registryOwner = none
  unlocked : Unlocked w

theorem HandsOver.same (h : HandsOver n s x rows [] w w') : w'.db.messages = w.db.messages :=
  h.messages.trans (List.map_id _)

theorem HandsOver.correlations (h : HandsOver n s x rows marks w w') : w'.db.correlations = w.db.correlations :=
  h.frame.correlations (by simp [RegistrationBacklog.serving, passing])

variable {db db' : Database}

theorem offlineRows_congr (hm : db'.messages = db.messages) : offlineRows env n db' = offlineRows env n db := by
  rw [offlineRows, offlineRows, Database.loadPendingMessagesOnly, Database.loadPendingMessagesOnly, hm]

theorem replyRows_congr (hm : db'.messages = db.messages) (hc : db'.correlations = db.correlations) :
    replyRows env n db' = replyRows env n db := by
  have hsel : (fun r ↦ decide (db'.isPendingReplyFor n r)) = fun r ↦ decide (db.isPendingReplyFor n r) := by
    simp only [Database.isPendingReplyFor, hc]
  rw [replyRows, replyRows, Database.loadPendingRepliesForSenderOnly,
    Database.loadPendingRepliesForSenderOnly, hm, hsel]

theorem nodup_remark {messages : List Row} (h : (messages.map (·.id)).Nodup) :
    ((messages.map (remark marks)).map (·.id)).Nodup := by
  rw [List.map_map]
  exact h

theorem ends_deliveries (henv : Unfailing env) (h : Serving n s x w) (hids : (w.db.messages.map (·.id)).Nodup) :
    Ends (alone i j env) (do deliverOfflineMessages n; deliverPendingReplies n; printActiveClients) w fun r w' ↦
      r = .ok () ∧ ∃ db, db.messages = w.db.messages.map (remark (offlineMarks env n w.db)) ∧
        db.correlations = w.db.correlations ∧
        HandsOver n s x (offlineRows env n w.db ++ replyRows env n db)
          (replyMarks env n db ++ offlineMarks env n w.db) w w' := by
  have hoffline : Ends (alone i j env) (deliverOfflineMessages n) w fun r w' ↦ r = .ok () ∧
      HandsOver n s x (offlineRows env n w.db) (offlineMarks env n w.db) w w' := by
    refine ends_withSession h fun w₁ h₁ ↦ ?_
    have hrows : offlineRows env n w₁.db = offlineRows env n w.db := offlineRows_congr h₁.same
    rw [offlineMarks, ← hrows]
    exact ends_deliverOffline henv h₁.serving (h₁.same ▸ hids)
  refine Ends.bind hoffline (fun _ w₁ h₁ ↦ ?_) fun e w₁ h₁ ↦ by cases h₁.1
  have hreplies : Ends (alone i j env) (deliverPendingReplies n) w₁ fun r w' ↦ r = .ok () ∧
      HandsOver n s x (replyRows env n w₁.db) (replyMarks env n w₁.db) w₁ w' := by
    refine ends_withSession h₁.2.serving fun w₂ h₂ ↦ ?_
    have hrows : replyRows env n w₂.db = replyRows env n w₁.db := replyRows_congr h₂.same h₂.correlations
    rw [replyMarks, ← hrows]
    refine ends_deliverReplies henv h₂.serving ?_
    rw [h₂.same, h₁.2.messages]
    exact nodup_remark hids
  refine Ends.bind hreplies (fun _ w₂ h₂ ↦ ?_) fun e w₂ h₂ ↦ by cases h₂.1
  refine (ends_printActiveClients h₂.2.serving).mono fun r w' h' ↦
    ⟨h'.1, w₁.db, h₁.2.messages, h₁.2.correlations, ?_⟩
  simpa using (h₁.2.trans h₂.2).trans h'.2

instance {r : Row} : Decidable (WaitingMessage n r) := by
  unfold WaitingMessage
  infer_instance

/-- What the registration of `n` makes of a row. -/
def served (n : Bytes) (db : Database) (r : Row) : Row :=
  { r with status :=
      if db.isPendingReplyFor n r then .delivered
      else if WaitingMessage n r then if r.needsAck then .sent else .delivered
      else r.status }

variable {r : Row}

theorem lookup_loaded (before after : PendingMessage → Bool) (key : Row → ℤ) (tie : ℕ → ℕ) (q : Row → Bool)
    (hids : (db.messages.map (·.id)).Nodup) (hr : r ∈ db.messages)
    (hmark : (before r.load || after r.load) = true) :
    (allMarks before after ((orderBy key (fun r ↦ tie r.id) (db.messages.filter q)).map Row.load)).lookup r.id =
      if q r then some (if after r.load then .delivered else .sent) else none := by
  split
  · next hq =>
    have hmem : r.load ∈ (orderBy key (fun r ↦ tie r.id) (db.messages.filter q)).map Row.load :=
      List.mem_map_of_mem (mem_orderBy.mpr (List.mem_filter.mpr ⟨hr, hq⟩))
    exact lookup_allMarks (loaded_ids_nodup hids _ _ _) hmem hmark
  · next hq =>
    refine lookup_allMarks_of_notMem fun hmem ↦ hq ?_
    obtain ⟨r₀, hr₀, hid, hq₀⟩ := (mem_loaded (fun _ ↦ Iff.rfl) r.id).mp hmem
    exact List.inj_on_of_nodup_map hids hr₀ hr hid ▸ hq₀

theorem lookup_offlineMarks (hids : (db.messages.map (·.id)).Nodup) (hr : r ∈ db.messages) :
    (offlineMarks env n db).lookup r.id =
      if WaitingMessage n r then some (if r.needsAck then .sent else .delivered) else none := by
  have h := lookup_loaded (·.msg.needsAck) (!·.msg.needsAck) (·.createdAt) (env (.loadPendingMessagesOnly n)).tie
    (fun r ↦ decide (r.destination = .of n ∧ r.status = .pending ∧ r.type ≠ MessageType.reply.toByte.toNat))
    hids hr (Bool.or_not_self _)
  have hack : r.load.msg.needsAck = r.needsAck := rfl
  rw [offlineMarks, offlineRows, Database.loadPendingMessagesOnly, h, hack]
  simp only [decide_eq_true_eq, WaitingMessage]
  cases r.needsAck <;> rfl

theorem lookup_replyMarks (hids : (db.messages.map (·.id)).Nodup) (hr : r ∈ db.messages) :
    (replyMarks env n db).lookup r.id = if db.isPendingReplyFor n r then some .delivered else none := by
  have h :=
    lookup_loaded (·.msg.needsAck) (fun _ ↦ true) (·.createdAt) (env (.loadPendingRepliesForSenderOnly n)).tie
    (fun r ↦ decide (db.isPendingReplyFor n r)) hids hr (Bool.or_true _)
  rw [replyMarks, replyRows, Database.loadPendingRepliesForSenderOnly, h]
  simp only [decide_eq_true_eq, if_true]

theorem remark_served (hids : (db.messages.map (·.id)).Nodup) (hr : r ∈ db.messages) :
    remark (replyMarks env n db ++ offlineMarks env n db) r = served n db r := by
  rw [remark, List.lookup_append, lookup_replyMarks hids hr, lookup_offlineMarks hids hr, served]
  split_ifs <;> rfl

theorem filter_map_eq {f : Row → Row} {q : Row → Bool} {l : List Row}
    (h : ∀ r ∈ l, f r = r ∨ q (f r) = false ∧ q r = false) : (l.map f).filter q = l.filter q := by
  induction l with
  | nil => rfl
  | cons r l ih =>
    rw [List.forall_mem_cons] at h
    obtain ⟨hr, hl⟩ := h
    rw [List.map_cons, List.filter_cons, List.filter_cons, ih hl]
    rcases hr with hr | ⟨hf, hq⟩
    · rw [hr]
    · rw [hf, hq]
      rfl

/-- The first delivery does not touch the replies. -/
theorem replyRows_after (hids : (db.messages.map (·.id)).Nodup)
    (hm : db'.messages = db.messages.map (remark (offlineMarks env n db)))
    (hc : db'.correlations = db.correlations) :
    replyRows env n db' = replyRows env n db := by
  have hsel : (fun r ↦ decide (db'.isPendingReplyFor n r)) = fun r ↦ decide (db.isPendingReplyFor n r) := by
    simp only [Database.isPendingReplyFor, hc]
  have hrows : (db.messages.map (remark (offlineMarks env n db))).filter
    (fun r ↦ decide (db.isPendingReplyFor n r)) =
      db.messages.filter fun r ↦ decide (db.isPendingReplyFor n r) := by
    refine filter_map_eq fun r hr ↦ ?_
    by_cases htype : r.type = MessageType.reply.toByte.toNat
    · left
      have hnot : ¬ WaitingMessage n r := fun hw ↦ hw.2.2 htype
      rw [remark, lookup_offlineMarks hids hr, if_neg hnot]
      rfl
    · exact .inr ⟨decide_eq_false fun h ↦ htype h.2.1, decide_eq_false fun h ↦ htype h.2.1⟩
  rw [replyRows, replyRows, Database.loadPendingRepliesForSenderOnly,
    Database.loadPendingRepliesForSenderOnly, hsel, hm, hrows]

/-- What was waiting for the client has been handed to its new session. -/
structure Recovered (env : Op → Choice) (n x : Bytes) (w w' : World) : Prop where
  session : ∃ s, w'.activeClients.lookup n = some s ∧ (w'.sessions s).isOnline = true ∧
    ∃ sends, w'.pendingSends = w.pendingSends ++ sends ∧
      sends.map (fun y ↦ (y.copy, y.session, y.identity)) =
        (offlineRows env n w.db ++ replyRows env n w.db).map (fun p ↦ (p.copy, s, x)) ∧
      ∀ y ∈ sends, serialize y.copy.msg = .ok y.data
  messages : w'.db.messages = w.db.messages.map (served n w.db)

/-- The state of the tables and the sends when the deliveries start. -/
structure Starts (n : Bytes) (s : ℕ) (x : Bytes) (w w' : World) : Prop where
  serving : Serving n s x w'
  messages : w'.db.messages = w.db.messages
  correlations : w'.db.correlations = w.db.correlations
  pendingSends : w'.pendingSends = w.pendingSends

theorem recovered_of_handsOver (hids : (w.db.messages.map (·.id)).Nodup) (h : Starts n s x w w₁)
    (hm : db.messages = w₁.db.messages.map (remark (offlineMarks env n w₁.db)))
    (hc : db.correlations = w₁.db.correlations)
    (hd : HandsOver n s x (offlineRows env n w₁.db ++ replyRows env n db)
      (replyMarks env n db ++ offlineMarks env n w₁.db) w₁ w') : Recovered env n x w w' := by
  have hids₁ : (w₁.db.messages.map (·.id)).Nodup := h.messages ▸ hids
  have hreplies : replyRows env n db = replyRows env n w₁.db := replyRows_after hids₁ hm hc
  have hmarks : replyMarks env n db = replyMarks env n w₁.db := by rw [replyMarks, hreplies, replyMarks]
  have hserved : served n w₁.db = served n w.db := by
    funext r
    simp only [served, Database.isPendingReplyFor, h.correlations]
  obtain ⟨sends, hsends, hmap, hdata⟩ := hd.sends
  refine ⟨⟨s, hd.serving.client, hd.serving.online, sends, ?_, ?_, hdata⟩, ?_⟩
  · rw [hsends, h.pendingSends]
  · rw [hmap, hreplies, offlineRows_congr h.messages, replyRows_congr h.messages h.correlations]
  · rw [hd.messages, hmarks, ← h.messages, ← hserved]
    exact List.map_congr_left fun r hr ↦ remark_served hids₁ hr

variable {msg : Message} {identity : Bytes}

theorem ends_registerHandler (henv : Unfailing env) (hw : Consistent w) (hidle : Idle w) (hn : msg.sender ≠ [])
    (hnone : w.activeClients.lookup msg.sender = none) :
    Ends (alone i j env) (registerHandler msg identity) w fun r w' ↦
      r = .ok () ∧ Recovered env msg.sender identity w w' := by
  unfold registerHandler
  rw [if_pos hn]
  refine ends_op hidle.running rfl fun s w₁ he₁ ↦ ?_
  obtain ⟨rfl, hnext, hothers, hnew⟩ := exec_newSession he₁
  have hf₁ := exec_frame he₁
  have hb₁ : Bound w.nextSession identity w₁ := ⟨hnext ▸ Nat.lt_succ_self _, by rw [hnew]⟩
  have hu₁ : Unlocked w₁ := by
    intro s
    by_cases hs : s = w.nextSession
    · rw [hs, hnew]
    · rw [hothers s hs, hidle.unlocked]
  rw [Prog.ret_bind]
  have hbody : Ends (alone i j env) (do
      perform (.updateLastActivity w.nextSession)
      perform (.updateLastReceive w.nextSession)
      let oldSession ← upsertClient msg.sender w.nextSession
      holding oldSession do
        deliverOfflineMessages msg.sender
        deliverPendingReplies msg.sender
        printActiveClients) w₁ fun r w' ↦
      r = .ok () ∧ Recovered env msg.sender identity w w' ∧ ∃ s x, s = w.nextSession ∧
        Serving msg.sender s x w' := by
    refine ends_op (running_exec he₁ (by simp [writes])) rfl fun _ w₂ he₂ ↦ ?_
    refine ends_op (running_exec he₂ (by simp [writes])) rfl fun _ w₃ he₃ ↦ ?_
    have hf₃ : Frame [.log] w₁ w₃ := (frame_op he₂ (by simp [writes])).trans (frame_op he₃ (by simp [writes]))
    have hregistry₃ : w₃.registryOwner = none := by
      rw [hf₃.registryOwner (by simp), hf₁.registryOwner (by simp [writes]), hidle.registry]
    have hnone₃ : w₃.activeClients.lookup msg.sender = none := by
      rw [hf₃.clients (by simp), hf₁.clients (by simp [writes]), hnone]
    have hupsert : Ends (alone i j env) (upsertClient msg.sender w.nextSession) w₃ fun r w' ↦
        (r = .ok none ∧ Placed msg.sender w.nextSession w₃ w' ∧ w'.registryOwner = none) ∧
          Bound w.nextSession identity w' :=
      (ends_upsertClient (running_exec he₃ (by simp [writes])) hregistry₃ hnone₃).invariant bound_exec
        (bound_exec he₃ (bound_exec he₂ hb₁))
    refine Ends.bind (p := upsertClient msg.sender w.nextSession) hupsert (fun old w₄ h₄ ↦ ?_)
      fun e w₄ h₄ ↦ by cases h₄.1.1
    obtain ⟨⟨hold, hp, hregistry⟩, hb₄⟩ := h₄
    obtain rfl := Except.ok.inj hold
    have hf₄ : Frame registering w₁ w₄ := (hf₃.weaken (by simp [registering])).trans hp.frame
    have hmsg : w₄.db.messages = w.db.messages := by
      rw [(hf₄.messages (by simp [registering])).1, (hf₁.messages (by simp [writes])).1]
    have hstarts : Starts msg.sender w.nextSession identity w w₄ := by
      refine ⟨⟨⟨hp.client, ?_, ?_, fun r hr ↦ ?_⟩, hb₄, hp.running, hregistry, fun s ↦ ?_⟩, hmsg, ?_, ?_⟩
      · rw [hf₄.presence (by simp [registering]), hnew]
      · rw [hf₄.queues (by simp [registering]), hnew]
      · obtain ⟨m, hm, hrec⟩ := hw.store.columns r (hmsg ▸ hr)
        exact hrec.fits hm
      · rw [hf₄.queueOwners (by simp [registering]), hu₁]
      · rw [hf₄.correlations (by simp [registering]), hf₁.correlations (by simp [writes])]
      · rw [hf₄.pendingSends (by simp [registering]), hf₁.pendingSends (by simp [writes])]
    refine (ends_deliveries henv hstarts.serving (hmsg ▸ hw.store.ids)).mono fun r w' h' ↦ ?_
    obtain ⟨hr, db, hm, hc, hd⟩ := h'
    exact ⟨hr, recovered_of_handsOver hw.store.ids hstarts hm hc hd, _, _, rfl, hd.serving⟩
  refine ends_holding hbody (fun r w₂ h₂ ↦ ?_) fun r w₂ w₃ h₂ hk ↦ ⟨h₂.1, ?_⟩
  · obtain ⟨-, -, s, x, rfl, hserving⟩ := h₂
    exact ⟨hserving.running, fun s hs ↦ Option.some.inj hs ▸ registered_of_lookup hserving.client⟩
  · obtain ⟨-, ⟨⟨s, hclient, honline, sends, hsends, hmap, hdata⟩, hmsg⟩, -⟩ := h₂
    refine ⟨⟨s, ?_, ?_, sends, ?_, hmap, hdata⟩, ?_⟩
    · rw [hk.frame.clients (by simp), hclient]
    · rw [hk.frame.presence (by simp), honline]
    · rw [hk.frame.pendingSends (by simp), hsends]
    · rw [(hk.frame.messages (by simp)).1, hmsg]

variable {cfg : Config} {ok : State → Step → Prop} {metrics : Option Metrics} {S : State} {P : Process}

theorem idle_of_quiet (h : (outline cfg).Holds S) (hquiet : ∀ t ∈ S.threads, t.ended)
    (ht : S.world.terminated = false) : Idle S.world := by
  have hfree (i : ℕ) : hold i S.world = Hold.free := AtRest.owns (h.quiet hquiet i)
  refine ⟨ht, Option.eq_none_iff_forall_ne_some.mpr fun i hi ↦ ?_,
    fun s ↦ Option.eq_none_iff_forall_ne_some.mpr fun i hi ↦ ?_⟩
  · have hown : (hold i S.world).registry = true := decide_eq_true hi
    rw [hfree] at hown
    cases hown
  · have hown : (hold i S.world).queues s = true := decide_eq_true hi
    rw [hfree] at hown
    cases hown

/-- In any process, as soon as it is started or whenever its threads have all
ended, the registration of a client that is not registered comes to its end, if
no other thread runs and no storage call fails, and hands over what the tables
hold for the client. So every message for it that was stored by this process or
one before it, and is pending, is on its way to the identity that registers. -/
theorem recovered (h : processes.Leads (During ok) (first cfg metrics) P)
    (hquiet : ∀ t ∈ P.pool.threads, t.ended)
    (ht : P.pool.world.terminated = false) (henv : Unfailing env) (htype : msg.type = .register)
    (hn : msg.sender ≠ []) (hnone : P.pool.world.activeClients.lookup msg.sender = none) :
    ∃ w', interp (alone i j env) (handle msg identity) P.pool.world = some (.ok (), w') ∧
      Recovered env msg.sender identity P.pool.world w' ∧
      ∀ c id, (c, id) ∈ P.saved → c.msg.type ≠ .reply → cString c.msg.destination = cString msg.sender →
        (P.db.row? id).map (·.status) = some .pending →
        ∃ y ∈ w'.pendingSends, y.identity = identity ∧ y.copy.source = some id ∧
          serialize y.copy.msg = .ok y.data ∧ y.copy.msg =
            { c.msg with sender := cString c.msg.sender, destination := cString c.msg.destination } := by
  have hh := holds_of_leads h
  have hhandle : handle msg identity = registerHandler msg identity := by
    unfold handle
    rw [htype]
  rw [hhandle]
  have hends : Ends (alone i j env) (registerHandler msg identity) P.pool.world fun r w' ↦
      r = .ok () ∧ Recovered env msg.sender identity P.pool.world w' :=
    ends_registerHandler henv hh.inv (idle_of_quiet hh hquiet ht) hn hnone
  obtain ⟨r, w', hrun, rfl, hrec⟩ := hends
  refine ⟨w', hrun, hrec, fun c id hsaved hreply hdest hpending ↦ ?_⟩
  obtain ⟨row, hrow, rfl, hr⟩ := (recorded_of_leads h).rows _ hsaved
  have hst : row.status = .pending := by
    have hrow? : P.db.row? row.id = some row := row?_eq hh.inv.store hrow
    rw [hrow?] at hpending
    exact Option.some.inj hpending
  obtain ⟨s, -, -, sends, hsends, hmap, hdata⟩ := hrec.session
  have hmem : row.load ∈ offlineRows env msg.sender P.db := by
    refine List.mem_map_of_mem (mem_orderBy.mpr (List.mem_filter.mpr ⟨hrow, decide_eq_true ⟨?_, hst, ?_⟩⟩))
    · rw [hr.destination]
      exact Subtype.ext hdest
    · rw [hr.type]
      intro heq
      apply hreply
      rw [← MessageType.ofByte_toByte c.msg.type, UInt8.toNat_inj.mp heq, MessageType.ofByte_toByte]
  have hcopy : (row.load.copy, s, identity) ∈ sends.map fun y ↦ (y.copy, y.session, y.identity) := by
    rw [hmap]
    exact List.mem_map_of_mem (List.mem_append_left _ hmem)
  obtain ⟨y, hy, heq⟩ := List.mem_map.mp hcopy
  simp only [Prod.mk.injEq] at heq
  obtain ⟨hc, -, hid⟩ := heq
  refine ⟨y, hsends ▸ List.mem_append_right _ hy, hid, by rw [hc]; rfl, hdata y hy, ?_⟩
  rw [hc]
  exact hr.message_eq

def bob : Message := { type := .register, sender := [98] }

/-- Bob registers when the broker has been started again; alice's request was stored before. -/
theorem recovered_request : ∃ (P : Process) (w' : World) (c : Copy), (c, 1) ∈ P.saved ∧ P.pool.threads = [] ∧
    interp (alone 0 (arrival bob) fun _ ↦ {}) (handle bob [98]) P.pool.world = some (.ok (), w') ∧
      Recovered (fun _ ↦ {}) [98] [98] P.pool.world w' ∧
      ∀ c id, (c, id) ∈ P.saved → c.msg.type ≠ .reply → cString c.msg.destination = cString [98] →
        (P.db.row? id).map (·.status) = some .pending →
        ∃ y ∈ w'.pendingSends, y.identity = [98] ∧ y.copy.source = some id ∧ serialize y.copy.msg = .ok y.data ∧
          y.copy.msg =
            { c.msg with sender := cString c.msg.sender, destination := cString c.msg.destination } := by
  have hrun : ((processes.runs (During fun _ _ ↦ True) (interrupted ++ [.restart {} none])
    (first {} none)).map fun P ↦
      (P.saved.map (·.2), P.pool.threads.length, P.pool.world.terminated,
        P.pool.world.activeClients.lookup [98])) =
      some ([1], 0, false, none) := by decide +kernel
  obtain ⟨P, h, hv⟩ := System.exists_leads hrun
  simp only [Prod.mk.injEq, List.length_eq_zero_iff] at hv
  obtain ⟨hsaved, hthreads, ht, hnone⟩ := hv
  obtain ⟨⟨c, id⟩, hmem, rfl⟩ := List.mem_map.mp (hsaved ▸ List.mem_singleton_self _)
  have hquiet : ∀ t ∈ P.pool.threads, t.ended := fun t hmem ↦ absurd (hthreads ▸ hmem) List.not_mem_nil
  have hends : ∃ w',
      interp (alone 0 (arrival bob) fun _ ↦ {}) (handle bob [98]) P.pool.world = some (.ok (), w') ∧ _ :=
    recovered h hquiet ht (fun _ ↦ rfl) rfl (by decide) hnone
  obtain ⟨w', hw'⟩ := hends
  exact ⟨P, w', c, hmem, hthreads, hw'⟩

end MessageBroker.Recovery
