import MessageBroker.IsolatedRuns
import MessageBroker.StoreInvariant

namespace MessageBroker.RetryPass

open ByteStrings WireMessages OrderedSelection MessageStore ProgramTrees SequentialRuns BrokerState
  SessionQueues ClientRegistry ServerJobs OperationEffects StoreInvariant SharedInvariant IsolatedRuns

variable {i : ℕ} {j : Job} {env : Op → Choice} {w w' w₁ : World} {p : PendingMessage}
  {rows : List PendingMessage} {n : Bytes} {s id : ℕ} {cfg : Config}

def onlineSession (w : World) (n : Bytes) : Option ℕ :=
  (w.activeClients.lookup n).filter fun s ↦ (w.sessions s).isOnline

/-- What the pass makes of a row. -/
def settle (w : World) (rows : List PendingMessage) (r : Row) : Row :=
  if r.id ∈ rows.map (·.id) then
    { r with status := if (onlineSession w r.message.destination).isSome then .sent else .pending }
  else r

/-- To which session the pass hands a loaded row. -/
def handOver (w : World) (p : PendingMessage) : Option (Copy × ℕ) :=
  (onlineSession w p.msg.destination).map fun s ↦ (p.copy, s)

/-- The marks that the pass makes do not fail. -/
def MarksSucceed (env : Op → Choice) : Prop :=
  ∀ id, (env (.markPending id)).dbError = false ∧ (env (.markSent id)).dbError = false

def passParts : List Part := [.log, .messages, .registryOwner, .owners, .pendingSends]

theorem onlineSession_of_kept {parts : List Part} (h : Kept parts w w') (hc : .clients ∉ parts)
    (hp : .presence ∉ parts) (n : Bytes) : onlineSession w' n = onlineSession w n := by
  unfold onlineSession
  rw [h.frame.clients hc]
  exact congrArg (Option.filter · _) (funext fun s ↦ h.frame.presence hp s)

@[simp] theorem settle_id (r : Row) : (settle w rows r).id = r.id := by
  unfold settle
  split <;> rfl

@[simp] theorem settle_destination (r : Row) :
    (settle w rows r).message.destination = r.message.destination := by
  unfold settle
  split <;> rfl

theorem settle_nil (r : Row) : settle w [] r = r := if_neg (by simp)

theorem settle_of_notMem {r : Row} (h : r.id ∉ rows.map (·.id)) : settle w rows r = r := if_neg h

theorem settle_cons (hs : ∀ n, onlineSession w₁ n = onlineSession w n) (r : Row) :
    settle w₁ rows (settle w [p] r) = settle w (p :: rows) r := by
  by_cases hr : r.id ∈ rows.map (·.id)
  · have hp : r.id ∈ (p :: rows).map (·.id) := List.mem_cons_of_mem _ hr
    rw [settle, settle_id, if_pos hr, hs, settle_destination, settle, settle, if_pos hp]
    split <;> rfl
  · rw [settle_of_notMem (by rwa [settle_id]), settle, settle]
    simp only [List.map_cons, List.map_nil, List.mem_cons, List.not_mem_nil, or_false, hr]

/-- The rows have been loaded, and none has been settled since. -/
def Waiting (rows : List PendingMessage) (w : World) : Prop :=
  ∀ p ∈ rows, p.msg.Fits ∧ ∀ r ∈ w.db.messages, r.id = p.id → r.load = p ∧ r.status = .sent

/-- The rows have been settled, each one once. -/
structure Passed (rows : List PendingMessage) (w w' : World) : Prop where
  messages : w'.db.messages = w.db.messages.map (settle w rows)
  sends : ∃ sends, w'.pendingSends = w.pendingSends ++ sends ∧
    sends.map (fun x ↦ (x.copy, x.session)) = rows.filterMap (handOver w) ∧ ∀ x ∈ sends, Formed w x

theorem Passed.nil : Passed [] w w := by
  refine ⟨?_, [], (List.append_nil _).symm, rfl, by simp⟩
  rw [List.map_congr_left fun r _ ↦ settle_nil r, List.map_id']

theorem Passed.cons (h : Passed [p] w w₁) (hk : Kept passParts w w₁) (h' : Passed rows w₁ w') :
    Passed (p :: rows) w w' := by
  have hs := onlineSession_of_kept hk (by simp [passParts]) (by simp [passParts])
  have hhand : rows.filterMap (handOver w₁) = rows.filterMap (handOver w) :=
    List.filterMap_congr fun q _ ↦ by rw [handOver, handOver, hs]
  obtain ⟨sends, hsends, hmap, hformed⟩ := h.sends
  obtain ⟨sends', hsends', hmap', hformed'⟩ := h'.sends
  refine ⟨?_, sends ++ sends', by rw [hsends', hsends, List.append_assoc], ?_, fun x hx ↦ ?_⟩
  · rw [h'.messages, h.messages, List.map_map]
    exact List.map_congr_left fun r _ ↦ settle_cons hs r
  · rw [List.map_append, hmap, hmap', hhand]
    exact List.filterMap_append.symm
  · rcases List.mem_append.mp hx with hx | hx
    · exact hformed x hx
    · exact (hformed' x hx).before hk (by simp [passParts])

theorem Waiting.tail (h : Waiting (p :: rows) w) (hnd : ((p :: rows).map (·.id)).Nodup)
    (hp : Passed [p] w w₁) : Waiting rows w₁ := by
  intro q hq
  obtain ⟨hfits, hrow⟩ := h q (List.mem_cons_of_mem _ hq)
  refine ⟨hfits, fun r hr hid ↦ ?_⟩
  rw [hp.messages] at hr
  obtain ⟨r₀, hr₀, rfl⟩ := List.mem_map.mp hr
  rw [settle_id] at hid
  have hne : r₀.id ∉ [p].map (·.id) := by
    rw [List.map_singleton, List.mem_singleton, hid]
    rintro heq
    rw [List.map_cons, List.nodup_cons] at hnd
    exact hnd.1 (heq ▸ List.mem_map_of_mem hq)
  rw [settle_of_notMem hne]
  exact hrow r₀ hr₀ hid

/-- How the pass over `rows` ends: it may throw where a mark fails. -/
structure Ended (env : Op → Choice) (rows : List PendingMessage) (w : World)
    (r : Except String Unit) (w' : World) : Prop where
  kept : Kept passParts w w'
  ok : MarksSucceed env → r = .ok ()
  passed : r = .ok () → Passed rows w w'

theorem Ended.after {r : Except String Unit} (h : Ended env rows w₁ r w') (hk : Kept [.log] w w₁) :
    Ended env rows w r w' := by
  refine ⟨(hk.weaken (by simp [passParts])).trans h.kept, h.ok, fun hr ↦ ?_⟩
  have hs := onlineSession_of_kept hk (by simp) (by simp)
  have hsettle : settle w₁ rows = settle w rows := by
    funext r
    rw [settle, settle, hs]
  have hhand : handOver w₁ = handOver w := by
    funext p
    rw [handOver, handOver, hs]
  obtain ⟨hmsg, hsends⟩ := h.passed hr
  rw [hsettle, (hk.frame.messages (by simp)).1] at hmsg
  rw [hhand, hk.frame.pendingSends (by simp)] at hsends
  obtain ⟨sends, hsends, hmap, hformed⟩ := hsends
  exact ⟨hmsg, sends, hsends, hmap, fun x hx ↦ (hformed x hx).before hk (by simp)⟩

theorem ends_markPending (ht : w.terminated = false) :
    Ends (alone i j env) (markPending id) w fun r w' ↦ Kept [.log, .messages] w w' ∧
      (MarksSucceed env → r = .ok ()) ∧ (r = .ok () → w'.db = w.db.markPending id) := by
  refine ends_op ht rfl fun r w₁ he ↦ .lift ⟨kept_exec he rfl, fun hm ↦ ?_, fun hr ↦ ?_⟩
  · obtain ⟨hd, -⟩ | ⟨hr, -⟩ := exec_markPending he
    · cases hd.symm.trans (hm id).1
    · exact hr
  · obtain ⟨-, ⟨e, he⟩, -⟩ | ⟨-, hdb⟩ := exec_markPending he
    · cases he.symm.trans hr
    · exact hdb

theorem ends_markSent (ht : w.terminated = false) :
    Ends (alone i j env) (markSent id) w fun r w' ↦ Kept [.log, .messages] w w' ∧
      (MarksSucceed env → r = .ok ()) ∧ (r = .ok () → w'.db = w.db.markSent id) := by
  refine ends_op ht rfl fun r w₁ he ↦ .lift ⟨kept_exec he rfl, fun hm ↦ ?_, fun hr ↦ ?_⟩
  · obtain ⟨hd, -⟩ | ⟨hr, -⟩ := exec_markSent he
    · cases hd.symm.trans (hm id).2
    · exact hr
  · obtain ⟨-, ⟨e, he⟩, -⟩ | ⟨-, hdb⟩ := exec_markSent he
    · cases he.symm.trans hr
    · exact hdb

theorem ends_retrySend (ht : w.terminated = false) (hon : (w.sessions s).isOnline = true)
    (hfits : p.msg.Fits) :
    Ends (alone i j env) (retrySend p (some s)) w fun r w' ↦
      Kept [.log, .messages, .pendingSends] w w' ∧ (MarksSucceed env → r = .ok ()) ∧
        (r = .ok () → w'.db.messages = (w.db.markSent p.id).messages ∧
          ∃ x, w'.pendingSends = w.pendingSends ++ [x] ∧ x.copy = p.copy ∧ x.session = s ∧ Formed w x) := by
  refine Ends.bind (ends_markSent ht) (fun _ w₁ h₁ ↦ ?_) fun e w₁ h₁ ↦
    ⟨h₁.1.weaken (by simp), fun hm ↦ h₁.2.1 hm, fun hr ↦ by cases hr⟩
  obtain ⟨hk₁, -, hdb⟩ := h₁
  have hon₁ : (w₁.sessions s).isOnline = true := by rw [hk₁.frame.presence (by simp), hon]
  refine Ends.bind (ends_sendMessage hk₁.running hon₁ hfits) (fun b w₂ h₂ ↦ ?_) fun e w₂ h₂ ↦ by cases h₂.1
  obtain ⟨hb, hk₂, x, hx, hcopy, hsession, hformed⟩ := h₂
  obtain rfl := Except.ok.inj hb
  refine .ret ⟨(hk₁.weaken (by simp)).trans (hk₂.weaken (by simp)), fun _ ↦ rfl, fun _ ↦
    ⟨?_, x, ?_, hcopy, hsession, hformed.before hk₁ (by simp)⟩⟩
  · rw [(hk₂.frame.messages (by simp)).1, hdb rfl]
  · rw [hx, hk₁.frame.pendingSends (by simp)]

theorem ends_findOnlineSession (ht : w.terminated = false) (hfree : w.registryOwner = none) :
    Ends (alone i j env) (findOnlineSession n) w fun r w' ↦
      r = .ok (onlineSession w n) ∧ Looked w w' := by
  refine ends_withRegistryLock (R := fun r w₂ ↦ r = .ok (onlineSession w n) ∧
    Kept [.log, .registryOwner, .owners] w w₂) ht hfree (fun w₁ h₁ ↦ ?_) (fun _ _ h ↦ h.2.running) ?_
  · refine ends_op h₁.running rfl fun x w₂ he₂ ↦ ?_
    have hk₂ : Kept [.log, .registryOwner] w w₂ := h₁.trans ((kept_exec he₂ rfl).weaken (by simp [writes]))
    have hx : w.activeClients.lookup n = x := by
      have hr : some (w₁.activeClients.lookup n) = some x := exec_reads he₂
      rw [← Option.some.inj hr, h₁.frame.clients (by simp)]
    cases x with
    | none =>
      refine .ret ⟨?_, hk₂.weaken (by simp)⟩
      rw [onlineSession, hx]
      rfl
    | some s =>
      refine ends_op hk₂.running rfl fun online w₃ he₃ ↦ ?_
      have hk₃ : Kept [.log, .registryOwner] w w₃ := hk₂.trans ((kept_exec he₃ rfl).weaken (by simp [writes]))
      have hon : (w.sessions s).isOnline = online := by
        have hr : some (w₂.sessions s).isOnline = some online := exec_reads he₃
        rw [← Option.some.inj hr, hk₂.frame.presence (by simp)]
      cases online with
      | false =>
        refine .ret ⟨?_, hk₃.weaken (by simp)⟩
        rw [onlineSession, hx, Option.filter_some, hon]
        rfl
      | true =>
        refine ends_perform hk₃.running rfl fun y w₄ he₄ ↦ ⟨?_, ?_⟩
        · rw [← (exec_findClient he₄).1, hk₃.frame.clients (by simp), hx, onlineSession, hx,
            Option.filter_some, hon]
          rfl
        · exact (hk₃.weaken (by simp)).trans ((kept_exec he₄ rfl).weaken (by simp [writes]))
  · exact fun r w₂ w₃ hr h₃ hfree ↦ ⟨hr.1, hr.2.trans (h₃.weaken (by simp)), hfree⟩

theorem settled_of_marks {messages : List Row} (hmsg : w₁.db.messages = (w.db.markPending p.id).messages)
    (hrow : ∀ r ∈ w.db.messages, r.id = p.id → r.load = p ∧ r.status = .sent)
    (hpending : onlineSession w p.msg.destination = none → messages = w₁.db.messages)
    (hsent : ∀ s, onlineSession w p.msg.destination = some s → messages = (w₁.db.markSent p.id).messages) :
    messages = w.db.messages.map (settle w [p]) := by
  have hfirst : w₁.db.messages = w.db.messages.map fun r ↦
      if r.id = p.id then { r with status := .pending } else r := by
    rw [hmsg]
    refine List.map_congr_left fun r hr ↦ ?_
    by_cases hid : r.id = p.id
    · rw [if_pos hid, if_pos ⟨hid, by rw [(hrow r hr hid).2]; rfl⟩]
    · rw [if_neg hid, if_neg fun h ↦ hid h.1]
  have hsettle {r : Row} (hr : r ∈ w.db.messages) : settle w [p] r =
      if r.id = p.id then
        { r with status := if (onlineSession w p.msg.destination).isSome then .sent else .pending }
      else r := by
    by_cases hid : r.id = p.id
    · have hdest : r.message.destination = p.msg.destination := by rw [← (hrow r hr hid).1]; rfl
      rw [settle, if_pos (by simp [hid]), if_pos hid, hdest]
    · rw [settle, if_neg (by simp [hid]), if_neg hid]
  cases hs : onlineSession w p.msg.destination with
  | none =>
    rw [hpending hs, hfirst]
    refine List.map_congr_left fun r hr ↦ ?_
    rw [hsettle hr, hs]
    rfl
  | some s =>
    rw [hsent s hs]
    change w₁.db.messages.map _ = _
    rw [hfirst, List.map_map]
    refine List.map_congr_left fun r hr ↦ ?_
    rw [hsettle hr, hs, Function.comp_apply]
    by_cases hid : r.id = p.id
    · rw [if_pos hid, if_pos hid, if_pos ⟨hid, rfl⟩]
      rfl
    · rw [if_neg hid, if_neg hid, if_neg fun h ↦ hid h.1]

/-- One turn of the loop. -/
def retryOne (p : PendingMessage) : Program Unit := do
  markPending p.id
  let session ← findOnlineSession p.msg.destination
  holding session (retrySend p session)

theorem retryLoop_cons : retryLoop (p :: rows) = (retryOne p).bind fun _ ↦ retryLoop rows := by
  rw [retryLoop, retryOne]
  simp only [Prog.bind_eq, Prog.bind_assoc]

theorem registered_of_onlineSession (h : onlineSession w n = some s) :
    w.Registered s ∧ (w.sessions s).isOnline = true := by
  obtain ⟨hl, hon⟩ := Option.filter_eq_some_iff.mp h
  exact ⟨registered_of_lookup hl, hon⟩

theorem ends_retryOne (ht : w.terminated = false) (hfree : w.registryOwner = none) (hp : Waiting [p] w) :
    Ends (alone i j env) (retryOne p) w fun r w' ↦ Ended env [p] w r w' ∧ w'.registryOwner = none := by
  obtain ⟨hfits, hrow⟩ := hp p (List.mem_singleton_self p)
  refine Ends.bind (ends_markPending ht) (fun _ w₁ h₁ ↦ ?_) fun e w₁ h₁ ↦
    ⟨⟨h₁.1.weaken (by simp [passParts]), fun hm ↦ h₁.2.1 hm, fun hr ↦ by cases hr⟩,
      (h₁.1.frame.registryOwner (by simp)).trans hfree⟩
  obtain ⟨hk₁, -, hdb⟩ := h₁
  have hfree₁ := (hk₁.frame.registryOwner (by simp)).trans hfree
  refine Ends.bind (ends_findOnlineSession hk₁.running hfree₁) (fun session w₂ h₂ ↦ ?_)
    fun e w₂ h₂ ↦ by cases h₂.1
  obtain ⟨hsession, hlooked⟩ := h₂
  rw [onlineSession_of_kept hk₁ (by simp) (by simp)] at hsession
  obtain rfl := Except.ok.inj hsession
  have hk₂ : Kept passParts w w₂ :=
    (hk₁.weaken (by simp [passParts])).trans (hlooked.kept.weaken (by simp [passParts]))
  have hmsg₂ : w₂.db.messages = (w.db.markPending p.id).messages := by
    rw [(hlooked.kept.frame.messages (by simp)).1, hdb rfl]
  have hsends₂ : w₂.pendingSends = w.pendingSends := by
    rw [hlooked.kept.frame.pendingSends (by simp), hk₁.frame.pendingSends (by simp)]
  cases hs : onlineSession w p.msg.destination with
  | none =>
    refine .ret ⟨⟨hk₂, fun _ ↦ rfl, fun _ ↦ ⟨?_, [], by rw [hsends₂, List.append_nil], ?_, by simp⟩⟩,
      hlooked.free⟩
    · exact settled_of_marks hmsg₂ hrow (fun _ ↦ rfl) fun s h ↦ by cases hs.symm.trans h
    · simp [handOver, hs]
  | some s =>
    have hs₂ : onlineSession w₂ p.msg.destination = some s := by
      rw [onlineSession_of_kept hk₂ (by simp [passParts]) (by simp [passParts]), hs]
    obtain ⟨hreg, hon⟩ := registered_of_onlineSession hs₂
    refine ends_holding (ends_retrySend hlooked.kept.running hon hfits) (fun r w₃ h₃ ↦ ⟨h₃.1.running, ?_⟩)
      fun r w₃ w₄ h₃ h₄ ↦ ?_
    · intro s' hs'
      rw [← Option.some.inj hs']
      exact registered_of_clients (h₃.1.frame.clients (by simp)) hreg
    · obtain ⟨hk₃, hok, hsent⟩ := h₃
      have hk₄ : Kept [.log, .messages, .owners, .pendingSends] w₂ w₄ :=
        (hk₃.weaken (by simp)).trans (h₄.weaken (by simp))
      refine ⟨⟨hk₂.trans (hk₄.weaken (by simp [passParts])), hok, fun hr ↦ ?_⟩,
        (hk₄.frame.registryOwner (by simp)).trans hlooked.free⟩
      obtain ⟨hmsg, x, hx, hcopy, hsession, hformed⟩ := hsent hr
      refine ⟨settled_of_marks hmsg₂ hrow (fun h ↦ by cases hs.symm.trans h) fun _ _ ↦ ?_, [x], ?_, ?_, ?_⟩
      · rw [(h₄.frame.messages (by simp)).1, hmsg]
      · rw [h₄.frame.pendingSends (by simp), hx, hsends₂]
      · simp [handOver, hs, hcopy, hsession]
      · intro y hy
        rw [List.mem_singleton.mp hy]
        exact hformed.before hk₂ (by simp [passParts])

theorem ends_retryLoop (ht : w.terminated = false) (hfree : w.registryOwner = none)
    (hnd : (rows.map (·.id)).Nodup) (hrows : Waiting rows w) :
    Ends (alone i j env) (retryLoop rows) w (Ended env rows w) := by
  induction rows generalizing w with
  | nil => exact .ret ⟨.refl ht, fun _ ↦ rfl, fun _ ↦ .nil⟩
  | cons p rows ih =>
    have hp : Waiting [p] w := fun q hq ↦ hrows q (List.mem_cons.mpr (.inl (List.mem_singleton.mp hq)))
    rw [retryLoop_cons]
    refine Ends.bind (ends_retryOne ht hfree hp) (fun _ w₁ h₁ ↦ ?_) fun e w₁ h₁ ↦
      ⟨h₁.1.kept, fun hm ↦ h₁.1.ok hm, fun hr ↦ by cases hr⟩
    obtain ⟨h₁, hfree₁⟩ := h₁
    have hpassed := h₁.passed rfl
    refine (ih h₁.kept.running hfree₁ (List.Nodup.of_cons hnd) (hrows.tail hnd hpassed)).mono
      fun r w₂ h₂ ↦ ⟨h₁.kept.trans h₂.kept, h₂.ok, fun hr ↦ ?_⟩
    exact hpassed.cons h₁.kept (h₂.passed hr)

/-- The rows that a pass loads: the first ones, if the database reports an error. -/
def loaded (env : Op → Choice) (cfg : Config) (w : World) : List PendingMessage :=
  let ch := env (.loadExpiredSent cfg.ackTimeout)
  dbSelect ch (w.db.loadExpiredSent ch.tie w.wallClock cfg.ackTimeout)

/-- Each row has been handed once, as a frame, to the session under its
destination that is online, or to nobody, not even the queue of a session that
is offline; everything else is as it was. -/
structure Retried (rows : List PendingMessage) (w w' : World) : Prop where
  handed : ∃ sends, w'.pendingSends = w.pendingSends ++ sends ∧
    (∀ p ∈ rows, (sends.filter (·.copy = p.copy)).map (·.session) =
      (onlineSession w p.msg.destination).toList) ∧
    ∀ x ∈ sends, (∃ p ∈ rows, x.copy = p.copy) ∧ Formed w x
  queues : ∀ s, (w'.sessions s).outgoingQueue = (w.sessions s).outgoingQueue
  messages : w'.db.messages = w.db.messages.map (settle w rows)
  correlations : w'.db.correlations = w.db.correlations
  activeClients : w'.activeClients = w.activeClients
  identityToName : w'.identityToName = w.identityToName
  presence : ∀ s, (w'.sessions s).isOnline = (w.sessions s).isOnline

theorem handed_nothing (h : p.id ∉ rows.map (·.id)) :
    (rows.filterMap (handOver w)).filter (·.1 = p.copy) = [] := by
  refine List.filter_eq_nil_iff.mpr fun x hx hc ↦ h ?_
  obtain ⟨q, hq, hqx⟩ := List.mem_filterMap.mp hx
  obtain ⟨s, -, rfl⟩ := Option.map_eq_some_iff.mp hqx
  have hid : some q.id = some p.id := congrArg Copy.source (of_decide_eq_true hc)
  exact Option.some.inj hid ▸ List.mem_map_of_mem hq

theorem handed_once (hnd : (rows.map (·.id)).Nodup) (hp : p ∈ rows) :
    ((rows.filterMap (handOver w)).filter (·.1 = p.copy)).map (·.2) =
      (onlineSession w p.msg.destination).toList := by
  induction rows with
  | nil => cases hp
  | cons q rows ih =>
    rw [List.map_cons, List.nodup_cons] at hnd
    rcases List.mem_cons.mp hp with rfl | hp
    · have hrest := handed_nothing (w := w) hnd.1
      cases hs : onlineSession w p.msg.destination with
      | none =>
        rw [List.filterMap_cons_none (by simp [handOver, hs]), hrest]
        rfl
      | some s =>
        rw [List.filterMap_cons_some (b := (p.copy, s)) (by simp [handOver, hs]),
          List.filter_cons_of_pos (by simp), hrest]
        rfl
    · have hne : p.id ≠ q.id := fun h ↦ hnd.1 (h ▸ List.mem_map_of_mem hp)
      have hcopy : q.copy ≠ p.copy := fun h ↦ hne (Option.some.inj (congrArg Copy.source h)).symm
      cases hs : onlineSession w q.msg.destination with
      | none => rw [List.filterMap_cons_none (by simp [handOver, hs]), ih hnd.2 hp]
      | some s =>
        rw [List.filterMap_cons_some (b := (q.copy, s)) (by simp [handOver, hs]),
          List.filter_cons_of_neg (by simp [hcopy]), ih hnd.2 hp]

theorem Passed.retried (h : Passed rows w w') (hk : Kept passParts w w') (hnd : (rows.map (·.id)).Nodup) :
    Retried rows w w' := by
  obtain ⟨sends, hsends, hmap, hformed⟩ := h.sends
  refine ⟨⟨sends, hsends, fun p hp ↦ ?_, fun x hx ↦ ⟨?_, hformed x hx⟩⟩, hk.frame.queues (by simp [passParts]),
    h.messages, hk.frame.correlations (by simp [passParts]), hk.frame.clients (by simp [passParts]), hk.names,
    hk.frame.presence (by simp [passParts])⟩
  · rw [← handed_once hnd hp, ← hmap, List.filter_map, List.map_map]
    rfl
  · have hx' : (x.copy, x.session) ∈ rows.filterMap (handOver w) := hmap ▸ List.mem_map_of_mem hx
    obtain ⟨q, hq, hqx⟩ := List.mem_filterMap.mp hx'
    obtain ⟨s, -, hpair⟩ := Option.map_eq_some_iff.mp hqx
    exact ⟨q, hq, (congrArg Prod.fst hpair).symm⟩

section

variable (hids : (w.db.messages.map (·.id)).Nodup)

include hids

theorem loaded_nodup : ((loaded env cfg w).map (·.id)).Nodup :=
  (loaded_ids_nodup hids _ _ _).sublist ((dbSelect_sublist _ _).map _)

theorem loaded_waiting (hfits : ∀ r ∈ w.db.messages, r.message.Fits) : Waiting (loaded env cfg w) w := by
  intro p hp
  obtain ⟨r, hr, rfl⟩ := List.mem_map.mp ((dbSelect_sublist _ _).subset hp)
  obtain ⟨hr, hsel⟩ := List.mem_filter.mp (mem_orderBy.mp hr)
  refine ⟨hfits r hr, fun r' hr' hid ↦ ?_⟩
  obtain rfl := List.inj_on_of_nodup_map hids hr' hr hid
  exact ⟨rfl, (of_decide_eq_true hsel).1⟩

end

/-- A pass of `checkExpiredAcks` alone, in any state of the registry and the
database. Only a mark that fails makes it throw. -/
theorem retry_pass (ht : w.terminated = false) (hfree : w.registryOwner = none)
    (hids : (w.db.messages.map (·.id)).Nodup) (hfits : ∀ r ∈ w.db.messages, r.message.Fits) :
    (0 < cfg.ackTimeout → ∃ r w', interp (alone i j env) (checkExpiredAcks cfg) w = some (r, w') ∧
      (MarksSucceed env → r = .ok ()) ∧ (r = .ok () → Retried (loaded env cfg w) w w')) ∧
    (cfg.ackTimeout ≤ 0 → interp (alone i j env) (checkExpiredAcks cfg) w = some (.ok (), w)) := by
  refine ⟨fun hpos ↦ ?_, fun hneg ↦ ?_⟩
  · have hends : Ends (alone i j env) (checkExpiredAcks cfg) w (Ended env (loaded env cfg w) w) := by
      unfold checkExpiredAcks
      rw [if_pos hpos]
      refine ends_op ht rfl fun rows w₁ h₁ ↦ ?_
      obtain rfl : loaded env cfg w = rows := Option.some.inj (exec_reads h₁)
      have hk₁ : Kept [.log] w w₁ := kept_exec h₁ rfl
      have hcount : Ends (alone i j env)
          (Prog.when (loaded env cfg w ≠ []) (perform (.increment .messagesExpired))) w₁
          fun r w₂ ↦ r = .ok () ∧ Kept [.log] w₁ w₂ := by
        unfold Prog.when
        split
        · exact ends_perform hk₁.running rfl fun _ w₂ h₂ ↦ ⟨rfl, kept_exec h₂ rfl⟩
        · exact .ret ⟨rfl, .refl hk₁.running⟩
      rw [Prog.ret_bind]
      refine Ends.bind hcount (fun _ w₂ h₂ ↦ ?_) fun e w₂ h₂ ↦ by cases h₂.1
      have hk₂ : Kept [.log] w w₂ := hk₁.trans h₂.2
      have hwait : Waiting (loaded env cfg w) w₂ := by
        have hw : Waiting (loaded env cfg w) w := loaded_waiting hids hfits
        unfold Waiting
        rw [(hk₂.frame.messages (by simp)).1]
        exact hw
      exact (ends_retryLoop hk₂.running ((hk₂.frame.registryOwner (by simp)).trans hfree)
        (loaded_nodup hids) hwait).mono fun r w' h ↦ h.after hk₂
    obtain ⟨r, w', hrun, hend⟩ := hends
    exact ⟨r, w', hrun, hend.ok, fun hr ↦ (hend.passed hr).retried hend.kept (loaded_nodup hids)⟩
  · unfold checkExpiredAcks
    rw [if_neg (by omega)]
    rfl

/-- A broker that has sent two messages of alice: bob is there and carol has gone. -/
def waitingForAck : World :=
  { initial none with
    db := { lastMessageId := 2, messages := [
      { id := 1, type := 2, flags := 2, correlationId := 7, sender := .of [97], destination := .of [98],
        payload := some [120], status := .sent, createdAt := 0, source := none, origin := 1, accepted := [98] },
      { id := 2, type := 2, flags := 2, correlationId := 8, sender := .of [97], destination := .of [99],
        payload := some [121], status := .sent, createdAt := 5, source := none, origin := 2,
          accepted := [99] }] }
    activeClients := AList.insert [98] 0 ∅
    identityToName := AList.insert [1] [98] ∅
    sessions := fun _ ↦ { identity := [1], name := [98] }
    nextSession := 1
    wallClock := 100 }

theorem retry_pass_bob : ∃ w', interp (alone 0 .checkExpiredAcks fun _ ↦ {})
    (checkExpiredAcks {}) waitingForAck =
    some (.ok (), w') ∧ Retried (loaded (fun _ ↦ {}) {} waitingForAck) waitingForAck w' ∧
    (loaded (fun _ ↦ {}) {} waitingForAck).map (·.id) = [1, 2] ∧
    onlineSession waitingForAck [98] = some 0 ∧ onlineSession waitingForAck [99] = none := by
  obtain ⟨r, w', hrun, hok, hretried⟩ := (@retry_pass 0 .checkExpiredAcks (fun _ ↦ {}) waitingForAck {} rfl rfl
    (by decide) (by decide)).1 (by decide)
  obtain rfl := hok fun _ ↦ ⟨rfl, rfl⟩
  exact ⟨w', hrun, hretried rfl, by decide, by decide, by decide⟩

end MessageBroker.RetryPass
