import MessageBroker.AcceptBlocks
import MessageBroker.CorrelationTable

namespace MessageBroker.AckOutcomes

open ByteStrings WireMessages OrderedSelection MessageStore ProgramTrees SequentialRuns BrokerState
  SessionQueues ClientRegistry MessageHandlers ServerJobs OperationEffects StoreInvariant SharedInvariant
  IsolatedRuns AcceptBlocks

variable {i : ℕ} {j : Job} {env : Op → Choice} {w w' w₁ : World} {msg n : Message} {owner : Bytes} {id : ℕ}
  {session : Option ℕ}

/-- What the lookups of the handler find. Zero stands for none. -/
def lookedUp (env : Op → Choice) (db : Database) (msg : Message) : ℕ :=
  let ch := env (.findMessageIdByCorrelation msg.correlationId)
  let ch' := env (.findMessageIdByCorrelationAndDestination msg.correlationId msg.sender)
  let id := if ch.dbError then 0 else db.findMessageIdByCorrelation ch.tie msg.correlationId
  if id = 0 then
    if ch'.dbError then 0
    else db.findMessageIdByCorrelationAndDestination ch'.tie msg.correlationId msg.sender
  else id

/-- The handler marks row `id` as delivered. -/
structure Marks (env : Op → Choice) (db : Database) (msg : Message) (id : ℕ) : Prop where
  nonzero : msg.correlationId ≠ 0
  found : lookedUp env db msg = id
  exists_row : id ≠ 0
  answer : (env (.needsAck id)).dbError = false ∧ db.needsAck id = true
  marked : (env (.markDelivered id)).dbError = false

/-- The notification `n` has been stored in `rows` or handed over in `sends`. -/
structure Notice (env : Op → Choice) (n : Message) (w w' : World) (rows : List Row)
    (sends : List PendingSend) : Prop where
  messages : w'.db.messages = w.db.messages ++ rows
  pendingSends : w'.pendingSends = w.pendingSends ++ sends
  stored : ∀ row ∈ rows, row.id = w.db.lastMessageId + 1 ∧ Records row n
  sent : ∀ x ∈ sends, x.copy.msg = n
  once : n.Fits → (∀ c, (env (.saveMessage c)).dbError = false) → rows.length + sends.length = 1

def noticeParts : List Part :=
  [.log, .messages, .correlations, .registryOwner, .owners, .presence, .pendingSends]

structure Announced (env : Op → Choice) (n : Message) (w w' : World) : Prop where
  kept : Kept noticeParts w w'
  notice : ∃ rows sends, Notice env n w w' rows sends

def quietParts : List Part := [.log, .correlations, .registryOwner, .owners]

theorem Announced.after (h : Announced env n w₁ w') (hk : Kept quietParts w w₁) : Announced env n w w' := by
  obtain ⟨rows, sends, hn⟩ := h.notice
  obtain ⟨hmsg, hlast⟩ := hk.frame.messages (by simp [quietParts])
  have hsends := hk.frame.pendingSends (by simp [quietParts])
  refine ⟨(hk.weaken (by simp [quietParts, noticeParts])).trans h.kept, rows, sends, hmsg ▸ hn.messages,
    hsends ▸ hn.pendingSends, fun row hrow ↦ ?_, hn.sent, hn.once⟩
  rw [← hlast]
  exact hn.stored row hrow

theorem Announced.quiet (h : Announced env n w w₁) (hk : Kept quietParts w₁ w') : Announced env n w w' := by
  obtain ⟨rows, sends, hn⟩ := h.notice
  exact ⟨h.kept.trans (hk.weaken (by simp [quietParts, noticeParts])), rows, sends,
    (hk.frame.messages (by simp [quietParts])).1.trans hn.messages,
    (hk.frame.pendingSends (by simp [quietParts])).trans hn.pendingSends, hn.stored, hn.sent, hn.once⟩

theorem ends_storeNotice (ht : w.terminated = false) :
    Ends (alone i j env) ((saveMessage ⟨n, none, n.destination⟩).bind fun _ ↦ .ret ()) w fun _ w' ↦
      Announced env n w w' := by
  have hsave : Ends (alone i j env) (saveMessage ⟨n, none, n.destination⟩) w fun _ w' ↦
      Announced env n w w' := by
    refine ends_op ht rfl fun r w₁ he ↦ .lift ⟨(kept_exec he rfl).weaken (by simp [writes, noticeParts]), ?_⟩
    have hsends := (exec_frame he).pendingSends (by simp [writes])
    obtain ⟨hd, -, hdb⟩ | ⟨-, hdb⟩ := exec_saveMessage he
    · refine ⟨[], [], ?_, ?_, by simp, by simp, fun _ hok ↦ ?_⟩
      · rw [hdb, List.append_nil]
      · rw [hsends, List.append_nil]
      · cases hd.symm.trans (hok _)
    · refine ⟨[w.db.newRow w.wallClock ⟨n, none, n.destination⟩], [], ?_, ?_, ?_, by simp, fun _ _ ↦ rfl⟩
      · rw [hdb]
        rfl
      · rw [hsends, List.append_nil]
      · intro row hrow
        rw [List.mem_singleton.mp hrow]
        exact ⟨rfl, records_newRow _ _⟩
  exact Ends.bind hsave (fun _ w₁ h₁ ↦ .ret h₁) fun e w₁ h₁ ↦ h₁

theorem ends_sendNotice {s : ℕ} (ht : w.terminated = false) (hon : (w.sessions s).isOnline = true) :
    Ends (alone i j env) ((sendMessage s ⟨n, none, n.destination⟩).bind fun _ ↦ .ret ()) w fun _ w' ↦
      Announced env n w w' := by
  by_cases hfits : n.Fits
  · refine Ends.bind (ends_sendMessage ht hon hfits) (fun _ w₁ h₁ ↦ .ret ?_) fun e w₁ h₁ ↦ by cases h₁.1
    obtain ⟨-, hk, x, hx, hcopy, -⟩ := h₁
    refine ⟨hk.weaken (by simp [noticeParts]), [], [x], ?_, hx, by simp, ?_, fun _ _ ↦ rfl⟩
    · rw [(hk.frame.messages (by simp)).1, List.append_nil]
    · intro y hy
      rw [List.mem_singleton.mp hy, hcopy]
  · refine Ends.bind (ends_sendMessage_unfit ht hon hfits) (fun _ w₁ h₁ ↦ .ret ?_) fun e w₁ h₁ ↦ by cases h₁.1
    obtain ⟨-, hk⟩ := h₁
    refine ⟨hk.weaken (by simp [noticeParts]), [], [], ?_, ?_, by simp, by simp, fun h ↦ absurd h hfits⟩
    · rw [(hk.frame.messages (by simp)).1, List.append_nil]
    · rw [hk.frame.pendingSends (by simp), List.append_nil]

theorem ends_notifySender (ht : w.terminated = false) :
    Ends (alone i j env) (notifySender n session) w fun _ w' ↦ Announced env n w w' := by
  refine Ends.bind (ends_isOnlineSession ht) (fun online w₁ h₁ ↦ ?_) fun e w₁ h₁ ↦ by cases h₁.1
  obtain ⟨honline, hk⟩ := h₁
  obtain rfl := Except.ok.inj honline
  have hafter {w'} (h : Announced env n w₁ w') : Announced env n w w' :=
    h.after (hk.weaken (by simp [quietParts]))
  have hstore : Ends (alone i j env) ((saveMessage ⟨n, none, n.destination⟩).bind fun _ ↦ .ret ()) w₁ fun _ w' ↦
      Announced env n w w' := (ends_storeNotice hk.running).mono fun _ _ ↦ hafter
  cases session with
  | none => exact hstore
  | some s =>
    cases hon : (w.sessions s).isOnline with
    | false =>
      simp only [Option.any_some, hon]
      exact hstore
    | true =>
      simp only [Option.any_some, hon]
      exact (ends_sendNotice hk.running (by rw [hk.frame.presence (by simp), hon])).mono fun _ _ ↦ hafter

theorem ends_notify (ht : w.terminated = false) (hfree : w.registryOwner = none) :
    Ends (alone i j env) ((findSession owner).bind fun session ↦ holding session (notifySender n session)) w
      fun _ w' ↦ Announced env n w w' := by
  refine Ends.bind (ends_findSession ht hfree) (fun session w₁ h₁ ↦ ?_) fun e w₁ h₁ ↦ by cases h₁.1
  obtain ⟨hsession, hlooked⟩ := h₁
  obtain rfl := Except.ok.inj hsession
  have hk : Kept quietParts w w₁ := hlooked.kept.weaken (by simp [quietParts])
  refine ends_holding (ends_notifySender hlooked.kept.running) (fun r w₂ h₂ ↦ ⟨h₂.kept.running, fun s hs ↦ ?_⟩)
    fun r w₂ w₃ h₂ h₃ ↦ (h₂.quiet (h₃.weaken (by simp [quietParts]))).after hk
  exact registered_of_clients ((h₂.kept.frame.clients (by simp [noticeParts])).trans hlooked.clients)
    (registered_of_lookup hs)

def marked (id : ℕ) (w : World) : World := w.setDb (w.db.markDelivered id)

/-- What the handler has done when it had found row `id` and the given owner of
the correlation. -/
structure Acknowledged (env : Op → Choice) (msg : Message) (owner : Bytes) (id : ℕ) (w w' : World) : Prop where
  failed : (env (.markDelivered id)).dbError = true →
    w'.db.messages = w.db.messages ∧ w'.pendingSends = w.pendingSends
  unowned : (env (.markDelivered id)).dbError = false → owner = [] →
    w'.db.messages = (marked id w).db.messages ∧ w'.pendingSends = w.pendingSends
  owned : (env (.markDelivered id)).dbError = false → owner ≠ [] → ∃ rows sends,
    Notice env (ackNotification msg.sender owner msg.correlationId) (marked id w) w' rows sends

theorem ends_acknowledge (ht : w.terminated = false) (hfree : w.registryOwner = none) :
    Ends (alone i j env) (acknowledge msg owner id) w fun _ w' ↦ Acknowledged env msg owner id w w' := by
  have hmark : Ends (alone i j env) (markDelivered id) w fun r w₁ ↦ Kept [.log, .messages] w w₁ ∧
      ((env (.markDelivered id)).dbError = true ∧ (∃ e, r = .error e) ∧ w₁.db.messages = w.db.messages ∨
        (env (.markDelivered id)).dbError = false ∧ r = .ok () ∧ w₁.db = w.db.markDelivered id) := by
    refine ends_op ht rfl fun r w₁ he ↦ .lift ⟨kept_exec he rfl, ?_⟩
    obtain ⟨hd, herr, hdb⟩ | ⟨⟨hr, hd⟩, hdb⟩ := exec_markDelivered he
    · exact .inl ⟨hd, herr, by rw [hdb]⟩
    · exact .inr ⟨hd, hr, hdb⟩
  refine Ends.bind hmark (fun _ w₁ h₁ ↦ ?_) fun e w₁ h₁ ↦ ?_
  · obtain ⟨hk₁, ⟨-, ⟨e, he⟩, -⟩ | ⟨hd, -, hdb⟩⟩ := h₁
    · cases he
    · have hsends₁ := hk₁.frame.pendingSends (by simp)
      refine ends_op hk₁.running rfl fun _ w₂ he₂ ↦ ?_
      have hk₂ : Kept quietParts w₁ w₂ := (kept_exec he₂ rfl).weaken (by simp [writes, quietParts])
      refine ends_op hk₂.running rfl fun _ w₃ he₃ ↦ ?_
      have hk₃ : Kept quietParts w₁ w₃ := hk₂.trans ((kept_exec he₃ rfl).weaken (by simp [writes, quietParts]))
      have hfree₃ : w₃.registryOwner = none := by
        rw [(exec_frame he₃).registryOwner (by simp [writes]), (exec_frame he₂).registryOwner (by simp [writes]),
          hk₁.frame.registryOwner (by simp), hfree]
      have hfailed {P : Prop} (h : (env (.markDelivered id)).dbError = true) : P := by cases h.symm.trans hd
      by_cases howner : owner = []
      · rw [if_neg (not_not_intro howner)]
        refine .ret ⟨hfailed, fun _ _ ↦ ⟨?_, ?_⟩, fun _ h ↦ absurd howner h⟩
        · rw [(hk₃.frame.messages (by simp [quietParts])).1, hdb]
          rfl
        · rw [hk₃.frame.pendingSends (by simp [quietParts]), hsends₁]
      · rw [if_pos howner]
        refine (ends_notify hk₃.running hfree₃).mono fun _ w' h ↦
          ⟨hfailed, fun _ h ↦ absurd h howner, fun _ _ ↦ ?_⟩
        obtain ⟨rows, sends, hn⟩ := (h.after hk₃).notice
        refine ⟨rows, sends, ?_, ?_, ?_, hn.sent, hn.once⟩
        · rw [hn.messages, hdb]
          rfl
        · rw [hn.pendingSends, hsends₁]
          rfl
        · have hstored := hn.stored
          rw [hdb] at hstored
          exact hstored
  · obtain ⟨hk₁, ⟨hd, -, hmsg⟩ | ⟨-, hr, -⟩⟩ := h₁
    · have hfails {P : Prop} (h : (env (.markDelivered id)).dbError = false) : P := by cases h.symm.trans hd
      exact ⟨fun _ ↦ ⟨hmsg, hk₁.frame.pendingSends (by simp)⟩, fun h ↦ hfails h, fun h ↦ hfails h⟩
    · cases hr

theorem ends_findAcknowledged (ht : w.terminated = false) :
    Ends (alone i j env) (findAcknowledged msg) w fun r w' ↦
      r = .ok (lookedUp env w.db msg) ∧ Kept [.log] w w' ∧ w'.db = w.db := by
  refine ends_read (a := if (env (.findMessageIdByCorrelation msg.correlationId)).dbError then 0
    else w.db.findMessageIdByCorrelation
      (env (.findMessageIdByCorrelation msg.correlationId)).tie msg.correlationId)
    ht rfl fun w₁ hk₁ hdb₁ ↦ ?_
  by_cases hid : (if (env (.findMessageIdByCorrelation msg.correlationId)).dbError then 0
    else w.db.findMessageIdByCorrelation
      (env (.findMessageIdByCorrelation msg.correlationId)).tie msg.correlationId) = 0
  · rw [Prog.ret_bind, if_pos hid]
    refine ends_read
      (a := if (env (.findMessageIdByCorrelationAndDestination msg.correlationId msg.sender)).dbError then 0
      else w.db.findMessageIdByCorrelationAndDestination
        (env (.findMessageIdByCorrelationAndDestination msg.correlationId msg.sender)).tie
        msg.correlationId msg.sender)
      hk₁.running (by rw [← hdb₁]; rfl) fun w₂ hk₂ hdb₂ ↦ .ret ⟨?_, hk₁.trans hk₂, hdb₂.trans hdb₁⟩
    rw [lookedUp, if_pos hid]
  · rw [Prog.ret_bind, if_neg hid]
    refine .ret ⟨?_, hk₁, hdb₁⟩
    rw [lookedUp, if_neg hid]

/-- What the handler makes of an acknowledgement. -/
structure Outcome (env : Op → Choice) (msg : Message) (w w' : World) : Prop where
  ignored : (∀ id, ¬ Marks env w.db msg id) →
    w'.db.messages = w.db.messages ∧ w'.pendingSends = w.pendingSends
  unowned : ∀ id, Marks env w.db msg id → originalSender env w msg = [] →
    w'.db.messages = (marked id w).db.messages ∧ w'.pendingSends = w.pendingSends
  owned : ∀ id, Marks env w.db msg id → originalSender env w msg ≠ [] → ∃ rows sends,
    Notice env (ackNotification msg.sender (originalSender env w msg) msg.correlationId)
      (marked id w) w' rows sends

theorem outcome_of_ignored (h : ∀ id, ¬ Marks env w.db msg id) (hk : Kept [.log] w w') : Outcome env msg w w' :=
  ⟨fun _ ↦ ⟨(hk.frame.messages (by simp)).1, hk.frame.pendingSends (by simp)⟩, fun id hm ↦ absurd hm (h id),
    fun id hm ↦ absurd hm (h id)⟩

theorem outcome_of_acknowledged (hc : msg.correlationId ≠ 0) (hid : lookedUp env w.db msg = id) (hne : id ≠ 0)
    (hack : (env (.needsAck id)).dbError = false ∧ w.db.needsAck id = true) (hk : Kept [.log] w w₁)
    (hdb : w₁.db = w.db)
    (h : Acknowledged env msg (originalSender env w msg) id w₁ w') : Outcome env msg w w' := by
  have hsends := hk.frame.pendingSends (by simp)
  have hmarked : (marked id w₁).db = (marked id w).db := congrArg (·.markDelivered id) hdb
  refine ⟨fun hno ↦ ?_, fun id' hm howner ↦ ?_, fun id' hm howner ↦ ?_⟩
  · have hfailed : (env (.markDelivered id)).dbError = true := by
      by_contra hd
      exact hno id ⟨hc, hid, hne, hack, by simpa using hd⟩
    obtain ⟨hmsg, hs⟩ := h.failed hfailed
    exact ⟨by rw [hmsg, hdb], hs.trans hsends⟩
  · obtain rfl : id = id' := hid.symm.trans hm.found
    obtain ⟨hmsg, hs⟩ := h.unowned hm.marked howner
    exact ⟨by rw [hmsg, hmarked], hs.trans hsends⟩
  · obtain rfl : id = id' := hid.symm.trans hm.found
    obtain ⟨rows, sends, hn⟩ := h.owned hm.marked howner
    have hstored := hn.stored
    rw [hmarked] at hstored
    exact ⟨rows, sends, by rw [hn.messages, hmarked],
      by rw [hn.pendingSends]; exact congrArg (· ++ sends) hsends, hstored, hn.sent, hn.once⟩

theorem ends_ackHandler (ht : w.terminated = false) (hfree : w.registryOwner = none) :
    Ends (alone i j env) (ackHandler msg) w fun _ w' ↦ Outcome env msg w w' := by
  unfold ackHandler
  by_cases hc : msg.correlationId = 0
  · rw [if_neg (not_not_intro hc)]
    exact .ret (outcome_of_ignored (fun id hm ↦ hm.nonzero hc) (.refl ht))
  rw [if_pos hc]
  refine ends_read (a := originalSender env w msg) ht rfl fun w₁ hk₁ hdb₁ ↦ ?_
  rw [Prog.ret_bind]
  refine Ends.bind (ends_findAcknowledged hk₁.running) (fun id w₂ h₂ ↦ ?_) fun e w₂ h₂ ↦ by cases h₂.1
  obtain ⟨hid, hk₂, hdb₂⟩ := h₂
  rw [hdb₁] at hid
  have hid : lookedUp env w.db msg = id := (Except.ok.inj hid).symm
  have hk : Kept [.log] w w₂ := hk₁.trans hk₂
  have hdb : w₂.db = w.db := hdb₂.trans hdb₁
  by_cases hne : id = 0
  · rw [if_neg (not_not_intro hne)]
    exact .ret (outcome_of_ignored (fun id' hm ↦ hm.exists_row (hm.found.symm.trans (hid.trans hne))) hk)
  rw [if_pos hne]
  refine ends_read (a := !(env (.needsAck id)).dbError && w.db.needsAck id) hk.running
    (by rw [← hdb]; rfl) fun w₃ hk₃ hdb₃ ↦ ?_
  have hk' : Kept [.log] w w₃ := hk.trans hk₃
  have hdb' : w₃.db = w.db := hdb₃.trans hdb
  rw [Prog.ret_bind, Prog.when]
  split
  · next hack =>
    have hack : (env (.needsAck id)).dbError = false ∧ w.db.needsAck id = true := by simpa using hack
    refine (ends_acknowledge hk'.running ?_).mono fun _ w' h ↦
      outcome_of_acknowledged hc hid hne hack hk' hdb' h
    rw [hk'.frame.registryOwner (by simp), hfree]
  · next hack =>
    refine .ret (outcome_of_ignored (fun id' hm ↦ hack ?_) hk')
    obtain rfl : id = id' := hid.symm.trans hm.found
    simp [hm.answer]

end MessageBroker.AckOutcomes
