import MessageBroker.DeliveryOutlines

namespace MessageBroker.HandlerOutlines

open ByteStrings WireMessages MessageStore ProgramTrees ProofOutlines BrokerState SessionQueues
  ClientRegistry MessageHandlers StoreInvariant OperationEffects ThreadViews SharedInvariant
  OutlineRules QueueOutlines RegistryOutlines DeliveryOutlines

variable {cfg : Config} {i : ℕ} {j : Job} {w w' : World} {s id : ℕ} {c : Copy} {msg : Message}
  {name : Bytes}

/-- A thread that holds no mutex and owes nothing. -/
structure Ready (i : ℕ) (w : World) : Prop extends Unlocked i w where
  settled : Settled i w

theorem Ready.works (h : Ready i w) (hw : Works i (hold i w) w w') (hs : Settled i w') :
    Ready i w' :=
  ⟨⟨works_outside hw h.toOutside, by rw [hw.owns]; exact h.registry⟩, hs⟩

theorem Ready.same (h : Ready i w) (hs : Same i w w') : Ready i w' :=
  h.works (.of_same hs) (h.settled.keeps hs.books)

theorem Ready.acquire {session : Option ℕ} (h : Ready i w)
    (hm : Moves i ((hold i w).acquire session) (account i w.log) w w') : Ready i w' where
  queues s := by
    rw [hm.owns, Hold.queues_acquire]
    exact h.queues s
  unpopped := hm.books.unpopped.trans h.unpopped
  registry := by
    rw [hm.owns, Hold.registry_acquire]
    exact h.registry
  settled := h.settled.keeps hm.books

theorem works_of_crash (h : Crash i (hold i w) w w') :
    Works i (hold i w) w w' ∧ Settled i w' :=
  ⟨⟨h.owns, h.unpopped, fun _ ↦ h.failed, h.grows⟩, .inr h.failed⟩

theorem delivers_of_smooth {p : Program Unit} {P : Unit → World → Prop} (hs : Settled i w)
    (h : Smooth cfg i j p P w) : Delivers cfg i j p w :=
  Safe.mono h (fun _ _ h ↦ ⟨.of_same h.1, hs.keeps h.1.books⟩) fun _ _ h ↦ h.elim

theorem delivers_of_calm {p : Program Unit} {P : Unit → World → Prop} (hs : Settled i w)
    (h : Calm cfg i j p P w) : Delivers cfg i j p w :=
  Safe.mono h (fun _ _ h ↦ ⟨.of_same h.1, hs.keeps h.1.books⟩) fun _ _ h ↦ h

theorem delivers_seq {p : Program Unit} {f : Unit → Program Unit} (hp : Delivers cfg i j p w)
    (hf : ∀ w', Consistent w' → Works i (hold i w) w w' → Settled i w' →
      Delivers cfg i j (f ()) w') : Delivers cfg i j (p >>= f) w :=
  Safe.seq hp (fun _ _ _ h ↦ h) fun _ w₁ hc₁ h₁ ↦ (hf w₁ hc₁ h₁.1 h₁.2).after h₁.1

theorem delivers_recover {p : Program Unit} {g : String → Program Unit}
    (hp : Delivers cfg i j p w)
    (hg : ∀ e w', Settled i w' → Delivers cfg i j (g e) w') :
    Delivers cfg i j (p.recover g) w :=
  Safe.recover (Safe.mono hp (fun _ _ h ↦ h) fun e w' h ↦
    have hw := works_of_crash h
    (hg e w' hw.2).after hw.1)

theorem delivers_increment {counter : Counter} (hs : Settled i w) :
    Delivers cfg i j (perform (.increment counter)) w :=
  delivers_of_smooth hs (smooth_free _ rfl rfl fun _ ↦ trivial)

/-- The thread may hand over `msg`, which is row `id`. -/
structure Credited (i : ℕ) (msg : Message) (id : ℕ) (w : World) : Prop where
  authentic : Authentic w.db ⟨msg, some id, msg.destination⟩
  credit : plain msg = true → id ∈ (account i w.log).credit

theorem Credited.keeps (h : Credited i msg id w)
    (hk : (account i w.log).Keeps (account i w'.log)) (hg : Grows w w') : Credited i msg id w' :=
  ⟨h.authentic.mono hg.db, fun hp ↦ hk.credit ▸ h.credit hp⟩

/-- A message has been accepted as row `id`. -/
structure Accepted (i : ℕ) (msg : Message) (id : ℕ) (w w' : World) : Prop
    extends Credited i msg id w' where
  works : Works i (hold i w) w w'
  settled : Settled i w → Settled i w'

theorem Accepted.then {w₁ : World} (h : Accepted i msg id w w₁) (hs : Same i w₁ w') :
    Accepted i msg id w w' where
  toCredited := h.toCredited.keeps hs.books hs.grows
  works := h.works.then (.of_same hs)
  settled hw := (h.settled hw).keeps hs.books

theorem accepted_of_saved (hd : Performed i j
      (.saveMessage ⟨msg, none, msg.destination⟩) w (.ok id) w') (hfits : msg.Fits) :
    Accepted i msg id w w' := by
  obtain ⟨r, hr, hid, -, hcar⟩ := hd.saveMessage
  have hb : account i w'.log = if plain msg = true then
      { account i w.log with credit := id :: (account i w.log).credit } else account i w.log := by
    rw [hd.books]
    simp only [Account.note, ne_eq, not_true_eq_false, if_false]
  refine ⟨⟨⟨hfits, fun _ ↦ by simp, by simp, fun id' hid' ↦ ?_⟩, fun hp ↦ ?_⟩,
    ⟨hd.owns rfl, ?_, ?_, hd.grows⟩, ?_⟩
  · obtain rfl := Option.some.inj hid'
    exact ⟨r, hr, hid, ⟨hcar.records.type, hcar.records.flags, hcar.records.correlationId,
      hcar.records.sender, hcar.records.destination, hcar.records.payload⟩, hcar.accepted⟩
  · rw [hb, if_pos hp]
    exact List.mem_cons_self
  · rw [hb]
    split <;> rfl
  · rw [hb]
    split <;> exact fun h ↦ h
  · simp only [Settled, hb]
    split <;> exact fun h ↦ h

theorem Accepted.correlation (h : Accepted i msg id w w') {w₁ : World} (hr : Rely i w' w₁) :
    ∃ r ∈ w₁.db.messages, r.id = id ∧ r.correlationId = msg.correlationId.toInt64 := by
  obtain ⟨r, hr, hid, hcar⟩ := (h.authentic.mono hr.grows.db).row id rfl
  exact ⟨r, hr, hid, hcar.records.correlationId⟩

theorem receives_fits (hj : Receives j msg) : msg.Fits := by
  obtain ⟨identity, data, -, hd⟩ := hj
  exact (WireCodec.serialize_deserialize hd).1

theorem receives_unique {m : Message} (h : Receives j m) (h' : Receives j msg) : m = msg := by
  obtain ⟨identity, data, rfl, hd⟩ := h
  obtain ⟨identity', data', hj, hd'⟩ := h'
  cases hj
  exact Except.ok.inj (hd.symm.trans hd')

theorem safe_acceptMessage (hj : Receives j msg) (ht : msg.type = .message) :
    Safe (env cfg i j) (fun id w' ↦ Accepted i msg id w w') (fun _ ↦ Crash i (hold i w) w)
      (acceptMessage msg) w := by
  have hfits := receives_fits hj
  refine Safe.seq (safe_saveMessage fun _ _ _ ↦ ⟨hfits, .inl ⟨rfl, rfl, msg, hj, ?_⟩⟩)
    (fun _ _ _ h ↦ h) fun id w₁ _ hd ↦ ?_
  · exact .inl ⟨ht, rfl⟩
  have h₁ := accepted_of_saved hd hfits
  refine (Calm.when fun _ ↦ calm_saveCorrelation fun w₂ hr ↦ ?_).seq
    (fun _ _ hcr ↦ h₁.works.crash hcr) fun _ w₂ _ h₂ _ ↦ ?_
  · exact ⟨hfits.1, h₁.correlation hr⟩
  · exact Safe.ret fun w₃ hr _ ↦ h₁.then (h₂.rely hr)

theorem safe_accepting {α : Type} {p : Program α} {P : α → World → Prop}
    {X : String → World → Prop}
    (hp : Safe (env cfg i j) P (fun _ ↦ Crash i (hold i w) w) p w) :
    Safe (env cfg i j)
      (fun a w' ↦ (∃ x, a = some x ∧ P x w') ∨ a = none ∧ Crash i (hold i w) w w') X
      (accepting p) w := by
  refine Safe.recover (Safe.bind (hp.settled.mono (fun x w₁ h ↦ ?_) fun e w₁ h ↦ ?_))
  · exact fun w₂ hr hc ↦ .inl ⟨x, rfl, h w₂ hr hc⟩
  · refine (smooth_free (.increment .messagesFailed) rfl rfl fun _ ↦ trivial).seq
      fun _ w₂ _ h₂ _ ↦ ?_
    exact fun w₃ hr _ ↦ .inr ⟨rfl, (Crash.then h h₂).then (.of_rely hr)⟩

theorem serving_works {session : Option ℕ} (h : Serving i j session name w)
    (hw : Works i (hold i w) w w') (hs : Settled i w') : Serving i j session name w' where
  unlocked := (Ready.works ⟨h.unlocked, h.settled⟩ hw hs).toUnlocked
  pointer s heq := by
    rw [hw.owns]
    exact h.pointer s heq
  named s heq := (h.named s heq).grows hw.grows
  receives := h.receives
  settled := hs

theorem serving_delivering {session : Option ℕ} (h : Serving i j session msg.destination w)
    (hs : session = some s) (ha : Credited i msg id w) :
    Delivering i j s msg.destination [⟨id, msg, msg.destination⟩] w where
  outside := h.unlocked.toOutside
  pointer := h.pointer s hs
  named := h.named s hs
  receives := h.receives
  settled := h.settled
  authentic p hp := by
    rw [List.mem_singleton.mp hp]
    exact ha.authentic
  credit p hp hpl := by
    rw [List.mem_singleton.mp hp] at hpl ⊢
    exact ha.credit hpl
  nodup := by simp
  addressed p hp := by
    rw [List.mem_singleton.mp hp]
    exact .inl rfl

theorem delivers_markPending (hs : Settled i w) :
    Delivers cfg i j ((markPending id).recover fun _ ↦ pure ()) w :=
  delivers_recover (delivers_of_calm hs calm_markPending) fun _ _ hs ↦ Delivers.ret hs

theorem delivers_giveUp (hs : Settled i w) : Delivers cfg i j (do
    perform (.markOffline s)
    perform (.increment .messagesFailed)) w :=
  delivers_seq (delivers_of_smooth hs (smooth_free (.markOffline s) rfl rfl fun _ ↦ trivial))
    fun _ _ _ hs ↦ delivers_increment hs

theorem delivers_rollBack (hs : Settled i w) : Delivers cfg i j (rollBack id s) w :=
  delivers_seq (delivers_markPending hs) fun _ _ _ hs ↦ delivers_giveUp hs

theorem delivers_markHandedOver
    (h : Delivering i j s name [⟨id, msg, msg.destination⟩] w)
    (hm : Moves i (hold i w) ((account i w.log).spend ⟨msg, some id, msg.destination⟩) w w') :
    Safe (env cfg i j) (fun _ w₂ ↦ Works i (hold i w) w w₂ ∧ Settled i w₂)
      (fun _ ↦ Crash i (hold i w) w) (markHandedOver msg id) w' := by
  have hw : Works i (hold i w) w w' :=
    .of_moves hm Account.spend_unpopped Account.spend_failed
  refine Safe.recover ?_
  cases hn : msg.needsAck with
  | true =>
    have hauth := (h.authentic _ List.mem_cons_self).mono hm.grows.db
    have hs : Settled i w' := (h.next hm (.inl ⟨rfl, hn⟩)).settled
    refine Safe.mono (calm_markSent_pending hauth hn)
      (fun _ w₂ h₂ ↦ ⟨hw.then (.of_same h₂.1), hs.keeps h₂.1.books⟩) fun e w₂ h₂ ↦ ?_
    have h₂' := works_of_crash h₂
    exact (delivers_increment h₂'.2).after (hw.then h₂'.1)
  | false =>
    refine (safe_markRow h hm fun hn' ↦ nomatch hn.symm.trans hn').mono
      (fun _ w₂ h₂ ↦ ⟨h₂.1, h₂.2.1.settled⟩) fun e w₂ h₂ ↦ ?_
    have h₂' := works_of_crash h₂
    exact (delivers_increment h₂'.2).after h₂'.1

theorem delivers_sendNow {session : Option ℕ} (h : Serving i j session msg.destination w)
    (hs : session = some s) (ha : Credited i msg id w) :
    Delivers cfg i j (sendNow msg id s) w := by
  refine delivers_recover ?_ fun _ _ hs ↦ delivers_rollBack hs
  refine (smooth_free (.updateLastReceive s) rfl rfl fun _ ↦ trivial).seq
    fun _ w₁ _ h₁ _ ↦ ?_
  have hd := serving_delivering (h.same h₁) hs (ha.keeps h₁.books h₁.grows)
  refine Safe.seq (safe_sendMessage hd.handOver hd.named.1 hd.outside)
    (fun _ _ _ hcr ↦ h₁.crash rfl hcr) fun ok w₂ _ h₂ ↦ ?_
  obtain ⟨h₂, rfl⟩ := h₂
  exact (delivers_markHandedOver hd h₂).mono
    (fun _ _ h₃ ↦ ⟨(Works.of_same h₁).then h₃.1, h₃.2⟩) fun _ _ hcr ↦ h₁.crash rfl hcr

theorem smooth_isOnlineSession {session : Option ℕ} :
    Smooth cfg i j (isOnlineSession session) (fun _ _ ↦ True) w := by
  cases session with
  | none => exact Smooth.ret fun _ _ _ ↦ trivial
  | some s => exact smooth_free (.isOnline s) rfl rfl fun _ ↦ trivial

theorem delivers_when {b : Bool} {p : Program Unit} (hs : Settled i w)
    (hp : b = true → Delivers cfg i j p w) : Delivers cfg i j (Prog.when b p) w := by
  unfold Prog.when
  split
  · exact hp ‹_›
  · exact Delivers.ret hs

theorem delivers_handleMessage {session : Option ℕ} (hj : Receives j msg)
    (ht : msg.type = .message) (h : Serving i j session msg.destination w) :
    Delivers cfg i j (handleMessage msg session) w := by
  refine smooth_isOnlineSession.seq fun online w₁ _ h₁ _ ↦ ?_
  have hserve := h.same h₁
  refine Safe.seq (safe_accepting (safe_acceptMessage hj ht)) (Y := fun _ _ ↦ False)
    (fun _ _ _ h ↦ h.elim) fun r w₂ _ h₂ ↦ ?_
  have hw₁ : Works i (hold i w) w w₁ := .of_same h₁
  obtain ⟨id, rfl, ha⟩ | ⟨rfl, hcr⟩ := h₂
  · have hs₂ := ha.settled hserve.settled
    have hserve₂ := serving_works hserve ha.works hs₂
    cases session with
    | none => exact (Delivers.ret hs₂).after (hw₁.then ha.works)
    | some s =>
      exact (delivers_when hs₂ fun _ ↦ delivers_sendNow hserve₂ rfl ha.toCredited).after
        (hw₁.then ha.works)
  · have hw₂ := works_of_crash hcr
    exact (Delivers.ret hw₂.2).after (hw₁.then hw₂.1)

theorem delivers_messageHandler (hj : Receives j msg) (ht : msg.type = .message)
    (hr : Ready i w) : Delivers cfg i j (messageHandler msg) w :=
  delivers_withSession hr.toUnlocked hr.settled ⟨msg, hj⟩ fun _ _ h _ ↦
    delivers_handleMessage hj ht h

theorem performed_findOriginalSender {corr : UInt64} {owner : Bytes}
    (h : Performed i j (.findOriginalSenderByCorrelation corr) w owner w') :
    owner.length ≤ 255 ∧ NulFree owner := by
  obtain ⟨ch, w₁, w₂, -, hc, he, -⟩ := h.moment
  have hr : some (if ch.dbError = true then [] else
    w₁.db.findOriginalSenderByCorrelation ch.tie corr) = some owner := exec_reads he
  rw [← Option.some.inj hr]
  split
  · exact ⟨Nat.zero_le _, List.not_mem_nil⟩
  unfold Database.findOriginalSenderByCorrelation
  cases hk : w₁.db.latestCorrelation ch.tie corr with
  | none => exact ⟨Nat.zero_le _, List.not_mem_nil⟩
  | some k =>
    have hmem := (List.mem_filter.mp (OrderedSelection.mem_of_latest hk)).1
    exact ⟨(hc.store.correlations k hmem).1, k.originalSender.property⟩

theorem safe_acceptReply (hj : Receives j msg) (ht : msg.type = .reply) :
    Safe (env cfg i j) (fun a w' ↦ Accepted i a.2 a.1 w w') (fun _ ↦ Crash i (hold i w) w)
      (acceptReply msg) w := by
  have hfits := receives_fits hj
  refine (smooth_op (.findOriginalSenderByCorrelation msg.correlationId) rfl rfl
    fun _ _ _ _ ↦ trivial).seq fun owner w₁ _ h₁ hd ↦ ?_
  obtain ⟨hlen, hnul⟩ := performed_findOriginalSender hd
  have hw₁ : Works i (hold i w) w w₁ := .of_same h₁
  have save {replyMsg : Message} {correlationOwner : Bytes} (hf : replyMsg.Fits)
      (ho : correlationOwner.length ≤ 255)
      (hm : ∃ d, replyMsg = { msg with destination := d } ∧ (d = msg.destination ∨ NulFree d)) :
      Safe (env cfg i j) (fun a w' ↦ Accepted i a.2 a.1 w w') (fun _ ↦ Crash i (hold i w) w) (do
        let messageId ← saveMessage ⟨replyMsg, none, replyMsg.destination⟩
        saveCorrelation messageId msg.correlationId correlationOwner
        return (messageId, replyMsg)) w₁ := by
    refine Safe.seq (safe_saveMessage fun _ _ _ ↦ ⟨hf, .inl ⟨rfl, rfl, msg, hj, ?_⟩⟩)
      (fun _ _ _ hcr ↦ h₁.crash rfl hcr) fun id w₂ _ hd₂ ↦ ?_
    · exact .inr (.inl ⟨ht, hm⟩)
    have h₂ := accepted_of_saved hd₂ hf
    have hcorr : replyMsg.correlationId = msg.correlationId := by
      obtain ⟨d, rfl, -⟩ := hm
      rfl
    refine Calm.seq (calm_saveCorrelation fun w₃ hr ↦ ⟨ho, hcorr ▸ h₂.correlation hr⟩)
      (fun _ _ hcr ↦ (hw₁.then h₂.works).crash hcr) fun _ w₃ _ h₃ _ ↦ ?_
    refine Safe.ret fun w₄ hr _ ↦ ?_
    have h₄ := h₂.then (h₃.rely hr)
    exact ⟨h₄.toCredited, hw₁.then h₄.works, fun hs ↦ h₄.settled (hs.keeps h₁.books)⟩
  by_cases ho : owner = []
  · simp only [if_pos ho]
    exact save hfits hfits.2.1 ⟨msg.destination, rfl, .inl rfl⟩
  · simp only [if_neg ho]
    exact save ⟨hfits.1, hlen, hfits.2.2⟩ hlen ⟨owner, rfl, .inr hnul⟩

theorem delivers_sendReply {session : Option ℕ} (h : Serving i j session msg.destination w)
    (hs : session = some s) (ha : Credited i msg id w) :
    Delivers cfg i j (sendReply msg id s) w := by
  have hd := serving_delivering h hs ha
  refine delivers_recover ?_ fun _ _ hs ↦ delivers_rollBack hs
  refine safe_handRow hd (fun _ _ hcr ↦ hcr) fun w₁ _ h₁ ↦ ?_
  change Safe _ _ _ (Prog.when (!msg.needsAck) (markDelivered id)) w₁
  have hw : Works i (hold i w) w w₁ :=
    .of_moves h₁ Account.spend_unpopped Account.spend_failed
  cases hn : msg.needsAck with
  | true =>
    have hs₁ : Settled i w₁ := (hd.next h₁ (.inl ⟨rfl, hn⟩)).settled
    exact (Delivers.ret hs₁).after hw
  | false =>
    exact (safe_markRow hd h₁ fun hn' ↦ nomatch hn.symm.trans hn').mono
      (fun _ w₂ h₂ ↦ ⟨h₂.1, h₂.2.1.settled⟩) fun _ _ hcr ↦ hcr

theorem delivers_replyHandler (hj : Receives j msg) (ht : msg.type = .reply)
    (hr : Ready i w) : Delivers cfg i j (replyHandler msg) w := by
  refine Safe.seq (safe_accepting (safe_acceptReply hj ht)) (Y := fun _ _ ↦ False)
    (fun _ _ _ h ↦ h.elim) fun r w₁ _ h₁ ↦ ?_
  obtain ⟨⟨id, replyMsg⟩, rfl, ha⟩ | ⟨rfl, hcr⟩ := h₁
  · have hr₁ := hr.works ha.works (ha.settled hr.settled)
    refine (delivers_withSession hr₁.toUnlocked hr₁.settled ⟨msg, hj⟩
      fun session w₂ hserve hm ↦ ?_).after ha.works
    refine smooth_isOnlineSession.seq fun online w₃ _ h₃ _ ↦ ?_
    have hserve₃ := hserve.same h₃
    cases session with
    | none => exact (Delivers.ret hserve₃.settled).after (.of_same h₃)
    | some s =>
      have ha₃ : Credited i replyMsg id w₃ :=
        (ha.keeps hm.books hm.grows).keeps h₃.books h₃.grows
      exact (delivers_when hserve₃.settled fun _ ↦ delivers_sendReply hserve₃ rfl ha₃).after
        (.of_same h₃)
  · have hw₁ := works_of_crash hcr
    exact (Delivers.ret hw₁.2).after hw₁.1

theorem performed_needsAck (h : Performed i j (.needsAck id) w true w') :
    ∃ r ∈ w'.db.messages, r.id = id ∧ r.needsAck = true := by
  obtain ⟨ch, w₁, w₂, -, -, he, hg, -, h₂⟩ := h
  have hr : some (!ch.dbError && w₁.db.needsAck id) = some true := exec_reads he
  have hn := Option.some.inj hr
  rw [Bool.and_eq_true, Database.needsAck, Option.any_eq_true] at hn
  obtain ⟨-, r, hrow, hack⟩ := hn
  rw [Bool.and_eq_true] at hack
  obtain ⟨hmem, hid⟩ := mem_of_row? hrow
  obtain ⟨st, hst⟩ := (hg.db.trans h₂.grows.db) r hmem
  exact ⟨_, hst, hid, hack.1⟩

theorem needsAck_row {r : Row} (hc : Consistent w) (hr : r ∈ w.db.messages)
    (hn : r.needsAck = true) : plain r.message = false := by
  obtain ⟨m, -, hm⟩ := hc.store.columns r hr
  rw [hm.plain]
  exact plain_of_needsAck (hm.needsAck.symm.trans hn)

theorem safe_acknowledgeRow (hj : Receives j msg) (ht : msg.type = .ack)
    (hs : Settled i w) (hrow : ∃ r ∈ w.db.messages, r.id = id ∧ r.needsAck = true) :
    Delivers cfg i j (markDelivered id) w := by
  refine (safe_markDelivered fun w₁ hr hc₁ r hmem hid ↦ ⟨fun hp ↦ ?_, fun _ ↦ ?_⟩).mono
    (fun _ w₁ h₁ ↦ ⟨.of_moves h₁ rfl rfl, ?_⟩) fun _ _ hcr ↦ hcr
  · obtain ⟨r₀, hr₀, rfl, hn⟩ := hrow
    obtain ⟨st, hst⟩ := hr.grows.db r₀ hr₀
    obtain rfl := id_inj hc₁.store hmem hst hid
    exact nomatch (needsAck_row hc₁ hmem hn).symm.trans hp
  · exact .inl ⟨msg, hj, ht⟩
  · refine hs.imp (fun hd ↦ h₁.books.debt.trans ?_) h₁.books.failed
    rw [Account.settle, hd, List.filter_nil]

theorem not_plain_ack {m : Message} (ht : m.type = .ack) : plain m = false := by
  simp [plain, ht]

theorem delivers_notifySender {session : Option ℕ} {notification : Message}
    (hj : Receives j msg) (ht : msg.type = .ack) (htn : notification.type = .ack)
    (hfits : notification.Fits) (hnul : NulFree notification.destination)
    (h : Serving i j session notification.destination w) :
    Delivers cfg i j (notifySender notification session) w := by
  have hplain := not_plain_ack htn
  have hno {P : Prop} (hp : plain notification = true) : P := nomatch hplain.symm.trans hp
  have save {w₁ : World} (hs : Settled i w₁) : Delivers cfg i j (do
      let _ ← saveMessage ⟨notification, none, notification.destination⟩) w₁ := by
    refine Safe.seq (safe_saveMessage fun _ _ _ ↦ ⟨hfits, .inl ⟨rfl, rfl, msg, hj, ?_⟩⟩)
      (fun _ _ _ h ↦ h) fun id w₂ _ hd ↦ Safe.ret fun w₃ hr _ ↦ ?_
    · exact .inr (.inr ⟨ht, htn, hnul⟩)
    · have h₂ := (accepted_of_saved hd hfits).then (.of_rely hr)
      exact ⟨h₂.works, h₂.settled hs⟩
  refine smooth_isOnlineSession.seq fun online w₁ _ h₁ _ ↦ ?_
  have hserve := h.same h₁
  match session, online with
  | none, _ | some _, false => exact (save hserve.settled).after (.of_same h₁)
  | some s, true =>
    have hover : HandOver i j w₁ s ⟨notification, none, notification.destination⟩ := {
      pointer := hserve.pointer s rfl
      authentic := ⟨hfits, hno, fun _ ↦ rfl, nofun⟩
      credit := hno
      name := fun _ ↦ (hserve.named s rfl).2.symm
      addressed := nofun
      resent := .inl ⟨msg, hj⟩ }
    refine Safe.seq (safe_sendMessage hover (hserve.named s rfl).1 hserve.unlocked.toOutside)
      (fun _ _ _ hcr ↦ h₁.crash rfl hcr) fun ok w₂ _ h₂ ↦ Safe.ret fun w₃ hr _ ↦ ?_
    have h₂ := h₂.1
    rw [spend_of_needsAck hplain] at h₂
    have h₃ := h₁.then (h₂.rely hr)
    exact ⟨.of_same h₃, h.settled.keeps h₃.books⟩

theorem delivers_acknowledge {owner : Bytes} (hj : Receives j msg) (ht : msg.type = .ack)
    (hr : Ready i w) (hrow : ∃ r ∈ w.db.messages, r.id = id ∧ r.needsAck = true)
    (howner : owner.length ≤ 255 ∧ NulFree owner) :
    Delivers cfg i j (acknowledge msg owner id) w := by
  refine delivers_seq (safe_acknowledgeRow hj ht hr.settled hrow) fun w₁ _ hw₁ hs₁ ↦ ?_
  refine delivers_seq (delivers_of_smooth hs₁ (smooth_free (.markAckReceived id msg.sender) rfl rfl
    fun _ ↦ trivial)) fun w₂ _ hw₂ hs₂ ↦ ?_
  refine delivers_seq (delivers_increment hs₂) fun w₃ _ hw₃ hs₃ ↦ ?_
  have hr₃ := ((hr.works hw₁ hs₁).works hw₂ hs₂).works hw₃ hs₃
  split
  · refine delivers_withSession hr₃.toUnlocked hs₃ ⟨msg, hj⟩ fun session w₄ hserve _ ↦ ?_
    refine delivers_notifySender hj ht rfl ⟨(receives_fits hj).1, howner.1, ?_⟩ howner.2 hserve
    exact Nat.zero_le _
  · exact Delivers.ret hs₃

theorem smooth_findAcknowledged :
    Smooth cfg i j (findAcknowledged msg) (fun _ _ ↦ True) w := by
  refine (smooth_free (.findMessageIdByCorrelation msg.correlationId) rfl rfl
    fun _ ↦ trivial).bind fun id w₁ _ h₁ _ ↦ ?_
  split
  · exact smooth_free (.findMessageIdByCorrelationAndDestination _ _) rfl rfl fun _ ↦ trivial
  · exact Smooth.ret fun _ _ _ ↦ trivial

theorem delivers_ackHandler (hj : Receives j msg) (ht : msg.type = .ack) (hr : Ready i w) :
    Delivers cfg i j (ackHandler msg) w := by
  unfold ackHandler
  split
  · refine (smooth_op (.findOriginalSenderByCorrelation msg.correlationId) rfl rfl
      fun _ _ _ _ ↦ trivial).seq fun owner w₁ _ h₁ hd ↦ ?_
    have howner := performed_findOriginalSender hd
    refine smooth_findAcknowledged.seq fun id w₂ _ h₂ _ ↦ ?_
    have h₁₂ := h₁.then h₂
    split
    · refine (smooth_op (.needsAck id) rfl rfl fun _ _ _ _ ↦ trivial).seq
        fun ack w₃ _ h₃ hd₃ ↦ ?_
      have h₁₃ := h₁₂.then h₃
      have hr₃ := hr.same h₁₃
      refine (delivers_when hr₃.settled fun hack ↦ ?_).after (.of_same h₁₃)
      subst hack
      exact delivers_acknowledge hj ht hr₃ (performed_needsAck hd₃) howner
    · exact (Delivers.ret (hr.same h₁₂).settled).after (.of_same h₁₂)
  · exact Delivers.ret hr.settled

theorem hold_newSession {identity : Bytes} {ch : Choice} {r : ℕ} (hc : Consistent w)
    (h : exec i j (.newSession identity name) ch w = some (r, w')) :
    hold i w' = (hold i w).acquire (some r) := by
  have hf := exec_frame h
  obtain ⟨hr, -, hne, hnew⟩ := exec_newSession h
  obtain ⟨ho, -, hq⟩ := hc.unused w.nextSession (Nat.le_refl _)
  refine hold_acquire (hf.registryOwner (by simp [writes])) (fun s ↦ ?_)
    (hf.batches (by simp [writes])) fun s ↦ ?_
  · by_cases hs : s = w.nextSession
    · rw [hs, hnew, hq]
    · rw [hne s hs]
  · by_cases hs : s = w.nextSession
    · rw [hs, hnew, ho, if_pos (by rw [hr])]
    · rw [hne s hs, if_neg (by rw [hr]; exact fun h ↦ hs (Option.some.inj h).symm)]

theorem performed_newSession {identity : Bytes} {r : ℕ}
    (h : Performed i j (.newSession identity name) w r w') :
    Moves i ((hold i w).acquire (some r)) (account i w.log) w w' ∧ Named w' r name ∧
      (w'.sessions r).identity = identity := by
  have hb := h.books
  have hg := h.grows
  obtain ⟨ch, w₁, w₂, h₁, hc, he, -, -, h₂⟩ := h
  obtain ⟨rfl, hnext, -, hnew⟩ := exec_newSession he
  have hn : Named w₂ w₁.nextSession name := ⟨by omega, by rw [hnew]⟩
  refine ⟨⟨?_, hb ▸ note_keeps rfl, hg⟩, hn.grows h₂.grows, ?_⟩
  · rw [h₂.owns, hold_newSession hc he, h₁.owns]
  · rw [h₂.grows.identity _ hn.1, hnew]

theorem delivers_registerHandler {identity : Bytes} (hj : Receives j msg)
    (hi : ∃ data, j = .receive identity data) (hr : Ready i w) :
    Delivers cfg i j (registerHandler msg identity) w := by
  simp only [registerHandler]
  split
  · refine Safe.seq (safe_op (.newSession identity msg.sender)
      fun _ _ _ _ ↦ ⟨(receives_fits hj).1, hi⟩) (Y := fun _ _ ↦ False) (fun _ _ _ h ↦ h.elim)
      fun s w₁ _ hd ↦ ?_
    obtain ⟨hm₁, hn₁, hid₁⟩ := performed_newSession hd
    have hc₁ : Created j w₁ s := ⟨hn₁.1, by rw [hid₁]; exact hi⟩
    refine delivers_holding hr.toUnlocked hm₁ ?_
    have hr₁ := hr.acquire hm₁
    refine (smooth_free (.updateLastActivity s) rfl rfl fun _ ↦ trivial).seq
      fun _ w₂ _ h₂ _ ↦ ?_
    refine (smooth_free (.updateLastReceive s) rfl rfl fun _ ↦ trivial).seq
      fun _ w₃ _ h₃ _ ↦ ?_
    have h₂₃ := h₂.then h₃
    have hr₃ := hr₁.same h₂₃
    have hw₃ : Works i (hold i w₁) w₁ w₃ := .of_same h₂₃
    have hp₃ : 0 < (hold i w₃).pointers s := by
      rw [h₂₃.owns, hm₁.owns]
      simp [Hold.acquire]
    refine Safe.seq (safe_upsertClient hr₃.toUnlocked (hn₁.grows h₂₃.grows)
      (hc₁.grows h₂₃.grows) hp₃)
      (fun _ _ _ hcr ↦ hw₃.crash hcr) fun old w₄ _ hm₄ ↦ ?_
    refine (Safe.mono (delivers_holding hr₃.toUnlocked hm₄ ?_) (fun _ _ h ↦ ⟨hw₃.then h.1, h.2⟩)
      fun _ _ hcr ↦ hw₃.crash hcr)
    have hr₄ := hr₃.acquire hm₄
    refine delivers_seq (delivers_deliverOfflineMessages hr₄.toUnlocked hr₄.settled ⟨msg, hj⟩)
      fun w₅ _ hw₅ hs₅ ↦ ?_
    have hr₅ := hr₄.works hw₅ hs₅
    refine delivers_seq (delivers_deliverPendingReplies hr₅.toUnlocked hs₅ ⟨msg, hj⟩)
      fun w₆ _ hw₆ hs₆ ↦ ?_
    exact delivers_of_calm hs₆ (calm_printActiveClients (hr₅.works hw₆ hs₆).toUnlocked)
  · exact Delivers.ret hr.settled

theorem delivers_unregisterHandler (hj : Receives j msg) (ht : msg.type = .unregister) (hr : Ready i w) :
    Delivers cfg i j (unregisterHandler msg) w := by
  refine delivers_withSession hr.toUnlocked hr.settled ⟨msg, hj⟩ fun session w₁ h _ ↦ ?_
  cases session with
  | none => exact Delivers.ret h.settled
  | some s =>
    refine delivers_seq (delivers_of_calm h.settled (calm_persistQueueToDatabase
      (h.named s rfl).1 h.unlocked.toOutside)) fun w₂ _ hw₂ hs₂ ↦ ?_
    refine delivers_seq (delivers_of_smooth hs₂ (smooth_free (.markOffline s) rfl rfl
      fun _ ↦ trivial)) fun w₃ _ hw₃ hs₃ ↦ ?_
    have h₃ := serving_works (serving_works h hw₂ hs₂) hw₃ hs₃
    refine delivers_of_calm hs₃ (calm_unregisterClient (fun m hm ↦ ?_) h₃.unlocked)
    rw [receives_unique hm hj, ht]
    nofun

theorem delivers_handle {identity : Bytes} (hj : Receives j msg)
    (hi : ∃ data, j = .receive identity data) (hr : Ready i w) :
    Delivers cfg i j (handle msg identity) w := by
  unfold handle
  split
  · exact delivers_registerHandler hj hi hr
  · next ht => exact delivers_messageHandler hj ht hr
  · next ht => exact delivers_replyHandler hj ht hr
  · next ht => exact delivers_ackHandler hj ht hr
  · next ht => exact delivers_unregisterHandler hj ht hr
  · exact Delivers.ret hr.settled

theorem safe_touchSession {identity : Bytes} (hi : ∃ data, j = .receive identity data)
    (hu : Unlocked i w) :
    Safe (env cfg i j) (fun a ↦ Moves i ((hold i w).acquire a) (account i w.log) w)
      (fun _ ↦ Crash i (hold i w) w) (touchSession identity) w := by
  refine (safe_withRegistryLock (f := fun a ↦ a) (P := fun _ _ ↦ True) hu.registry hu.queues
    (fun w₁ _ h₁ ↦ ?_) fun _ _ _ _ h ↦ h).mono (fun _ _ h ↦ h.1) fun _ _ h ↦ h
  have nothing {w₂ : World} (h : Same i w₁ w₂) :
      Safe (env cfg i j) (fun a w₃ ↦ Moves i ((hold i w₁).acquire a) (account i w₁.log) w₁ w₃ ∧
        True) (fun _ ↦ Crash i (hold i w₁) w₁) (pure none) w₂ :=
    Safe.ret fun w₃ hr _ ↦ ⟨h.rely hr, trivial⟩
  refine (smooth_free (.findName identity) rfl rfl fun _ ↦ hi).seq fun r w₂ _ h₂ _ ↦ ?_
  match r with
  | none => exact nothing h₂
  | some n =>
    refine Safe.seq (safe_op (.findClient n) fun _ _ _ _ ↦ trivial) (Y := fun _ _ ↦ False)
      (fun _ _ _ h ↦ h.elim) fun a w₃ _ hd ↦ ?_
    have h₃ := hd.moves (f := (·.acquire a)) (fun _ _ _ ↦ hold_findClient) rfl
    have h₁₃ := h₂.and (Moves.mk (h₃.owns.trans (by rw [h₂.owns])) (h₂.books.trans h₃.books)
      h₃.grows)
    match a with
    | none => exact Safe.ret fun w₄ hr _ ↦ ⟨h₁₃.rely hr, trivial⟩
    | some s =>
      refine (smooth_free (.updateLastReceive s) rfl rfl fun _ ↦ trivial).seq
        fun _ w₄ _ h₄ _ ↦ ?_
      exact Safe.ret fun w₅ hr _ ↦ ⟨h₁₃.then (h₄.rely hr), trivial⟩

theorem delivers_routeMessage {identity : Bytes} (hj : Receives j msg)
    (hi : ∃ data, j = .receive identity data) (hr : Ready i w) :
    Delivers cfg i j (routeMessage msg identity) w := by
  refine Safe.seq (safe_touchSession hi hr.toUnlocked) (fun _ _ _ h ↦ h) fun session w₁ _ h₁ ↦ ?_
  exact delivers_holding hr.toUnlocked h₁ (delivers_handle hj hi (hr.acquire h₁))

end MessageBroker.HandlerOutlines
