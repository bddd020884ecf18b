import MessageBroker.RegistryOutlines

namespace MessageBroker.DeliveryOutlines

open ByteStrings WireMessages MessageStore ProgramTrees ProofOutlines BrokerState SessionQueues
  ClientRegistry StoreInvariant OperationEffects ThreadViews SharedInvariant OutlineRules
  QueueOutlines RegistryOutlines

variable {cfg : Config} {i : ℕ} {j : Job} {w w' : World} {s : ℕ} {name : Bytes}
  {p : PendingMessage} {ps : List PendingMessage} {A : Account}

/-- Every row handed over has been marked, unless a database call has failed. -/
def Settled (i : ℕ) (w : World) : Prop :=
  (account i w.log).debt = [] ∨ (account i w.log).failed = true

theorem Settled.keeps (h : Settled i w) (hk : (account i w.log).Keeps (account i w'.log)) :
    Settled i w' :=
  h.imp (fun hd ↦ hk.debt.trans hd) hk.failed

/-- The rows `ps` are still to be delivered to session `s`. -/
structure Delivering (i : ℕ) (j : Job) (s : ℕ) (name : Bytes) (ps : List PendingMessage)
    (w : World) : Prop where
  outside : Outside i w
  pointer : 0 < (hold i w).pointers s
  named : Named w s name
  receives : ∃ m, Receives j m
  settled : Settled i w
  authentic : ∀ p ∈ ps, Authentic w.db p.copy
  credit : ∀ p ∈ ps, plain p.msg = true → p.id ∈ (account i w.log).credit
  nodup : (ps.map (·.id)).Nodup
  addressed : ∀ p ∈ ps, CText.of p.msg.destination = .of name ∨
    (p.id, name) ∈ (account i w.log).replies

theorem row_of_authentic (hc : Consistent w) (ha : Authentic w.db p.copy) :
    ∀ r ∈ w.db.messages, r.id = p.id →
      r.needsAck = p.msg.needsAck ∧ plain r.message = plain p.msg := by
  intro r hr hid
  obtain ⟨r', hr', hid', hcar⟩ := ha.row p.id rfl
  obtain rfl := id_inj hc.store hr hr' (hid.trans hid'.symm)
  exact ⟨hcar.records.needsAck, hcar.records.plain⟩

theorem plain_of_needsAck {m : Message} (h : m.needsAck = true) : plain m = false := by
  simp [plain, h]

theorem Delivering.same (h : Delivering i j s name ps w) (hs : Same i w w') :
    Delivering i j s name ps w' where
  outside := h.outside.same hs
  pointer := hs.owns ▸ h.pointer
  named := h.named.grows hs.grows
  receives := h.receives
  settled := h.settled.keeps hs.books
  authentic p hp := (h.authentic p hp).mono hs.grows.db
  credit p hp hpl := hs.books.credit ▸ h.credit p hp hpl
  nodup := h.nodup
  addressed p hp := (h.addressed p hp).imp_right fun hr ↦ hs.books.replies hr

theorem Delivering.next (h : Delivering i j s name (p :: ps) w)
    (hm : Moves i (hold i w) A w w')
    (hA : A = (account i w.log).spend p.copy ∧ p.msg.needsAck = true ∨
      A = ((account i w.log).spend p.copy).settle p.id) : Delivering i j s name ps w' := by
  have hspend : ∀ q ∈ ps, plain q.msg = true →
      q.id ∈ ((account i w.log).spend p.copy).credit := fun q hq hpl ↦ by
    have hc := h.credit q (List.mem_cons_of_mem _ hq) hpl
    have hne : q.id ≠ p.id := fun heq ↦ by
      have hnd := h.nodup
      rw [List.map_cons, List.nodup_cons, ← heq] at hnd
      exact hnd.1 (List.mem_map_of_mem hq)
    rw [Account.spend_credit]
    split
    · exact List.mem_filter.mpr ⟨hc, by simpa [PendingMessage.copy] using hne⟩
    · exact hc
  have hkeep : A.unpopped = (account i w.log).unpopped ∧ A.failed = (account i w.log).failed ∧
      A.replies = (account i w.log).replies ∧
      A.credit = ((account i w.log).spend p.copy).credit := by
    rcases hA with ⟨rfl, -⟩ | rfl <;> simp [Account.settle]
  obtain ⟨hu, hf, hreps, hcred⟩ := hkeep
  have hdebt : (account i w.log).debt = [] → A.debt = [] := fun hd ↦ by
    rcases hA with ⟨rfl, hn⟩ | rfl
    · simp [PendingMessage.copy, plain_of_needsAck hn, hd]
    · simp only [Account.settle, Account.spend_debt, PendingMessage.copy]
      split <;> simp [hd]
  exact {
    outside := ⟨fun s ↦ hm.owns ▸ h.outside.queues s,
      (hm.books.unpopped.trans hu).trans h.outside.unpopped⟩
    pointer := hm.owns ▸ h.pointer
    named := h.named.grows hm.grows
    receives := h.receives
    settled := h.settled.imp (fun hd ↦ hm.books.debt.trans (hdebt hd))
      fun hfail ↦ hm.books.failed (hf.trans hfail)
    authentic := fun q hq ↦ (h.authentic q (List.mem_cons_of_mem _ hq)).mono hm.grows.db
    credit := fun q hq hpl ↦ by
      rw [hm.books.credit, hcred]
      exact hspend q hq hpl
    nodup := (List.nodup_cons.mp h.nodup).2
    addressed := fun q hq ↦ (h.addressed q (List.mem_cons_of_mem _ hq)).imp_right
      fun hr ↦ hm.books.replies (hreps ▸ hr) }

theorem Delivering.handOver (h : Delivering i j s name (p :: ps) w) :
    HandOver i j w s p.copy where
  pointer := h.pointer
  authentic := h.authentic p List.mem_cons_self
  credit hpl := ⟨h.receives, p.id, h.credit p List.mem_cons_self hpl, rfl⟩
  name hn := nomatch hn
  addressed id hid := by
    obtain rfl := Option.some.inj hid
    rw [h.named.2]
    exact h.addressed p List.mem_cons_self
  resent := .inl h.receives

theorem calm_markSent_pending (ha : Authentic w.db p.copy)
    (hn : p.msg.needsAck = true) : Calm cfg i j (markSent p.id) (fun _ _ ↦ True) w := by
  refine calm_markSent fun w₁ hr hc₁ r hrow hid ↦ ?_
  exact (row_of_authentic hc₁ (ha.mono hr.grows.db) r hrow hid).1.trans hn

/-- What the delivery of a list of rows achieves. -/
def Delivers (cfg : Config) (i : ℕ) (j : Job) (p : Program Unit) (w : World) : Prop :=
  Safe (env cfg i j) (fun _ w' ↦ Works i (hold i w) w w' ∧ Settled i w')
    (fun _ ↦ Crash i (hold i w) w) p w

theorem Delivers.ret (h : Settled i w) : Delivers cfg i j (pure ()) w :=
  Safe.ret fun _ hr _ ↦ ⟨.of_same (.of_rely hr), h.keeps (Same.of_rely hr).books⟩

theorem Delivers.after {w₀ : World} (hw : Works i (hold i w₀) w₀ w) {q : Program Unit}
    (h : Delivers cfg i j q w) : Safe (env cfg i j)
      (fun _ w' ↦ Works i (hold i w₀) w₀ w' ∧ Settled i w') (fun _ ↦ Crash i (hold i w₀) w₀) q w :=
  Safe.mono h (fun _ _ h ↦ ⟨hw.then h.1, h.2⟩) fun _ _ h ↦ hw.crash h

theorem safe_handRow {α : Type} {Q : α → World → Prop} {X : String → World → Prop}
    {f : Bool → Program α} (h : Delivering i j s name (p :: ps) w)
    (hX : ∀ e w', Crash i (hold i w) w w' → X e w')
    (hf : ∀ w', Consistent w' → Moves i (hold i w) ((account i w.log).spend p.copy) w w' →
      Safe (env cfg i j) Q X (f true) w') :
    Safe (env cfg i j) Q X (do
      Prog.when p.msg.needsAck (markSent p.id)
      f (← sendMessage s p.copy)) w := by
  have hauth := h.authentic p List.mem_cons_self
  refine (Calm.when fun hn ↦ calm_markSent_pending hauth hn).seq hX fun _ w₁ _ h₁ _ ↦ ?_
  have hd₁ := h.same h₁
  refine Safe.seq (safe_sendMessage hd₁.handOver hd₁.named.1 hd₁.outside)
    (fun e w' _ hcr ↦ hX e w' (h₁.crash rfl hcr)) fun ok w₂ hc₂ h₂ ↦ ?_
  obtain ⟨h₂, rfl⟩ := h₂
  exact hf w₂ hc₂ ⟨h₂.owns.trans h₁.owns, (Account.spend_keeps h₁.books _).trans h₂.books,
    h₁.grows.trans h₂.grows⟩

theorem safe_markRow (h : Delivering i j s name (p :: ps) w)
    (hm : Moves i (hold i w) ((account i w.log).spend p.copy) w w')
    (hack : p.msg.needsAck = true → (p.id, name) ∈ (account i w.log).replies) :
    Safe (env cfg i j) (fun _ w'' ↦ Works i (hold i w) w w'' ∧ Delivering i j s name ps w'' ∧
        (account i w.log).replies ⊆ (account i w''.log).replies)
      (fun _ ↦ Crash i (hold i w) w) (markDelivered p.id) w' := by
  have hauth := (h.authentic p List.mem_cons_self).mono hm.grows.db
  refine (safe_markDelivered fun w₁ hr hc₁ r hrow hid ↦ ?_).mono (fun _ w₁ h₁ ↦ ?_)
    fun _ _ hcr ↦ hm.crash Account.spend_unpopped hcr
  · obtain ⟨hn, hp⟩ := row_of_authentic hc₁ (hauth.mono hr.grows.db) r hrow hid
    have hb := (hm.rely hr).books
    refine ⟨fun hpl ↦ ?_, fun hneed ↦ .inr ⟨name, ?_⟩⟩
    · rw [hb.debt, Account.spend_debt, if_pos (show plain p.copy.msg = true from hp ▸ hpl)]
      exact List.mem_append_left _ (by simp [PendingMessage.copy])
    · apply hb.replies
      rw [Account.spend_replies]
      exact hack (hn ▸ hneed)
  · have hm' : Moves i (hold i w) (((account i w.log).spend p.copy).settle p.id) w w₁ :=
      ⟨h₁.owns.trans hm.owns, (Account.settle_keeps hm.books _).trans h₁.books,
        hm.grows.trans h₁.grows⟩
    have hreplies : (((account i w.log).spend p.copy).settle p.id).replies =
        (account i w.log).replies := Account.spend_replies
    exact ⟨.of_moves hm' Account.spend_unpopped Account.spend_failed, h.next hm' (.inr rfl),
      fun _ hr ↦ hm'.books.replies (hreplies ▸ hr)⟩

theorem works_outside (h : Works i (hold i w) w w') (ho : Outside i w) :
    Outside i w' :=
  ⟨fun s ↦ h.owns ▸ ho.queues s, h.unpopped.trans ho.unpopped⟩

theorem delivers_offlineLoop (ps : List PendingMessage) (h : Delivering i j s name ps w) :
    Delivers cfg i j (offlineLoop s ps) w := by
  induction ps generalizing w with
  | nil => exact .ret h.settled
  | cons p rest ih =>
    refine (calm_op (.isOnline s) rfl rfl fun _ _ _ _ ↦ trivial).seq (fun _ _ h ↦ h)
      fun online w₁ _ h₁ _ ↦ ?_
    have hd₁ := h.same h₁
    cases online with
    | false => exact (Delivers.ret hd₁.settled).after (.of_same h₁)
    | true =>
      refine safe_handRow hd₁ (fun _ _ hcr ↦ h₁.crash rfl hcr) fun w₂ _ h₂ ↦ ?_
      have hw₁ : Works i (hold i w) w w₁ := .of_same h₁
      change Safe _ _ _ (Prog.when (!p.msg.needsAck) (markDelivered p.id) >>= fun _ ↦
        offlineLoop s rest) w₂
      cases hn : p.msg.needsAck with
      | true =>
        have h₂' : Works i (hold i w₁) w₁ w₂ :=
          .of_moves h₂ Account.spend_unpopped Account.spend_failed
        exact (ih (hd₁.next h₂ (.inl ⟨rfl, hn⟩))).after (hw₁.then h₂')
      | false =>
        refine Safe.seq (safe_markRow hd₁ h₂ (fun hn' ↦ nomatch hn.symm.trans hn'))
          (fun _ _ _ hcr ↦ h₁.crash rfl hcr) fun _ w₃ _ h₃ ↦ ?_
        exact (ih h₃.2.1).after (hw₁.then h₃.1)

theorem delivers_repliesLoop (ps : List PendingMessage) (h : Delivering i j s name ps w)
    (hreplies : ∀ p ∈ ps, (p.id, name) ∈ (account i w.log).replies) :
    Delivers cfg i j (repliesLoop s ps) w := by
  induction ps generalizing w with
  | nil => exact .ret h.settled
  | cons p rest ih =>
    refine (calm_op (.isOnline s) rfl rfl fun _ _ _ _ ↦ trivial).seq (fun _ _ h ↦ h)
      fun online w₁ _ h₁ _ ↦ ?_
    have hd₁ := h.same h₁
    have hr₁ : ∀ p' ∈ p :: rest, (p'.id, name) ∈ (account i w₁.log).replies :=
      fun p' hp' ↦ h₁.books.replies (hreplies p' hp')
    cases online with
    | false => exact (Delivers.ret hd₁.settled).after (.of_same h₁)
    | true =>
      refine safe_handRow hd₁ (fun _ _ hcr ↦ h₁.crash rfl hcr) fun w₂ _ h₂ ↦ ?_
      refine Safe.seq (safe_markRow hd₁ h₂ fun _ ↦ hr₁ p List.mem_cons_self)
        (fun _ _ _ hcr ↦ h₁.crash rfl hcr) fun _ w₃ _ h₃ ↦ ?_
      have hw₁ : Works i (hold i w) w w₁ := .of_same h₁
      exact (ih h₃.2.1 fun p' hp' ↦ h₃.2.2 (hr₁ p' (List.mem_cons_of_mem _ hp'))).after
        (hw₁.then h₃.1)

theorem performed_loadPendingMessagesOnly {rows : List PendingMessage}
    (h : Performed i j (.loadPendingMessagesOnly name) w rows w') :
    (∀ p ∈ rows, Authentic w'.db p.copy ∧ CText.of p.msg.destination = .of name) ∧
      (rows.map (·.id)).Nodup := by
  obtain ⟨ch, w₁, w₂, -, hc, he, hg, -, h₂⟩ := h
  have hr : some (dbSelect ch (w₁.db.loadPendingMessagesOnly ch.tie name)) = some rows :=
    exec_reads he
  obtain rfl := Option.some.inj hr
  refine ⟨fun p hp ↦ ?_, ?_⟩
  · obtain ⟨r, hr, rfl, hd, -⟩ := mem_loadPendingMessagesOnly (mem_dbSelect hp)
    refine ⟨(authentic_load hc.store hr).mono (hg.db.trans h₂.grows.db), ?_⟩
    exact (CText.of_val _).trans hd
  · exact (loaded_ids_nodup hc.store.ids _ _ _).sublist ((dbSelect_sublist _ _).map _)

theorem performed_loadPendingReplies {rows : List PendingMessage}
    (h : Performed i j (.loadPendingRepliesForSenderOnly name) w rows w') :
    (∀ p ∈ rows, Authentic w'.db p.copy) ∧ (rows.map (·.id)).Nodup := by
  obtain ⟨ch, w₁, w₂, -, hc, he, hg, -, h₂⟩ := h
  have hr : some (dbSelect ch (w₁.db.loadPendingRepliesForSenderOnly ch.tie name)) =
    some rows := exec_reads he
  obtain rfl := Option.some.inj hr
  refine ⟨fun p hp ↦ ?_, ?_⟩
  · obtain ⟨r, hr, rfl, -⟩ := mem_loadPendingRepliesForSenderOnly (mem_dbSelect hp)
    exact (authentic_load hc.store hr).mono (hg.db.trans h₂.grows.db)
  · exact (loaded_ids_nodup hc.store.ids _ _ _).sublist ((dbSelect_sublist _ _).map _)

/-- A thread that holds the session it has found for a name, if any. -/
structure Serving (i : ℕ) (j : Job) (session : Option ℕ) (name : Bytes) (w : World) : Prop where
  unlocked : Unlocked i w
  pointer : ∀ s, session = some s → 0 < (hold i w).pointers s
  named : ∀ s, session = some s → Named w s name
  receives : ∃ m, Receives j m
  settled : Settled i w

theorem Serving.same {session : Option ℕ} (h : Serving i j session name w) (hs : Same i w w') :
    Serving i j session name w' :=
  ⟨h.unlocked.same hs, fun s heq ↦ hs.owns ▸ h.pointer s heq,
    fun s heq ↦ (h.named s heq).grows hs.grows, h.receives, h.settled.keeps hs.books⟩

theorem delivers_deliverOffline {session : Option ℕ} (h : Serving i j session name w) :
    Delivers cfg i j (deliverOffline name session) w := by
  cases session with
  | none => exact .ret h.settled
  | some s => ?_
  refine Safe.seq (safe_op (.loadPendingMessagesOnly name) fun w₁ hr _ _ ↦ ?_)
    (Y := fun _ _ ↦ False) (fun _ _ _ h ↦ h.elim) fun rows w₁ _ hd ↦ ?_
  · exact ⟨h.settled.keeps (Same.of_rely hr).books, h.receives⟩
  obtain ⟨hrows, hnodup⟩ := performed_loadPendingMessagesOnly hd
  have hb : account i w₁.log = { account i w.log with credit := rows.map (·.id) } := hd.books
  have hw₁ : Works i (hold i w) w w₁ := ⟨hd.owns rfl, by rw [hb], by rw [hb]; exact id, hd.grows⟩
  have hd₁ : Delivering i j s name rows w₁ := {
    outside := works_outside hw₁ h.unlocked.toOutside
    pointer := hw₁.owns ▸ h.pointer s rfl
    named := (h.named s rfl).grows hd.grows
    receives := h.receives
    settled := by
      rw [Settled, hb]
      exact h.settled
    authentic := fun p hp ↦ (hrows p hp).1
    credit := fun p hp _ ↦ by
      rw [hb]
      exact List.mem_map_of_mem hp
    nodup := hnodup
    addressed := fun p hp ↦ .inl (hrows p hp).2 }
  split
  · refine (smooth_free (.increment .offlineDelivered) rfl rfl fun _ ↦ trivial).seq
      fun _ w₂ _ h₂ _ ↦ ?_
    refine (smooth_free (.updateLastActivity s) rfl rfl fun _ ↦ trivial).seq
      fun _ w₃ _ h₃ _ ↦ ?_
    refine (smooth_free (.updateLastReceive s) rfl rfl fun _ ↦ trivial).seq
      fun _ w₄ _ h₄ _ ↦ ?_
    have h₁₄ : Same i w₁ w₄ := (h₂.then h₃).then h₄
    have hd₄ := hd₁.same h₁₄
    have hw₄ : Works i (hold i w) w w₄ := hw₁.then (.of_same h₁₄)
    refine Safe.seq (delivers_offlineLoop rows hd₄) (fun _ _ _ hcr ↦ ?_) fun _ w₅ _ h₅ ↦ ?_
    · exact hw₄.crash hcr
    · have hw₅ : Works i (hold i w) w w₅ := hw₄.then h₅.1
      have hs₅ := ((h.named s rfl).grows hw₅.grows).1
      refine Safe.mono (calm_flushQueue hs₅ (works_outside hw₅ h.unlocked.toOutside)) (fun _ w₆ h₆ ↦ ?_)
        fun _ _ hcr ↦ hw₅.crash hcr
      exact ⟨hw₅.then (.of_same h₆.1), h₅.2.keeps h₆.1.books⟩
  · exact (Delivers.ret hd₁.settled).after hw₁

theorem delivers_deliverReplies {session : Option ℕ} (h : Serving i j session name w) :
    Delivers cfg i j (deliverReplies name session) w := by
  cases session with
  | none => exact .ret h.settled
  | some s => ?_
  refine Safe.seq (safe_op (.loadPendingRepliesForSenderOnly name) fun w₁ hr _ _ ↦ ?_)
    (Y := fun _ _ ↦ False) (fun _ _ _ h ↦ h.elim) fun rows w₁ _ hd ↦ ?_
  · exact ⟨h.settled.keeps (Same.of_rely hr).books, h.receives⟩
  obtain ⟨hrows, hnodup⟩ := performed_loadPendingReplies hd
  have hb : account i w₁.log = { account i w.log with
      credit := rows.map (·.id)
      replies := rows.map (fun p ↦ (p.id, name)) ++ (account i w.log).replies } := hd.books
  have hw₁ : Works i (hold i w) w w₁ := ⟨hd.owns rfl, by rw [hb], by rw [hb]; exact id, hd.grows⟩
  have hreplies : ∀ p ∈ rows, (p.id, name) ∈ (account i w₁.log).replies := fun p hp ↦ by
    rw [hb]
    exact List.mem_append_left _ (List.mem_map_of_mem (f := fun p ↦ (p.id, name)) hp)
  have hd₁ : Delivering i j s name rows w₁ := {
    outside := works_outside hw₁ h.unlocked.toOutside
    pointer := hw₁.owns ▸ h.pointer s rfl
    named := (h.named s rfl).grows hd.grows
    receives := h.receives
    settled := by
      rw [Settled, hb]
      exact h.settled
    authentic := hrows
    credit := fun p hp _ ↦ by
      rw [hb]
      exact List.mem_map_of_mem hp
    nodup := hnodup
    addressed := fun p hp ↦ .inr (hreplies p hp) }
  split
  · refine (smooth_free (.updateLastActivity s) rfl rfl fun _ ↦ trivial).seq
      fun _ w₂ _ h₂ _ ↦ ?_
    refine (smooth_free (.updateLastReceive s) rfl rfl fun _ ↦ trivial).seq
      fun _ w₃ _ h₃ _ ↦ ?_
    have h₁₃ : Same i w₁ w₃ := h₂.then h₃
    exact (delivers_repliesLoop rows (hd₁.same h₁₃) fun p hp ↦
      h₁₃.books.replies (hreplies p hp)).after (hw₁.then (.of_same h₁₃))
  · exact (Delivers.ret hd₁.settled).after hw₁

theorem Serving.found {session : Option ℕ} (hu : Unlocked i w) (hs : Settled i w)
    (hj : ∃ m, Receives j m)
    (hm : Moves i ((hold i w).acquire session) (account i w.log) w w')
    (hn : ∀ s, session = some s → Named w' s name) : Serving i j session name w' where
  unlocked := ⟨⟨fun s ↦ by rw [hm.owns, Hold.queues_acquire]; exact hu.queues s,
    hm.books.unpopped.trans hu.unpopped⟩, by rw [hm.owns, Hold.registry_acquire, hu.registry]⟩
  pointer s hs := by
    rw [hm.owns, hs]
    simp [Hold.acquire]
  named := hn
  receives := hj
  settled := hs.keeps hm.books

theorem delivers_holding {session : Option ℕ} {p : Program Unit} (hu : Unlocked i w)
    (hm : Moves i ((hold i w).acquire session) (account i w.log) w w')
    (hp : Delivers cfg i j p w') :
    Safe (env cfg i j) (fun _ w₂ ↦ Works i (hold i w) w w₂ ∧ Settled i w₂)
      (fun _ ↦ Crash i (hold i w) w) (holding session p) w' := by
  have ho : Outside i w' := ⟨fun s ↦ by rw [hm.owns, Hold.queues_acquire]; exact hu.queues s,
    hm.books.unpopped.trans hu.unpopped⟩
  refine (safe_holding hm.owns ho hp fun _ _ _ hk _ h ↦ h.keeps hk).mono
    (fun _ w₂ h₂ ↦ ⟨⟨h₂.1.owns, ?_, fun hf ↦ ?_, hm.grows.trans h₂.1.grows⟩, h₂.2⟩)
    fun _ w₂ h₂ ↦ ⟨h₂.owns, ?_, h₂.failed, hm.grows.trans h₂.grows⟩
  · exact h₂.1.unpopped.trans hm.books.unpopped
  · exact h₂.1.failed (hm.books.failed hf)
  · exact h₂.unpopped.trans hm.books.unpopped

theorem delivers_withSession {body : Option ℕ → Program Unit} (hu : Unlocked i w)
    (hs : Settled i w) (hj : ∃ m, Receives j m)
    (hbody : ∀ session w₁, Serving i j session name w₁ →
      Moves i ((hold i w).acquire session) (account i w.log) w w₁ →
      Delivers cfg i j (body session) w₁) :
    Delivers cfg i j (do
      let session ← findSession name
      holding session (body session)) w := by
  refine Safe.seq (safe_findSession hu) (fun _ _ _ h ↦ h) fun session w₁ _ h₁ ↦ ?_
  exact delivers_holding hu h₁.1 (hbody session w₁ (.found hu hs hj h₁.1 h₁.2) h₁.1)

theorem delivers_deliverOfflineMessages (hu : Unlocked i w) (hs : Settled i w)
    (hj : ∃ m, Receives j m) : Delivers cfg i j (deliverOfflineMessages name) w :=
  delivers_withSession hu hs hj fun _ _ h _ ↦ delivers_deliverOffline h

theorem delivers_deliverPendingReplies (hu : Unlocked i w) (hs : Settled i w)
    (hj : ∃ m, Receives j m) : Delivers cfg i j (deliverPendingReplies name) w :=
  delivers_withSession hu hs hj fun _ _ h _ ↦ delivers_deliverReplies h

theorem spend_of_needsAck {a : Account} {c : Copy} (h : plain c.msg = false) : a.spend c = a := by
  simp [Account.spend, h]

theorem calm_retrySend {session : Option ℕ} (ho : Outside i w)
    (hp : ∀ s, session = some s → 0 < (hold i w).pointers s)
    (hnamed : ∀ s, session = some s → Named w s p.msg.destination)
    (hauth : Authentic w.db p.copy) (hack : p.msg.needsAck = true) :
    Calm cfg i j (retrySend p session) (fun _ _ ↦ True) w := by
  cases session with
  | none => exact Calm.ret fun _ _ _ ↦ trivial
  | some s => ?_
  have hplain := plain_of_needsAck hack
  refine (calm_markSent_pending hauth hack).bind fun _ w₁ _ h₁ _ ↦ ?_
  have hn₁ := (hnamed s rfl).grows h₁.grows
  have hover : HandOver i j w₁ s p.copy := {
    pointer := h₁.owns ▸ hp s rfl
    authentic := hauth.mono h₁.grows.db
    credit := fun h ↦ nomatch hplain.symm.trans h
    name := fun h ↦ nomatch h
    addressed := fun _ _ ↦ .inl (by rw [hn₁.2]; rfl)
    resent := .inr hack }
  refine Safe.seq (safe_sendMessage hover hn₁.1 (ho.same h₁)) (fun _ _ _ h ↦ h)
    fun ok w₂ _ h₂ ↦ ?_
  obtain ⟨h₂, rfl⟩ := h₂
  rw [spend_of_needsAck hplain] at h₂
  exact Safe.ret fun w₃ hr _ ↦ ⟨h₂.rely hr, trivial⟩

theorem delivers_retryLoop (ps : List PendingMessage) (hu : Unlocked i w) (hs : Settled i w)
    (hps : ∀ p ∈ ps, Authentic w.db p.copy ∧ p.msg.needsAck = true) :
    Delivers cfg i j (retryLoop ps) w := by
  induction ps generalizing w with
  | nil => exact .ret hs
  | cons p rest ih =>
    have hp := hps p List.mem_cons_self
    refine calm_markPending.seq (fun _ _ h ↦ h) fun _ w₁ _ h₁ _ ↦ ?_
    have hu₁ := hu.same h₁
    refine Safe.seq (safe_findOnlineSession hu₁) (fun _ _ _ h ↦ h₁.crash rfl h)
      fun session w₂ _ h₂ ↦ ?_
    have ho₂ : Outside i w₂ := ⟨fun s ↦ by rw [h₂.1.owns, Hold.queues_acquire]; exact hu₁.queues s,
      h₂.1.books.unpopped.trans hu₁.unpopped⟩
    have hp₂ (s : ℕ) (hs : session = some s) : 0 < (hold i w₂).pointers s := by
      rw [h₂.1.owns, hs]
      simp [Hold.acquire]
    have hg₂ := h₁.grows.trans h₂.1.grows
    have hs₂ : Settled i w₂ := (hs.keeps h₁.books).keeps h₂.1.books
    have hbody : Calm cfg i j (retrySend p session) (fun _ _ ↦ True) w₂ :=
      calm_retrySend ho₂ hp₂ h₂.2 (hp.1.mono hg₂.db) hp.2
    refine Safe.seq (safe_holding (P := fun _ w' ↦ Settled i w') h₂.1.owns ho₂
      (Safe.mono hbody (fun _ _ h ↦ ⟨.of_same h.1, hs₂.keeps h.1.books⟩) fun _ _ h ↦ h)
      fun _ _ _ hk _ h ↦ h.keeps hk) (fun _ w₃ _ h₃ ↦ ?_) fun _ w₃ _ h₃ ↦ ?_
    · refine h₁.crash rfl ⟨h₃.owns, ?_, h₃.failed, h₂.1.grows.trans h₃.grows⟩
      exact h₃.unpopped.trans h₂.1.books.unpopped
    · have hw₂ : Works i (hold i w₁) w₁ w₃ := ⟨h₃.1.owns,
        h₃.1.unpopped.trans h₂.1.books.unpopped, fun hf ↦ h₃.1.failed (h₂.1.books.failed hf),
        h₂.1.grows.trans h₃.1.grows⟩
      have hw : Works i (hold i w) w w₃ := (Works.of_same h₁).then hw₂
      have hu₃ : Unlocked i w₃ :=
        ⟨works_outside hw hu.toOutside, by rw [hw.owns]; exact hu.registry⟩
      exact (ih hu₃ h₃.2 fun p' hp' ↦ ⟨(hps p' (List.mem_cons_of_mem _ hp')).1.mono hw.grows.db,
        (hps p' (List.mem_cons_of_mem _ hp')).2⟩).after hw

theorem performed_loadExpiredSent {timeout : ℤ} {rows : List PendingMessage}
    (h : Performed i j (.loadExpiredSent timeout) w rows w') :
    ∀ p ∈ rows, Authentic w'.db p.copy ∧ p.msg.needsAck = true := by
  obtain ⟨ch, w₁, w₂, -, hc, he, hg, -, h₂⟩ := h
  have hr : some (dbSelect ch (w₁.db.loadExpiredSent ch.tie w₁.wallClock timeout)) = some rows :=
    exec_reads he
  obtain rfl := Option.some.inj hr
  intro p hp
  obtain ⟨r, hr, rfl, hsent, -⟩ := mem_loadExpiredSent (mem_dbSelect hp)
  refine ⟨(authentic_load hc.store hr).mono (hg.db.trans h₂.grows.db), ?_⟩
  exact hc.store.sent r hr hsent

theorem delivers_checkExpiredAcks (hu : Unlocked i w) (hs : Settled i w) :
    Delivers cfg i j (checkExpiredAcks cfg) w := by
  unfold checkExpiredAcks
  split
  · refine (smooth_op (.loadExpiredSent cfg.ackTimeout) rfl rfl fun _ _ _ _ ↦ trivial).seq
      fun rows w₁ _ h₁ hd ↦ ?_
    refine (Smooth.when fun _ ↦ smooth_free (.increment .messagesExpired) rfl rfl
      fun _ ↦ trivial).seq fun _ w₂ _ h₂ _ ↦ ?_
    have h₁₂ := h₁.then h₂
    refine (delivers_retryLoop rows (hu.same h₁₂) (hs.keeps h₁₂.books) fun p hp ↦ ?_).after
      (.of_same h₁₂)
    obtain ⟨ha, hn⟩ := performed_loadExpiredSent hd p hp
    exact ⟨ha.mono h₂.grows.db, hn⟩
  · exact .ret hs

end MessageBroker.DeliveryOutlines
