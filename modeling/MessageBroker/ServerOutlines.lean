import MessageBroker.HandlerOutlines

namespace MessageBroker.ServerOutlines

open ByteStrings WireMessages MessageStore ProgramTrees ProofOutlines ThreadPools BrokerState
  SessionQueues ClientRegistry MessageHandlers ServerJobs OperationEffects ThreadViews
  SharedInvariant OutlineRules QueueOutlines RegistryOutlines DeliveryOutlines HandlerOutlines

variable {cfg : Config} {i : ℕ} {j : Job} {w w' : World} {send : PendingSend}
  {batch : List PendingSend} {X : String → World → Prop}

/-- A thread that owns nothing but its batch of sends. -/
structure Batching (i : ℕ) (batch : List PendingSend) (w : World) : Prop where
  owns : hold i w = { Hold.free with batch }
  unpopped : (account i w.log).unpopped = false
  settled : Settled i w

theorem Batching.keeps {batch' : List PendingSend} (h : Batching i batch w)
    (ho : hold i w' = { Hold.free with batch := batch' })
    (hk : (account i w.log).Keeps (account i w'.log)) : Batching i batch' w' :=
  ⟨ho, hk.unpopped.trans h.unpopped, h.settled.keeps hk⟩

theorem Batching.same (h : Batching i batch w) (hs : Same i w w') : Batching i batch w' :=
  h.keeps (hs.owns.trans h.owns) hs.books

theorem Batching.head (h : Batching i (send :: batch) w) {w₁ : World} (hr : Rely i w w₁) :
    (hold i w₁).batch.head? = some send := by
  rw [hr.owns, h.owns, List.head?_cons]

theorem hold_batch {o : Op} {ch : Choice} {r : o.Res} (h : exec i j o ch w = some (r, w'))
    (hr : .registryOwner ∉ writes o) (hq : .queueOwners ∉ writes o) (ho : .owners ∉ writes o) :
    hold i w' = { hold i w with batch := w'.batches i } := by
  have hf := exec_frame h
  simp only [hold, hf.registryOwner (by simp [hr]), hf.queueOwners (by simp [hq]),
    hf.owners (by simp [ho])]

theorem Batching.step {batch' : List PendingSend} {o : Op} {r : o.Res}
    (h : Batching i batch w) (hd : Performed i j o w r w')
    (hr : .registryOwner ∉ writes o) (hq : .queueOwners ∉ writes o) (ho : .owners ∉ writes o)
    (hk : keepsAccount o = true)
    (hb : ∀ ch u u', u.batches i = batch → exec i j o ch u = some (r, u') →
      u'.batches i = batch') : Batching i batch' w' := by
  refine h.keeps ?_ (hd.books ▸ note_keeps hk)
  obtain ⟨ch, u, u', hru, -, he, hr'⟩ := hd.moment
  have hu := hru.owns.trans h.owns
  rw [hr'.owns, hold_batch he hr hq ho, hu, hb ch u u' (congrArg Hold.batch hu) he]

theorem safe_callback {success : Bool} (h : Batching i (send :: batch) w)
    (hcalled : send.called = false)
    (hframe : success = false →
      ∃ r, (account i w.log).frame = some (send, r) ∧ r ≠ .accepted) :
    Safe (env cfg i j) (fun _ ↦ Batching i ({ send with called := true } :: batch)) X
      (perform (.callback send success)) w := by
  refine (safe_op (.callback send success) fun w₁ hr _ _ ↦
    ⟨h.head hr, hcalled, fun hs ↦ ?_⟩).mono (fun _ w₁ hd ↦ ?_) fun _ _ h ↦ h
  · rw [hr.books]
    exact hframe hs
  · refine h.step hd (by simp [writes]) (by simp [writes]) (by simp [writes]) rfl
      fun ch u u' hb he ↦ ?_
    rw [(exec_callback he).1, Function.update_self, hb]
    rfl

theorem safe_counted {counter : Counter} (h : Batching i batch w) :
    Safe (env cfg i j) (fun _ ↦ Batching i batch) X (perform (.increment counter)) w :=
  Safe.mono (smooth_free (.increment counter) rfl rfl fun _ ↦ trivial) (fun _ _ hs ↦ h.same hs.1)
    fun _ _ h ↦ h.elim

theorem safe_failSend {counted : Bool} (h : Batching i (send :: batch) w)
    (hcalled : send.called = false)
    (hframe : ∃ r, (account i w.log).frame = some (send, r) ∧ r ≠ .accepted) :
    Safe (env cfg i j) (fun _ ↦ Batching i ({ send with called := true } :: batch)) X
      (failSend send counted) w := by
  refine Safe.seq (safe_callback h hcalled fun _ ↦ hframe) (fun _ _ _ h ↦ h) fun _ w₁ _ h₁ ↦ ?_
  unfold Prog.when
  split
  · exact safe_counted h₁
  · exact Safe.ret fun w₂ hr _ ↦ h₁.same (.of_rely hr)

theorem safe_sendFrame {part : SendPart} {f : SendResult → Program Unit}
    {Q : Unit → World → Prop} (h : Batching i (send :: batch) w)
    (hf : ∀ r w', Batching i (send :: batch) w' →
      (account i w'.log).frame = some (send, r) → Safe (env cfg i j) Q X (f r) w') :
    Safe (env cfg i j) Q X (perform (.sendFrame send part) >>= f) w := by
  refine Safe.seq (safe_op (.sendFrame send part) fun _ _ _ _ ↦ trivial) (Y := X)
    (fun _ _ _ h ↦ h) fun r w₁ _ hd ↦ ?_
  exact hf r w₁ (h.same (hd.same rfl rfl)) (by rw [hd.books]; rfl)

theorem safe_sendIdentity (h : Batching i (send :: batch) w) (hcalled : send.called = false) :
    Safe (env cfg i j) (fun _ ↦ Batching i ({ send with called := true } :: batch)) X
      (sendIdentity send) w := by
  refine safe_sendFrame h fun r w₁ h₁ hr₁ ↦ ?_
  match r with
  | .wouldBlock | .error => exact safe_failSend h₁ hcalled ⟨_, hr₁, nofun⟩
  | .accepted =>
    refine safe_sendFrame h₁ fun r w₂ h₂ hr₂ ↦ ?_
    match r with
    | .wouldBlock | .error => exact safe_failSend h₂ hcalled ⟨_, hr₂, nofun⟩
    | .accepted =>
      refine safe_sendFrame h₂ fun r w₃ h₃ hr₃ ↦ ?_
      match r with
      | .wouldBlock | .error => exact safe_failSend h₃ hcalled ⟨_, hr₃, nofun⟩
      | .accepted =>
        refine Safe.seq (safe_callback h₃ hcalled nofun) (fun _ _ _ h ↦ h) fun _ w₄ _ h₄ ↦ ?_
        exact safe_counted h₄

theorem performed_frontSend {r : Option PendingSend} (h : Performed i j .frontSend w r w') :
    r = (hold i w).batch.head? := by
  obtain ⟨ch, w₁, w₂, h₁, -, he, -⟩ := h.moment
  have hr : some (w₁.batches i).head? = some r := exec_reads he
  rw [← Option.some.inj hr, ← h₁.owns]
  rfl

theorem safe_sendLoop (h : Batching i batch w) (hcalled : ∀ p ∈ batch, p.called = false) :
    Safe (env cfg i j) (fun _ ↦ Batching i []) X (sendLoop batch.length) w := by
  induction batch generalizing w with
  | nil => exact Safe.ret fun w' hr _ ↦ h.same (.of_rely hr)
  | cons send batch ih =>
    refine Safe.seq (safe_op .frontSend fun _ _ _ _ ↦ trivial) (Y := X) (fun _ _ _ h ↦ h)
      fun r w₁ _ hd ↦ ?_
    have hr := performed_frontSend hd
    rw [h.owns, List.head?_cons] at hr
    subst hr
    have h₁ := h.same (hd.same rfl rfl)
    refine Safe.seq (safe_sendIdentity h₁ (hcalled send List.mem_cons_self)) (fun _ _ _ h ↦ h)
      fun _ w₂ _ h₂ ↦ ?_
    refine Safe.seq (safe_op .popSend fun w₃ hr _ _ p hp ↦ ?_) (Y := X) (fun _ _ _ h ↦ h)
      fun _ w₃ _ hd₃ ↦ ?_
    · rw [h₂.head hr] at hp
      obtain rfl := Option.some.inj hp
      rfl
    · refine ih (h₂.step hd₃ (by simp [writes]) (by simp [writes]) (by simp [writes]) rfl
        fun ch u u' hb he ↦ ?_) fun p hp ↦ hcalled p (List.mem_cons_of_mem _ hp)
      rw [exec_popSend he, Function.update_self, hb, List.tail_cons]

theorem Batching.atRest (h : Batching i [] w) : AtRest i w := ⟨h.owns, h.unpopped, h.settled⟩

theorem safe_processPendingSends (h : AtRest i w) :
    Safe (env cfg i j) (fun _ ↦ AtRest i) X processPendingSends w := by
  have h₀ : Batching i [] w := ⟨h.owns, h.unpopped, h.settled⟩
  refine Safe.seq (safe_op .takePendingSends fun w₁ hr _ _ ↦ ?_) (Y := X) (fun _ _ _ h ↦ h)
    fun n w₁ _ hd ↦ ?_
  · change (hold i w₁).batch = []
    rw [hr.owns, h₀.owns]
  obtain ⟨batch, hlen, hcalled, h₁⟩ : ∃ batch : List PendingSend, batch.length = n ∧
      (∀ p ∈ batch, p.called = false) ∧ Batching i batch w₁ := by
    obtain ⟨ch, u, u', hr, hc, he, hr'⟩ := hd.moment
    obtain ⟨hn, -, hb⟩ := exec_takePendingSends he
    have hu := hr.owns.trans h₀.owns
    have hbatch : u'.batches i = u.pendingSends := by
      rw [hb]
      split
      · next hp => exact hp ▸ congrArg Hold.batch hu
      · exact Function.update_self _ _ _
    refine ⟨u.pendingSends, hn.symm, hc.uncalled, h₀.keeps ?_ (hd.books ▸ note_keeps rfl)⟩
    rw [hr'.owns, hold_batch he (by simp [writes]) (by simp [writes]) (by simp [writes]), hbatch,
      hu]
  subst hlen
  split
  · refine Safe.seq (safe_sendLoop h₁ hcalled) (fun _ _ _ h ↦ h) fun _ w₂ _ h₂ ↦ ?_
    refine (smooth_free .finishSends rfl rfl fun _ ↦ trivial).seq fun _ w₃ _ h₃ _ ↦ ?_
    refine Safe.mono (smooth_free .updateQueueMetrics rfl rfl fun _ ↦ trivial)
      (fun _ _ h₄ ↦ (h₂.same (h₃.then h₄.1)).atRest) fun _ _ h ↦ h.elim
  · next hn =>
    rw [not_not, List.length_eq_zero_iff] at hn
    subst hn
    exact Safe.ret fun w₂ hr _ ↦ (h₁.same (.of_rely hr)).atRest

theorem ready_of_atRest (h : AtRest i w) : Ready i w where
  queues s := by rw [h.owns]; rfl
  unpopped := h.unpopped
  registry := by rw [h.owns]; rfl
  settled := h.settled

theorem atRest_works (h : AtRest i w) (hw : Works i (hold i w) w w') (hs : Settled i w') :
    AtRest i w' :=
  ⟨hw.owns.trans h.owns, hw.unpopped.trans h.unpopped, hs⟩

theorem safe_catching {p : Program Unit} {g : String → Program Unit} (h : AtRest i w)
    (hp : Delivers cfg i j p w)
    (hg : ∀ e w', AtRest i w' → Safe (env cfg i j) (fun _ ↦ AtRest i) X (g e) w') :
    Safe (env cfg i j) (fun _ ↦ AtRest i) X (p.recover g) w :=
  Safe.recover (Safe.mono hp (fun _ _ hw ↦ atRest_works h hw.1 hw.2) fun e w' hcr ↦
    have hw := works_of_crash hcr
    hg e w' (atRest_works h hw.1 hw.2))

theorem safe_restful {o : Op} (h : AtRest i w) (ho : changesHold o = false)
    (hk : keepsAccount o = true) (ha : ∀ w, Allowed i j w o) :
    Safe (env cfg i j) (fun _ ↦ AtRest i) X (perform o) w :=
  Safe.mono (smooth_free o ho hk ha)
    (fun _ _ hs ↦ atRest_works h (.of_same hs.1) (Settled.keeps h.settled hs.1.books))
    fun _ _ h ↦ h.elim

theorem safe_receive {identity data : Bytes} (hj : j = .receive identity data)
    (h : AtRest i w) : Safe (env cfg i j) (fun _ ↦ AtRest i) X (receive identity data) w := by
  have count {w' : World} (h' : AtRest i w') : Safe (env cfg i j)
      (fun _ ↦ AtRest i) X (perform (.increment .messagesFailed)) w' :=
    safe_restful h' rfl rfl fun _ ↦ trivial
  cases hd : deserialize data with
  | ok msg =>
    refine safe_catching h ?_ fun e w' h' ↦ count h'
    refine delivers_seq (delivers_increment h.settled) fun w₁ _ hw₁ hs₁ ↦ ?_
    rw [hd]
    exact delivers_routeMessage ⟨identity, data, hj, hd⟩ ⟨data, hj⟩ (ready_of_atRest (atRest_works h hw₁ hs₁))
  | error e =>
    refine Safe.recover ((smooth_free (.increment .messagesReceived) rfl rfl fun _ ↦
      trivial).seq fun _ w₁ _ h₁ _ ↦ ?_)
    rw [hd]
    refine Safe.fail fun w₂ hr _ ↦ count ?_
    exact (atRest_works h (.of_same h₁) (Settled.keeps h.settled h₁.books)).rely hr

theorem safe_timer {p : Program Unit} (h : AtRest i w) (hp : Delivers cfg i j p w) :
    Safe (env cfg i j) (fun _ ↦ AtRest i) X (timer p) w :=
  safe_catching h hp fun _ _ h' ↦ safe_restful h' rfl rfl fun _ ↦ trivial

theorem safe_sendTask (h : AtRest i w) :
    Safe (env cfg i j) (fun _ ↦ AtRest i) X sendTask w := by
  refine (smooth_free .isSending rfl rfl fun _ ↦ trivial).seq fun sending w₁ _ h₁ _ ↦ ?_
  have h' := atRest_works h (.of_same h₁) (Settled.keeps h.settled h₁.books)
  split
  · exact Safe.ret fun w₂ hr _ ↦ h'.rely hr
  · exact safe_processPendingSends h'

/-- Every job keeps to its outline. -/
theorem safe_code (h : AtRest i w) :
    Safe (env cfg i j) (fun _ ↦ AtRest i) X (code cfg j) w := by
  have hr := ready_of_atRest h
  cases j with
  | receive identity data => exact safe_receive rfl h
  | cleanupInactiveSessions =>
    exact safe_timer h (delivers_of_calm h.settled (calm_cleanupInactiveSessions rfl hr.toUnlocked))
  | checkExpiredAcks =>
    exact safe_timer h (delivers_checkExpiredAcks hr.toUnlocked h.settled)
  | processPendingSends => exact safe_processPendingSends h
  | sendTask => exact safe_sendTask h

abbrev State := Pool Op Op.Res World Job

abbrev Step := Label Job Choice Tick

variable {ok : State → Step → Prop} {metrics : Option Metrics} {S : State}

/-- In every run of the broker each thread keeps to its outline. -/
theorem holds_of_reachable (h : (broker cfg).Reachable ok (initial metrics) S) :
    (outline cfg).Holds S :=
  Outline.reachable (inv_initial metrics) (fun i ↦ atRest_initial i metrics)
    (fun _ _ _ _ _ _ _ _ ↦ trivial) (fun _ _ _ _ h ↦ safe_code h) h

end MessageBroker.ServerOutlines
