import MessageBroker.SharedInvariant

namespace MessageBroker.OutlineRules

open ByteStrings WireMessages MessageStore ProgramTrees ProofOutlines BrokerState SessionQueues
  ClientRegistry StoreInvariant OperationEffects ThreadViews SharedInvariant

abbrev env (cfg : Config) (i : ℕ) (j : Job) := (outline cfg).setting i j

/-- Thread `i` has come from `w` to `w'`, where it owns `H` and its account is
what `A` says, up to entries that accumulate. -/
structure Moves (i : ℕ) (H : Hold) (A : Account) (w w' : World) : Prop where
  owns : hold i w' = H
  books : A.Keeps (account i w'.log)
  grows : Grows w w'

abbrev Same (i : ℕ) (w w' : World) : Prop := Moves i (hold i w) (account i w.log) w w'

/-- A database call has failed; what the thread owes does not matter any more. -/
structure Crash (i : ℕ) (H : Hold) (w w' : World) : Prop where
  owns : hold i w' = H
  unpopped : (account i w'.log).unpopped = (account i w.log).unpopped
  failed : (account i w'.log).failed = true
  grows : Grows w w'

/-- An allocated session and its name, which never change again. -/
def Named (w : World) (s : ℕ) (n : Bytes) : Prop := s < w.nextSession ∧ (w.sessions s).name = n

theorem Named.grows {w w' : World} {s : ℕ} {n : Bytes} (h : Named w s n) (hg : Grows w w') :
    Named w' s n :=
  ⟨Nat.lt_of_lt_of_le h.1 hg.sessions, (hg.name s h.1).trans h.2⟩

/-- An allocated session that the job has created for its own connection. -/
def Created (j : Job) (w : World) (s : ℕ) : Prop :=
  s < w.nextSession ∧ ∃ data, j = .receive (w.sessions s).identity data

theorem Created.grows {j : Job} {w w' : World} {s : ℕ} (h : Created j w s) (hg : Grows w w') :
    Created j w' s := by
  obtain ⟨hs, data, hj⟩ := h
  exact ⟨Nat.lt_of_lt_of_le hs hg.sessions, data, by rw [hg.identity s hs]; exact hj⟩

/-- Between `w` and `w'` the thread has performed one operation. -/
def Performed (i : ℕ) (j : Job) (o : Op) (w : World) (r : o.Res) (w' : World) : Prop :=
  ∃ ch w₁ w₂, Rely i w w₁ ∧ Consistent w₁ ∧ exec i j o ch w₁ = some (r, w₂) ∧ Grows w₁ w₂ ∧ Consistent w₂ ∧
    Rely i w₂ w'

/-- `p` leaves the ownership and the account of its thread as they are. -/
def Calm (cfg : Config) (i : ℕ) (j : Job) {α : Type} (p : Program α) (P : α → World → Prop)
    (w : World) : Prop :=
  Safe (env cfg i j) (fun a w' ↦ Same i w w' ∧ P a w') (fun _ ↦ Crash i (hold i w) w) p w

variable {cfg : Config} {i : ℕ} {j : Job} {α β : Type} {u v w w' : World} {H H' : Hold}
  {A B : Account} {s : ℕ} {c : Copy} {o : Op} {r : o.Res}

theorem Moves.then (h : Moves i H A u v) (h' : Same i v w) : Moves i H A u w :=
  ⟨h'.owns.trans h.owns, h.books.trans h'.books, h.grows.trans h'.grows⟩

theorem Moves.and (h : Same i u v) (h' : Moves i H A v w) : Moves i H A u w :=
  ⟨h'.owns, h'.books, h.grows.trans h'.grows⟩

theorem Moves.crash (h : Moves i H A u v) (hA : A.unpopped = (account i u.log).unpopped)
    (h' : Crash i (hold i v) v w) : Crash i H u w :=
  ⟨h'.owns.trans h.owns, (h'.unpopped.trans h.books.unpopped).trans hA, h'.failed,
    h.grows.trans h'.grows⟩

theorem Crash.then (h : Crash i H u v) (h' : Same i v w) : Crash i H u w :=
  ⟨h'.owns.trans h.owns, h'.books.unpopped.trans h.unpopped, h'.books.failed h.failed,
    h.grows.trans h'.grows⟩

theorem Crash.crash (h : Crash i H u v) (h' : Crash i (hold i v) v w) :
    Crash i H u w :=
  ⟨h'.owns.trans h.owns, h'.unpopped.trans h.unpopped, h'.failed, h.grows.trans h'.grows⟩

theorem Same.of_rely (h : Rely i w w') : Same i w w' :=
  ⟨h.owns, h.books ▸ .refl _, h.grows⟩

theorem Moves.rely (h : Moves i H A u v) (hr : Rely i v w) : Moves i H A u w :=
  h.then (.of_rely hr)

theorem Performed.grows (h : Performed i j o w r w') : Grows w w' := by
  obtain ⟨ch, w₁, w₂, h₁, -, -, hg, -, h₂⟩ := h
  exact h₁.grows.trans (hg.trans h₂.grows)

theorem Performed.rely (h : Performed i j o w r v) (hr : Rely i v w') :
    Performed i j o w r w' := by
  obtain ⟨ch, w₁, w₂, h₁, hi, he, hg, hi', h₂⟩ := h
  exact ⟨ch, w₁, w₂, h₁, hi, he, hg, hi', h₂.trans hr⟩

theorem Performed.owns (h : Performed i j o w r w') (ho : changesHold o = false) :
    hold i w' = hold i w := by
  obtain ⟨ch, w₁, w₂, h₁, -, he, -, -, h₂⟩ := h
  rw [h₂.owns, hold_exec he ho, h₁.owns]

theorem Performed.books (h : Performed i j o w r w') :
    account i w'.log = (account i w.log).note j o r := by
  obtain ⟨ch, w₁, w₂, h₁, -, he, -, -, h₂⟩ := h
  rw [h₂.books, account_exec he, h₁.books]

theorem Performed.same (h : Performed i j o w r w') (ho : changesHold o = false)
    (hk : keepsAccount o = true) : Same i w w' :=
  ⟨h.owns ho, h.books ▸ note_keeps hk, h.grows⟩

theorem Performed.queue (h : Performed i j o w r w')
    (hs : (hold i w).queues s = true) (ho : changesHold o = false)
    (hq : .queues ∉ writes o) :
    (w'.sessions s).outgoingQueue = (w.sessions s).outgoingQueue := by
  obtain ⟨ch, w₁, w₂, h₁, -, he, -, -, h₂⟩ := h
  have hs₁ : (hold i w₁).queues s = true := h₁.owns ▸ hs
  have hs₂ : (hold i w₂).queues s = true := hold_exec he ho ▸ hs₁
  rw [h₂.queue s hs₂, (exec_frame he).queues (by simp [hq]), h₁.queue s hs]

theorem Performed.moment (h : Performed i j o w r w') : ∃ ch w₁ w₂, Rely i w w₁ ∧
    Consistent w₁ ∧ exec i j o ch w₁ = some (r, w₂) ∧ Rely i w₂ w' := by
  obtain ⟨ch, w₁, w₂, h₁, hc, he, -, -, h₂⟩ := h
  exact ⟨ch, w₁, w₂, h₁, hc, he, h₂⟩

theorem Performed.nameOf {r : Bytes} (h : Performed i j (.nameOf s) w r w')
    (hs : s < w.nextSession) : r = (w.sessions s).name := by
  obtain ⟨ch, w₁, w₂, h₁, -, he, -⟩ := h.moment
  have hr : some (w₁.sessions s).name = some r := exec_reads he
  rw [← Option.some.inj hr, h₁.grows.name s hs]

theorem Performed.isOnline_of_offline {r : Bool} (h : Performed i j (.isOnline s) w r w')
    (hs : s < w.nextSession) (hoff : (w.sessions s).isOnline = false) : r = false := by
  obtain ⟨ch, w₁, w₂, h₁, -, he, -⟩ := h
  have hr : some (w₁.sessions s).isOnline = some r := exec_reads he
  rw [← Option.some.inj hr, h₁.grows.offline s hs hoff]

theorem Performed.offline (h : Performed i j (.isOnline s) w false w')
    (hs : s < w.nextSession) : (w'.sessions s).isOnline = false := by
  obtain ⟨ch, w₁, w₂, h₁, -, he, hg, -, h₂⟩ := h
  have hr : some (w₁.sessions s).isOnline = some false := exec_reads he
  have hs₁ := Nat.lt_of_lt_of_le hs h₁.grows.sessions
  exact (hg.trans h₂.grows).offline s hs₁ (Option.some.inj hr)

theorem Performed.queueFront {r : Option Copy} (h : Performed i j (.queueFront s) w r w')
    (hs : (hold i w).queues s = true) : r = (w.sessions s).outgoingQueue.head? := by
  obtain ⟨ch, w₁, w₂, h₁, -, he, -⟩ := h.moment
  have hr : some (w₁.sessions s).outgoingQueue.head? = some r := exec_reads he
  rw [← Option.some.inj hr, h₁.queue s hs]

theorem Performed.queueSize {r : ℕ} (h : Performed i j (.queueSize s) w r w')
    (hs : (hold i w).queues s = true) : r = (w.sessions s).outgoingQueue.length := by
  obtain ⟨ch, w₁, w₂, h₁, -, he, -⟩ := h.moment
  have hr : some (w₁.sessions s).outgoingQueue.length = some r := exec_reads he
  rw [← Option.some.inj hr, h₁.queue s hs]

theorem Performed.popQueue {r : Unit} (h : Performed i j (.popQueue s) w r w')
    (hs : (hold i w).queues s = true) :
    (w'.sessions s).outgoingQueue = (w.sessions s).outgoingQueue.tail := by
  obtain ⟨ch, w₁, w₂, h₁, -, he, h₂⟩ := h.moment
  have hs₂ : (hold i w₂).queues s = true := by
    rw [hold_exec he rfl, h₁.owns]
    exact hs
  rw [h₂.queue s hs₂, exec_popQueue he, if_pos rfl, h₁.queue s hs]

theorem Performed.findClient {n : Bytes} {r : Option ℕ}
    (h : Performed i j (.findClient n) w r w') (hr : r = some s) : Named w' s n := by
  obtain ⟨ch, w₁, w₂, -, hc, he, hg, -, h₂⟩ := h
  have hl := (exec_findClient he).1.trans hr
  have hn : Named w₁ s n := hc.clients n s hl
  exact hn.grows (hg.trans h₂.grows)

theorem Performed.clients (h : Performed i j o w r w') (hr : (hold i w).registry = true)
    (ho : changesHold o = false) (hc : .clients ∉ writes o) :
    w'.activeClients = w.activeClients := by
  obtain ⟨ch, w₁, w₂, h₁, -, he, h₂⟩ := h.moment
  have hr₁ : (hold i w₁).registry = true := h₁.owns ▸ hr
  have hr₂ : (hold i w₂).registry = true := hold_exec he ho ▸ hr₁
  rw [h₂.clients hr₂, (exec_frame he).clients (by simp [hc]), h₁.clients hr]

theorem Performed.peekClient {n : Bytes} {r : Option ℕ}
    (h : Performed i j (.peekClient n) w r w') (hr : (hold i w).registry = true) :
    w'.activeClients.lookup n = r := by
  rw [h.clients hr rfl (by simp [writes])]
  obtain ⟨ch, w₁, w₂, h₁, -, he, -⟩ := h.moment
  have hl : some (w₁.activeClients.lookup n) = some r := exec_reads he
  rw [← Option.some.inj hl, h₁.clients hr]

theorem Performed.listClients {r : List (Bytes × ℕ)} (h : Performed i j .listClients w r w') :
    ∀ e ∈ r, Named w' e.2 e.1 := by
  obtain ⟨ch, w₁, w₂, -, hc, he, hg, -, h₂⟩ := h
  have hl : some ((OrderedSelection.orderBy (fun _ ↦ 0) (fun e ↦ ch.tie e.2)
      w₁.activeClients.entries).map fun e ↦ (e.1, e.2)) = some r := exec_reads he
  intro e hm
  rw [← Option.some.inj hl] at hm
  obtain ⟨⟨n, s⟩, he', rfl⟩ := List.mem_map.mp hm
  have hn : Named w₁ s n := hc.clients n s
    (AList.mem_lookup_iff.mpr (OrderedSelection.mem_orderBy.mp he'))
  exact hn.grows (hg.trans h₂.grows)

theorem Performed.hasMetrics {r : Bool} (h : Performed i j .hasMetrics w r w') :
    r = w'.metrics.isSome := by
  obtain ⟨ch, w₁, w₂, -, -, he, hg, -, h₂⟩ := h
  have hr : some w₁.metrics.isSome = some r := exec_reads he
  rw [← Option.some.inj hr, h₂.grows.metrics, hg.metrics]

theorem Performed.saveMessage {id : ℕ} (h : Performed i j (.saveMessage c) w (.ok id) w') :
    ∃ r ∈ w'.db.messages, r.id = id ∧ r.source = c.source ∧ Carries r c := by
  obtain ⟨ch, w₁, w₂, -, -, he, h₂⟩ := h.moment
  obtain ⟨-, ⟨e, hr⟩, -⟩ | ⟨hr, hdb⟩ := exec_saveMessage he
  · cases hr
  · cases hr
    have hrow : w₁.db.newRow w₁.wallClock c ∈ w₂.db.messages := by
      rw [hdb]
      exact List.mem_append_right _ (List.mem_singleton_self _)
    obtain ⟨st, hst⟩ := h₂.grows.db _ hrow
    exact ⟨_, hst, rfl, rfl, ⟨rfl, rfl, rfl, rfl, rfl, rfl⟩, rfl⟩

theorem safe_op {X : String → World → Prop} (o : Op)
    (ha : ∀ w₁, Rely i w w₁ → Consistent w₁ → w₁.terminated = false → Allowed i j w₁ o) :
    Safe (env cfg i j) (Performed i j o w) X (perform o) w := by
  refine Safe.perform fun w₁ h₁ hi ↦ ⟨ha w₁ h₁ hi, fun ch r w₂ _ he w₃ h₂ _ ↦ ?_⟩
  have hal := ha w₁ h₁ hi (exec_cases he).1
  exact ⟨ch, w₁, w₂, h₁, hi, he, step_grows hi hal he, step_inv hi hal he, h₂⟩

theorem calm_op (o : Op) (ho : changesHold o = false) (hk : keepsAccount o = true)
    (ha : ∀ w₁, Rely i w w₁ → Consistent w₁ → w₁.terminated = false → Allowed i j w₁ o) :
    Calm cfg i j (perform o) (Performed i j o w) w :=
  (safe_op o ha).mono (fun _ _ h ↦ ⟨h.same ho hk, h⟩) fun _ _ h ↦ h

theorem Calm.mono {p : Program α} {P Q : α → World → Prop} (h : Calm cfg i j p P w)
    (hQ : ∀ a w', Same i w w' → P a w' → Q a w') : Calm cfg i j p Q w :=
  Safe.mono h (fun a w' ha ↦ ⟨ha.1, hQ a w' ha.1 ha.2⟩) fun _ _ h ↦ h

theorem Calm.ret {a : α} {P : α → World → Prop}
    (h : ∀ w', Rely i w w' → Consistent w' → P a w') : Calm cfg i j (pure a) P w :=
  fun w' hr hi ↦ ⟨.of_rely hr, h w' hr hi⟩

theorem Calm.seq {p : Program α} {f : α → Program β} {P : α → World → Prop}
    {Q : β → World → Prop} {X : String → World → Prop} (h : Calm cfg i j p P w)
    (hX : ∀ e w', Crash i (hold i w) w w' → X e w')
    (hf : ∀ a w', Consistent w' → Same i w w' → P a w' → Safe (env cfg i j) Q X (f a) w') :
    Safe (env cfg i j) Q X (p >>= f) w :=
  Safe.seq h (fun e w' _ ↦ hX e w') fun a w' hi ha ↦ hf a w' hi ha.1 ha.2

theorem Calm.bind {p : Program α} {f : α → Program β} {P : α → World → Prop}
    {Q : β → World → Prop} (h : Calm cfg i j p P w)
    (hf : ∀ a w', Consistent w' → Same i w w' → P a w' → Calm cfg i j (f a) Q w') :
    Calm cfg i j (p >>= f) Q w :=
  Calm.seq h (fun _ _ h ↦ h) fun a w' hi hs ha ↦ Safe.mono (hf a w' hi hs ha)
    (fun _ _ h ↦ ⟨hs.then h.1, h.2⟩) fun _ _ h ↦ hs.crash rfl h

theorem Performed.moves {f : Hold → Hold} (h : Performed i j o w r w')
    (hf : ∀ ch w₁ w₂, exec i j o ch w₁ = some (r, w₂) → hold i w₂ = f (hold i w₁))
    (hk : keepsAccount o = true) : Moves i (f (hold i w)) (account i w.log) w w' := by
  refine ⟨?_, h.books ▸ note_keeps hk, h.grows⟩
  obtain ⟨ch, w₁, w₂, h₁, -, he, -, -, h₂⟩ := h
  rw [h₂.owns, hf ch w₁ w₂ he, h₁.owns]

/-- A calm program that never throws. -/
def Smooth (cfg : Config) (i : ℕ) (j : Job) {α : Type} (p : Program α) (P : α → World → Prop)
    (w : World) : Prop :=
  Safe (env cfg i j) (fun a w' ↦ Same i w w' ∧ P a w') (fun _ _ ↦ False) p w

theorem smooth_op (o : Op) (ho : changesHold o = false) (hk : keepsAccount o = true)
    (ha : ∀ w₁, Rely i w w₁ → Consistent w₁ → w₁.terminated = false → Allowed i j w₁ o) :
    Smooth cfg i j (perform o) (Performed i j o w) w :=
  (safe_op o ha).mono (fun _ _ h ↦ ⟨h.same ho hk, h⟩) fun _ _ h ↦ h

theorem Smooth.calm {p : Program α} {P : α → World → Prop} (h : Smooth cfg i j p P w) :
    Calm cfg i j p P w :=
  Safe.mono h (fun _ _ h ↦ h) fun _ _ h ↦ h.elim

theorem Smooth.mono {p : Program α} {P Q : α → World → Prop} (h : Smooth cfg i j p P w)
    (hQ : ∀ a w', Same i w w' → P a w' → Q a w') : Smooth cfg i j p Q w :=
  Safe.mono h (fun a w' ha ↦ ⟨ha.1, hQ a w' ha.1 ha.2⟩) fun _ _ h ↦ h

theorem Smooth.ret {a : α} {P : α → World → Prop}
    (h : ∀ w', Rely i w w' → Consistent w' → P a w') : Smooth cfg i j (pure a) P w :=
  fun w' hr hi ↦ ⟨.of_rely hr, h w' hr hi⟩

theorem Smooth.seq {p : Program α} {f : α → Program β} {P : α → World → Prop}
    {Q : β → World → Prop} {X : String → World → Prop} (h : Smooth cfg i j p P w)
    (hf : ∀ a w', Consistent w' → Same i w w' → P a w' → Safe (env cfg i j) Q X (f a) w') :
    Safe (env cfg i j) Q X (p >>= f) w :=
  Safe.seq h (fun _ _ _ h ↦ h.elim) fun a w' hc ha ↦ hf a w' hc ha.1 ha.2

theorem Smooth.bind {p : Program α} {f : α → Program β} {P : α → World → Prop}
    {Q : β → World → Prop} (h : Smooth cfg i j p P w)
    (hf : ∀ a w', Consistent w' → Same i w w' → P a w' → Smooth cfg i j (f a) Q w') :
    Smooth cfg i j (p >>= f) Q w :=
  h.seq fun a w' hc hs ha ↦ Safe.mono (hf a w' hc hs ha) (fun _ _ h ↦ ⟨hs.then h.1, h.2⟩)
    fun _ _ h ↦ h

theorem smooth_free (o : Op) (ho : changesHold o = false) (hk : keepsAccount o = true)
    (ha : ∀ w, Allowed i j w o) : Smooth cfg i j (perform o) (fun _ _ ↦ True) w :=
  (smooth_op o ho hk fun w₁ _ _ _ ↦ ha w₁).mono fun _ _ _ _ ↦ trivial

theorem Smooth.when {b : Bool} {p : Program Unit} (h : b = true → Smooth cfg i j p (fun _ _ ↦ True) w) :
    Smooth cfg i j (Prog.when b p) (fun _ _ ↦ True) w := by
  unfold Prog.when
  split
  · exact h ‹_›
  · exact Smooth.ret fun _ _ _ ↦ trivial

theorem Calm.when {b : Bool} {p : Program Unit} (h : b = true → Calm cfg i j p (fun _ _ ↦ True) w) :
    Calm cfg i j (Prog.when b p) (fun _ _ ↦ True) w := by
  unfold Prog.when
  split
  · exact h ‹_›
  · exact Calm.ret fun _ _ _ ↦ trivial

theorem safe_call (o : Op) (f : o.Res → Except String α) (ho : changesHold o = false)
    (hf : ∀ (a : Account) r e, f r = .error e → a.note j o r = { a with failed := true })
    (ha : ∀ w₁, Rely i w w₁ → Consistent w₁ → w₁.terminated = false → Allowed i j w₁ o) :
    Safe (env cfg i j) (fun x w' ↦ ∃ r, f r = .ok x ∧ Performed i j o w r w')
      (fun _ ↦ Crash i (hold i w) w) (perform o >>= fun r ↦ Prog.lift (f r)) w := by
  refine Safe.seq (safe_op o ha) (Y := fun _ _ ↦ False) (fun _ _ _ h ↦ h.elim) fun r w' _ hd ↦ ?_
  refine Safe.lift (fun x hx w₂ hr _ ↦ ⟨r, hx, hd.rely hr⟩) fun e he w₂ hr _ ↦ ?_
  have hd := hd.rely hr
  have hb := hd.books
  rw [hf _ r e he] at hb
  exact ⟨hd.owns ho, by rw [hb], by rw [hb], hd.grows⟩

theorem safe_withQueueLock {p : Program α} {P Q : α → World → Prop} (hs : s < w.nextSession)
    (hfree : ∀ s, (hold i w).queues s = false) (hw : (account i w.log).unpopped = false)
    (hA : A.unpopped = false)
    (hp : ∀ w₁, Consistent w₁ → Moves i ((hold i w).lockQueue s) (account i w.log) w w₁ →
      Safe (env cfg i j) (fun a w₂ ↦ Moves i (hold i w₁) A w₁ w₂ ∧ P a w₂)
        (fun _ ↦ Crash i (hold i w₁) w₁) p w₁)
    (hP : ∀ a w₂ w₃, Grows w w₂ → Grows w₂ w₃ → P a w₂ → Q a w₃) :
    Safe (env cfg i j) (fun a w' ↦ Moves i (hold i w) A w w' ∧ Q a w')
      (fun _ ↦ Crash i (hold i w) w) (withQueueLock s p) w := by
  have hmine {w₁ w₂ : World} (h₁ : Moves i ((hold i w).lockQueue s) (account i w.log) w w₁)
      (h₂ : hold i w₂ = hold i w₁) : (hold i w₂).queues s = true := by
    rw [h₂, h₁.owns]
    exact Function.update_self _ _ _
  have hback {w₁ w₂ w₃ : World} (h₁ : Moves i ((hold i w).lockQueue s) (account i w.log) w w₁)
      (h₂ : hold i w₂ = hold i w₁) (h₃ : hold i w₃ = (hold i w₂).unlockQueue s) :
      hold i w₃ = hold i w := by
    rw [h₃, h₂, h₁.owns, Hold.unlockQueue_lockQueue (hfree s)]
  have unlock {Q : Unit → World → Prop} {X : String → World → Prop} {w₁ w₂ : World}
      (h₁ : Moves i ((hold i w).lockQueue s) (account i w.log) w w₁)
      (h₂ : hold i w₂ = hold i w₁) (hu : (account i w₂.log).unpopped = false)
      (hQ : ∀ w₃, hold i w₃ = hold i w → Moves i ((hold i w₂).unlockQueue s)
        (account i w₂.log) w₂ w₃ → Q () w₃) :
      Safe (env cfg i j) Q X (perform (.unlockQueue s)) w₂ := by
    refine (safe_op _ fun w₃ hr _ _ ↦ ?_).mono (fun _ w₃ hd ↦ ?_) fun _ _ h ↦ h
    · exact ⟨hr.owns ▸ hmine h₁ h₂, hr.books ▸ hu⟩
    · have hm := hd.moves (f := (·.unlockQueue s)) (fun _ _ _ ↦ hold_unlockQueue) rfl
      exact hQ w₃ (hback h₁ h₂ hm.owns) hm
  refine Safe.seq (safe_op (.lockQueue s) fun w₁ hr _ _ ↦ ?_) (Y := fun _ _ ↦ False)
    (fun _ _ _ h ↦ h.elim) fun _ w₁ hc₁ hd ↦ ?_
  · exact ⟨Nat.lt_of_lt_of_le hs hr.grows.sessions, fun s' ↦ by rw [hr.owns]; exact hfree s'⟩
  have h₁ := hd.moves (f := (·.lockQueue s)) (fun _ _ _ ↦ hold_lockQueue) rfl
  refine Safe.ensuring ((hp w₁ hc₁ h₁).mono (fun a w₂ h ↦ ?_) fun e w₂ h ↦ ?_)
  · refine unlock h₁ h.1.owns (h.1.books.unpopped.trans hA) fun w₃ hb hm ↦ ⟨?_, ?_⟩
    · exact ⟨hb, h.1.books.trans hm.books, h₁.grows.trans (h.1.grows.trans hm.grows)⟩
    · exact hP a w₂ w₃ (h₁.grows.trans h.1.grows) hm.grows h.2
  · refine unlock h₁ h.owns ((h.unpopped.trans h₁.books.unpopped).trans hw) fun w₃ hb hm ↦ ?_
    exact ⟨hb, hm.books.unpopped.trans (h.unpopped.trans h₁.books.unpopped),
      hm.books.failed h.failed, h₁.grows.trans (h.grows.trans hm.grows)⟩

theorem safe_withRegistryLock {p : Program α} {P : α → World → Prop} {f : α → Option ℕ}
    (hr : (hold i w).registry = false) (hfree : ∀ s, (hold i w).queues s = false)
    (hp : ∀ w₁, Consistent w₁ → Moves i (hold i w).lockRegistry (account i w.log) w w₁ →
      Safe (env cfg i j)
        (fun a w₂ ↦ Moves i ((hold i w₁).acquire (f a)) (account i w₁.log) w₁ w₂ ∧ P a w₂)
        (fun _ ↦ Crash i (hold i w₁) w₁) p w₁)
    (hP : ∀ a w₂ w₃, Grows w₂ w₃ → P a w₂ → P a w₃) :
    Safe (env cfg i j)
      (fun a w' ↦ Moves i ((hold i w).acquire (f a)) (account i w.log) w w' ∧ P a w')
      (fun _ ↦ Crash i (hold i w) w) (withRegistryLock p) w := by
  have unlock {Q : Unit → World → Prop} {X : String → World → Prop} {w₁ w₂ : World}
      (x : Option ℕ) (h₁ : Moves i (hold i w).lockRegistry (account i w.log) w w₁)
      (h₂ : hold i w₂ = (hold i w₁).acquire x)
      (hQ : ∀ w₃, hold i w₃ = (hold i w).acquire x →
        (account i w₂.log).Keeps (account i w₃.log) → Grows w₂ w₃ → Q () w₃) :
      Safe (env cfg i j) Q X (perform .unlockRegistry) w₂ := by
    refine (safe_op _ fun w₃ hr' _ _ ↦ ?_).mono (fun _ w₃ hd ↦ ?_) fun _ _ h ↦ h
    · change (hold i w₃).registry = true
      rw [hr'.owns, h₂, Hold.registry_acquire, h₁.owns]
      rfl
    · have hm := hd.moves (f := Hold.unlockRegistry) (fun _ _ _ ↦ hold_unlockRegistry) rfl
      refine hQ w₃ ?_ hm.books hm.grows
      rw [hm.owns, h₂, h₁.owns, Hold.unlockRegistry_acquire hr]
  refine Safe.seq (safe_op .lockRegistry fun w₁ hr' _ _ ↦ ?_) (Y := fun _ _ ↦ False)
    (fun _ _ _ h ↦ h.elim) fun _ w₁ hc₁ hd ↦ ?_
  · rw [Allowed, hr'.owns, hr]
    exact ⟨hfree, nofun⟩
  have h₁ := hd.moves (f := Hold.lockRegistry) (fun _ _ _ ↦ hold_lockRegistry) rfl
  refine Safe.ensuring ((hp w₁ hc₁ h₁).mono (fun a w₂ h ↦ ?_) fun e w₂ h ↦ ?_)
  · refine unlock (f a) h₁ h.1.owns fun w₃ hb hk hg ↦ ⟨?_, hP a w₂ w₃ hg h.2⟩
    exact ⟨hb, h₁.books.trans (h.1.books.trans hk), h₁.grows.trans (h.1.grows.trans hg)⟩
  · refine unlock none h₁ h.owns fun w₃ hb hk hg ↦ ⟨hb, ?_, hk.failed h.failed, ?_⟩
    · exact hk.unpopped.trans (h.unpopped.trans h₁.books.unpopped)
    · exact h₁.grows.trans (h.grows.trans hg)

end MessageBroker.OutlineRules
