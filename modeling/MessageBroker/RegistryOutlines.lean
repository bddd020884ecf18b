import MessageBroker.QueueOutlines

namespace MessageBroker.RegistryOutlines

open ByteStrings WireMessages MessageStore ProgramTrees ProofOutlines BrokerState SessionQueues
  ClientRegistry StoreInvariant OperationEffects ThreadViews SharedInvariant OutlineRules
  QueueOutlines

variable {cfg : Config} {i : ℕ} {j : Job} {w w' : World} {s id : ℕ} {c : Copy} {name : Bytes}

/-- A thread that holds no mutex. -/
structure Unlocked (i : ℕ) (w : World) : Prop extends Outside i w where
  registry : (hold i w).registry = false

theorem Unlocked.same (h : Unlocked i w) (hs : Same i w w') : Unlocked i w' :=
  ⟨h.toOutside.same hs, hs.owns ▸ h.registry⟩

/-- Inside a critical section of the registry. -/
structure Locked (i : ℕ) (w : World) : Prop extends Outside i w where
  registry : (hold i w).registry = true

theorem Locked.same (h : Locked i w) (hs : Same i w w') : Locked i w' :=
  ⟨h.toOutside.same hs, hs.owns ▸ h.registry⟩

theorem Unlocked.lock (h : Unlocked i w)
    (hm : Moves i (hold i w).lockRegistry (account i w.log) w w') : Locked i w' :=
  ⟨⟨fun s ↦ by rw [hm.owns]; exact h.queues s, hm.books.unpopped.trans h.unpopped⟩,
    by rw [hm.owns]; rfl⟩

theorem safe_findSession (hu : Unlocked i w) :
    Safe (env cfg i j)
      (fun a w' ↦ Moves i ((hold i w).acquire a) (account i w.log) w w' ∧
        ∀ s, a = some s → Named w' s name)
      (fun _ ↦ Crash i (hold i w) w) (findSession name) w := by
  refine safe_withRegistryLock (f := fun a ↦ a) hu.registry hu.queues (fun w₁ _ h₁ ↦ ?_)
    fun a w₂ w₃ hg h s hs ↦ (h s hs).grows hg
  refine (safe_op (.findClient name) fun _ _ _ _ ↦ trivial).mono (fun r w₂ hd ↦ ?_)
    fun _ _ h ↦ h
  exact ⟨hd.moves (f := (·.acquire r)) (fun _ _ _ ↦ hold_findClient) rfl,
    fun s hs ↦ hd.findClient hs⟩

theorem safe_findOnlineSession (hu : Unlocked i w) :
    Safe (env cfg i j)
      (fun a w' ↦ Moves i ((hold i w).acquire a) (account i w.log) w w' ∧
        ∀ s, a = some s → Named w' s name)
      (fun _ ↦ Crash i (hold i w) w) (findOnlineSession name) w := by
  refine safe_withRegistryLock (f := fun a ↦ a) hu.registry hu.queues (fun w₁ _ h₁ ↦ ?_)
    fun a w₂ w₃ hg h s hs ↦ (h s hs).grows hg
  have nothing {w₂ : World} (h : Same i w₁ w₂) :
      Safe (env cfg i j) (fun a w₃ ↦ Moves i ((hold i w₁).acquire a) (account i w₁.log) w₁ w₃ ∧
        ∀ s, a = some s → Named w₃ s name) (fun _ ↦ Crash i (hold i w₁) w₁) (pure none) w₂ :=
    Safe.ret fun w₃ hr _ ↦ ⟨h.rely hr, nofun⟩
  refine (smooth_op (.peekClient name) rfl rfl fun _ _ _ _ ↦ trivial).seq fun r w₂ _ h₂ _ ↦ ?_
  match r with
  | none => exact nothing h₂
  | some s =>
    refine (smooth_op (.isOnline s) rfl rfl fun _ _ _ _ ↦ trivial).seq fun online w₃ _ h₃ _ ↦ ?_
    have h₂₃ := h₂.then h₃
    cases online with
    | false => exact nothing h₂₃
    | true =>
      refine (safe_op (.findClient name) fun _ _ _ _ ↦ trivial).mono (fun a w₄ hd ↦ ⟨?_, ?_⟩)
        fun _ _ h ↦ h
      · have h₄ := hd.moves (f := (·.acquire a)) (fun _ _ _ ↦ hold_findClient) rfl
        exact ⟨h₄.owns.trans (by rw [h₂₃.owns]), h₂₃.books.trans h₄.books,
          h₂₃.grows.trans h₄.grows⟩
      · exact fun s hs ↦ hd.findClient hs

theorem calm_withRegistryLock {α : Type} {p : Program α} (hu : Unlocked i w)
    (hp : ∀ w₁, Consistent w₁ → Moves i (hold i w).lockRegistry (account i w.log) w w₁ →
      Calm cfg i j p (fun _ _ ↦ True) w₁) :
    Calm cfg i j (withRegistryLock p) (fun _ _ ↦ True) w :=
  safe_withRegistryLock (f := fun _ ↦ none) hu.registry hu.queues (fun w₁ hc₁ h₁ ↦ hp w₁ hc₁ h₁)
    fun _ _ _ _ h ↦ h

theorem calm_replaceSession {old : ℕ} (hl : Locked i w) (hold' : old < w.nextSession)
    (hs : Named w s name) (hn : Created j w s) (hp : 0 < (hold i w).pointers s) :
    Calm cfg i j (replaceSession name old s) (fun _ _ ↦ True) w := by
  refine (calm_persistQueueToDatabase hold' hl.toOutside).bind fun _ w₁ _ h₁ _ ↦ ?_
  refine (calm_op (.markOffline old) rfl rfl fun _ _ _ _ ↦ trivial).bind fun _ w₂ _ h₂ _ ↦ ?_
  refine (calm_op (.identityOf old) rfl rfl fun _ _ _ _ ↦ trivial).bind fun n w₃ _ h₃ _ ↦ ?_
  have h₁₃ : Same i w w₃ := (h₁.then h₂).then h₃
  refine (calm_op (.eraseName n) rfl rfl fun w' hr _ _ ↦ ?_).bind fun _ w₄ _ h₄ _ ↦ ?_
  · exact (hl.same (h₁₃.rely hr)).registry
  have h₁₄ : Same i w w₄ := h₁₃.then h₄
  refine (calm_op (.setClient name s) rfl rfl fun w' hr _ _ ↦ ⟨?_, ?_, ?_, ?_⟩).mono
    fun _ _ _ _ ↦ trivial
  · exact (hl.same (h₁₄.rely hr)).registry
  · exact (hs.grows (h₁₄.grows.trans hr.grows)).2
  · rw [hr.owns, h₁₄.owns]
    exact hp
  · exact (hn.grows (h₁₄.grows.trans hr.grows)).2

theorem smooth_countUpsert {replaced : Bool} :
    Smooth cfg i j (countUpsert replaced) (fun _ _ ↦ True) w := by
  refine (smooth_free .setActiveSessions rfl rfl fun _ ↦ trivial).bind fun _ _ _ _ _ ↦ ?_
  refine (Smooth.when fun _ ↦ smooth_free (.increment .clientsUnregistered) rfl rfl
    fun _ ↦ trivial).bind fun _ _ _ _ _ ↦ ?_
  exact smooth_free (.increment .clientsRegistered) rfl rfl fun _ ↦ trivial

/-- When the old queue cannot be persisted, the pointer to the old session is
given up before the exception goes on. -/
theorem safe_placeSession {H : Hold} {old : Option ℕ} (hl : Locked i w)
    (hown : hold i w = H.acquire old) (hold' : ∀ s, old = some s → s < w.nextSession)
    (hs : Named w s name) (hn : Created j w s) (hp : 0 < (hold i w).pointers s) :
    Safe (env cfg i j) (fun _ ↦ Same i w) (fun _ ↦ Crash i H w) (placeSession name s old) w := by
  cases old with
  | none =>
    refine (safe_op (.setClient name s) fun w' hr _ _ ↦ ⟨?_, ?_, ?_, ?_⟩).mono
      (fun _ _ hd ↦ hd.same rfl rfl) fun _ _ h ↦ h
    · exact (hl.same (.of_rely hr)).registry
    · exact (hs.grows hr.grows).2
    · rw [hr.owns]
      exact hp
    · exact (hn.grows hr.grows).2
  | some old =>
    refine Safe.recover (Safe.mono (calm_replaceSession hl (hold' old rfl) hs hn hp)
      (fun _ _ h ↦ h.1) fun e w₁ h₁ ↦ ?_)
    have hpos : 0 < (hold i w₁).pointers old := by
      rw [h₁.owns, hown]
      simp [Hold.acquire]
    have ho₁ : Outside i w₁ :=
      ⟨fun s ↦ h₁.owns ▸ hl.queues s, h₁.unpopped.trans hl.unpopped⟩
    refine Safe.seq (safe_dropSession (X := fun _ ↦ Crash i H w) hpos ho₁) (fun _ _ _ h ↦ h)
      fun _ w₂ _ h₂ ↦ ?_
    refine Safe.fail fun w₃ hr _ ↦ ?_
    have h₃ := h₂.rely hr
    refine ⟨?_, h₃.books.unpopped.trans h₁.unpopped, h₃.books.failed h₁.failed,
      h₁.grows.trans h₃.grows⟩
    rw [h₃.owns, h₁.owns, hown, Hold.release_acquire]

theorem safe_upsertClient (hu : Unlocked i w) (hs : Named w s name) (hn : Created j w s)
    (hp : 0 < (hold i w).pointers s) :
    Safe (env cfg i j)
      (fun a w' ↦ Moves i ((hold i w).acquire a) (account i w.log) w w')
      (fun _ ↦ Crash i (hold i w) w) (upsertClient name s) w := by
  refine (safe_withRegistryLock (f := fun a ↦ a) (P := fun _ _ ↦ True) hu.registry hu.queues
    (fun w₁ _ h₁ ↦ ?_) fun _ _ _ _ h ↦ h).mono (fun _ _ h ↦ h.1) fun _ _ h ↦ h
  have hl₁ : Locked i w₁ := hu.lock h₁
  refine Safe.seq (safe_op (.findClient name) fun _ _ _ _ ↦ trivial) (Y := fun _ _ ↦ False)
    (fun _ _ _ h ↦ h.elim) fun old w₂ _ hd ↦ ?_
  have h₂ := hd.moves (f := (·.acquire old)) (fun _ _ _ ↦ hold_findClient) rfl
  have hl₂ : Locked i w₂ :=
    ⟨⟨fun s ↦ by rw [h₂.owns, Hold.queues_acquire]; exact hl₁.queues s,
      h₂.books.unpopped.trans hl₁.unpopped⟩, by rw [h₂.owns, Hold.registry_acquire, hl₁.registry]⟩
  have hp₂ : 0 < (hold i w₂).pointers s := by
    rw [h₂.owns, h₁.owns]
    cases old with
    | none => exact hp
    | some old =>
      simp only [Hold.acquire, Hold.lockRegistry, Function.update_apply]
      split
      · omega
      · exact hp
  have hs₂ : Named w₂ s name := hs.grows (h₁.grows.trans h₂.grows)
  have hn₂ : Created j w₂ s := hn.grows (h₁.grows.trans h₂.grows)
  refine Safe.seq (safe_placeSession hl₂ h₂.owns (fun s hs ↦ (hd.findClient hs).1) hs₂ hn₂ hp₂)
    (fun e w₃ _ h ↦ ?_) fun _ w₃ _ h₃ ↦ ?_
  · exact ⟨h.owns, h.unpopped.trans h₂.books.unpopped, h.failed, h₂.grows.trans h.grows⟩
  have hrest : Smooth cfg i j (do
      perform (.setName (← perform (.identityOf s)) name)
      Prog.when (← perform .hasMetrics) (countUpsert old.isSome)
      return old) (fun a _ ↦ a = old) w₃ := by
    refine (smooth_free (.identityOf s) rfl rfl fun _ ↦ trivial).bind fun n w₄ _ h₄ _ ↦ ?_
    refine (smooth_op (.setName n name) rfl rfl fun w' hr _ _ ↦ ?_).bind fun _ _ _ _ _ ↦ ?_
    · exact (((hl₂.same h₃).same h₄).same (.of_rely hr)).registry
    refine (smooth_free .hasMetrics rfl rfl fun _ ↦ trivial).bind fun _ _ _ _ _ ↦ ?_
    exact (Smooth.when fun _ ↦ smooth_countUpsert).bind fun _ _ _ _ _ ↦
      Smooth.ret fun _ _ _ ↦ rfl
  have h₂₃ := h₂.then h₃
  refine Safe.mono hrest (fun a w₄ h ↦ ?_) fun _ w₄ h ↦ h.elim
  obtain ⟨h, rfl⟩ := h
  exact ⟨h₂₃.then h, trivial⟩

theorem calm_eraseClient (hj : ∀ m, Receives j m → m.type ≠ .register) (hl : Locked i w)
    (hlook : w.activeClients.lookup name = some s) :
    Calm cfg i j (eraseClient name s) (fun _ _ ↦ True) w := by
  refine ((smooth_op (.identityOf s) rfl rfl fun _ _ _ _ ↦ trivial).seq
    fun n w₁ _ h₁ hd₁ ↦ ?_)
  have hl₁ := hl.same h₁
  have hlook₁ : w₁.activeClients.lookup name = some s := by
    rw [hd₁.clients hl.registry rfl (by simp [writes]), hlook]
  refine (smooth_op (.eraseName n) rfl rfl fun w' hr _ _ ↦ ?_).seq fun _ w₂ _ h₂ hd₂ ↦ ?_
  · exact (hl₁.same (.of_rely hr)).registry
  have hl₂ := hl₁.same h₂
  have hlook₂ : w₂.activeClients.lookup name = some s := by
    rw [hd₂.clients hl₁.registry rfl (by simp [writes]), hlook₁]
  refine Safe.seq (safe_op (.removeClient name) fun w' hr _ _ ↦ ?_) (Y := fun _ _ ↦ False)
    (fun _ _ _ h ↦ h.elim) fun _ w₃ _ hd₃ ↦ ?_
  · exact ⟨(hl₂.same (.of_rely hr)).registry, hj⟩
  have hown : hold i w₃ = (hold i w₂).acquire (some s) := by
    obtain ⟨ch, u, u', hr, -, he, hr'⟩ := hd₃.moment
    rw [hr'.owns, hold_removeClient he, hr.clients hl₂.registry, hlook₂, hr.owns]
  have h₁₂ : Same i w w₂ := h₁.then h₂
  have h₃ : Moves i ((hold i w).acquire (some s)) (account i w.log) w w₃ :=
    ⟨hown.trans (by rw [h₁₂.owns]), h₁₂.books.trans (hd₃.books ▸ note_keeps rfl),
      h₁₂.grows.trans hd₃.grows⟩
  refine (safe_dropSession ?_ ⟨fun s ↦ ?_, h₃.books.unpopped.trans hl.unpopped⟩).mono
    (fun _ w₄ h ↦ ⟨⟨?_, h₃.books.trans h.books, h₃.grows.trans h.grows⟩, trivial⟩) fun _ _ h ↦ h
  · rw [h₃.owns]
    simp [Hold.acquire]
  · rw [h₃.owns, Hold.queues_acquire]
    exact hl.queues s
  · rw [h.owns, h₃.owns, Hold.release_acquire]

theorem calm_unregisterClient (hj : ∀ m, Receives j m → m.type ≠ .register) (hu : Unlocked i w) :
    Calm cfg i j (unregisterClient name) (fun _ _ ↦ True) w := by
  refine calm_withRegistryLock hu fun w₁ _ h₁ ↦ ?_
  have hl := hu.lock h₁
  refine (smooth_op (.peekClient name) rfl rfl fun _ _ _ _ ↦ trivial).calm.bind
    fun r w₂ _ h₂ hd ↦ ?_
  match r with
  | none => exact Calm.ret fun _ _ _ ↦ trivial
  | some s =>
    refine (calm_eraseClient hj (hl.same h₂) (hd.peekClient hl.registry)).bind fun _ _ _ _ _ ↦ ?_
    refine ((smooth_free (.increment .clientsUnregistered) rfl rfl fun _ ↦ trivial).bind
      fun _ _ _ _ _ ↦ ?_).calm
    exact smooth_free .setActiveSessions rfl rfl fun _ ↦ trivial

theorem calm_printLoop (entries : List (Bytes × ℕ)) (ho : Outside i w)
    (he : ∀ e ∈ entries, Named w e.2 e.1) :
    Calm cfg i j (printLoop entries) (fun _ _ ↦ True) w := by
  induction entries generalizing w with
  | nil => exact Calm.ret fun _ _ _ ↦ trivial
  | cons e rest ih =>
    have hs := (he e List.mem_cons_self).1
    have hsize : Calm cfg i j (withQueueLock e.2 (perform (.queueSize e.2)))
        (fun _ _ ↦ True) w := by
      refine safe_withQueueLock (P := fun _ _ ↦ True) hs ho.queues ho.unpopped ho.unpopped
        (fun w₁ _ h₁ ↦ ?_) fun _ _ _ _ _ h ↦ h
      refine (safe_op (.queueSize e.2) fun _ _ _ _ ↦ trivial).mono (fun _ w₂ hd ↦ ?_)
        fun _ _ h ↦ h
      have h₂ := hd.same rfl rfl
      exact ⟨⟨h₂.owns, h₁.books.trans h₂.books, h₂.grows⟩, trivial⟩
    refine hsize.bind fun _ w₁ _ h₁ _ ↦ ih (ho.same h₁) fun e he' ↦ ?_
    exact (he e (List.mem_cons_of_mem _ he')).grows h₁.grows

theorem calm_printActiveClients (hu : Unlocked i w) :
    Calm cfg i j printActiveClients (fun _ _ ↦ True) w := by
  refine calm_withRegistryLock hu fun w₁ _ h₁ ↦ ?_
  refine (smooth_op .listClients rfl rfl fun _ _ _ _ ↦ trivial).calm.bind
    fun r w₂ _ h₂ hd ↦ ?_
  exact calm_printLoop r ((hu.lock h₁).toOutside.same h₂) hd.listClients

section Cleanup

variable (hj : j = .cleanupInactiveSessions)
include hj

theorem calm_expireSession {timeout : ℤ} (ho : Outside i w) (hs : s < w.nextSession) :
    Calm cfg i j (expireSession timeout s)
      (fun a w' ↦ a = true → (account i w'.log).removing = true) w := by
  refine (calm_op (.isExpired s timeout) rfl rfl fun _ _ _ _ ↦ trivial).bind
    fun r w₁ _ h₁ hd ↦ ?_
  cases r with
  | false => exact Calm.ret fun _ _ _ h ↦ nomatch h
  | true =>
    have hrem : (account i w₁.log).removing = true := by
      rw [hd.books]
      simp [Account.note, hj]
    refine (calm_op (.markOffline s) rfl rfl fun _ _ _ _ ↦ trivial).bind fun _ w₂ _ h₂ _ ↦ ?_
    have h₁₂ := h₁.then h₂
    refine (calm_persistQueueToDatabase (Nat.lt_of_lt_of_le hs h₁₂.grows.sessions)
      (ho.same h₁₂)).bind fun _ w₃ _ h₃ _ ↦ Calm.ret fun w₄ hr _ _ ↦ ?_
    exact ((h₂.then h₃).rely hr).books.removing hrem

theorem calm_shouldRemove {timeout : ℤ} (ho : Outside i w) (hs : s < w.nextSession) :
    Calm cfg i j (shouldRemove timeout s)
      (fun a w' ↦ a = true → (account i w'.log).removing = true) w := by
  refine (calm_op (.isOnline s) rfl rfl fun _ _ _ _ ↦ trivial).bind fun r w₁ _ h₁ hd ↦ ?_
  cases r with
  | false =>
    refine Calm.ret fun w₂ hr _ _ ↦ (Same.of_rely hr).books.removing ?_
    rw [hd.books]
    simp [Account.note, hj]
  | true =>
    change Calm cfg i j (if 0 < timeout then expireSession timeout s else pure false) _ w₁
    split
    · exact calm_expireSession hj (ho.same h₁) (Nat.lt_of_lt_of_le hs h₁.grows.sessions)
    · exact Calm.ret fun _ _ _ h ↦ by cases h

theorem calm_scanClients {timeout : ℤ} (entries : List (Bytes × ℕ)) (ho : Outside i w)
    (he : ∀ e ∈ entries, Named w e.2 e.1) :
    Calm cfg i j (scanClients timeout entries)
      (fun names w' ↦ names ≠ [] → (account i w'.log).removing = true) w := by
  induction entries generalizing w with
  | nil => exact Calm.ret fun _ _ _ h ↦ absurd rfl h
  | cons e rest ih =>
    obtain ⟨n, s⟩ := e
    have hs := (he (n, s) List.mem_cons_self).1
    refine (calm_shouldRemove hj ho hs).bind fun remove w₁ _ h₁ hremove ↦ ?_
    refine (ih (ho.same h₁) fun e he' ↦ (he e (List.mem_cons_of_mem _ he')).grows
      h₁.grows).bind fun names w₂ _ h₂ hnames ↦ Calm.ret fun w₃ hr _ hne ↦ ?_
    have h₃ := Same.of_rely hr
    cases remove with
    | true => exact (h₂.then h₃).books.removing (hremove rfl)
    | false => exact h₃.books.removing (hnames hne)

theorem calm_removeClients (names : List Bytes) (hl : Locked i w) :
    Calm cfg i j (removeClients names) (fun _ _ ↦ True) w := by
  induction names generalizing w with
  | nil => exact Calm.ret fun _ _ _ ↦ trivial
  | cons n rest ih =>
    have hnone (m : Message) (hm : Receives j m) : m.type ≠ .register := by
      obtain ⟨identity, data, hr, -⟩ := hm
      cases hj.symm.trans hr
    have hone : Calm cfg i j (removeClient n) (fun _ _ ↦ True) w := by
      refine (calm_op (.peekClient n) rfl rfl fun _ _ _ _ ↦ trivial).bind fun r w₁ _ h₁ hd ↦ ?_
      match r with
      | none => exact Calm.ret fun _ _ _ ↦ trivial
      | some s =>
        refine (calm_eraseClient hnone (hl.same h₁) (hd.peekClient hl.registry)).bind
          fun _ _ _ _ _ ↦ ?_
        exact (smooth_free (.increment .clientsTimeout) rfl rfl fun _ ↦ trivial).calm
    exact hone.bind fun _ w₁ _ h₁ _ ↦ ih (hl.same h₁)

/-- With metrics on, this blocks for ever: the thread already owns the mutex. -/
theorem calm_updateSessionMetrics (hl : Locked i w)
    (hrem : (account i w.log).removing = true) :
    Calm cfg i j updateSessionMetrics (fun _ _ ↦ True) w := by
  refine (calm_op .hasMetrics rfl rfl fun _ _ _ _ ↦ trivial).bind fun r w₁ _ h₁ hd ↦ ?_
  refine Calm.when fun hr ↦ ?_
  have hl₁ := hl.same h₁
  have hm : w₁.metrics.isSome = true := hd.hasMetrics ▸ hr
  refine Safe.seq (P := fun _ _ ↦ False) (Y := fun _ _ ↦ False) ?_ (fun _ _ _ h ↦ h.elim)
    fun _ _ _ h ↦ h.elim
  refine (safe_op .lockRegistry fun w₂ hr _ _ ↦ ⟨?_, fun _ ↦ ⟨hj, ?_, ?_⟩⟩).mono
    (fun _ w₂ hd ↦ ?_) fun _ _ h ↦ h
  · exact (hl₁.same (.of_rely hr)).queues
  · rw [hr.grows.metrics, hm]
  · exact (h₁.rely hr).books.removing hrem
  · obtain ⟨ch, u, u', hr, -, he, -⟩ := hd.moment
    have hown : u.registryOwner = some i := of_decide_eq_true (hl₁.same (.of_rely hr)).registry
    rw [(exec_lockRegistry he).1] at hown
    cases hown

theorem calm_cleanupInactiveSessions (hu : Unlocked i w) :
    Calm cfg i j (cleanupInactiveSessions cfg) (fun _ _ ↦ True) w := by
  refine calm_withRegistryLock hu fun w₁ _ h₁ ↦ ?_
  have hl := hu.lock h₁
  refine (calm_op .listClients rfl rfl fun _ _ _ _ ↦ trivial).bind fun r w₂ _ h₂ hd ↦ ?_
  have hl₂ := hl.same h₂
  refine (calm_scanClients hj r hl₂.toOutside hd.listClients).bind fun names w₃ _ h₃ hn ↦ ?_
  refine (calm_removeClients hj names (hl₂.same h₃)).bind fun _ w₄ _ h₄ _ ↦ ?_
  refine Calm.when fun hne ↦ calm_updateSessionMetrics hj ((hl₂.same h₃).same h₄) ?_
  exact h₄.books.removing (hn (of_decide_eq_true hne))

end Cleanup

end MessageBroker.RegistryOutlines
