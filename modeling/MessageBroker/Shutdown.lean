import MessageBroker.IsolatedRuns
import MessageBroker.RunInvariants

namespace MessageBroker.Shutdown

open ByteStrings WireMessages MessageStore ProgramTrees SequentialRuns ThreadPools BrokerState SessionQueues
  ServerJobs StoreInvariant OperationEffects ThreadViews SharedInvariant ServerOutlines RunInvariants
  IsolatedRuns

/-- The members of the server in the order of their declaration. -/
inductive Member
  | config
  | running
  | zmqContext
  | routerSocket
  | ioContext
  | workGuard
  | threads
  | zmqFd
  | cleanupTimer
  | ackTimeoutTimer
  | router
  | storage
  | pendingSends
  | pendingSendsMutex
  | sendingInProgress
  | metricsManager
deriving DecidableEq

def members : List Member :=
  [.config, .running, .zmqContext, .routerSocket, .ioContext, .workGuard, .threads, .zmqFd, .cleanupTimer,
    .ackTimeoutTimer, .router, .storage, .pendingSends, .pendingSendsMutex, .sendingInProgress, .metricsManager]

/-- The state in which the members are destroyed. `late` are the messages that
were to be saved when the database had been closed. -/
structure Closing where
  world : World
  storageOpen : Bool := true
  late : List Copy := []

variable (i : ℕ) (j : Job) (env : Op → Choice)

/-- An operation while the members are destroyed. Nothing is known of a call to
a storage that is gone but that it writes no row. -/
def execClosing (o : Op) (x : Closing) : Option (o.Res × Closing) :=
  match o with
  | .saveMessage c =>
    if x.storageOpen then
      (alone i j env (.saveMessage c) x.world).map fun r ↦ (r.1, { x with world := r.2 })
    else
      some (if (env (.saveMessage c)).dbError then .error "Failed to insert message" else .ok 0,
        { x with late := x.late ++ [c] })
  | o => (alone i j env o x.world).map fun r ↦ (r.1, { x with world := r.2 })

/-- `Server::Stop`: the callbacks of the sends that still wait are told that they failed. -/
def stop (w : World) : World :=
  { w.pendingSends.foldl (fun w send ↦ w.setSession send.session fun x ↦ { x with isOnline := false }) w with
    pendingSends := [] }

def destroyClients : List (Bytes × ℕ) → Program Unit
  | [] => pure ()
  | (name, s) :: rest => do
    perform (.removeClient name)
    dropSession s
    destroyClients rest

/-- The destruction of the router is that of its registry. -/
def destroyRouter : Program Unit := do
  destroyClients (← perform .listClients)

def destroyMember : Member → Closing → Option Closing
  | .storage, x => some { x with storageOpen := false }
  | .router, x => (interp (execClosing i j env) destroyRouter x).map (·.2)
  | _, x => some x

/-- The members are destroyed in the reverse order of their declaration. -/
def destroyServer (w : World) : Option Closing :=
  members.reverse.foldlM (fun x m ↦ destroyMember i j env m x) { world := w }

variable {i j env} {cfg : Config} {ok : State → Step → Prop} {metrics : Option Metrics} {S : State}
  {w w' : World} {x x' : Closing} {s : ℕ} {α : Type} {n : Bytes} {rest : List (Bytes × ℕ)}

/-- All that waited for a registered session has been saved, and nothing came
after the storage was closed. -/
def Persisted (w : World) (x : Closing) : Prop :=
  x.late = [] ∧ ∀ s, w.Registered s → ∀ c ∈ (w.sessions s).outgoingQueue,
    ∃ r ∈ x.world.db.messages, w.db.lastMessageId < r.id ∧
      Records r { c.msg with destination := (w.sessions s).name }

theorem destroyServer_eq (w : World) : destroyServer i j env w =
    (interp (execClosing i j env) destroyRouter { world := w, storageOpen := false }).map (·.2) := by
  simp [destroyServer, members, destroyMember]

/-- Nothing is left of the threads, and each session is registered under its own name only. -/
structure Stopped (w : World) : Prop where
  running : w.terminated = false
  owners : ∀ s, (w.sessions s).owners = []
  queueOwners : ∀ s, (w.sessions s).queueOwner = none
  names : ∀ n s, w.activeClients.lookup n = some s → (w.sessions s).name = n

theorem late_grows {o : Op} {r : o.Res} (h : execClosing i j env o x = some (r, x')) : x.late <+: x'.late := by
  unfold execClosing at h
  split at h
  · split at h
    · obtain ⟨r', -, hr⟩ := Option.map_eq_some_iff.mp h
      cases hr
      exact List.prefix_refl _
    · cases h
      exact List.prefix_append _ _
  · obtain ⟨r', -, hr⟩ := Option.map_eq_some_iff.mp h
    cases hr
    exact List.prefix_refl _

theorem late_run {p : Program α} {r : Except String α}
    (h : interp (execClosing i j env) p x = some (r, x')) : x.late <+: x'.late := by
  induction p generalizing x with
  | ret | fail =>
    cases h
    exact List.prefix_refl _
  | op o k ih =>
    obtain ⟨⟨a, x₁⟩, ho, hk⟩ := Option.bind_eq_some_iff.mp h
    exact (late_grows ho).trans (ih a hk)

/-- Whatever comes of the program, a message has come too late. -/
def Late (i : ℕ) (j : Job) (env : Op → Choice) (p : Program α) (x : Closing) : Prop :=
  Yields (execClosing i j env) p x fun _ x' ↦ x'.late ≠ []

theorem Late.of_late {p : Program α} (h : x.late ≠ []) : Late i j env p x := by
  intro r x' hrun hnil
  have hgrows := late_run hrun
  rw [hnil] at hgrows
  exact h (List.prefix_nil.mp hgrows)

theorem Late.op {o : Op} {k : o.Res → Program α}
    (h : ∀ a x₁, execClosing i j env o x = some (a, x₁) → Late i j env (k a) x₁) :
    Late i j env (.op o k) x := Yields.op h

theorem Late.bind {β : Type} {p : Program α} {g : α → Program β} (h : Late i j env p x) :
    Late i j env (p.bind g) x :=
  Yields.bind h (fun _ _ hne ↦ Late.of_late hne) fun _ _ hne ↦ hne

theorem Late.recover {p : Program α} {g : String → Program α} (h : Late i j env p x) :
    Late i j env (p.recover g) x :=
  Yields.recover h (fun _ _ hne ↦ hne) fun _ _ hne ↦ Late.of_late hne

theorem closing_cases {o : Op} {r : o.Res} (ho : ∀ c, o ≠ .saveMessage c)
    (h : execClosing i j env o x = some (r, x')) :
    ∃ w', exec i j o (env o) x.world = some (r, w') ∧ x' = { x with world := w' } := by
  unfold execClosing at h
  split at h
  · exact absurd rfl (ho _)
  · obtain ⟨⟨r', w'⟩, he, hr⟩ := Option.map_eq_some_iff.mp h
    cases hr
    exact ⟨w', he, rfl⟩

theorem late_persistQueue (hopen : x.storageOpen = false) (hq : (x.world.sessions s).outgoingQueue ≠ []) :
    Late i j env (persistQueueToDatabase s) x := by
  refine .op fun _ x₁ h₁ ↦ ?_
  obtain ⟨w₁, he₁, rfl⟩ := closing_cases (by simp) h₁
  rw [Prog.ret_bind]
  refine .bind (.recover ?_)
  have hq₁ : (w₁.sessions s).outgoingQueue ≠ [] := by rwa [(exec_frame he₁).queues (by simp [writes])]
  refine .op fun size x₂ h₂ ↦ ?_
  obtain ⟨w₂, he₂, rfl⟩ := closing_cases (by simp) h₂
  have hsize : some (w₁.sessions s).outgoingQueue.length = some size := exec_reads he₂
  have hq₂ : (w₂.sessions s).outgoingQueue ≠ [] := by rwa [(exec_frame he₂).queues (by simp [writes])]
  obtain ⟨m, hm⟩ : ∃ m, size = m + 1 :=
    Nat.exists_eq_add_one.mpr (Option.some.inj hsize ▸ List.length_pos_iff.mpr hq₁)
  rw [Prog.ret_bind, hm]
  refine .op fun c x₃ h₃ ↦ ?_
  obtain ⟨w₃, he₃, rfl⟩ := closing_cases (by simp) h₃
  have hfront : some (w₂.sessions s).outgoingQueue.head? = some c := exec_reads he₃
  cases c with
  | none => exact absurd (List.head?_eq_none_iff.mp (Option.some.inj hfront)) hq₂
  | some c =>
    rw [Prog.ret_bind]
    refine .bind (.op fun name x₄ h₄ ↦ ?_)
    obtain ⟨w₄, he₄, rfl⟩ := closing_cases (by simp) h₄
    rw [Prog.ret_bind]
    refine .bind (.bind (.bind (.op fun r x₅ h₅ ↦ .of_late ?_)))
    simp only [execClosing, hopen, Bool.false_eq_true, if_false, Option.some.injEq, Prod.mk.injEq] at h₅
    rw [← h₅.2]
    simp

structure Remaining (l : List (Bytes × ℕ)) (w : World) : Prop where
  running : w.terminated = false
  owners : ∀ s, (w.sessions s).owners = []
  queueOwners : ∀ s, (w.sessions s).queueOwner = none
  names : ∀ n s, w.activeClients.lookup n = some s → (w.sessions s).name = n
  listed : ∀ e ∈ l, w.activeClients.lookup e.1 = some e.2
  registered : ∀ s, w.Registered s → s ∈ l.map (·.2)
  nodup : (l.map (·.1)).Nodup

theorem lookup_of_registered (h : w.Registered s) : ∃ n, w.activeClients.lookup n = some s := by
  obtain ⟨e, he, rfl⟩ := h
  exact ⟨e.1, AList.mem_lookup_iff.mpr he⟩

theorem release_last (h : Remaining ((n, s) :: rest) w) {r : Unit} {ch : Choice}
    (he : exec i j (.removeClient n) ch w = some (r, w')) :
    (∀ s', (w'.sessions s').owners = if s' = s then [i] else []) ∧ ¬ w'.Registered s := by
  obtain ⟨hclients, y, hy, howners⟩ := exec_removeClient he
  have hlisted := h.listed _ (List.mem_cons_self ..)
  obtain rfl : y = some s := hy.symm.trans hlisted
  refine ⟨fun s' ↦ ?_, fun hreg ↦ ?_⟩
  · rw [howners, h.owners]
    by_cases hs : s = s'
    · rw [if_pos (congrArg some hs), if_pos hs.symm]
    · rw [if_neg fun h ↦ hs (Option.some.inj h), if_neg fun h ↦ hs h.symm]
  · obtain ⟨n', hn'⟩ := lookup_of_registered hreg
    rw [hclients] at hn'
    by_cases hne : n' = n
    · rw [hne, AList.lookup_erase] at hn'
      cases hn'
    · rw [AList.lookup_erase_ne hne] at hn'
      exact hne ((h.names n' s hn').symm.trans (h.names n s hlisted))

theorem Remaining.tail (h : Remaining ((n, s) :: rest) w) (hclients : w'.activeClients = w.activeClients.erase n)
    (hrunning : w'.terminated = false) (howners : ∀ s, (w'.sessions s).owners = [])
    (hqueues : ∀ s, (w'.sessions s).queueOwner = none)
    (hnames : ∀ s, (w'.sessions s).name = (w.sessions s).name) :
    Remaining rest w' := by
  have hnodup := h.nodup
  rw [List.map_cons, List.nodup_cons] at hnodup
  have hold {n' s' : _} (hl : w'.activeClients.lookup n' = some s') :
      n' ≠ n ∧ w.activeClients.lookup n' = some s' := by
    rw [hclients] at hl
    by_cases hne : n' = n
    · rw [hne, AList.lookup_erase] at hl
      cases hl
    · rw [AList.lookup_erase_ne hne] at hl
      exact ⟨hne, hl⟩
  refine ⟨hrunning, howners, hqueues, fun n' s' hl ↦ ?_, fun e he ↦ ?_, fun s' hs' ↦ ?_, hnodup.2⟩
  · rw [hnames]
    exact h.names n' s' (hold hl).2
  · have hmem : e.1 ∈ rest.map (·.1) := List.mem_map_of_mem he
    have hne : e.1 ≠ n := fun heq ↦ hnodup.1 (heq ▸ hmem)
    rw [hclients, AList.lookup_erase_ne hne]
    exact h.listed e (List.mem_cons_of_mem _ he)
  · obtain ⟨n', hn'⟩ := lookup_of_registered hs'
    obtain ⟨hne, hl⟩ := hold hn'
    have hmem := h.registered s' (registered_of_lookup hl)
    rw [List.map_cons] at hmem
    refine (List.mem_cons.mp hmem).resolve_left fun heq ↦ hne ?_
    rw [heq] at hl
    exact (h.names n' s hl).symm.trans (h.names n s (h.listed _ (List.mem_cons_self ..)))

theorem closing_op {o : Op} {k : o.Res → Program α} {Q : Except String α → Closing → Prop}
    (hs : ∀ c, o ≠ .saveMessage c) {a : o.Res} (he : exec i j o (env o) x.world = some (a, w'))
    (h : Ends (execClosing i j env) (k a) { x with world := w' } Q) :
    Ends (execClosing i j env) (.op o k) x Q := by
  refine Ends.op ?_ h
  unfold execClosing
  split
  · exact absurd rfl (hs _)
  · rw [alone, he]
    rfl

theorem ends_destroy (ht : x.world.terminated = false) (hq : (x.world.sessions s).outgoingQueue = [])
    (hfree : (x.world.sessions s).queueOwner = none) :
    Ends (execClosing i j env) (destroy s) x fun r x' ↦ r = .ok () ∧
      Frame [.log, .queueOwners, .destroyed] x.world x'.world ∧
      (∀ s', (x'.world.sessions s').queueOwner = if s' = s then none else (x.world.sessions s').queueOwner) ∧
      x'.late = x.late ∧ x'.storageOpen = x.storageOpen := by
  obtain ⟨w₁, he₁⟩ : ∃ w₁, exec i j (.lockQueue s) (env (.lockQueue s)) x.world = some ((), w₁) :=
    ⟨_, by simp [exec, effect, ht, hfree]; rfl⟩
  have hk₁ := kept_exec he₁ rfl
  have hq₁ : (w₁.sessions s).outgoingQueue = [] := by rw [hk₁.frame.queues (by simp [writes]), hq]
  obtain ⟨size, w₂, he₂⟩ : ∃ r w', exec i j (.queueSize s) (env (.queueSize s)) w₁ = some (r, w') :=
    exec_total hk₁.running rfl
  have hk₂ := kept_exec he₂ rfl
  have hsize : some (w₁.sessions s).outgoingQueue.length = some size := exec_reads he₂
  rw [hq₁] at hsize
  obtain rfl : 0 = size := Option.some.inj hsize
  obtain ⟨_, w₃, he₃⟩ : ∃ r w', exec i j (.unlockQueue s) (env (.unlockQueue s)) w₂ = some (r, w') :=
    exec_total hk₂.running rfl
  have hk₃ := kept_exec he₃ rfl
  obtain ⟨_, w₄, he₄⟩ : ∃ r w', exec i j (.destroySession s) (env (.destroySession s)) w₃ = some (r, w') :=
    exec_total hk₃.running rfl
  have hpersist : Ends (execClosing i j env) (persistQueueToDatabase s) x fun r x' ↦
      r = .ok () ∧ x' = { x with world := w₃ } := by
    refine closing_op (by simp) he₁ (Ends.ensuring (R := fun r x' ↦ r = .ok () ∧ x' = { x with world := w₂ })
      (closing_op (by simp) he₂ (.ret ⟨rfl, rfl⟩)) ?_)
    rintro r x' ⟨hr, rfl⟩
    exact closing_op (by simp) he₃ (.ret ⟨rfl, hr, rfl⟩)
  have hk : Frame [.log, .queueOwners, .destroyed] x.world w₄ :=
    (((hk₁.frame.weaken (by simp [writes])).trans (hk₂.frame.weaken (by simp [writes]))).trans
      (hk₃.frame.weaken (by simp [writes]))).trans ((exec_frame he₄).weaken (by simp [writes]))
  have howners (s' : ℕ) :
      (w₄.sessions s').queueOwner = if s' = s then none else (x.world.sessions s').queueOwner := by
    rw [(exec_frame he₄).queueOwners (by simp [writes]), exec_unlockQueue he₃]
    split
    · rfl
    · next hne => rw [(hk₂.frame.queueOwners (by simp [writes])), (exec_lockQueue he₁).2, if_neg hne]
  refine Ends.bind (R := fun r x' ↦ r = .ok () ∧ x' = { x with world := w₃ })
    (Ends.recover hpersist (fun a x' h ↦ h) fun e x' h ↦ by cases h.1) (fun _ x' h ↦ ?_)
    fun e x' h ↦ by cases h.1
  obtain ⟨-, rfl⟩ := h
  exact closing_op (by simp) he₄ (.ret ⟨rfl, hk, howners, rfl, rfl⟩)

theorem ends_destroyClient (h : Remaining ((n, s) :: rest) x.world)
    (hq : (x.world.sessions s).outgoingQueue = []) :
    Ends (execClosing i j env) ((perform (.removeClient n)).bind fun _ ↦ dropSession s) x fun r x' ↦
      r = .ok () ∧ Remaining rest x'.world ∧
      (∀ s', (x'.world.sessions s').outgoingQueue = (x.world.sessions s').outgoingQueue) ∧
      x'.late = x.late ∧ x'.storageOpen = x.storageOpen := by
  obtain ⟨_, w₁, he₁⟩ : ∃ r w', exec i j (.removeClient n) (env (.removeClient n)) x.world = some (r, w') :=
    exec_total h.running rfl
  have hk₁ := kept_exec he₁ rfl
  obtain ⟨howners₁, hreg₁⟩ := release_last h he₁
  obtain ⟨last, w₂, he₂⟩ : ∃ r w', exec i j (.release s) (env (.release s)) w₁ = some (r, w') :=
    exec_total hk₁.running rfl
  have hk₂ := kept_exec he₂ rfl
  obtain ⟨hlast, howners₂⟩ := exec_release he₂
  have howners (s' : ℕ) : (w₂.sessions s').owners = [] := by
    rw [howners₂, howners₁]
    by_cases hs : s' = s
    · simp [hs]
    · simp [hs]
  have hreg₂ : ¬ w₂.Registered s := fun hr ↦
    hreg₁ (registered_of_clients (hk₂.frame.clients (by simp [writes])).symm hr)
  rw [decide_eq_true ⟨howners s, hreg₂⟩] at hlast
  subst hlast
  have hk : Frame [.log, .clients, .owners] x.world w₂ :=
    (hk₁.frame.weaken (by simp [writes])).trans (hk₂.frame.weaken (by simp [writes]))
  refine closing_op (by simp) he₁ (closing_op (by simp) he₂ ?_)
  refine (ends_destroy (x := { x with world := w₂ }) (s := s) hk₂.running ?_ ?_).mono fun r x' hx ↦ ?_
  · rw [hk.queues (by simp), hq]
  · rw [hk.queueOwners (by simp), h.queueOwners]
  · obtain ⟨hr, hf, hqueues, hlate, hopen⟩ := hx
    refine ⟨hr, h.tail ?_ ?_ (fun s' ↦ ?_) (fun s' ↦ ?_) (fun s' ↦ ?_), fun s' ↦ ?_, hlate, hopen⟩
    · rw [hf.clients (by simp), hk₂.frame.clients (by simp [writes]), (exec_removeClient he₁).1]
    · rw [hf.terminated (by simp), hk₂.running]
    · rw [hf.owners (by simp), howners]
    · rw [hqueues, hk.queueOwners (by simp), h.queueOwners, ite_self]
    · rw [hf.name (by simp), hk.name (by simp)]
    · rw [hf.queues (by simp), hk.queues (by simp)]

theorem late_destroyClient (h : Remaining ((n, s) :: rest) x.world) (hopen : x.storageOpen = false)
    (hq : (x.world.sessions s).outgoingQueue ≠ []) :
    Late i j env ((perform (.removeClient n)).bind fun _ ↦ dropSession s) x := by
  refine .op fun _ x₁ h₁ ↦ ?_
  obtain ⟨w₁, he₁, rfl⟩ := closing_cases (by simp) h₁
  obtain ⟨howners₁, hreg₁⟩ := release_last h he₁
  rw [Prog.ret_bind]
  refine .op fun last x₂ h₂ ↦ ?_
  obtain ⟨w₂, he₂, rfl⟩ := closing_cases (by simp) h₂
  obtain ⟨hlast, howners₂⟩ := exec_release he₂
  have hreg₂ : ¬ w₂.Registered s := fun hr ↦
    hreg₁ (registered_of_clients ((exec_frame he₂).clients (by simp [writes])).symm hr)
  rw [decide_eq_true ⟨by simp [howners₂, howners₁], hreg₂⟩] at hlast
  subst hlast
  rw [Prog.ret_bind]
  refine .bind (.recover (late_persistQueue hopen ?_))
  rw [(exec_frame he₂).queues (by simp [writes]), (exec_frame he₁).queues (by simp [writes])]
  exact hq

theorem destroyClients_cons : destroyClients ((n, s) :: rest) =
    ((perform (.removeClient n)).bind fun _ ↦ dropSession s).bind fun _ ↦ destroyClients rest := by
  rw [destroyClients]
  simp only [Prog.bind_eq, Prog.bind_assoc]

theorem ends_destroyClients {l : List (Bytes × ℕ)} (h : Remaining l x.world)
    (hq : ∀ e ∈ l, (x.world.sessions e.2).outgoingQueue = []) :
    Ends (execClosing i j env) (destroyClients l) x fun r x' ↦ r = .ok () ∧ x'.late = x.late := by
  induction l generalizing x with
  | nil => exact .ret ⟨rfl, rfl⟩
  | cons e l ih =>
    rw [destroyClients_cons]
    refine Ends.bind (ends_destroyClient h (hq e (List.mem_cons_self ..))) (fun _ x₁ h₁ ↦ ?_)
      fun e x₁ h₁ ↦ by cases h₁.1
    obtain ⟨-, hrest, hqueues, hlate, -⟩ := h₁
    refine (ih hrest fun e' he' ↦ ?_).mono fun r x' h' ↦ ⟨h'.1, h'.2.trans hlate⟩
    rw [hqueues, hq e' (List.mem_cons_of_mem _ he')]

theorem late_destroyClients {l : List (Bytes × ℕ)} (h : Remaining l x.world) (hopen : x.storageOpen = false)
    (hq : ∃ e ∈ l, (x.world.sessions e.2).outgoingQueue ≠ []) : Late i j env (destroyClients l) x := by
  induction l generalizing x with
  | nil =>
    obtain ⟨e, he, -⟩ := hq
    cases he
  | cons e l ih =>
    rw [destroyClients_cons]
    by_cases hempty : (x.world.sessions e.2).outgoingQueue = []
    · obtain ⟨r₁, x₁, h₁, hr₁, hrest, hqueues, -, hopen₁⟩ :=
        @ends_destroyClient i j env _ _ _ _ h hempty
      subst hr₁
      intro r x' hrun
      rw [interp_bind, h₁] at hrun
      refine ih hrest (hopen₁.trans hopen) ?_ r x' hrun
      obtain ⟨e', he', hne⟩ := hq
      refine ⟨e', (List.mem_cons.mp he').resolve_left fun heq ↦ hne (heq ▸ hempty), ?_⟩
      rw [hqueues]
      exact hne
    · exact .bind (late_destroyClient h hopen hempty)

theorem atRest_of_ended (hS : (broker cfg).Reachable ok (initial metrics) S)
    (hended : ∀ t ∈ S.threads, t.ended) (i : ℕ) : AtRest i S.world := by
  have hh := holds_of_reachable hS
  by_cases hlt : i < S.threads.length
  · exact hh.fresh_of_ended (List.getElem?_eq_getElem hlt) (hended _ (List.getElem_mem hlt))
  · exact hh.fresh i (Nat.le_of_not_lt hlt)

theorem stopped_of_ended (hS : (broker cfg).Reachable ok (initial metrics) S)
    (hended : ∀ t ∈ S.threads, t.ended) (ht : S.world.terminated = false) : Stopped S.world := by
  have hfree (i : ℕ) := (atRest_of_ended hS hended i).owns
  refine ⟨ht, fun s ↦ ?_, fun s ↦ ?_, fun n s hn ↦ ((holds_of_reachable hS).inv.clients n s hn).2⟩
  · refine List.eq_nil_iff_forall_not_mem.mpr fun i hi ↦ ?_
    have hcount : (S.world.sessions s).owners.count i = 0 := congrFun (congrArg Hold.pointers (hfree i)) s
    exact List.count_eq_zero.mp hcount hi
  · cases hq : (S.world.sessions s).queueOwner with
    | none => rfl
    | some i =>
      have hqueue : decide ((S.world.sessions s).queueOwner = some i) = false :=
        congrFun (congrArg Hold.queues (hfree i)) s
      exact absurd hq (of_decide_eq_false hqueue)

theorem markOffline_frame (sends : List PendingSend) (w : World) : Frame [.presence, .pendingSends] w
    (sends.foldl (fun w send ↦ w.setSession send.session fun x ↦ { x with isOnline := false }) w) := by
  induction sends generalizing w with
  | nil => exact .refl w
  | cons send sends ih =>
    refine Frame.trans ?_ (ih _)
    apply setSession_frame <;> simp

theorem stop_frame (w : World) : Frame [.presence, .pendingSends] w (stop w) := by
  refine (markOffline_frame w.pendingSends w).trans ?_
  constructor <;> simp [stop]

theorem Stopped.stop (h : Stopped w) : Stopped (stop w) := by
  have hf := stop_frame w
  refine ⟨?_, fun s ↦ ?_, fun s ↦ ?_, fun n s hn ↦ ?_⟩
  · rw [hf.terminated (by simp), h.running]
  · rw [hf.owners (by simp), h.owners]
  · rw [hf.queueOwners (by simp), h.queueOwners]
  · rw [hf.clients (by simp)] at hn
    rw [hf.name (by simp), h.names n s hn]

theorem remaining_of_stopped (h : Stopped w) {l : List (Bytes × ℕ)} {ch : Choice}
    (he : exec i j .listClients ch w = some (l, w')) : Remaining l w' ∧ ∀ e ∈ l, w.Registered e.2 := by
  have hf := exec_frame he
  have hl : some _ = some l := exec_reads he
  have hperm : l.Perm (w.activeClients.entries.map fun e ↦ (e.1, e.2)) := by
    rw [← Option.some.inj hl]
    exact (OrderedSelection.orderBy_perm _).map _
  have hmem {e : Bytes × ℕ} (he : e ∈ l) : w.activeClients.lookup e.1 = some e.2 := by
    obtain ⟨e', he', rfl⟩ := List.mem_map.mp (hperm.mem_iff.mp he)
    exact AList.mem_lookup_iff.mpr he'
  refine ⟨⟨?_, fun s ↦ ?_, fun s ↦ ?_, fun n s hn ↦ ?_, fun e he ↦ ?_, fun s hs ↦ ?_, ?_⟩, fun e he ↦ ?_⟩
  · rw [hf.terminated (by simp [writes]), h.running]
  · rw [hf.owners (by simp [writes]), h.owners]
  · rw [hf.queueOwners (by simp [writes]), h.queueOwners]
  · rw [hf.clients (by simp [writes])] at hn
    rw [hf.name (by simp [writes]), h.names n s hn]
  · rw [hf.clients (by simp [writes]), hmem he]
  · obtain ⟨e, he, rfl⟩ := registered_of_clients (hf.clients (by simp [writes])).symm hs
    exact List.mem_map.mpr ⟨(e.1, e.2), hperm.mem_iff.mpr (List.mem_map_of_mem (f := fun e ↦ (e.1, e.2)) he),
      rfl⟩
  · refine ((hperm.map _).nodup_iff).mpr ?_
    rw [List.map_map]
    exact w.activeClients.nodupKeys
  · exact registered_of_lookup (hmem he)

theorem late_destroyRouter (h : Stopped x.world) (hopen : x.storageOpen = false)
    (hq : ∃ s, x.world.Registered s ∧ (x.world.sessions s).outgoingQueue ≠ []) :
    Late i j env destroyRouter x := by
  refine .op fun l x₁ h₁ ↦ ?_
  obtain ⟨w₁, he₁, rfl⟩ := closing_cases (by simp) h₁
  have hf := exec_frame he₁
  obtain ⟨hrem, -⟩ := remaining_of_stopped h he₁
  obtain ⟨s, hs, hne⟩ := hq
  obtain ⟨e, he, rfl⟩ := List.mem_map.mp
    (hrem.registered s (registered_of_clients (hf.clients (by simp [writes])) hs))
  refine late_destroyClients hrem hopen ⟨e, he, ?_⟩
  rw [hf.queues (by simp [writes])]
  exact hne

theorem ends_destroyRouter (h : Stopped x.world)
    (hq : ∀ s, x.world.Registered s → (x.world.sessions s).outgoingQueue = []) :
    Ends (execClosing i j env) destroyRouter x fun r x' ↦ r = .ok () ∧ x'.late = x.late := by
  obtain ⟨l, w₁, he₁⟩ : ∃ r w', exec i j .listClients (env .listClients) x.world = some (r, w') :=
    exec_total h.running rfl
  obtain ⟨hrem, hlisted⟩ := remaining_of_stopped h he₁
  refine closing_op (by simp) he₁ (ends_destroyClients (x := { x with world := w₁ }) hrem fun e he ↦ ?_)
  rw [(exec_frame he₁).queues (by simp [writes]), hq e.2 (hlisted e he)]

/-- When the server is stopped and destroyed, all that waits is saved in time
exactly when nothing waits for a registered session. A `stop` while handlers are
still running is like a run of `processPendingSends` whose sends fail. -/
theorem shutdown_persists_iff (hS : (broker cfg).Reachable ok (initial metrics) S)
    (hended : ∀ t ∈ S.threads, t.ended) (ht : S.world.terminated = false) :
    (∃ x, destroyServer i j env (stop S.world) = some x ∧ Persisted (stop S.world) x) ↔
      ∀ s, S.world.Registered s → (S.world.sessions s).outgoingQueue = [] := by
  have hstopped := (stopped_of_ended hS hended ht).stop
  have hf := stop_frame S.world
  have hreg (s : ℕ) : (stop S.world).Registered s ↔ S.world.Registered s :=
    ⟨registered_of_clients (hf.clients (by simp)).symm, registered_of_clients (hf.clients (by simp))⟩
  rw [destroyServer_eq]
  refine ⟨fun h s hs ↦ ?_, fun h ↦ ?_⟩
  · obtain ⟨x, hrun, hlate, -⟩ := h
    obtain ⟨⟨r, x'⟩, hrun', rfl⟩ := Option.map_eq_some_iff.mp hrun
    by_contra hne
    refine late_destroyRouter (x := { world := stop S.world, storageOpen := false }) hstopped rfl
      ⟨s, (hreg s).mpr hs, ?_⟩ r x' hrun' hlate
    rw [hf.queues (by simp)]
    exact hne
  · have hempty : ∀ s, (stop S.world).Registered s → ((stop S.world).sessions s).outgoingQueue = [] := by
      intro s hs
      rw [hf.queues (by simp), h s ((hreg s).mp hs)]
    obtain ⟨r, x, hrun, -, hlate⟩ :=
      @ends_destroyRouter i j env { world := stop S.world, storageOpen := false } hstopped hempty
    refine ⟨x, by rw [hrun]; rfl, hlate, fun s hs c hc ↦ ?_⟩
    rw [hempty s hs] at hc
    cases hc

theorem ended_of_all (h : S.threads.all hasEnded = true) : ∀ t ∈ S.threads, t.ended :=
  fun t ht ↦ ended_of_hasEnded (List.all_eq_true.mp h t ht)

theorem shutdown_persists_iff_bob : ∃ S, (broker {}).Reachable (fun _ _ ↦ True) (initial none) S ∧
    S.world.activeClients.lookup [98] = some 0 ∧
    ((∃ x, destroyServer 1 .sendTask (fun _ ↦ {}) (stop S.world) = some x ∧ Persisted (stop S.world) x) ↔
      ∀ s, S.world.Registered s → (S.world.sessions s).outgoingQueue = []) := by
  have hrun : ((broker {}).runs (fun _ _ ↦ True) (inTurn 0 [
      (arrival { type := .register, sender := [98] }, 31)]) ⟨initial none, []⟩).map (fun S ↦
        (S.world.activeClients.lookup [98], S.threads.all hasEnded, S.world.terminated)) =
      some (some 0, true, false) := by decide +kernel
  obtain ⟨S, hS, hv⟩ := exists_run hrun
  simp only [Prod.mk.injEq] at hv
  exact ⟨S, hS, hv.1, shutdown_persists_iff hS (ended_of_all hv.2.1) hv.2.2⟩

/-- Alice sends bob two messages. Between the test of the second that he is online
and its sending the first one fails to be sent, so that the second one waits in
the queue of his session. -/
def waiting : List Step :=
  inTurn 0 [
    (arrival { type := .register, sender := [98] }, 31),
    (arrival { sender := [97], destination := [98] }, 16),
    (arrival { sender := [97], destination := [98] }, 8)] ++
  .start .processPendingSends :: .step 3 {} :: .step 3 {} :: .step 3 { socket := .wouldBlock } ::
    List.replicate 4 (.step 3 {}) ++ List.replicate 10 (.step 2 {})

/-- The message that waits when the server is destroyed reaches a closed storage. -/
theorem persisted_too_late : ¬ ∀ cfg metrics S i j env,
    (broker cfg).Reachable (fun _ _ ↦ True) (initial metrics) S → (∀ t ∈ S.threads, t.ended) →
      S.world.terminated = false →
        ∃ x, destroyServer i j env (stop S.world) = some x ∧ Persisted (stop S.world) x := by
  intro h
  have hrun : ((broker {}).runs (fun _ _ ↦ True) waiting ⟨initial none, []⟩).map (fun S ↦
        ((S.world.activeClients.lookup [98], (S.world.sessions 0).outgoingQueue.length),
          S.threads.all hasEnded, S.world.terminated)) =
      some ((some 0, 1), true, false) := by decide +kernel
  obtain ⟨S, hS, hv⟩ := exists_run hrun
  simp only [Prod.mk.injEq] at hv
  obtain ⟨⟨hclient, hlen⟩, hall, ht⟩ := hv
  obtain ⟨x, hx, hlate, -⟩ := h {} none S 4 .sendTask (fun _ ↦ {}) hS (ended_of_all hall) ht
  have hf := stop_frame S.world
  rw [destroyServer_eq] at hx
  obtain ⟨⟨r, x'⟩, hrun', rfl⟩ := Option.map_eq_some_iff.mp hx
  refine late_destroyRouter (x := { world := stop S.world, storageOpen := false })
    (stopped_of_ended hS (ended_of_all hall) ht).stop rfl ⟨0, ?_, ?_⟩ r x' hrun' hlate
  · exact registered_of_clients (hf.clients (by simp)) (registered_of_lookup hclient)
  · rw [hf.queues (by simp)]
    exact List.ne_nil_of_length_pos (by omega)

end MessageBroker.Shutdown
