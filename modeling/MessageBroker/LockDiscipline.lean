import MessageBroker.RunInvariants

namespace MessageBroker.LockDiscipline

open ByteStrings WireMessages MessageStore ProgramTrees ThreadPools BrokerState ServerJobs
  OperationEffects ThreadViews SharedInvariant ServerOutlines RunInvariants

variable {cfg : Config} {ok : State → Step → Prop} {metrics : Option Metrics} {S : State}
  {w w' : World} {i : ℕ} {j : Job} {o : Op} {ch : Choice} {r : o.Res} {s : ℕ}

def expired (w : World) (s : ℕ) (timeout : ℤ) : Bool :=
  !(w.sessions s).isOnline ||
    decide (timeout < ((w.steadyClock - (w.sessions s).lastReceive) / ticksPerSecond : ℕ))

/-- Whether an operation that looks at a session finds that a cleanup pass is to remove it. -/
def findsGone (w : World) : Op → Option Bool
  | .isOnline s => some (!(w.sessions s).isOnline)
  | .isExpired s timeout => some (expired w s timeout)
  | _ => none

/-- With metrics on, a cleanup pass looks only at sessions that it need not remove. -/
def CleanupKeepsAll (S : State) (l : Step) : Prop :=
  S.OnNext (findsGone S.world) (fun i _ gone ↦ S.world.metrics.isSome = true →
    (S.threads[i]?.map (·.job)) = some .cleanupInactiveSessions → gone = false) l

instance (S : State) (l : Step) : Decidable (CleanupKeepsAll S l) := by
  unfold CleanupKeepsAll
  infer_instance

/-- No cleanup pass is about to remove a session while metrics are on. -/
def NothingToRemove (w : World) : Prop :=
  w.metrics.isSome = true → ∀ i, (account i w.log).removing = false

/-- A cleanup pass waits for the registry, which it holds itself. -/
def WaitsForItself (S : State) : Prop :=
  ∃ i, S.threads[i]?.map (·.job) = some .cleanupInactiveSessions ∧ S.nextOp i = some .lockRegistry ∧
    S.world.registryOwner = some i

theorem note_removing {a : Account} (h : (a.note j o r).removing = true) :
    a.removing = true ∨ j = .cleanupInactiveSessions ∧
      ((∃ s, o = .isOnline s) ∨ ∃ s timeout, o = .isExpired s timeout) := by
  cases o with
  | isOnline s =>
    simp only [Account.note] at h
    split at h
    · next hj => exact .inr ⟨hj.1, .inl ⟨s, rfl⟩⟩
    · exact .inl h
  | isExpired s timeout =>
    simp only [Account.note] at h
    split at h
    · next hj => exact .inr ⟨hj.1, .inr ⟨s, timeout, rfl⟩⟩
    · exact .inl h
  | saveMessage c =>
    cases r with
    | error e => exact .inl h
    | ok id =>
      simp only [Account.note] at h
      split_ifs at h <;> exact .inl h
  | saveCorrelation | markSent | markPending | markDelivered => cases r <;> exact .inl h
  | pushQueue | pushPendingSend =>
    simp only [Account.note, Account.spend] at h
    split at h <;> exact .inl h
  | _ => exact .inl h

theorem nothingToRemove_step (hp : Performs cfg CleanupKeepsAll S i j o ch r w')
    (h : NothingToRemove S.world) : NothingToRemove w' := by
  intro hm i'
  have hm : S.world.metrics.isSome = true := hp.grows.metrics ▸ hm
  by_cases hi : i' = i
  · subst hi
    rw [account_exec hp.exec]
    by_contra hrem
    have hrem := by simpa using hrem
    obtain ⟨k, hk⟩ := hp.thread
    have hjob : S.threads[i']?.map (·.job) = some j := by rw [hk, Option.map_some]
    rcases note_removing hrem with hrem' | ⟨rfl, ⟨s, rfl⟩ | ⟨s, timeout, rfl⟩⟩
    · cases (h hm _).symm.trans hrem'
    · have hr : some (S.world.sessions s).isOnline = some r := exec_reads hp.exec
      have hoff : (!(S.world.sessions s).isOnline) = false := Pool.OnNext.meets hp.ok hp.nextOp rfl hm hjob
      have honline : (S.world.sessions s).isOnline = true := Bool.not_eq_eq_eq_not.mp hoff
      rw [← Option.some.inj hr, honline] at hrem
      cases (h hm _).symm.trans hrem
    · have hr : some (expired S.world s timeout) = some r := exec_reads hp.exec
      rw [← Option.some.inj hr, Pool.OnNext.meets hp.ok hp.nextOp rfl hm hjob] at hrem
      cases (h hm _).symm.trans hrem
  · rw [account_exec_ne hp.exec hi]
    exact h hm i'

theorem nothingToRemove (h : (broker cfg).Reachable CleanupKeepsAll (initial metrics) S) :
    NothingToRemove S.world :=
  run_invariant (fun _ _ ↦ rfl) (fun _ _ _ _ h ↦ h) nothingToRemove_step h

theorem thread_of_nextOp (h : S.nextOp i = some o) :
    ∃ j k, S.threads[i]? = some ⟨j, .op o k⟩ := by
  unfold Pool.nextOp at h
  split at h
  · next j o' k ht =>
    cases h
    exact ⟨j, k, ht⟩
  · cases h

theorem owner_running (hh : (outline cfg).Holds S) (hi : hold i S.world ≠ Hold.free) :
    ∃ o, S.nextOp i = some o :=
  hh.running fun hrest ↦ hi (AtRest.owns hrest)

/-- Only a mutex that is held can block an operation. -/
theorem exec_isSome (ht : w.terminated = false) (hr : o = .lockRegistry → w.registryOwner = none)
    (hq : ∀ s, o = .lockQueue s → (w.sessions s).queueOwner = none) :
    (exec i j o {} w).isSome := by
  simp only [exec, ht, Bool.false_eq_true, if_false, Option.isSome_map]
  cases o with
  | lockRegistry => simp [effect, hr rfl]
  | lockQueue s => simp [effect, hq s rfl]
  | saveCorrelation id corr n =>
    simp only [effect]
    split <;> rfl
  | findClient n | removeClient n =>
    simp only [effect]
    split <;> rfl
  | takePendingSends =>
    simp only [effect]
    split <;> rfl
  | _ => rfl

def Enabled (cfg : Config) (S : State) : Prop :=
  ∃ i c, ((broker cfg).next S (.step i c)).isSome

theorem enabled_of (ht : S.world.terminated = false) (hi : S.nextOp i = some o)
    (hr : o = .lockRegistry → S.world.registryOwner = none)
    (hq : ∀ s, o = .lockQueue s → (S.world.sessions s).queueOwner = none) : Enabled cfg S := by
  obtain ⟨j, k, hk⟩ := thread_of_nextOp hi
  refine ⟨i, {}, ?_⟩
  simp only [Machine.next, hk, Option.isSome_map]
  exact exec_isSome ht hr hq

theorem enabled_of_queueOwner (hh : (outline cfg).Holds S) (ht : S.world.terminated = false)
    (hq : (S.world.sessions s).queueOwner = some i) : Enabled cfg S := by
  have hown : (hold i S.world).queues s = true := decide_eq_true hq
  obtain ⟨o, ho⟩ := owner_running hh fun hfree ↦ by
    rw [hfree] at hown
    cases hown
  obtain ⟨j, k, hk⟩ := thread_of_nextOp ho
  have hal : Allowed i j S.world o := hh.allowed hk ht
  refine enabled_of ht ho (fun hop ↦ ?_) fun s' hop ↦ ?_
  · subst hop
    cases (hal.1 s).symm.trans hown
  · subst hop
    cases (hal.2 s).symm.trans hown

theorem not_lockRegistry (hh : (outline cfg).Holds S) (hn : NothingToRemove S.world)
    (ht : S.world.terminated = false) (hi : S.nextOp i = some .lockRegistry) :
    S.world.registryOwner ≠ some i := by
  intro hown
  obtain ⟨j, k, hk⟩ := thread_of_nextOp hi
  have hal : Allowed i j S.world .lockRegistry := hh.allowed hk ht
  obtain ⟨-, hm, hrem⟩ := hal.2 (decide_eq_true hown)
  cases (hn hm i).symm.trans hrem

theorem not_waitsForItself (hh : (outline cfg).Holds S) (hn : NothingToRemove S.world)
    (ht : S.world.terminated = false) : ¬ WaitsForItself S :=
  fun ⟨_, _, hi, hown⟩ ↦ not_lockRegistry hh hn ht hi hown

/-- Only a cleanup pass ever waits for a registry that it holds. -/
theorem waitsForItself_of_owner (hh : (outline cfg).Holds S) (ht : S.world.terminated = false)
    (hi : S.nextOp i = some .lockRegistry) (hown : S.world.registryOwner = some i) : WaitsForItself S := by
  obtain ⟨j, k, hk⟩ := thread_of_nextOp hi
  have hal : Allowed i j S.world .lockRegistry := hh.allowed hk ht
  obtain ⟨rfl, -, -⟩ := hal.2 (decide_eq_true hown)
  exact ⟨i, by rw [hk]; rfl, hi, hown⟩

/-- A thread that wants a queue mutex can go on, or the owner of the mutex can. -/
theorem enabled_of_nextOp (hh : (outline cfg).Holds S) (ht : S.world.terminated = false)
    (hi : S.nextOp i = some o) (hr : o = .lockRegistry → S.world.registryOwner = none) :
    Enabled cfg S := by
  by_cases hq : ∀ s, o = .lockQueue s → (S.world.sessions s).queueOwner = none
  · exact enabled_of ht hi hr hq
  · push Not at hq
    obtain ⟨s, -, hs⟩ := hq
    obtain ⟨i', hi'⟩ := Option.ne_none_iff_exists'.mp hs
    exact enabled_of_queueOwner hh ht hi'

theorem enabled_of_running (hh : (outline cfg).Holds S) (hn : ¬ WaitsForItself S)
    (ht : S.world.terminated = false) (hi : S.nextOp i = some o) : Enabled cfg S := by
  cases hr : S.world.registryOwner with
  | none => exact enabled_of_nextOp hh ht hi fun _ ↦ hr
  | some i' =>
    have hown : (hold i' S.world).registry = true := decide_eq_true hr
    obtain ⟨o', ho'⟩ := owner_running hh fun hfree ↦ by
      rw [hfree] at hown
      cases hown
    refine enabled_of_nextOp hh ht ho' fun hop ↦ ?_
    subst hop
    exact absurd (waitsForItself_of_owner hh ht ho' hr) hn

theorem ended_or_running (hh : (outline cfg).Holds S) :
    (∀ t ∈ S.threads, t.ended) ∨ ∃ i o, S.nextOp i = some o := by
  by_contra hcon
  push Not at hcon
  obtain ⟨⟨t, hmem, hended⟩, hnone⟩ := hcon
  obtain ⟨i, hi⟩ := List.getElem?_of_mem hmem
  obtain ⟨j, code⟩ := t
  cases code with
  | ret u => exact hended ⟨u, rfl⟩
  | fail e => exact (hh.safe i _ hi S.world .refl hh.inv).elim
  | op o k => exact hnone i o (by rw [Pool.nextOp, hi])

/-- No thread tries to lock the registry while it owns it, and every operation
returns: some thread can go on until all of them have ended, and steps of
threads alone do not go on for ever. This holds as long as no cleanup pass finds
a session to remove while metrics are on. -/
theorem registry_lock_discipline
    (h : (broker cfg).Reachable CleanupKeepsAll (initial metrics) S)
    (ht : S.world.terminated = false) :
    (∀ i, S.nextOp i = some .lockRegistry → S.world.registryOwner ≠ some i) ∧
      ((∀ t ∈ S.threads, t.ended) ∨ Enabled cfg S) ∧ Acc (broker cfg).Steps S := by
  have hh := holds_of_reachable h
  have hn := nothingToRemove h
  refine ⟨fun i hi ↦ not_lockRegistry hh hn ht hi, ?_, (broker cfg).steps_wf.apply S⟩
  exact (ended_or_running hh).imp_right fun ⟨_, _, hi⟩ ↦
    enabled_of_running hh (not_waitsForItself hh hn ht) ht hi

/-- With metrics on, bob registers and a cleanup pass leaves his session alone. -/
theorem registry_lock_discipline_cleanup : ∃ S,
    (broker {}).Reachable CleanupKeepsAll (initial (some {})) S ∧ S.world.terminated = false ∧
      (∀ i, S.nextOp i = some .lockRegistry → S.world.registryOwner ≠ some i) ∧
      ((∀ t ∈ S.threads, t.ended) ∨ Enabled {} S) ∧ Acc (broker {}).Steps S := by
  have hrun : ((broker {}).runs CleanupKeepsAll (inTurn 0 [
      (arrival { type := .register, sender := [98] }, 33), (.cleanupInactiveSessions, 4)])
      ⟨initial (some {}), []⟩).map (fun S ↦ S.world.terminated) = some false := by
    decide +kernel
  obtain ⟨S, hS, ht⟩ := exists_run hrun
  exact ⟨S, hS, ht, registry_lock_discipline hS ht⟩

def locksRegistry (o : Option Op) : Bool :=
  match o with
  | some .lockRegistry => true
  | _ => false

theorem eq_of_locksRegistry {o : Option Op} (h : locksRegistry o = true) :
    o = some .lockRegistry := by
  unfold locksRegistry at h
  split at h
  · rfl
  · cases h

/-- With metrics on, the cleanup pass that removes bob's expired session updates
the gauge while it still holds the registry. -/
theorem cleanup_locks_twice : ¬ ∀ cfg metrics S,
    (broker cfg).Reachable (fun _ _ ↦ True) (initial metrics) S → S.world.terminated = false →
      (∀ i, S.nextOp i = some .lockRegistry → S.world.registryOwner ≠ some i) ∧
      ((∀ t ∈ S.threads, t.ended) ∨ Enabled cfg S) ∧ Acc (broker cfg).Steps S := by
  intro h
  have hrun : ((broker {}).runs (fun _ _ ↦ True) (inTurn 0
        [(arrival { type := .register, sender := [98] }, 33)] ++
      .tick ⟨0, 100 * ticksPerSecond⟩ :: inTurn 1 [(.cleanupInactiveSessions, 19)])
      ⟨initial (some {}), []⟩).map (fun S ↦
        (S.world.terminated, locksRegistry (S.nextOp 1), S.world.registryOwner)) =
      some (false, true, some 1) := by decide +kernel
  obtain ⟨S, hS, hv⟩ := exists_run hrun
  simp only [Prod.mk.injEq] at hv
  obtain ⟨ht, hnext, hown⟩ := hv
  exact (h {} _ S hS ht).1 1 (eq_of_locksRegistry hnext) hown

end MessageBroker.LockDiscipline
