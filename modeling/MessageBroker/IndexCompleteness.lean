import MessageBroker.RegistryIndex

namespace MessageBroker.IndexCompleteness

open ByteStrings WireMessages MessageStore ProgramTrees ThreadPools BrokerState ServerJobs
  OperationEffects ThreadViews SharedInvariant ServerOutlines RunInvariants ThreadPhases RegistryIndex

/-- The identity index leads from an identity to a registered session of it. -/
def Leading (w : World) (x : Bytes) : Prop :=
  ∃ n s, w.identityToName.lookup x = some n ∧ w.activeClients.lookup n = some s ∧
    (w.sessions s).identity = x

/-- Every registered session is found by its identity, or by another one of the same identity. -/
def Complete (w : World) : Prop :=
  ∀ n s, w.activeClients.lookup n = some s → Leading w (w.sessions s).identity

def registersFrom (x : Bytes) : Job → Bool
  | .receive y data =>
    match deserialize data with
    | .ok m => decide (y = x ∧ m.type = .register)
    | .error _ => false
  | _ => false

def erasing (S : State) (i : ℕ) : Option (Job × Bytes) :=
  match S.threads[i]? with
  | some ⟨j, .op (.eraseName x) _⟩ => some (j, x)
  | _ => none

/-- An entry of the identity index is erased only when at most one name is
registered with that identity, or when a client registers from it. -/
def Unshared (S : State) : Step → Prop
  | .step i _ => ∀ p ∈ erasing S i, registersFrom p.2 p.1 = true ∨
    ∀ e ∈ S.world.activeClients.entries, ∀ e' ∈ S.world.activeClients.entries,
      (S.world.sessions e.2).identity = p.2 → (S.world.sessions e'.2).identity = p.2 → e.1 = e'.1
  | _ => True

instance (S : State) : (l : Step) → Decidable (Unshared S l)
  | .step i _ => inferInstanceAs (Decidable (∀ p ∈ erasing S i, registersFrom p.2 p.1 = true ∨
    ∀ e ∈ S.world.activeClients.entries, ∀ e' ∈ S.world.activeClients.entries,
      (S.world.sessions e.2).identity = p.2 → (S.world.sessions e'.2).identity = p.2 → e.1 = e'.1))
  | .start _ | .tick _ => instDecidableTrue

variable {cfg : Config} {ok : State → Step → Prop} {metrics : Option Metrics} {S S' : State}
  {w w' : World} {i i' : ℕ} {j : Job} {o : Op} {ch : Choice} {r : o.Res} {x : RegistryPhase}
  {y n : Bytes} {s : ℕ}

theorem registersFrom_iff : registersFrom y j = true ↔
    ∃ data m, j = .receive y data ∧ deserialize data = .ok m ∧ m.type = .register := by
  unfold registersFrom
  split
  · next y' data =>
    split
    · next m hm =>
      simp only [decide_eq_true_eq]
      refine ⟨fun ⟨hy, ht⟩ ↦ ⟨data, m, by rw [hy], hm, ht⟩, fun ⟨data', m', hj, hm', ht⟩ ↦ ?_⟩
      cases hj
      cases hm.symm.trans hm'
      exact ⟨rfl, ht⟩
    · next e he =>
      refine ⟨nofun, fun ⟨data', m', hj, hm', _⟩ ↦ ?_⟩
      cases hj
      cases he.symm.trans hm'
  · next hne =>
    exact ⟨nofun, fun ⟨data', m', hj, _⟩ ↦ absurd hj (hne y data')⟩

/-- Thread `i` works on a registration from identity `y`. -/
def Registering (i : ℕ) (y : Bytes) (w : World) : Prop :=
  ∃ e ∈ w.log, e.thread = i ∧ registersFrom y e.job = true

/-- The registered sessions that a thread may leave without an entry in each phase. -/
def Spares (i : ℕ) (w : World) (n : Bytes) (s : ℕ) : RegistryPhase → Prop
  | .erased m y => n = m ∨ Registering i y w ∧ (w.sessions s).identity = y
  | .placed m s' => n = m ∨ (w.sessions s).identity = (w.sessions s').identity
  | .named m _ y => n = m ∨ (w.sessions s).identity = y
  | _ => False

def Covers (w : World) : Prop :=
  ∀ n s, w.activeClients.lookup n = some s → Leading w (w.sessions s).identity ∨
    ∃ i, Spares i w n s (registryPhase i w)

theorem Leading.leaves (h : Leading w y) (hl : Leaves w w') : Leading w' y := by
  obtain ⟨n, s, hn, hs, hy⟩ := h
  exact ⟨n, s, hl.names ▸ hn, hl.clients ▸ hs, (hl.identity n s hs).trans hy⟩

theorem not_spares (hx : Settled x) : ¬ Spares i w n s x := by
  cases x with
  | erased | placed | named => exact hx.elim
  | _ => exact id

theorem Spares.leaves (h : Spares i w n s x) (hk : Knows i w x)
    (hs : w.activeClients.lookup n = some s) (hl : Leaves w w') : Spares i w' n s x := by
  have hid := hl.identity n s hs
  cases x with
  | erased m y =>
    refine h.imp_right fun hr ↦ ⟨?_, hid.trans hr.2⟩
    obtain ⟨e, he, hi⟩ := hr.1
    exact ⟨e, hl.log e he, hi⟩
  | placed m s' =>
    refine h.imp_right fun hy ↦ ?_
    rw [hid, hl.identity m s' hk, hy]
  | named m s' y => exact h.imp_right fun hy ↦ hid.trans hy
  | _ => exact h.elim

theorem next_unsettled (hmay : registryProtocol.may x o) (hx : ¬ Settled x)
    (hw : writesRegistry o = false) (hl : o ≠ .lockRegistry) (ho : ∀ s, o ≠ .identityOf s) :
    registryProtocol.next x o r = x := by
  have settled {x' : RegistryPhase} (h : x = x') (h' : Settled x') :
      registryProtocol.next x o r = x := absurd (h ▸ h') hx
  cases o with
  | lockRegistry => exact absurd rfl hl
  | identityOf s => exact absurd rfl (ho s)
  | unlockRegistry => exact absurd hmay hx
  | findName y => exact settled hmay trivial
  | peekClient n => exact settled hmay trivial
  | findClient n =>
    rcases hmay with h | ⟨y, h⟩ | ⟨m, s, h⟩
    · exact settled h trivial
    · exact settled h trivial
    · exact settled h trivial
  | setName | eraseName | setClient | removeClient => cases hw
  | _ => rfl

theorem covers_reads (hp : Performs cfg ok S i j o ch r w') (hi : Indexed S.world)
    (hmay : registryProtocol.may (registryPhase i S.world) o) (hw : writesRegistry o = false)
    (h : Covers S.world) : Covers w' := by
  have he := hp.exec
  have hl : Leaves S.world w' := leaves_of_reads hp hw
  intro n s hs
  rw [hl.clients] at hs
  rw [hl.identity n s hs]
  refine (h n s hs).imp (·.leaves hl) fun ⟨i', hsp⟩ ↦ ⟨i', ?_⟩
  have hk := hi.knows i'
  have hkept := hsp.leaves hk hs hl
  by_cases hne : i' = i
  · subst hne
    rw [registryPhase_exec he]
    have hx : ¬ Settled (registryPhase i' S.world) := fun hx ↦ not_spares hx hsp
    have hlock : o ≠ .lockRegistry := by
      rintro rfl
      refine hx ?_
      by_contra hout
      have hin : registryPhase i' S.world ≠ .outside := fun h ↦ hout (h ▸ trivial)
      cases (exec_lockRegistry he).1.symm.trans ((hi.owner i').mp hin)
    by_cases hid : ∃ s', o = .identityOf s'
    · obtain ⟨s', rfl⟩ := hid
      have hr : (S.world.sessions s').identity = r := Option.some.inj (exec_reads he)
      rcases hmay with ⟨m, hm⟩ | ⟨m, hm⟩
      · rw [hm] at hx
        exact absurd trivial hx
      · rw [hm] at hkept hk ⊢
        refine hkept.imp_right fun hy ↦ ?_
        rw [hy, hl.identity m s' hk, hr]
    · rwa [next_unsettled hmay hx hw hlock fun s' h ↦ hid ⟨s', h⟩]
  · rwa [registryPhase_exec_ne he hne]

theorem covers_of_owner (hi : Indexed w) (hx : registryPhase i w ≠ .outside) (h : Covers w) :
    ∀ n s, w.activeClients.lookup n = some s →
      Leading w (w.sessions s).identity ∨ Spares i w n s (registryPhase i w) := by
  intro n s hs
  refine (h n s hs).imp_right fun ⟨i', hsp⟩ ↦ ?_
  by_cases hne : i' = i
  · exact hne ▸ hsp
  · have hout : registryPhase i' w = .outside := by
      by_contra hin
      exact hne (Option.some.inj (((hi.owner i').mp hin).symm.trans ((hi.owner i).mp hx)))
    rw [hout] at hsp
    exact hsp.elim

theorem covers_setName {u : Unit} (hp : Performs cfg ok S i j (.setName y n) ch u w') (hi : Indexed S.world)
    (hmay : registryProtocol.may (registryPhase i S.world) (.setName y n)) (h : Covers S.world) :
    Covers w' := by
  have he := hp.exec
  have hcov := covers_of_owner hi (writes_inside hmay rfl) h
  obtain ⟨s, hx⟩ := hmay
  have hk := hi.knows i
  rw [hx] at hk
  have hc := (exec_frame he).clients (by simp [writes])
  have hid := (exec_aside he).identity (by simp)
  have new : Leading w' y := by
    refine ⟨n, s, ?_, by rw [hc]; exact hk.1, (hid s).trans hk.2⟩
    rw [exec_setName he, AList.lookup_insert]
  intro m s' hs'
  rw [hc] at hs'
  rw [hid]
  refine .inl ?_
  by_cases hy : (S.world.sessions s').identity = y
  · rwa [hy]
  · rcases hcov m s' hs' with ⟨n₁, s₁, hn₁, hs₁, hy₁⟩ | hsp
    · refine ⟨n₁, s₁, ?_, by rw [hc]; exact hs₁, (hid s₁).trans hy₁⟩
      rw [exec_setName he, AList.lookup_insert_ne hy, hn₁]
    · rw [hx] at hsp
      rcases hsp with rfl | hy'
      · obtain rfl : s = s' := Option.some.inj (hk.1.symm.trans hs')
        exact absurd hk.2 hy
      · exact absurd hy' hy

theorem covers_eraseName {u : Unit} (hp : Performs cfg Unshared S i j (.eraseName y) ch u w')
    (hi : Indexed S.world)
    (hmay : registryProtocol.may (registryPhase i S.world) (.eraseName y)) (h : Covers S.world) :
    Covers w' := by
  have he := hp.exec
  have hcov := covers_of_owner hi (writes_inside hmay rfl) h
  obtain ⟨n, s, hx⟩ := hmay
  have hk := hi.knows i
  rw [hx] at hk
  have hc := (exec_frame he).clients (by simp [writes])
  have hid := (exec_aside he).identity (by simp)
  have hshare := hp.ok (j, y) (by
    obtain ⟨k, ht⟩ := hp.thread
    rw [erasing, ht]
    rfl)
  intro m s' hs'
  rw [hc] at hs'
  rw [hid]
  by_cases hy : (S.world.sessions s').identity = y
  · refine .inr ⟨i, ?_⟩
    rw [registryPhase_exec he, hx]
    rcases hshare with hreg | hone
    · refine .inr ⟨⟨⟨i, j, .eraseName y, ch, u, S.world.wallClock⟩, ?_, rfl, hreg⟩, (hid s').trans hy⟩
      rw [exec_log he]
      exact List.mem_cons_self
    · exact .inl (hone ⟨m, s'⟩ (AList.mem_lookup_iff.mp hs') ⟨n, s⟩ (AList.mem_lookup_iff.mp hk.1)
        hy hk.2)
  · rcases hcov m s' hs' with ⟨n₁, s₁, hn₁, hs₁, hy₁⟩ | hsp
    · refine .inl ⟨n₁, s₁, ?_, by rw [hc]; exact hs₁, (hid s₁).trans hy₁⟩
      rw [exec_eraseName he, AList.lookup_erase_ne hy, hn₁]
    · rw [hx] at hsp
      exact hsp.elim

theorem job_of_registering (hr : (broker cfg).Reachable ok (initial metrics) S)
    (hp : Performs cfg ok S i j o ch r w') (h : Registering i y S.world) :
    registersFrom y j = true := by
  obtain ⟨e, he, rfl, hreg⟩ := h
  obtain ⟨k, ht⟩ := hp.thread
  have hj := job_of_event hr e he
  rw [ht] at hj
  have hje : j = e.job := Option.some.inj hj
  rw [hje, hreg]

theorem covers_setClient {u : Unit} (hr : (broker cfg).Reachable ok (initial metrics) S)
    (hp : Performs cfg ok S i j (.setClient n s) ch u w') (hi : Indexed S.world)
    (hmay : registryProtocol.may (registryPhase i S.world) (.setClient n s)) (h : Covers S.world) :
    Covers w' := by
  have he := hp.exec
  have hcov := covers_of_owner hi (writes_inside hmay rfl) h
  have hfree := free_of_setClient hi.sound (hi.knows i) hmay
  have hid := (exec_aside he).identity nofun
  have keep {x : Bytes} (hl : Leading S.world x) : Leading w' x := by
    obtain ⟨n₁, s₁, hn₁, hs₁, hx₁⟩ := hl
    have hne : n₁ ≠ n := fun hne ↦ hfree x (hne ▸ hn₁)
    refine ⟨n₁, s₁, ?_, ?_, (hid s₁).trans hx₁⟩
    · rw [(exec_aside he).identityToName nofun nofun, hn₁]
    · rw [exec_setClient he, AList.lookup_insert_ne hne, hs₁]
  intro m s' hs'
  have hphase := registryPhase_exec he
  have spared (hsp : m = n ∨ (w'.sessions s').identity = (w'.sessions s).identity) :
      ∃ i, Spares i w' m s' (registryPhase i w') := ⟨i, by rw [hphase]; exact hsp⟩
  by_cases hm : m = n
  · exact .inr (spared (.inl hm))
  · rw [exec_setClient he, AList.lookup_insert_ne hm] at hs'
    rcases hcov m s' hs' with hl | hsp
    · rw [hid]
      exact .inl (keep hl)
    · refine .inr (spared (.inr ?_))
      rcases hmay with hx | ⟨y, hx⟩
      · rw [hx] at hsp
        exact hsp.elim
      · rw [hx] at hsp
        obtain ⟨hreg, hy⟩ := hsp.resolve_left hm
        obtain ⟨-, -, -, data, hj⟩ := hp.allowed
        obtain ⟨data', m', hj', -⟩ := registersFrom_iff.mp (job_of_registering hr hp hreg)
        cases hj.symm.trans hj'
        rw [hid, hid, hy]

theorem covers_removeClient {u : Unit} (hr : (broker cfg).Reachable ok (initial metrics) S)
    (hp : Performs cfg ok S i j (.removeClient n) ch u w') (hi : Indexed S.world)
    (hmay : registryProtocol.may (registryPhase i S.world) (.removeClient n)) (h : Covers S.world) :
    Covers w' := by
  have he := hp.exec
  have hcov := covers_of_owner hi (writes_inside hmay rfl) h
  obtain ⟨y, hx⟩ := hmay
  have hk := hi.knows i
  rw [hx] at hk
  have hid := (exec_aside he).identity nofun
  intro m s' hs'
  rw [(exec_removeClient he).1] at hs'
  have hm : m ≠ n := by
    rintro rfl
    cases (AList.lookup_erase m _).symm.trans hs'
  rw [AList.lookup_erase_ne hm] at hs'
  rw [hid]
  rcases hcov m s' hs' with ⟨n₁, s₁, hn₁, hs₁, hy₁⟩ | hsp
  · have hne : n₁ ≠ n := fun hne ↦ hk _ (hne ▸ hn₁)
    refine .inl ⟨n₁, s₁, ?_, ?_, (hid s₁).trans hy₁⟩
    · rw [(exec_aside he).identityToName nofun nofun, hn₁]
    · rw [(exec_removeClient he).1, AList.lookup_erase_ne hne, hs₁]
  · rw [hx] at hsp
    obtain ⟨data, msg, hj, hd, ht⟩ := registersFrom_iff.mp
      (job_of_registering hr hp (hsp.resolve_left hm).1)
    exact absurd ht (hp.allowed.2 msg ⟨y, data, hj, hd⟩)

theorem covers_step (hr : (broker cfg).Reachable Unshared (initial metrics) S)
    (hp : Performs cfg Unshared S i j o ch r w') (h : Covers S.world) : Covers w' := by
  have hi := indexed hr
  have hmay := may_of_performs hr hp
  cases o with
  | setName y n => exact covers_setName hp hi hmay h
  | eraseName y => exact covers_eraseName hp hi hmay h
  | setClient n s => exact covers_setClient hr hp hi hmay h
  | removeClient n => exact covers_removeClient hr hp hi hmay h
  | _ => exact covers_reads hp hi hmay rfl h

theorem covers (h : (broker cfg).Reachable Unshared (initial metrics) S) : Covers S.world := by
  refine reachable_invariant (fun n s hs ↦ ?_) (fun w _ _ _ h n s hs ↦ ?_) covers_step h
  · cases (AList.lookup_empty (β := fun _ ↦ ℕ) n).symm.trans hs
  · exact h n s hs

theorem complete_of_settled (h : (broker cfg).Reachable Unshared (initial metrics) S)
    (hx : ∀ i, Settled (registryPhase i S.world)) : Complete S.world := fun n s hs ↦
  (covers h n s hs).resolve_right fun ⟨i, hsp⟩ ↦ not_spares (hx i) hsp

/-- As long as no shared identity is erased, the identity index is complete
whenever the registry is free, and whenever `RouteMessage` looks an identity up. -/
theorem index_complete (h : (broker cfg).Reachable Unshared (initial metrics) S) :
    (S.world.registryOwner = none → Complete S.world) ∧
      ∀ i x, S.nextOp i = some (.findName x) →
        (∃ n s, S.world.activeClients.lookup n = some s ∧ (S.world.sessions s).identity = x) →
          Leading S.world x := by
  have hi := indexed h
  have out {i : ℕ} (hne : S.world.registryOwner ≠ some i) : registryPhase i S.world = .outside := by
    by_contra hin
    exact hne ((hi.owner i).mp hin)
  refine ⟨fun hnone ↦ complete_of_settled h fun i ↦ ?_, fun i x hop ⟨n, s, hs, hx⟩ ↦ ?_⟩
  · rw [out (by rw [hnone]; nofun)]
    trivial
  · have hidle : registryPhase i S.world = .idle := may_of_nextOp h hop
    have hown := (hi.owner i).mp (by rw [hidle]; nofun)
    refine hx ▸ complete_of_settled h (fun i' ↦ ?_) n s hs
    by_cases hne : i' = i
    · rw [hne, hidle]
      trivial
    · rw [out (by rw [hown]; exact fun h ↦ hne (Option.some.inj h).symm)]
      trivial

/-- One connection registers two names and the first of them again. -/
theorem index_complete_shared : ∃ S, (broker {}).Reachable Unshared (initial none) S ∧
    S.world.activeClients.entries.length = 2 ∧ Complete S.world := by
  have hrun : ((broker {}).runs Unshared (inTurn 0 [
      (arrivalFrom [7] { type := .register, sender := [97] }, 31),
      (arrivalFrom [7] { type := .register, sender := [98] }, 37),
      (arrivalFrom [7] { type := .register, sender := [97] }, 48)])
        ⟨initial none, []⟩).map (fun S ↦
          (S.world.activeClients.entries.length, S.world.registryOwner)) = some (2, none) := by
    decide +kernel
  obtain ⟨S, hS, hv⟩ := exists_run hrun
  obtain ⟨hlen, hown⟩ := Prod.mk.inj hv
  exact ⟨S, hS, hlen, (index_complete hS).1 hown⟩

/-- One connection registers two names and unregisters the second one: the
entry of its identity is erased although the first one is still registered. -/
theorem shared_identity_lost : ∃ S, (broker {}).Reachable (fun _ _ ↦ True) (initial none) S ∧
    S.world.registryOwner = none ∧ S.world.activeClients.lookup [97] = some 0 ∧
      (S.world.sessions 0).identity = [7] ∧ S.world.identityToName.lookup [7] = none ∧
        ¬ Complete S.world := by
  have hrun : ((broker {}).runs (fun _ _ ↦ True) (inTurn 0 [
      (arrivalFrom [7] { type := .register, sender := [97] }, 31),
      (arrivalFrom [7] { type := .register, sender := [98] }, 37),
      (arrivalFrom [7] { type := .unregister, sender := [98] }, 28)])
        ⟨initial none, []⟩).map (fun S ↦
          ((S.world.registryOwner, S.world.activeClients.lookup [97]),
            (S.world.sessions 0).identity, S.world.identityToName.lookup [7])) =
      some ((none, some 0), [7], none) := by decide +kernel
  obtain ⟨S, hS, hv⟩ := exists_run hrun
  obtain ⟨h₁, h₂⟩ := Prod.mk.inj hv
  obtain ⟨hown, hs⟩ := Prod.mk.inj h₁
  obtain ⟨hid, hnone⟩ := Prod.mk.inj h₂
  refine ⟨S, hS, hown, hs, hid, hnone, fun hc ↦ ?_⟩
  obtain ⟨n, s, hn, -⟩ := hc [97] 0 hs
  rw [hid, hnone] at hn
  cases hn

end MessageBroker.IndexCompleteness
