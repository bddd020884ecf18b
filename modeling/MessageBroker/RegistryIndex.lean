import MessageBroker.ThreadPhases

namespace MessageBroker.RegistryIndex

open ByteStrings WireMessages MessageStore ProgramTrees ThreadPools Protocols BrokerState
  SessionQueues ClientRegistry MessageHandlers ServerJobs OperationEffects ThreadViews
  SharedInvariant ProgramShapes ServerOutlines RunInvariants ThreadPhases

/-- What a thread has done so far in a critical section of the registry. -/
inductive RegistryPhase
  | outside
  | idle
  | looked (identity name : Bytes)
  | met (identity name : Bytes) (s : ℕ)
  | found (name : Bytes) (s : ℕ)
  | absent (name : Bytes)
  | known (name : Bytes) (s : ℕ) (identity : Bytes)
  | erased (name identity : Bytes)
  | placed (name : Bytes) (s : ℕ)
  | named (name : Bytes) (s : ℕ) (identity : Bytes)

/-- Outside the phases between the first and the last write of a critical section. -/
def Settled : RegistryPhase → Prop
  | .erased _ _ | .placed _ _ | .named _ _ _ => False
  | _ => True

def registryProtocol : Protocol Op Op.Res RegistryPhase where
  may x o :=
    match o with
    | .unlockRegistry => Settled x
    | .findName _ => x = .idle
    | .findClient n => x = .idle ∨ (∃ y, x = .looked y n) ∨ ∃ m s, x = .found m s
    | .peekClient _ => x = .idle
    | .identityOf s => (∃ n, x = .found n s) ∨ ∃ n, x = .placed n s
    | .setName y n => ∃ s, x = .named n s y
    | .eraseName y => ∃ n s, x = .known n s y
    | .setClient n _ => x = .absent n ∨ ∃ y, x = .erased n y
    | .removeClient n => ∃ y, x = .erased n y
    | .updateLastReceive s => x = .outside ∨ ∃ y n, x = .met y n s
    | _ => True
  next x o r :=
    match o, r with
    | .lockRegistry, _ => .idle
    | .unlockRegistry, _ => .outside
    | .findName y, n => n.elim x (.looked y)
    | .findClient n, s =>
      match x with
      | .looked y _ => s.elim (.absent n) (.met y n)
      | _ => s.elim (.absent n) (.found n)
    | .peekClient n, s => s.elim .idle (.found n)
    | .identityOf s, y =>
      match x with
      | .found n _ => .known n s y
      | .placed n _ => .named n s y
      | _ => x
    | .eraseName y, _ =>
      match x with
      | .known n _ _ => .erased n y
      | _ => x
    | .setClient n s, _ => .placed n s
    | .removeClient _, _ | .setName _ _, _ => .idle
    | _, _ => x

variable {x : RegistryPhase} {α : Type} {n : Bytes} {s : ℕ}

theorem keeps_perform {o : Op} (h : family o ≠ .registry) (ho : family o ≠ .receipt) :
    Keeps registryProtocol x (perform o) := by
  cases o with
  | lockRegistry | unlockRegistry | findName | setName | eraseName | findClient | peekClient
  | setClient | removeClient | listClients | identityOf => exact absurd rfl h
  | updateLastReceive => exact absurd rfl ho
  | _ => exact .perform trivial fun _ ↦ rfl

theorem sending (x : RegistryPhase) : Sending (Keeps registryProtocol x) where
  toComposable := Keeps.composable registryProtocol x
  queue o h := keeps_perform (by rw [h]; nofun) (by rw [h]; nofun)
  session o h := keeps_perform (by rw [h]; nofun) (by rw [h]; nofun)
  sendToClient s c data := ⟨trivial, fun _ ↦ ⟨trivial, fun _ ↦ rfl⟩⟩

/-- The program leads from one phase of a critical section to another, unless it throws. -/
def Moves (p : Program α) (x : RegistryPhase) (Q : RegistryPhase → Prop) : Prop :=
  Follows registryProtocol (fun _ ↦ Q) (fun _ ↦ Settled) p x

theorem Moves.bind {β : Type} {p : Program α} {f : α → Program β} {y : RegistryPhase}
    {Q : RegistryPhase → Prop} (h : Moves p x (· = y)) (hf : ∀ a, Moves (f a) y Q) :
    Moves (p.bind f) x Q :=
  Follows.bind h fun a z hz ↦ by
    subst hz
    exact hf a

theorem moves_of_keeps {p : Program α} (h : Keeps registryProtocol x p) (hx : Settled x) :
    Moves p x (· = x) :=
  Follows.mono h (fun _ _ ↦ id) fun _ _ hy ↦ hy ▸ hx

theorem Moves.settled {p : Program α} {y : RegistryPhase} (h : Moves p x (· = y)) (hy : Settled y) :
    Moves p x Settled :=
  Follows.mono h (fun _ _ hz ↦ hz ▸ hy) fun _ _ ↦ id

theorem keeps_withRegistryLock {p : Program α} (h : Moves p .idle Settled) :
    Keeps registryProtocol .outside (withRegistryLock p) :=
  ⟨trivial, fun _ ↦ Follows.ensuring h (fun _ _ hx ↦ ⟨hx, fun _ ↦ rfl⟩)
    fun _ _ hx ↦ ⟨hx, fun _ ↦ rfl⟩⟩

theorem keeps_findSession : Keeps registryProtocol .outside (findSession n) :=
  keeps_withRegistryLock ⟨.inl rfl, fun r ↦ by cases r <;> trivial⟩

theorem keeps_findOnlineSession : Keeps registryProtocol .outside (findOnlineSession n) := by
  refine keeps_withRegistryLock ⟨rfl, fun r ↦ ?_⟩
  match r with
  | none => trivial
  | some s =>
    refine ⟨trivial, fun online ↦ ?_⟩
    cases online with
    | true => exact ⟨.inr (.inr ⟨n, s, rfl⟩), fun r ↦ by cases r <;> trivial⟩
    | false => trivial

theorem keeps_touchSession {identity : Bytes} :
    Keeps registryProtocol .outside (touchSession identity) := by
  refine keeps_withRegistryLock ⟨rfl, fun r ↦ ?_⟩
  match r with
  | none => trivial
  | some n =>
    refine ⟨.inr (.inl ⟨identity, rfl⟩), fun r ↦ ?_⟩
    match r with
    | none => trivial
    | some s => exact ⟨.inr ⟨identity, n, rfl⟩, fun _ ↦ trivial⟩

/-- An exception can only come before anything is written. -/
theorem moves_replaceSession {old : ℕ} : Follows registryProtocol (fun _ y ↦ y = .placed n s)
    (fun _ y ↦ y = .found n old) (replaceSession n old s) (.found n old) := by
  refine Follows.bind (sending (.found n old)).persistQueueToDatabase fun _ y hy ↦ ?_
  subst hy
  exact ⟨trivial, fun _ ↦ ⟨.inl ⟨n, rfl⟩, fun y ↦ ⟨⟨n, old, rfl⟩, fun _ ↦ ⟨.inr ⟨y, rfl⟩, fun _ ↦ rfl⟩⟩⟩⟩

theorem moves_placeSession (old : Option ℕ) : Moves (placeSession n s old)
    (old.elim (.absent n) (.found n)) (· = .placed n s) := by
  cases old with
  | none => exact ⟨.inl rfl, fun _ ↦ rfl⟩
  | some old =>
    refine Follows.recover moves_replaceSession fun e y hy ↦ ?_
    subst hy
    exact (moves_of_keeps (sending (.found n old)).dropSession trivial).bind fun _ ↦ trivial

theorem keeps_upsertClient : Keeps registryProtocol .outside (upsertClient n s) := by
  refine keeps_withRegistryLock ⟨.inl rfl, fun old ↦ ?_⟩
  refine (moves_placeSession old).bind fun _ ↦ ⟨.inr ⟨n, rfl⟩, fun y ↦ ⟨⟨s, rfl⟩, fun _ ↦ ?_⟩⟩
  have h := sending .idle
  have hcount (metrics : Bool) : Keeps registryProtocol .idle
      ((Prog.when metrics (countUpsert old.isSome)).bind fun _ ↦ .ret old) :=
    h.bind (h.when h.countUpsert) fun _ ↦ h.ret old
  exact ⟨trivial, fun metrics ↦ (moves_of_keeps (hcount metrics) trivial).settled trivial⟩

theorem moves_eraseClient : Moves (eraseClient n s) (.found n s) (· = .idle) := by
  exact ⟨.inl ⟨n, rfl⟩, fun y ↦ ⟨⟨n, s, rfl⟩, fun _ ↦
    ⟨⟨y, rfl⟩, fun _ ↦ moves_of_keeps (sending .idle).dropSession trivial⟩⟩⟩

theorem keeps_unregisterClient : Keeps registryProtocol .outside (unregisterClient n) := by
  refine keeps_withRegistryLock ⟨rfl, fun r ↦ ?_⟩
  match r with
  | none => trivial
  | some s =>
    have h := sending .idle
    exact moves_eraseClient.bind fun _ ↦ (moves_of_keeps (h.bind (h.increment _) fun _ ↦
      h.session .setActiveSessions rfl) trivial).settled trivial

theorem moves_removeClients (names : List Bytes) : Moves (removeClients names) .idle (· = .idle) := by
  induction names with
  | nil => exact rfl
  | cons n rest ih =>
    refine Moves.bind (y := .idle) ⟨rfl, fun r ↦ ?_⟩ fun _ ↦ ih
    match r with
    | none => exact rfl
    | some s => exact moves_eraseClient.bind fun _ ↦ ⟨trivial, fun _ ↦ rfl⟩

theorem keeps_cleanupInactiveSessions (cfg : Config) :
    Keeps registryProtocol .outside (cleanupInactiveSessions cfg) := by
  refine keeps_withRegistryLock ⟨trivial, fun entries ↦ ?_⟩
  refine (moves_of_keeps ((sending .idle).scanClients entries) trivial).bind fun names ↦
    (moves_removeClients names).bind fun _ ↦ ?_
  unfold Prog.when
  split
  · refine ⟨trivial, fun metrics ↦ ?_⟩
    cases metrics with
    | true => exact ⟨trivial, fun _ ↦ ⟨trivial, fun _ ↦ ⟨trivial, fun _ ↦ trivial⟩⟩⟩
    | false => trivial
  · trivial

theorem keeps_printActiveClients : Keeps registryProtocol .outside printActiveClients :=
  keeps_withRegistryLock ⟨trivial, fun entries ↦
    (moves_of_keeps ((sending .idle).printLoop entries) trivial).settled trivial⟩

theorem handling : Handling (Keeps registryProtocol .outside) where
  toSending := sending .outside
  findSession _ := keeps_findSession
  findOnlineSession _ := keeps_findOnlineSession
  touchSession _ := keeps_touchSession
  upsertClient _ _ := keeps_upsertClient
  unregisterClient _ := keeps_unregisterClient
  printActiveClients := keeps_printActiveClients
  cleanupInactiveSessions := keeps_cleanupInactiveSessions
  receipt s := ⟨.inl rfl, fun _ ↦ rfl⟩
  storage o h := keeps_perform (by rw [h]; nofun) (by rw [h]; nofun)

theorem keeps_code (cfg : Config) (j : Job) : Keeps registryProtocol .outside (code cfg j) :=
  handling.code (fun _ h ↦ keeps_perform (by rw [h]; nofun) (by rw [h]; nofun)) cfg j

variable {cfg : Config} {ok : State → Step → Prop} {metrics : Option Metrics} {S S' : State}
  {w w' : World} {i i' : ℕ} {j : Job} {o : Op} {ch : Choice} {r : o.Res} {y : Bytes}

def registryPhase (i : ℕ) (w : World) : RegistryPhase := phase registryProtocol .outside i w.log

theorem may_of_nextOp (h : (broker cfg).Reachable ok (initial metrics) S)
    (ho : S.nextOp i = some o) : registryProtocol.may (registryPhase i S.world) o := by
  unfold Pool.nextOp at ho
  split at ho
  · next j o' k ht =>
    obtain rfl := Option.some.inj ho
    exact (follows_of_reachable (P := fun _ ↦ registryProtocol)
      (Q := fun _ x ↦ x = RegistryPhase.outside) (X := fun _ x ↦ x = RegistryPhase.outside)
      (keeps_code cfg) h i _ ht).1
  · cases ho

theorem may_of_performs (h : (broker cfg).Reachable ok (initial metrics) S)
    (hp : Performs cfg ok S i j o ch r w') : registryProtocol.may (registryPhase i S.world) o :=
  may_of_nextOp h hp.nextOp

/-- The entries of the identity index lead to sessions with that identity. -/
def Sound (w : World) : Prop :=
  ∀ x n, w.identityToName.lookup x = some n →
    ∃ s, w.activeClients.lookup n = some s ∧ (w.sessions s).identity = x

/-- The job of thread `i` received its message from identity `x`. -/
def Connected (i : ℕ) (x : Bytes) (w : World) : Prop :=
  ∃ e ∈ w.log, e.thread = i ∧ ∃ data, e.job = .receive x data

/-- What the owner of the registry knows in each phase. -/
def Knows (i : ℕ) (w : World) : RegistryPhase → Prop
  | .outside | .idle => True
  | .looked y n => w.identityToName.lookup y = some n ∧ Connected i y w
  | .met y n s =>
    (w.activeClients.lookup n = some s ∧ (w.sessions s).identity = y) ∧ Connected i y w
  | .found n s | .placed n s => w.activeClients.lookup n = some s
  | .absent n => w.activeClients.lookup n = none
  | .known n s y | .named n s y =>
    w.activeClients.lookup n = some s ∧ (w.sessions s).identity = y
  | .erased n _ => ∀ y, w.identityToName.lookup y ≠ some n

structure Indexed (w : World) : Prop where
  sound : Sound w
  owner : ∀ i, registryPhase i w ≠ .outside ↔ w.registryOwner = some i
  knows : ∀ i, Knows i w (registryPhase i w)

/-- What an operation leaves that does not write the maps of the registry. -/
structure Leaves (w w' : World) : Prop where
  clients : w'.activeClients = w.activeClients
  names : w'.identityToName = w.identityToName
  identity : ∀ n s, w.activeClients.lookup n = some s →
    (w'.sessions s).identity = (w.sessions s).identity
  log : ∀ e ∈ w.log, e ∈ w'.log

theorem leaves_of_performs (hp : Performs cfg ok S i j o ch r w') (hc : .clients ∉ writes o)
    (hs : ∀ x n, o ≠ .setName x n) (he : ∀ x, o ≠ .eraseName x) : Leaves S.world w' where
  clients := (exec_frame hp.exec).clients (by simp [hc])
  names := (exec_aside hp.exec).identityToName hs he
  identity n s h := step_identity hp.exec s (hp.inv.clients n s h).1
  log _ h := mem_log hp.exec h

theorem Connected.leaves (h : Connected i y w) (hl : ∀ e ∈ w.log, e ∈ w'.log) :
    Connected i y w' := by
  obtain ⟨e, he, hi⟩ := h
  exact ⟨e, hl e he, hi⟩

theorem Sound.leaves (h : Sound w) (hl : Leaves w w') : Sound w' := by
  intro x n hx
  rw [hl.names] at hx
  obtain ⟨s, hs, hi⟩ := h x n hx
  exact ⟨s, hl.clients ▸ hs, (hl.identity n s hs).trans hi⟩

theorem Knows.leaves (h : Knows i w x) (hl : Leaves w w') : Knows i w' x := by
  have session {n : Bytes} {s : ℕ} {y : Bytes}
      (h : w.activeClients.lookup n = some s ∧ (w.sessions s).identity = y) :
      w'.activeClients.lookup n = some s ∧ (w'.sessions s).identity = y :=
    ⟨hl.clients ▸ h.1, (hl.identity n s h.1).trans h.2⟩
  cases x with
  | outside | idle => trivial
  | looked y n => exact ⟨hl.names ▸ h.1, h.2.leaves hl.log⟩
  | met y n s => exact ⟨session h.1, h.2.leaves hl.log⟩
  | found n s | placed n s | absent n =>
    change w'.activeClients.lookup n = _
    rw [hl.clients]
    exact h
  | known n s y | named n s y => exact session h
  | erased n y =>
    change ∀ y, w'.identityToName.lookup y ≠ some n
    rw [hl.names]
    exact h

theorem registryPhase_exec (he : exec i j o ch w = some (r, w')) :
    registryPhase i w' = registryProtocol.next (registryPhase i w) o r := phase_exec he

theorem registryPhase_exec_ne (he : exec i j o ch w = some (r, w')) (hi : i' ≠ i) :
    registryPhase i' w' = registryPhase i' w := phase_exec_ne he hi

def writesRegistry : Op → Bool
  | .setName _ _ | .eraseName _ | .setClient _ _ | .removeClient _ => true
  | _ => false

theorem leaves_of_reads (hp : Performs cfg ok S i j o ch r w') (ho : writesRegistry o = false) :
    Leaves S.world w' := by
  refine leaves_of_performs hp ?_ ?_ ?_
  · cases o with
    | setClient | removeClient => cases ho
    | _ => simp [writes]
  · rintro x n rfl
    cases ho
  · rintro x rfl
    cases ho

theorem next_outside_iff (hmay : registryProtocol.may x o) (hl : o ≠ .lockRegistry)
    (hu : o ≠ .unlockRegistry) : registryProtocol.next x o r = .outside ↔ x = .outside := by
  have inside {x x' : RegistryPhase} (h : x ≠ .outside) (h' : x' ≠ .outside) :
      x' = .outside ↔ x = .outside := ⟨fun hx ↦ absurd hx h', fun hx ↦ absurd hx h⟩
  cases o with
  | lockRegistry => exact absurd rfl hl
  | unlockRegistry => exact absurd rfl hu
  | findName y =>
    obtain rfl : x = .idle := hmay
    cases r <;> exact inside nofun nofun
  | findClient n => rcases hmay with rfl | ⟨y, rfl⟩ | ⟨m, s, rfl⟩ <;> cases r <;> exact inside nofun nofun
  | peekClient n =>
    obtain rfl : x = .idle := hmay
    cases r <;> exact inside nofun nofun
  | identityOf s => rcases hmay with ⟨n, rfl⟩ | ⟨n, rfl⟩ <;> exact inside nofun nofun
  | setName y n =>
    obtain ⟨s, rfl⟩ := hmay
    exact inside nofun nofun
  | eraseName y =>
    obtain ⟨n, s, rfl⟩ := hmay
    exact inside nofun nofun
  | setClient n s => rcases hmay with rfl | ⟨y, rfl⟩ <;> exact inside nofun nofun
  | removeClient n =>
    obtain ⟨y, rfl⟩ := hmay
    exact inside nofun nofun
  | _ => exact Iff.rfl

theorem owner_step (hp : Performs cfg ok S i j o ch r w')
    (h : ∀ i, registryPhase i S.world ≠ .outside ↔ S.world.registryOwner = some i)
    (hmay : registryProtocol.may (registryPhase i S.world) o) :
    ∀ i, registryPhase i w' ≠ .outside ↔ w'.registryOwner = some i := by
  have he := hp.exec
  have other {i' : ℕ} (hi : i' ≠ i) (hn : S.world.registryOwner ≠ some i') :
      registryPhase i' w' = .outside := by
    rw [registryPhase_exec_ne he hi]
    by_contra hx
    exact hn ((h i').mp hx)
  have frame (ho : .registryOwner ∉ writes o) (hl : o ≠ .lockRegistry) (hu : o ≠ .unlockRegistry) :
      ∀ i, registryPhase i w' ≠ .outside ↔ w'.registryOwner = some i := fun i' ↦ by
    rw [(exec_frame he).registryOwner (by simp [ho]), ← h i']
    by_cases hi : i' = i
    · subst hi
      rw [registryPhase_exec he]
      exact not_congr (next_outside_iff hmay hl hu)
    · rw [registryPhase_exec_ne he hi]
  cases o with
  | lockRegistry =>
    obtain ⟨hn, hs⟩ := exec_lockRegistry he
    intro i'
    rw [hs]
    by_cases hi : i' = i
    · subst hi
      rw [registryPhase_exec he]
      exact ⟨fun _ ↦ rfl, fun _ h ↦ by cases h⟩
    · exact ⟨fun hx ↦ absurd (other hi (by simp [hn])) hx,
        fun hx ↦ absurd (Option.some.inj hx).symm hi⟩
  | unlockRegistry =>
    have hs : S.world.registryOwner = some i := of_decide_eq_true hp.allowed
    have hn := exec_unlockRegistry he
    intro i'
    rw [hn]
    refine ⟨fun hx ↦ absurd ?_ hx, fun hx ↦ by cases hx⟩
    by_cases hi : i' = i
    · subst hi
      exact registryPhase_exec he
    · exact other hi fun h' ↦ hi (Option.some.inj (hs.symm.trans h')).symm
  | _ => exact frame (by simp [writes]) (by simp) (by simp)

/-- No entry of the index leads to a name that is about to be placed. -/
theorem free_of_setClient (h : Sound w) (hknows : Knows i w x)
    (hmay : registryProtocol.may x (.setClient n s)) :
    ∀ y, w.identityToName.lookup y ≠ some n := by
  rcases hmay with rfl | ⟨y, rfl⟩
  · intro y hy
    obtain ⟨s', hs', -⟩ := h y n hy
    cases hknows.symm.trans hs'
  · exact hknows

theorem sound_step (hp : Performs cfg ok S i j o ch r w') (h : Sound S.world)
    (hknows : Knows i S.world (registryPhase i S.world))
    (hmay : registryProtocol.may (registryPhase i S.world) o) : Sound w' := by
  have he := hp.exec
  have kept {n : Bytes} (hn : ∀ y, S.world.identityToName.lookup y ≠ some n)
      (hnames : w'.identityToName = S.world.identityToName)
      (hid : ∀ s, (w'.sessions s).identity = (S.world.sessions s).identity)
      (hc : ∀ m, m ≠ n → w'.activeClients.lookup m = S.world.activeClients.lookup m) :
      Sound w' := fun y m hy ↦ by
    rw [hnames] at hy
    obtain ⟨s, hs, hi⟩ := h y m hy
    have hm : m ≠ n := fun hm ↦ hn y (hm ▸ hy)
    exact ⟨s, (hc m hm).trans hs, (hid s).trans hi⟩
  cases o with
  | setName y n =>
    obtain ⟨s, hx⟩ := hmay
    rw [hx] at hknows
    intro y' m hy
    rw [exec_setName he] at hy
    rw [(exec_frame he).clients (by simp [writes])]
    simp only [(exec_aside he).identity (by simp)]
    by_cases hy' : y' = y
    · subst hy'
      rw [AList.lookup_insert] at hy
      exact Option.some.inj hy ▸ ⟨s, hknows⟩
    · rw [AList.lookup_insert_ne hy'] at hy
      exact h y' m hy
  | eraseName y =>
    intro y' m hy
    rw [exec_eraseName he] at hy
    rw [(exec_frame he).clients (by simp [writes])]
    simp only [(exec_aside he).identity (by simp)]
    by_cases hy' : y' = y
    · rw [hy', AList.lookup_erase] at hy
      cases hy
    · rw [AList.lookup_erase_ne hy'] at hy
      exact h y' m hy
  | setClient n s =>
    have hn := free_of_setClient h hknows hmay
    refine kept hn ((exec_aside he).identityToName (by simp) (by simp)) ((exec_aside he).identity (by simp))
      fun m hm ↦ ?_
    rw [exec_setClient he, AList.lookup_insert_ne hm]
  | removeClient n =>
    obtain ⟨y, hx⟩ := hmay
    rw [hx] at hknows
    refine kept hknows ((exec_aside he).identityToName (by simp) (by simp)) ((exec_aside he).identity (by simp))
      fun m hm ↦ ?_
    rw [(exec_removeClient he).1, AList.lookup_erase_ne hm]
  | _ => exact h.leaves (leaves_of_reads hp rfl)

theorem knows_own (hp : Performs cfg ok S i j o ch r w') (h : Sound S.world)
    (hknows : Knows i S.world (registryPhase i S.world))
    (hmay : registryProtocol.may (registryPhase i S.world) o) :
    Knows i w' (registryPhase i w') := by
  have he := hp.exec
  rw [registryPhase_exec he]
  have same (hw : writesRegistry o = false)
      (hx : registryProtocol.next (registryPhase i S.world) o r = registryPhase i S.world) :
      Knows i w' (registryProtocol.next (registryPhase i S.world) o r) := by
    rw [hx]
    exact hknows.leaves (leaves_of_reads hp hw)
  cases o with
  | lockRegistry | unlockRegistry | removeClient | setName => trivial
  | findName y =>
    have hr : S.world.identityToName.lookup y = r := Option.some.inj (exec_reads he)
    obtain ⟨data, hj⟩ := hp.allowed
    have hlog : Connected i y w' := by
      refine ⟨⟨i, j, .findName y, ch, r, S.world.wallClock⟩, ?_, rfl, data, hj⟩
      rw [exec_log he]
      exact List.mem_cons_self
    cases r with
    | none =>
      change Knows i w' (registryPhase i S.world)
      exact hknows.leaves (leaves_of_reads hp rfl)
    | some n => exact ⟨(leaves_of_reads hp rfl).names ▸ hr, hlog⟩
  | findClient n =>
    have hl : Leaves S.world w' := leaves_of_reads hp rfl
    have hr : w'.activeClients.lookup n = r := hl.clients ▸ (exec_findClient he).1
    have found {x : RegistryPhase} (hx : registryPhase i S.world = x)
        (hn : registryProtocol.next x (.findClient n) r = r.elim (.absent n) (.found n)) :
        Knows i w' (registryProtocol.next (registryPhase i S.world) (.findClient n) r) := by
      rw [hx, hn]
      cases r with
      | none => exact hr
      | some s => exact hr
    rcases hmay with hx | ⟨y, hx⟩ | ⟨m, s, hx⟩
    · exact found hx rfl
    · rw [hx] at hknows ⊢
      cases r with
      | none => exact hr
      | some s =>
        obtain ⟨s', hs', hi⟩ := h y n hknows.1
        obtain rfl : s' = s :=
          Option.some.inj (hs'.symm.trans (hl.clients ▸ hr))
        exact ⟨⟨hr, (hl.identity n s' hs').trans hi⟩, hknows.2.leaves hl.log⟩
    · exact found hx rfl
  | peekClient n =>
    have hl : Leaves S.world w' := leaves_of_reads hp rfl
    have hr : S.world.activeClients.lookup n = r := Option.some.inj (exec_reads he)
    cases r with
    | none => trivial
    | some s =>
      change w'.activeClients.lookup n = some s
      rw [hl.clients, hr]
  | identityOf s =>
    have hl : Leaves S.world w' := leaves_of_reads hp rfl
    have hr : (S.world.sessions s).identity = r := Option.some.inj (exec_reads he)
    rcases hmay with ⟨n, hx⟩ | ⟨n, hx⟩ <;> rw [hx] at hknows ⊢ <;>
      exact ⟨hl.clients ▸ hknows, (hl.identity n s hknows).trans hr⟩
  | eraseName y =>
    obtain ⟨n, s, hx⟩ := hmay
    rw [hx] at hknows ⊢
    intro y' hy
    rw [exec_eraseName he] at hy
    by_cases hy' : y' = y
    · rw [hy', AList.lookup_erase] at hy
      cases hy
    · rw [AList.lookup_erase_ne hy'] at hy
      obtain ⟨s', hs', hi⟩ := h y' n hy
      obtain rfl : s' = s := Option.some.inj (hs'.symm.trans hknows.1)
      exact hy' (hi.symm.trans hknows.2)
  | setClient n s =>
    change w'.activeClients.lookup n = some s
    rw [exec_setClient he, AList.lookup_insert]
  | _ => exact same rfl rfl

theorem writes_inside (hmay : registryProtocol.may x o) (ho : writesRegistry o = true) :
    x ≠ .outside := by
  rintro rfl
  cases o with
  | setName y n =>
    obtain ⟨s, hx⟩ := hmay
    cases hx
  | eraseName y =>
    obtain ⟨n, s, hx⟩ := hmay
    cases hx
  | setClient n s => rcases hmay with hx | ⟨y, hx⟩ <;> cases hx
  | removeClient n =>
    obtain ⟨y, hx⟩ := hmay
    cases hx
  | _ => cases ho

theorem indexed_step (hr : (broker cfg).Reachable ok (initial metrics) S)
    (hp : Performs cfg ok S i j o ch r w') (h : Indexed S.world) : Indexed w' := by
  have he := hp.exec
  have hmay := may_of_performs hr hp
  refine ⟨sound_step hp h.sound (h.knows i) hmay, owner_step hp h.owner hmay, fun i' ↦ ?_⟩
  by_cases hi : i' = i
  · subst hi
    exact knows_own hp h.sound (h.knows i') hmay
  · rw [registryPhase_exec_ne he hi]
    by_cases hx : registryPhase i' S.world = .outside
    · rw [hx]
      trivial
    · -- The thread owns the registry, so that the other one cannot write its maps.
      refine (h.knows i').leaves (leaves_of_reads hp ?_)
      by_contra hw
      have hown := (h.owner i').mp hx
      have hout := (h.owner i).mp (writes_inside hmay (by simpa using hw))
      exact hi (Option.some.inj (hown.symm.trans hout))

theorem indexed (h : (broker cfg).Reachable ok (initial metrics) S) : Indexed S.world := by
  refine reachable_invariant ?_ (fun w _ _ _ h ↦ ?_) indexed_step h
  · refine ⟨fun x n hx ↦ ?_, fun i ↦ ⟨fun hx ↦ absurd rfl hx, nofun⟩, fun _ ↦ trivial⟩
    cases (AList.lookup_empty (β := fun _ ↦ Bytes) x).symm.trans hx
  · refine ⟨h.sound, h.owner, fun i ↦ (h.knows i).leaves ?_⟩
    exact ⟨rfl, rfl, fun _ _ _ ↦ rfl, fun _ h ↦ h⟩

/-- The session refreshed under the lock is that of the connection the thread
received its message from. -/
theorem job_of_refreshed (h : (broker cfg).Reachable ok (initial metrics) S)
    (hop : S.nextOp i = some (.updateLastReceive s)) (hown : S.world.registryOwner = some i) :
    ∃ data, (S.threads[i]?).map (·.job) = some (.receive (S.world.sessions s).identity data) := by
  have hindex := indexed h
  rcases may_of_nextOp h hop with hx | ⟨y, n, hx⟩
  · exact absurd hx ((hindex.owner i).mpr hown)
  · have hk := hindex.knows i
    rw [hx] at hk
    obtain ⟨⟨-, hid⟩, e, he, rfl, data, hj⟩ := hk
    exact ⟨data, by rw [job_of_event h e he, hj, hid]⟩

/-- In every run the identity index is sound; and a session that is refreshed
inside the critical section of `RouteMessage` belongs to the connection from
which the message came. -/
theorem index_sound (h : (broker cfg).Reachable ok (initial metrics) S) : Sound S.world ∧
    ∀ i x data s, (S.threads[i]?).map (·.job) = some (.receive x data) →
      S.nextOp i = some (.updateLastReceive s) → S.world.registryOwner = some i →
        (S.world.sessions s).identity = x := by
  refine ⟨(indexed h).sound, fun i x data s hjob hop hown ↦ ?_⟩
  obtain ⟨data', hj⟩ := job_of_refreshed h hop hown
  cases hj.symm.trans hjob
  rfl

def renews : Op → Option ℕ
  | .updateLastReceive s => some s
  | _ => none

theorem nextOp_of_renews (h : (S.nextOp i).bind renews = some s) : S.nextOp i = some (.updateLastReceive s) := by
  obtain ⟨o, ho, hs⟩ := Option.bind_eq_some_iff.mp h
  cases o with
  | updateLastReceive s' =>
    obtain rfl := Option.some.inj hs
    exact ho
  | _ => cases hs

/-- Bob registers, registers again over another connection and then, over that
one, under another name as well. A message comes over it. -/
theorem index_sound_bob : ∃ S s, (broker {}).Reachable (fun _ _ ↦ True) (initial none) S ∧
    S.world.identityToName.entries.length = 1 ∧ S.world.activeClients.entries.length = 2 ∧ Sound S.world ∧
      S.nextOp 3 = some (.updateLastReceive s) ∧ S.world.registryOwner = some 3 ∧
        (S.world.sessions s).identity = [99] := by
  have hrun : ((broker {}).runs (fun _ _ ↦ True) (inTurn 0 [
      (arrivalFrom [98] { type := .register, sender := [98] }, 31),
      (arrivalFrom [99] { type := .register, sender := [98] }, 42),
      (arrivalFrom [99] { type := .register, sender := [66] }, 37),
      (arrivalFrom [99] { sender := [66], destination := [98] }, 4)]) ⟨initial none, []⟩).map (fun S ↦
        (S.world.identityToName.entries.length, S.world.activeClients.entries.length, S.world.registryOwner,
          (S.nextOp 3).bind renews, (S.threads[3]?).map (·.job))) =
      some (1, 2, some 3, some 2, some (arrivalFrom [99] { sender := [66], destination := [98] })) := by
    decide +kernel
  obtain ⟨S, hS, hv⟩ := exists_run hrun
  simp only [Prod.mk.injEq] at hv
  obtain ⟨hnames, hclients, hown, hrenews, hjob⟩ := hv
  have hop := nextOp_of_renews hrenews
  obtain ⟨hsound, howner⟩ := index_sound hS
  exact ⟨S, 2, hS, hnames, hclients, hsound, hop, hown, howner 3 _ _ 2 hjob hop hown⟩

end MessageBroker.RegistryIndex
