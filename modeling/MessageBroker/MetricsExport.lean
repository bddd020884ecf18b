import MessageBroker.MessageCounts
import MessageBroker.TransitionSystems

namespace MessageBroker.MetricsExport

open ThreadPools BrokerState ServerJobs ServerOutlines RunInvariants MessageCounts TransitionSystems
open ClientAccounting (count)

inductive Gauge
  | activeSessions
  | pendingSendQueue
deriving DecidableEq

def exportOrder : List Counter :=
  [.messagesReceived, .messagesSent, .messagesFailed, .acksReceived, .messagesExpired, .offlineDelivered,
    .clientsRegistered, .clientsUnregistered, .clientsTimeout]

/-- Where the updater stands. It exchanges a counter for zero and then adds what
was in it to the exported one; it loads a gauge and then sets the exported one. -/
inductive UpdatePhase
  | sleeping
  | exchanging (c : Counter) (rest : List Counter)
  | adding (c : Counter) (value : UInt64) (rest : List Counter)
  | loading (g : Gauge)
  | setting (g : Gauge) (value : ℕ)
deriving DecidableEq

/-- The integer nearest to a number among those that a double can hold, which have
53 binary digits and zeros after them; of two, the one whose last digit is even. -/
def roundDouble (n : ℕ) : ℕ :=
  let unit := 2 ^ (n.log2 - 52)
  if 2 * (n % unit) < unit ∨ 2 * (n % unit) = unit ∧ n / unit % 2 = 0 then n / unit * unit
    else (n / unit + 1) * unit

/-- The manager of the metrics. The exported values are doubles. The last field is
auxiliary: how often the updater has been through. -/
structure MetricsManager where
  counters : Counter → UInt64 := fun _ ↦ 0
  exported : Counter → ℕ := fun _ ↦ 0
  gauges : Gauge → Option ℕ := fun _ ↦ none
  updaterRunning : Bool := true
  phase : UpdatePhase := .sleeping
  updates : ℕ := 0

def nextCounter : List Counter → UpdatePhase
  | [] => .loading .activeSessions
  | c :: rest => .exchanging c rest

def Gauge.value (g : Gauge) (w : World) : ℕ :=
  w.metrics.elim 0 fun m ↦ match g with
    | .activeSessions => m.activeSessions
    | .pendingSendQueue => m.pendingSendQueueSize

namespace MetricsManager

variable (M : MetricsManager)

def increment (c : Counter) : MetricsManager :=
  { M with counters := Function.update M.counters c (M.counters c + 1) }

def update (w : World) : Option MetricsManager :=
  match M.phase with
  | .sleeping => if M.updaterRunning then some { M with phase := nextCounter exportOrder } else none
  | .exchanging c rest =>
    some { M with counters := Function.update M.counters c 0, phase := .adding c (M.counters c) rest }
  | .adding c value rest =>
    some { M with
      exported := Function.update M.exported c (roundDouble (M.exported c + roundDouble value.toNat))
      phase := nextCounter rest }
  | .loading g => some { M with phase := .setting g (g.value w) }
  | .setting .activeSessions value =>
    some { M with
      gauges := Function.update M.gauges .activeSessions (some (roundDouble value))
      phase := .loading .pendingSendQueue }
  | .setting .pendingSendQueue value =>
    some { M with
      gauges := Function.update M.gauges .pendingSendQueue (some (roundDouble value))
      phase := .sleeping
      updates := M.updates + 1 }

/-- What the updater has taken out of a counter and not yet added. -/
def held (c : Counter) : ℕ :=
  match M.phase with
  | .adding c' value _ => if c' = c then value.toNat else 0
  | _ => 0

/-- How many updates have begun. -/
def begun : ℕ := if M.phase = .sleeping then M.updates else M.updates + 1

end MetricsManager

/-- A broker and the manager of its metrics. -/
structure Observed where
  pool : State
  manager : MetricsManager := {}

inductive Action
  | broker (l : Step)
  | updater
  | stopUpdater

def counted (pool : State) : Step → Option Counter
  | .step i _ => match pool.nextOp i with
    | some (.increment c) => some c
    | _ => none
  | _ => none

def next (cfg : Config) (S : Observed) : Action → Option Observed
  | .broker l => ((broker cfg).next S.pool l).map fun pool ↦
    ⟨pool, (counted S.pool l).elim S.manager S.manager.increment⟩
  | .updater => (S.manager.update S.pool.world).map fun M ↦ ⟨S.pool, M⟩
  | .stopUpdater => some ⟨S.pool, { S.manager with updaterRunning := false }⟩

def observed (cfg : Config) : System Observed Action where
  next := next cfg

variable {cfg : Config} {ok : Observed → Action → Prop} {S S' : Observed} {a : Action} {c c' : Counter}
  {l : Step} {pool pool' : State} {M M' : MetricsManager} {w : World} {n : ℕ}

theorem roundDouble_eq (h : n < 2 ^ 53) : roundDouble n = n := by
  have hlog : n.log2 - 52 = 0 := by
    by_cases hn : n = 0
    · rw [hn]
      rfl
    · have := (Nat.log2_lt hn).mpr h
      omega
  simp [roundDouble, hlog, Nat.mod_one]

theorem mem_exportOrder (c : Counter) : c ∈ exportOrder := by
  cases c <;> decide

theorem count_next (hs : (broker cfg).next pool l = some pool') (hm : pool.world.metrics.isSome = true) :
    pool'.world.metrics.isSome = true ∧
      count c pool'.world = count c pool.world + if counted pool l = some c then 1 else 0 := by
  cases l with
  | start j =>
    obtain ⟨w', hw, rfl⟩ := Machine.start_cases hs
    have hmetrics : w'.metrics = pool.world.metrics := by
      change ServerJobs.start j pool.world = some w' at hw
      unfold ServerJobs.start at hw
      split at hw
      · split at hw
        · cases hw
        · obtain rfl := Option.some.inj hw
          rfl
      · obtain rfl := Option.some.inj hw
        rfl
    refine ⟨hmetrics ▸ hm, ?_⟩
    rw [count, count, hmetrics]
    rfl
  | step i ch =>
    obtain ⟨j, o, k, r, w', ht, he, rfl⟩ := Machine.step_cases hs
    refine ⟨(OperationEffects.exec_frame he).metrics.trans hm, ?_⟩
    have hnext : pool.nextOp i = some o := by rw [Pool.nextOp, ht]
    have hcounted : counted pool (.step i ch) = some c ↔ adds c o = true := by
      rw [counted, hnext]
      cases o with
      | increment c' => simp [adds]
      | _ => simp [adds]
    rw [count_exec he hm]
    simp only [hcounted]
  | tick t =>
    obtain rfl := Option.some.inj hs
    exact ⟨hm, rfl⟩

/-- What one step of the updater does. -/
inductive Updates (w : World) (M M' : MetricsManager) : Prop
  | wakes (phase : M.phase = .sleeping) (eq : M' = { M with phase := nextCounter exportOrder })
  | exchanges (c : Counter) (rest : List Counter) (phase : M.phase = .exchanging c rest)
    (eq : M' = { M with counters := Function.update M.counters c 0, phase := .adding c (M.counters c) rest })
  | adds (c : Counter) (value : UInt64) (rest : List Counter) (phase : M.phase = .adding c value rest)
    (eq : M' = { M with
      exported := Function.update M.exported c (roundDouble (M.exported c + roundDouble value.toNat))
      phase := nextCounter rest })
  | loads (g : Gauge) (phase : M.phase = .loading g) (eq : M' = { M with phase := .setting g (g.value w) })
  | sets (value : ℕ) (phase : M.phase = .setting .activeSessions value)
    (eq : M' = { M with
      gauges := Function.update M.gauges .activeSessions (some (roundDouble value))
      phase := .loading .pendingSendQueue })
  | ends (value : ℕ) (phase : M.phase = .setting .pendingSendQueue value)
    (eq : M' = { M with
      gauges := Function.update M.gauges .pendingSendQueue (some (roundDouble value))
      phase := .sleeping
      updates := M.updates + 1 })

theorem updates_of_update (h : M.update w = some M') : Updates w M M' := by
  unfold MetricsManager.update at h
  split at h
  · next hphase =>
    split at h
    · exact .wakes hphase (Option.some.inj h).symm
    · cases h
  · next c rest hphase => exact .exchanges c rest hphase (Option.some.inj h).symm
  · next c value rest hphase => exact .adds c value rest hphase (Option.some.inj h).symm
  · next g hphase => exact .loads g hphase (Option.some.inj h).symm
  · next value hphase => exact .sets value hphase (Option.some.inj h).symm
  · next value hphase => exact .ends value hphase (Option.some.inj h).symm

/-- Every increment is in the counter, with the updater or exported, as long as
doubles count exactly. -/
def Accounts (S : Observed) : Prop :=
  S.pool.world.metrics.isSome = true ∧ ∀ c, count c S.pool.world < 2 ^ 53 →
    S.manager.exported c + S.manager.held c + (S.manager.counters c).toNat = count c S.pool.world

theorem held_nextCounter (rest : List Counter) (hphase : M.phase = nextCounter rest) : M.held c = 0 := by
  rw [MetricsManager.held, hphase]
  cases rest <;> rfl

theorem exported_adds {value : UInt64} {rest : List Counter} (hphase : M.phase = .adding c' value rest)
    (h : M.exported c + M.held c < 2 ^ 53) :
    Function.update M.exported c' (roundDouble (M.exported c' + roundDouble value.toNat)) c =
      M.exported c + M.held c := by
  rw [MetricsManager.held, hphase] at h ⊢
  by_cases hc : c' = c
  · subst hc
    simp only [if_true] at h ⊢
    rw [Function.update_self, roundDouble_eq (n := value.toNat) (by omega), roundDouble_eq h]
  · simp only [if_neg hc, Nat.add_zero] at h ⊢
    rw [Function.update_of_ne (Ne.symm hc)]

theorem accounts_update (h : M.update w = some M')
    (hn : M.exported c + M.held c + (M.counters c).toNat < 2 ^ 53) :
    M'.exported c + M'.held c + (M'.counters c).toNat = M.exported c + M.held c + (M.counters c).toNat := by
  have none_held (h : ∀ c value rest, M.phase ≠ .adding c value rest) : M.held c = 0 := by
    rw [MetricsManager.held]
    split
    · next hphase => exact absurd hphase (h _ _ _)
    · rfl
  cases updates_of_update h with
  | wakes hphase heq =>
    subst heq
    rw [none_held (by simp [hphase])]
    rfl
  | exchanges c' rest hphase heq =>
    subst heq
    rw [none_held (by simp [hphase])]
    simp only [MetricsManager.held, Function.update_apply]
    by_cases hc : c' = c
    · subst hc
      rw [if_pos rfl, if_pos rfl]
      exact Nat.add_right_comm _ _ _
    · rw [if_neg hc, if_neg (Ne.symm hc)]
  | adds c' value rest hphase heq =>
    subst heq
    rw [held_nextCounter rest rfl, Nat.add_zero]
    exact congrArg (· + (M.counters c).toNat) (exported_adds hphase (by omega))
  | loads g hphase heq | sets value hphase heq | ends value hphase heq =>
    subst heq
    rw [none_held (by simp [hphase])]
    rfl

theorem accounts_increment (c' : Counter) (hlt : (M.counters c).toNat + 1 < 2 ^ 64) :
    ((M.increment c').counters c).toNat = (M.counters c).toNat + if c' = c then 1 else 0 := by
  change (Function.update M.counters c' (M.counters c' + 1) c).toNat = _
  by_cases hc : c' = c
  · subst hc
    have hone : (1 : UInt64).toNat = 1 := rfl
    rw [Function.update_self, if_pos rfl, UInt64.toNat_add, hone, Nat.mod_eq_of_lt hlt]
  · rw [Function.update_of_ne (Ne.symm hc), if_neg hc, Nat.add_zero]

theorem count_mono (hm : S.pool.world.metrics.isSome = true) (hs : next cfg S a = some S') :
    count c S.pool.world ≤ count c S'.pool.world := by
  cases a with
  | broker l =>
    obtain ⟨pool, hpool, rfl⟩ := Option.map_eq_some_iff.mp hs
    rw [(count_next hpool hm).2]
    exact Nat.le_add_right _ _
  | updater =>
    obtain ⟨M, hM, rfl⟩ := Option.map_eq_some_iff.mp hs
    exact Nat.le_refl _
  | stopUpdater =>
    obtain rfl := Option.some.inj hs
    exact Nat.le_refl _

theorem accounts_next (h : Accounts S) (hs : next cfg S a = some S') : Accounts S' := by
  obtain ⟨hm, h⟩ := h
  have hbelow {c : Counter} (hc : count c S'.pool.world < 2 ^ 53) :=
    h c (Nat.lt_of_le_of_lt (count_mono hm hs) hc)
  cases a with
  | broker l =>
    obtain ⟨pool, hpool, rfl⟩ := Option.map_eq_some_iff.mp hs
    refine ⟨(count_next (c := .messagesSent) hpool hm).1, fun c hc ↦ ?_⟩
    have hsum := hbelow hc
    have hcount : count c pool.world = _ := (count_next hpool hm).2
    rw [hcount, ← hsum]
    cases hcounted : counted S.pool l with
    | none => rfl
    | some c' =>
      have hlt : (S.manager.counters c).toNat + 1 < 2 ^ 64 := by
        have hle := count_mono (c := c) hm hs
        change count c S.pool.world ≤ count c pool.world at hle
        change count c pool.world < 2 ^ 53 at hc
        omega
      simp only [Option.elim_some, Option.some.injEq]
      rw [accounts_increment c' hlt, ← Nat.add_assoc]
      rfl
  | updater =>
    obtain ⟨M, hM, rfl⟩ := Option.map_eq_some_iff.mp hs
    refine ⟨hm, fun c hc ↦ ?_⟩
    have hsum := hbelow hc
    rw [accounts_update hM (hsum ▸ hc)]
    exact hsum
  | stopUpdater =>
    obtain rfl := Option.some.inj hs
    exact ⟨hm, h⟩

theorem accounts_of_leads (h : (observed cfg).Leads ok ⟨⟨initial (some {}), []⟩, {}⟩ S) : Accounts S := by
  refine h.invariant ⟨rfl, fun _ _ ↦ rfl⟩ fun _ ih _ hs ↦ accounts_next ih hs

/-- In the update that goes on, `base` increments of a counter are exported once
its turn is over. -/
def Caught (c : Counter) (base : ℕ) (M : MetricsManager) : Prop :=
  match M.phase with
  | .sleeping => True
  | .exchanging c' rest => c ∈ c' :: rest ∨ base ≤ M.exported c
  | .adding _ _ rest => c ∈ rest ∨ base ≤ M.exported c + M.held c
  | .loading _ | .setting _ _ => base ≤ M.exported c

theorem caught_nextCounter {rest : List Counter} (hphase : M.phase = nextCounter rest)
    (h : c ∈ rest ∨ n ≤ M.exported c) : Caught c n M := by
  rw [Caught, hphase]
  cases rest with
  | nil => exact h.resolve_left List.not_mem_nil
  | cons c' rest => exact h

theorem caught_update (h : Caught c n M) (hn : n ≤ M.exported c + M.held c + (M.counters c).toNat)
    (hc : M.exported c + M.held c < 2 ^ 53) (hs : M.update w = some M') :
    M'.updates = M.updates ∧ Caught c n M' ∨ M'.updates = M.updates + 1 ∧ n ≤ M'.exported c := by
  rw [Caught] at h
  cases updates_of_update hs with
  | wakes hphase heq =>
    subst heq
    exact .inl ⟨rfl, caught_nextCounter rfl (.inl (mem_exportOrder c))⟩
  | exchanges c' rest hphase heq =>
    subst heq
    have hheld : M.held c = 0 := by rw [MetricsManager.held, hphase]
    rw [hphase] at h
    rw [hheld, Nat.add_zero] at hn
    refine .inl ⟨rfl, ?_⟩
    rcases h with h | h
    · rcases List.mem_cons.mp h with rfl | h
      · refine .inr ?_
        simp only [MetricsManager.held, if_pos]
        exact hn
      · exact .inl h
    · exact .inr (h.trans (Nat.le_add_right _ _))
  | adds c' value rest hphase heq =>
    subst heq
    have hadded := exported_adds hphase hc
    rw [hphase] at h
    exact .inl ⟨rfl, caught_nextCounter rfl (h.imp_right fun h ↦ h.trans_eq hadded.symm)⟩
  | loads g hphase heq | sets value hphase heq =>
    subst heq
    rw [hphase] at h
    exact .inl ⟨rfl, h⟩
  | ends value hphase heq =>
    subst heq
    rw [hphase] at h
    exact .inr ⟨rfl, h⟩

theorem update_mono (hc : M.exported c + M.held c < 2 ^ 53) (hs : M.update w = some M') :
    M.updates ≤ M'.updates ∧ M.exported c ≤ M'.exported c := by
  cases updates_of_update hs with
  | adds c' value rest hphase heq =>
    subst heq
    exact ⟨Nat.le_refl _, (Nat.le_add_right _ _).trans_eq (exported_adds hphase hc).symm⟩
  | ends _ _ heq =>
    subst heq
    exact ⟨Nat.le_succ _, Nat.le_refl _⟩
  | wakes _ heq | exchanges _ _ _ heq | loads _ _ heq | sets _ _ heq =>
    subst heq
    exact ⟨Nat.le_refl _, Nat.le_refl _⟩

theorem awake_update (h : M.phase ≠ .sleeping) (hs : M.update w = some M') :
    M'.updates = M.updates ∧ M'.phase ≠ .sleeping ∨ M'.updates = M.updates + 1 ∧ M'.phase = .sleeping := by
  cases updates_of_update hs with
  | wakes hphase _ => exact absurd hphase h
  | adds c' value rest _ heq =>
    subst heq
    refine .inl ⟨rfl, ?_⟩
    cases rest <;> exact UpdatePhase.noConfusion
  | ends _ _ heq =>
    subst heq
    exact .inr ⟨rfl, rfl⟩
  | exchanges _ _ _ heq | loads _ _ heq | sets _ _ heq =>
    subst heq
    exact .inl ⟨rfl, UpdatePhase.noConfusion⟩

/-- Since there were `n` increments and `begun` updates had begun: the last of them
goes on, or the next one, or all `n` have been exported. -/
inductive Progress (c : Counter) (n begun : ℕ) (M : MetricsManager) : Prop
  | before (updates : M.updates + 1 = begun) (awake : M.phase ≠ .sleeping)
  | next (updates : M.updates = begun) (caught : Caught c n M)
  | after (updates : begun < M.updates) (all : n ≤ M.exported c)

structure Follows (c : Counter) (n begun : ℕ) (S : Observed) : Prop where
  accounts : Accounts S
  counted : n ≤ count c S.pool.world
  progress : count c S.pool.world < 2 ^ 53 → Progress c n begun S.manager

theorem progress_update {begun : ℕ} (h : Progress c n begun M)
    (hn : n ≤ M.exported c + M.held c + (M.counters c).toNat) (hc : M.exported c + M.held c < 2 ^ 53)
    (hs : M.update w = some M') : Progress c n begun M' := by
  cases h with
  | before hupdates hawake =>
    rcases awake_update hawake hs with ⟨hu, hawake'⟩ | ⟨hu, hsleeps⟩
    · exact .before (hu ▸ hupdates) hawake'
    · refine .next (hu.trans hupdates) ?_
      rw [Caught, hsleeps]
      trivial
  | next hupdates hcaught =>
    rcases caught_update hcaught hn hc hs with ⟨hu, hcaught'⟩ | ⟨hu, hall⟩
    · exact .next (hu.trans hupdates) hcaught'
    · exact .after (by omega) hall
  | after hupdates hall =>
    obtain ⟨hu, hexported⟩ := update_mono (c := c) hc hs
    exact .after (hupdates.trans_le hu) (hall.trans hexported)

theorem follows_next {begun : ℕ} (h : Follows c n begun S) (hs : next cfg S a = some S') :
    Follows c n begun S' := by
  have hmono := count_mono (c := c) h.accounts.1 hs
  refine ⟨accounts_next h.accounts hs, h.counted.trans hmono, fun hc ↦ ?_⟩
  have hbelow := Nat.lt_of_le_of_lt hmono hc
  have hprogress := h.progress hbelow
  cases a with
  | broker l =>
    obtain ⟨pool, hpool, rfl⟩ := Option.map_eq_some_iff.mp hs
    -- an increment leaves the updater and what it has exported
    cases hcounted : counted S.pool l with
    | none => exact hprogress
    | some c' =>
      cases hprogress with
      | before hupdates hawake => exact .before hupdates hawake
      | next hupdates hcaught => exact .next hupdates hcaught
      | after hupdates hall => exact .after hupdates hall
  | updater =>
    obtain ⟨M, hM, rfl⟩ := Option.map_eq_some_iff.mp hs
    have hsum := h.accounts.2 c hbelow
    exact progress_update hprogress (hsum ▸ h.counted) (by omega) hM
  | stopUpdater =>
    obtain rfl := Option.some.inj hs
    cases hprogress with
    | before hupdates hawake => exact .before hupdates hawake
    | next hupdates hcaught => exact .next hupdates hcaught
    | after hupdates hall => exact .after hupdates hall

theorem progress_begun (M : MetricsManager) : Progress c n M.begun M := by
  by_cases hphase : M.phase = .sleeping
  · refine .next (by rw [MetricsManager.begun, if_pos hphase]) ?_
    rw [Caught, hphase]
    trivial
  · exact .before (by rw [MetricsManager.begun, if_neg hphase]) hphase

/-- In every state nothing is lost or exported twice: what is not yet exported is
still in the counter, or with the updater. And once an update has ended that had
not begun in an earlier state, all the increments up to that state are exported. -/
theorem reported_between (h : (observed cfg).Leads ok ⟨⟨initial (some {}), []⟩, {}⟩ S)
    (hc : count c S.pool.world < 2 ^ 53) :
    S.manager.exported c + S.manager.held c + (S.manager.counters c).toNat = count c S.pool.world ∧
    ∀ T, (observed cfg).Leads ok ⟨⟨initial (some {}), []⟩, {}⟩ T → (observed cfg).Leads ok T S →
      T.manager.begun < S.manager.updates → count c T.pool.world ≤ S.manager.exported c := by
  refine ⟨(accounts_of_leads h).2 c hc, fun T hT hTS hbegun ↦ ?_⟩
  have hfollows : Follows c (count c T.pool.world) T.manager.begun S := by
    refine hTS.invariant (P := Follows c (count c T.pool.world) T.manager.begun) ?_ fun _ ih _ hs ↦
      follows_next ih hs
    exact ⟨accounts_of_leads hT, Nat.le_refl _, fun _ ↦ progress_begun T.manager⟩
  cases hfollows.progress hc with
  | before hupdates _ => omega
  | next hupdates _ => omega
  | after _ hall => exact hall

/-- An update reports the receipt of bob's registration. -/
theorem reported_between_bob : ∃ T S : Observed, T.manager.begun < S.manager.updates ∧
    S.manager.exported .messagesReceived = 1 ∧
      count .messagesReceived T.pool.world ≤ S.manager.exported .messagesReceived ∧
      S.manager.exported .messagesReceived + S.manager.held .messagesReceived +
        (S.manager.counters .messagesReceived).toNat = count .messagesReceived S.pool.world := by
  have hrun : ((observed {}).runs
    (fun _ _ ↦ True) [.broker (.start (arrival { type := .register, sender := [98] })),
      .broker (.step 0 {})] ⟨⟨initial (some {}), []⟩, {}⟩).map (fun T ↦ decide (T.manager.begun = 0) &&
        decide (((observed {}).runs (fun _ _ ↦ True) (List.replicate 23 .updater) T).map
          (fun S ↦ (S.manager.updates, S.manager.exported .messagesReceived,
            count .messagesReceived S.pool.world)) = some (1, 1, 1))) = some true := by decide +kernel
  obtain ⟨T, hT, hv⟩ := System.exists_leads hrun
  simp only [Bool.and_eq_true, decide_eq_true_eq] at hv
  obtain ⟨hbegun, hv⟩ := hv
  obtain ⟨S, hTS, hv⟩ := System.exists_leads hv
  simp only [Prod.mk.injEq] at hv
  obtain ⟨hupdates, hexported, hcount⟩ := hv
  have hlt : T.manager.begun < S.manager.updates := by
    rw [hbegun, hupdates]
    exact Nat.one_pos
  obtain ⟨hsum, hall⟩ := reported_between (hT.trans hTS) (c := .messagesReceived) (by rw [hcount]; decide)
  exact ⟨T, S, hlt, hexported, hall T hT hTS hlt, hsum⟩

end MessageBroker.MetricsExport
