import MessageBroker.EventLoop

namespace MessageBroker.EventLoop

open ByteStrings ThreadPools BrokerState ServerJobs ServerOutlines RunInvariants HandOverOnce TransitionSystems
  ReceiveLoop

/-- Whether a handler may start one more job after the server has stopped. -/
def Handler.owes : Handler → Bool
  | .event .entered | .event .updated | .event .receiving | .event (.reading _) => true
  | .cleanup .entered | .ackTimeout .entered => true
  | _ => false

/-- Whether a handler arms its event again, having found the server running. -/
def Handler.arms : Handler → Bool
  | .event .arming | .cleanup .arming | .ackTimeout .arming => true
  | _ => false

/-- How far a handler is from its end when the server has stopped. What arms its
event leaves the event behind. -/
def Handler.rank : Handler → ℕ
  | .event .entered | .event .receiving => 6
  | .event .updated | .event (.reading _) => 5
  | .event (.sending _) | .event (.routing _) => 4
  | .event .looping => 3
  | .event .arming | .cleanup .arming | .ackTimeout .arming | .cleanup .entered | .ackTimeout .entered => 2
  | _ => 1

/-- The handlers of one source follow each other. -/
inductive Chain
  | event
  | cleanup
  | ackTimeout
  | send
deriving DecidableEq

def Handler.chain : Handler → Chain
  | .event _ => .event
  | .cleanup _ => .cleanup
  | .ackTimeout _ => .ackTimeout
  | .send _ => .send

def chainOf : Job → Chain
  | .receive _ _ | .processPendingSends => .event
  | .cleanupInactiveSessions => .cleanup
  | .checkExpiredAcks => .ackTimeout
  | .sendTask => .send

/-- Whether a handler is due to run when its event comes. -/
def armed (S : Server) : Chain → Bool
  | .event => S.eventArmed
  | .cleanup => S.cleanupTimer.isSome
  | .ackTimeout => S.ackTimeoutTimer.isSome
  | .send => false

def busy (S : Server) (c : Chain) : ℕ := S.workers.countP (·.any (·.chain = c))

def arming (S : Server) (c : Chain) : Bool := S.workers.any (·.any fun h ↦ h.arms && h.chain = c)

/-- The chains that go on as long as the server is running. -/
def lasting (cfg : Config) : Chain → Bool
  | .event | .cleanup => true
  | .ackTimeout => 0 < cfg.ackTimeout
  | .send => false

/-- The steps of the server itself, and not of what is around it. -/
def Action.own : Action → Bool
  | .dispatch _ _ | .work _ _ | .stop => true
  | .arrive _ | .tick _ => false

def Stage.left : Stage → ℕ
  | .up => 4
  | .stopping => 3
  | .drained => 2
  | .cancelled => 1
  | .stopped => 0

/-- What a server that has stopped still has to drop. -/
def spare (S : Server) : ℕ :=
  S.stage.left + (S.eventArmed.toNat + S.cleanupTimer.isSome.toNat + S.ackTimeoutTimer.isSome.toNat) +
    S.pool.world.postedTasks

variable {cfg : Config} {S S' : Server} {k i : ℕ} {h h' : Handler} {c : Chain} {j : Job} {ch : Choice}
  {a : Action} {admits : Choice → Prop} {pool pool' : State}

/-- The pool stays as it is, but for the gauge. -/
def Quiet (pool pool' : State) : Prop :=
  pool'.threads = pool.threads ∧ (pool'.world = pool.world ∨ ∃ n, pool'.world = setGauge n pool.world)

/-- How the world changes in a step that neither a thread nor a handler takes. -/
inductive Aside (w w' : World) : Prop
  | same (h : w' = w)
  | ticks (t : Tick) (h : w' = tick t w)
  | drops (n : ℕ) (h : w' = { w with postedTasks := n })
  | stops (h : w' = Shutdown.stop w)

/-- The thread that a handler now waits for, if any, has just started. -/
inductive Spawns (cfg : Config) (pool pool' : State) (c : Chain) : Option ℕ → Prop
  | none (h : Quiet pool pool') : Spawns cfg pool pool' c none
  | some (j : Job) (hj : chainOf j = c) (h : (broker cfg).next pool (.start j) = some pool') :
    Spawns cfg pool pool' c (some pool.threads.length)

/-- The thread that a handler has waited for has ended. -/
def Awaited (pool : State) (h : Handler) : Prop :=
  ∀ i, h.thread? = some i → ∀ t, pool.threads[i]? = some t → t.ended

/-- What one step can do to the workers and to what is armed. -/
inductive Shape (cfg : Config) (admits : Choice → Prop) (a : Action) (S S' : Server) : Prop
  | idle (workers : S'.workers = S.workers) (threads : S'.pool.threads = S.pool.threads)
      (armed : ∀ c, armed S' c = true → EventLoop.armed S c = true)
      (up : S'.running = true → S.running = true ∧ (∀ c, EventLoop.armed S' c = EventLoop.armed S c) ∧
        (S'.pool = S.pool ∨ ∃ t, (broker cfg).next S.pool (.tick t) = some S'.pool))
      (wanes : S.running = false → spare S' + a.own.toNat ≤ spare S) (world : Aside S.pool.world S'.pool.world)
  | begins (k : ℕ) (h : Handler) (worker : S.workers[k]? = some none)
      (workers : S'.workers = S.workers.set k (some h)) (running : S.running = true) (stage : S'.stage = S.stage)
      (spawns : Spawns cfg S.pool S'.pool h.chain h.thread?)
      (due : h.chain ≠ .send → EventLoop.armed S h.chain = true ∧ EventLoop.armed S' h.chain = false)
      (armed : ∀ c, c ≠ h.chain → EventLoop.armed S' c = EventLoop.armed S c)
  | goesOn (k : ℕ) (h h' : Handler) (worker : S.workers[k]? = some (some h)) (awaited : Awaited S.pool h)
      (workers : S'.workers = S.workers.set k (some h')) (stage : S'.stage = S.stage)
      (chain : h'.chain = h.chain)
      (spawns : Spawns cfg S.pool S'.pool h'.chain h'.thread?)
      (armed : ∀ c, EventLoop.armed S' c = EventLoop.armed S c)
      (winds : S.running = false →
        h'.rank < h.rank ∧ h'.owes.toNat + h'.thread?.isSome.toNat ≤ h.owes.toNat ∧ h'.arms = false)
  | leaves (k : ℕ) (h : Handler) (worker : S.workers[k]? = some (some h)) (awaited : Awaited S.pool h)
      (workers : S'.workers = S.workers.set k none) (stage : S'.stage = S.stage) (pool : S'.pool = S.pool)
      (again : EventLoop.armed S' h.chain = true → h.arms = true ∨ EventLoop.armed S h.chain = true)
      (lasts : S.running = true → lasting cfg h.chain = true → EventLoop.armed S' h.chain = true)
      (armed : ∀ c, c ≠ h.chain → EventLoop.armed S' c = EventLoop.armed S c)
  | steps (i : ℕ) (ch : Choice) (admitted : admits ch)
      (pool : (broker cfg).next S.pool (.step i ch) = some S'.pool)
      (workers : S'.workers = S.workers) (stage : S'.stage = S.stage)
      (armed : ∀ c, EventLoop.armed S' c = EventLoop.armed S c)

theorem quiet_refl : Quiet pool pool := ⟨rfl, .inl rfl⟩

theorem spawns_of_startJob {handler : ℕ → Handler} (hs : S.startJob cfg k j handler = some S')
    (ht : ∀ i, (handler i).thread? = some i) (hc : ∀ i, (handler i).chain = chainOf j) :
    ∃ h, S' = { S with pool := S'.pool }.setWorker k (some h) ∧
      Spawns cfg S.pool S'.pool h.chain h.thread? ∧ h = handler S.pool.threads.length := by
  obtain ⟨pool, hp, rfl⟩ := Option.map_eq_some_iff.mp hs
  refine ⟨handler S.pool.threads.length, rfl, ?_, rfl⟩
  rw [ht, hc]
  exact .some j rfl hp

theorem armed_setWorker (S : Server) (k : ℕ) (x : Option Handler) (c : Chain) :
    armed (S.setWorker k x) c = armed S c := by
  cases c <;> rfl

theorem armed_eventArmed {b : Bool} (hc : c ≠ .event) : armed { S with eventArmed := b } c = armed S c := by
  cases c with
  | event => exact absurd rfl hc
  | _ => rfl

theorem armed_cleanupTimer {timer : Option ℕ} (hc : c ≠ .cleanup) :
    armed { S with cleanupTimer := timer } c = armed S c := by
  cases c with
  | cleanup => exact absurd rfl hc
  | _ => rfl

theorem armed_ackTimeoutTimer {timer : Option ℕ} (hc : c ≠ .ackTimeout) :
    armed { S with ackTimeoutTimer := timer } c = armed S c := by
  cases c with
  | ackTimeout => exact absurd rfl hc
  | _ => rfl

theorem set_none (hk : S.workers[k]? = some none) : S.workers.set k none = S.workers := by
  obtain ⟨hlt, hget⟩ := List.getElem?_eq_some_iff.mp hk
  rw [← hget]
  exact List.set_getElem_self hlt

theorem running_of_stage (h : S'.stage = S.stage) : S'.running = S.running := by
  rw [Server.running, Server.running, h]

theorem shape_sendTask (hk : S.workers[k]? = some none) (hr : S.running = true)
    (hs : S.startJob cfg k .sendTask .send = some S') : Shape cfg admits a S S' := by
  obtain ⟨h, hS, hspawn, rfl⟩ := spawns_of_startJob hs (fun _ ↦ rfl) (fun _ ↦ rfl)
  refine .begins k (.send S.pool.threads.length) hk ?_ hr ?_ hspawn (fun hne ↦ absurd rfl hne) fun c _ ↦ ?_
  · rw [hS]
    rfl
  · rw [hS]
    rfl
  · rw [hS, armed_setWorker]
    cases c <;> rfl

theorem shape_dropped {T : Server} (hr : S.running = false) (hT : T.pool.threads = S.pool.threads)
    (hw : T.workers = S.workers) (hstage : T.stage = S.stage)
    (harmed : ∀ c, armed T c = true → armed S c = true) (hspare : spare T < spare S)
    (hworld : Aside S.pool.world T.pool.world) : Shape cfg admits a S T := by
  refine .idle hw hT harmed (fun h ↦ ?_) (fun _ ↦ ?_) hworld
  · rw [running_of_stage hstage, hr] at h
    cases h
  · have hle := Bool.toNat_le a.own
    omega

theorem isSome_of_due {timer : Option ℕ} {n : ℕ} (h : timer.any (· ≤ n) = true) : timer.isSome = true := by
  cases timer with
  | none => cases h
  | some t => rfl

theorem spare_lt {T : Server} (hT : T.pool = S.pool ∧ T.workers = S.workers ∧ T.stage = S.stage)
    (hdue : armed S c = true ∧ armed T c = false) (harmed : ∀ c', c' ≠ c → armed T c' = armed S c') :
    spare T < spare S := by
  have hle (c' : Chain) : (armed T c').toNat + (decide (c' = c)).toNat = (armed S c').toNat := by
    by_cases hc : c' = c
    · rw [hc, hdue.1, hdue.2, decide_eq_true rfl, Bool.toNat_false, Bool.toNat_true]
    · rw [harmed c' hc, decide_eq_false hc, Bool.toNat_false, Nat.add_zero]
  have hevent := hle .event
  have hcleanup := hle .cleanup
  have hack := hle .ackTimeout
  simp only [armed] at hevent hcleanup hack
  rw [spare, spare, hT.1, hT.2.2]
  cases c with
  | send => cases hdue.1
  | _ =>
    simp only [reduceCtorEq, decide_false, decide_true, Bool.toNat_false,
      Bool.toNat_true] at hevent hcleanup hack
    omega

theorem shape_due {T : Server} (hk : S.workers[k]? = some none) (hthread : h.thread? = none)
    (hT : T.pool = S.pool ∧ T.workers = S.workers ∧ T.stage = S.stage)
    (hdue : armed S h.chain = true ∧ armed T h.chain = false)
    (harmed : ∀ c, c ≠ h.chain → armed T c = armed S c) :
    Shape cfg admits a S (T.setWorker k (if S.running then some h else none)) := by
  have hspare := spare_lt hT hdue harmed
  obtain ⟨hp, hw, hstage⟩ := hT
  cases hr : S.running with
  | true =>
    refine .begins k h hk (congrArg (·.set k (some h)) hw) hr hstage ?_ (fun _ ↦ ?_) fun c hc ↦ ?_
    · rw [hthread]
      exact .none ⟨congrArg Pool.threads hp, .inl (congrArg Pool.world hp)⟩
    · exact ⟨hdue.1, (armed_setWorker T k _ _).trans hdue.2⟩
    · exact (armed_setWorker T k _ c).trans (harmed c hc)
  | false =>
    refine shape_dropped hr (congrArg Pool.threads hp) ?_ hstage (fun c hc ↦ ?_) hspare
      (.same (congrArg Pool.world hp))
    · rw [← set_none hk, ← hw]
      rfl
    · have harm := (armed_setWorker T k _ c).symm.trans hc
      by_cases hch : c = h.chain
      · subst hch
        cases hdue.2.symm.trans harm
      · exact harmed c hch ▸ harm

theorem shape_dispatch {x : Completion} (hk : S.workers[k]? = some none) (hs : dispatch cfg k S x = some S')
    (hx : x = .eventError true → S.running = false) : Shape cfg admits a S S' := by
  cases x with
  | event =>
    simp only [dispatch] at hs
    split at hs
    · next harm =>
      obtain rfl := Option.some.inj hs
      exact shape_due hk rfl ⟨rfl, rfl, rfl⟩ ⟨harm, rfl⟩ fun _ ↦ armed_eventArmed
    · cases hs
  | eventError aborted =>
    have htest : (S.running && !aborted) = S.running := by
      cases aborted with
      | true => rw [hx rfl, Bool.false_and]
      | false => rw [Bool.not_false, Bool.and_true]
    simp only [dispatch, htest] at hs
    split at hs
    · next harm =>
      obtain rfl := Option.some.inj hs
      exact shape_due hk rfl ⟨rfl, rfl, rfl⟩ ⟨harm, rfl⟩ fun _ ↦ armed_eventArmed
    · cases hs
  | cleanup =>
    simp only [dispatch] at hs
    split at hs
    · next hdue =>
      obtain rfl := Option.some.inj hs
      exact shape_due hk rfl ⟨rfl, rfl, rfl⟩ ⟨isSome_of_due hdue, rfl⟩ fun _ ↦ armed_cleanupTimer
    · cases hs
  | ackTimeout =>
    simp only [dispatch] at hs
    split at hs
    · next hdue =>
      obtain rfl := Option.some.inj hs
      exact shape_due hk rfl ⟨rfl, rfl, rfl⟩ ⟨isSome_of_due hdue, rfl⟩ fun _ ↦ armed_ackTimeoutTimer
    · cases hs
  | sendTask =>
    simp only [dispatch] at hs
    split at hs
    · next hr => exact shape_sendTask hk hr hs
    · next hr =>
      obtain ⟨w, hw, rfl⟩ := Option.map_eq_some_iff.mp hs
      simp only [ServerJobs.start] at hw
      split at hw
      · cases hw
      · next hne =>
        obtain rfl := Option.some.inj hw
        exact shape_dropped (Bool.eq_false_iff.mpr hr) rfl rfl rfl (fun c hc ↦ by cases c <;> exact hc)
          (Nat.add_lt_add_left (Nat.sub_one_lt hne) _) (.drops _ rfl)

theorem awaited_of_all (h : h'.thread?.all (fun i ↦ (pool.threads[i]?).any hasEnded) = true) :
    Awaited pool h' := by
  intro i hi t ht
  rw [hi, Option.all_some, ht, Option.any_some] at h
  exact ended_of_hasEnded h

theorem shape_nextJob {T : Server} {handler : ℕ → Handler} (hs : T.startJob cfg k j handler = some S')
    (hk : S.workers[k]? = some (some h)) (ha : Awaited S.pool h)
    (hT : T.pool = S.pool ∧ T.workers = S.workers ∧ T.stage = S.stage)
    (ht : ∀ i, (handler i).thread? = some i) (hc : ∀ i, (handler i).chain = chainOf j)
    (hchain : ∀ i, (handler i).chain = h.chain) (harmed : ∀ c, armed T c = armed S c)
    (howes : h.owes = true ∧ ∀ i, (handler i).owes = false ∧ (handler i).arms = false ∧
      (handler i).rank < h.rank) :
    Shape cfg admits a S S' := by
  obtain ⟨hp, hw, hstage⟩ := hT
  obtain ⟨h', hS, hspawn, rfl⟩ := spawns_of_startJob hs ht hc
  rw [hp] at hspawn
  refine .goesOn k h (handler T.pool.threads.length) hk ha ?_ ?_ (hchain _) (hp ▸ hspawn) (fun c ↦ ?_)
    fun _ ↦ ⟨(howes.2 _).2.2, ?_, (howes.2 _).2.1⟩
  · rw [hS, ← hw]
    rfl
  · rw [hS]
    exact hstage
  · rw [hS, armed_setWorker, ← harmed]
    cases c <;> rfl
  · rw [howes.1, (howes.2 _).1, ht]
    rfl

theorem shape_onward (hk : S.workers[k]? = some (some h)) (ha : Awaited S.pool h) (hchain : h'.chain = h.chain)
    (hthread : h'.thread? = none)
    (hwinds : S.running = false → h'.rank < h.rank ∧ h'.owes.toNat ≤ h.owes.toNat ∧ h'.arms = false) :
    Shape cfg admits a S (S.setWorker k (some h')) := by
  refine .goesOn k h h' hk ha rfl rfl hchain ?_ (armed_setWorker S k _) fun hr ↦ ?_
  · rw [hthread]
    exact .none quiet_refl
  · obtain ⟨hrank, howes, harms⟩ := hwinds hr
    rw [hthread, Option.isSome_none, Bool.toNat_false, Nat.add_zero]
    exact ⟨hrank, howes, harms⟩

theorem shape_ends (hk : S.workers[k]? = some (some h)) (ha : Awaited S.pool h)
    (hlasts : ¬ (S.running = true ∧ lasting cfg h.chain = true)) : Shape cfg admits a S (S.setWorker k none) :=
  .leaves k h hk ha rfl rfl rfl (fun harm ↦ .inr (armed_setWorker S k none _ ▸ harm))
    (fun hr hl ↦ absurd ⟨hr, hl⟩ hlasts) fun c _ ↦ armed_setWorker S k none c

/-- The handler tests `running_`, and arms its event or timer again only after that. -/
theorem shape_tests {p : Prop} [Decidable p] (hk : S.workers[k]? = some (some h)) (ha : Awaited S.pool h)
    (hchain : h'.chain = h.chain) (hthread : h'.thread? = none) (hp : p → S.running = true)
    (hlasts : S.running = true → lasting cfg h.chain = true → p) :
    Shape cfg admits a S (S.setWorker k (if p then some h' else none)) := by
  by_cases htest : p
  · rw [if_pos htest]
    exact shape_onward hk ha hchain hthread fun hr ↦ nomatch (hp htest).symm.trans hr
  · rw [if_neg htest]
    exact shape_ends hk ha fun h ↦ htest (hlasts h.1 h.2)

theorem shape_arms {T : Server} (hk : S.workers[k]? = some (some h)) (ha : Awaited S.pool h)
    (harms : h.arms = true) (hT : T.pool = S.pool ∧ T.workers = S.workers ∧ T.stage = S.stage)
    (harmed : armed T h.chain = true) (hothers : ∀ c, c ≠ h.chain → armed T c = armed S c) :
    Shape cfg admits a S (T.setWorker k none) := by
  obtain ⟨hp, hw, hstage⟩ := hT
  exact .leaves k h hk ha (congrArg (·.set k none) hw) hstage hp (fun _ ↦ .inl harms)
    (fun _ _ ↦ (armed_setWorker T k none _).trans harmed)
    fun c hc ↦ (armed_setWorker T k none c).trans (hothers c hc)

theorem shape_advance (hk : S.workers[k]? = some (some h)) (ha : Awaited S.pool h)
    (hs : advance cfg k S h = some S') : Shape cfg admits a S S' := by
  cases h with
  | event phase =>
    cases phase with
    | entered =>
      obtain rfl := Option.some.inj hs
      exact .goesOn k _ (.event .updated) hk ha rfl rfl rfl (.none ⟨rfl, .inr ⟨_, rfl⟩⟩)
        (fun c ↦ by cases c <;> rfl) fun _ ↦ ⟨by decide, by decide, rfl⟩
    | updated =>
      have hjob : S.startJob cfg k .processPendingSends (fun i ↦ .event (.sending i)) = some S' := hs
      exact shape_nextJob hjob hk ha ⟨rfl, rfl, rfl⟩ (fun _ ↦ rfl) (fun _ ↦ rfl) (fun _ ↦ rfl) (fun _ ↦ rfl)
        ⟨rfl, fun _ ↦ ⟨rfl, rfl, Nat.lt_succ_self 4⟩⟩
    | sending i =>
      obtain rfl := Option.some.inj hs
      by_cases hinbox : S.inbox = []
      · rw [if_pos hinbox]
        exact shape_onward hk ha rfl rfl fun _ ↦ ⟨(by decide : 1 < 4), Nat.le_refl 0, rfl⟩
      · rw [if_neg hinbox]
        exact shape_onward hk ha rfl rfl fun _ ↦ ⟨Nat.lt_succ_self 3, Nat.le_refl 0, rfl⟩
    | looping =>
      obtain rfl := Option.some.inj hs
      cases hr : S.running with
      | true => exact shape_onward hk ha rfl rfl fun h ↦ nomatch hr.symm.trans h
      | false => exact shape_onward hk ha rfl rfl fun _ ↦ ⟨by decide, Nat.le_refl 0, rfl⟩
    | receiving =>
      simp only [advance] at hs
      split at hs
      · obtain rfl := Option.some.inj hs
        exact shape_onward hk ha rfl rfl fun _ ↦ ⟨by decide, Nat.zero_le 1, rfl⟩
      · next identity rest hinbox =>
        obtain rfl := Option.some.inj hs
        exact .goesOn k _ (.event (.reading identity)) hk ha rfl rfl rfl (.none quiet_refl)
          (fun c ↦ by cases c <;> rfl) fun _ ↦ ⟨Nat.lt_succ_self 5, Nat.le_refl 1, rfl⟩
    | reading identity =>
      simp only [advance] at hs
      split at hs
      · obtain rfl := Option.some.inj hs
        exact shape_onward hk ha rfl rfl fun _ ↦ ⟨(by decide : 1 < 5), Nat.zero_le 1, rfl⟩
      · next data rest hinbox =>
        exact shape_nextJob hs hk ha ⟨rfl, rfl, rfl⟩ (fun _ ↦ rfl) (fun _ ↦ rfl) (fun _ ↦ rfl)
          (fun c ↦ by cases c <;> rfl) ⟨rfl, fun _ ↦ ⟨rfl, rfl, Nat.lt_succ_self 4⟩⟩
    | routing i =>
      obtain rfl := Option.some.inj hs
      exact shape_onward hk ha rfl rfl fun _ ↦ ⟨Nat.lt_succ_self 3, Nat.le_refl 0, rfl⟩
    | leaving =>
      obtain rfl := Option.some.inj hs
      exact shape_tests hk ha rfl rfl id fun hr _ ↦ hr
    | arming =>
      obtain rfl := Option.some.inj hs
      exact shape_arms hk ha rfl ⟨rfl, rfl, rfl⟩ rfl fun _ ↦ armed_eventArmed
  | cleanup phase =>
    cases phase with
    | entered =>
      have hjob : S.startJob cfg k .cleanupInactiveSessions (fun i ↦ .cleanup (.passing i)) = some S' := hs
      exact shape_nextJob hjob hk ha ⟨rfl, rfl, rfl⟩ (fun _ ↦ rfl) (fun _ ↦ rfl) (fun _ ↦ rfl) (fun _ ↦ rfl)
        ⟨rfl, fun _ ↦ ⟨rfl, rfl, Nat.lt_succ_self 1⟩⟩
    | passing i =>
      obtain rfl := Option.some.inj hs
      exact shape_tests hk ha rfl rfl id fun hr _ ↦ hr
    | arming =>
      obtain rfl := Option.some.inj hs
      exact shape_arms hk ha rfl ⟨rfl, rfl, rfl⟩ rfl fun _ ↦ armed_cleanupTimer
  | ackTimeout phase =>
    cases phase with
    | entered =>
      have hjob : S.startJob cfg k .checkExpiredAcks (fun i ↦ .ackTimeout (.passing i)) = some S' := hs
      exact shape_nextJob hjob hk ha ⟨rfl, rfl, rfl⟩ (fun _ ↦ rfl) (fun _ ↦ rfl) (fun _ ↦ rfl) (fun _ ↦ rfl)
        ⟨rfl, fun _ ↦ ⟨rfl, rfl, Nat.lt_succ_self 1⟩⟩
    | passing i =>
      obtain rfl := Option.some.inj hs
      exact shape_tests hk ha rfl rfl And.left fun hr hlasting ↦ ⟨hr, of_decide_eq_true hlasting⟩
    | arming =>
      obtain rfl := Option.some.inj hs
      exact shape_arms hk ha rfl ⟨rfl, rfl, rfl⟩ rfl fun _ ↦ armed_ackTimeoutTimer
  | send i =>
    obtain rfl := Option.some.inj hs
    exact shape_ends hk ha fun h ↦ nomatch h.2

theorem kept_by_stop {α : Type} {f : World → α} (hf : ∀ w s g, f (w.setSession s g) = f w)
    (sends : List PendingSend) (w : World) :
    f (sends.foldl (fun w send ↦ w.setSession send.session fun x ↦ { x with isOnline := false }) w) =
      f w := by
  induction sends generalizing w with
  | nil => rfl
  | cons send sends ih => exact (ih _).trans (hf w _ _)

theorem postedTasks_stop (w : World) : (Shutdown.stop w).postedTasks = w.postedTasks :=
  kept_by_stop (f := fun w ↦ w.postedTasks) (fun _ _ _ ↦ rfl) w.pendingSends w

theorem shape_of_next (hs : next cfg S a = some S') (ha : Admitted admits S a) : Shape cfg admits a S S' := by
  cases a with
  | arrive m =>
    obtain rfl := Option.some.inj hs
    exact .idle rfl rfl (fun c hc ↦ by cases c <;> exact hc)
      (fun hr ↦ ⟨hr, fun c ↦ by cases c <;> rfl, .inl rfl⟩) (fun _ ↦ Nat.le_refl _) (.same rfl)
  | dispatch k x =>
    simp only [next] at hs
    split at hs
    · next hk => exact shape_dispatch hk.2 hs fun hx ↦ by subst hx; exact ha
    · cases hs
  | work k ch =>
    simp only [next, work] at hs
    split at hs
    · next h hk =>
      split at hs
      · next hall => exact shape_advance hk (awaited_of_all hall) hs
      · obtain ⟨i, -, hstep⟩ := Option.bind_eq_some_iff.mp hs
        obtain ⟨pool, hpool, rfl⟩ := Option.map_eq_some_iff.mp hstep
        exact .steps i ch ha hpool rfl rfl fun c ↦ by cases c <;> rfl
    · cases hs
  | stop =>
    have hdown {T : Server} (hstage : T.stage ≠ .up) : T.running ≠ true := fun hr ↦ hstage (of_decide_eq_true hr)
    simp only [next, stop] at hs
    split at hs
    · next hup =>
      obtain rfl := Option.some.inj hs
      refine .idle rfl rfl (fun c hc ↦ by cases c <;> exact hc) (fun hr ↦ absurd hr (hdown (by simp)))
        (fun hr ↦ ?_) (.same rfl)
      exact absurd hup (of_decide_eq_false hr)
    · next hstage =>
      obtain rfl := Option.some.inj hs
      refine .idle rfl rfl (fun c hc ↦ by cases c <;> exact hc) (fun hr ↦ absurd hr (hdown (by simp)))
        (fun _ ↦ ?_) (.stops rfl)
      rw [spare, spare, hstage]
      change 2 + _ + (Shutdown.stop S.pool.world).postedTasks + 1 ≤ 3 + _ + _
      rw [postedTasks_stop]
      simp only [Server.setWorld]
      omega
    · next hstage =>
      obtain rfl := Option.some.inj hs
      refine .idle rfl rfl (fun c hc ↦ ?_) (fun hr ↦ absurd hr (hdown (by simp))) (fun _ ↦ ?_) (.same rfl)
      · cases c with
        | event | send => exact hc
        | cleanup | ackTimeout => cases hc
      · rw [spare, spare, hstage]
        change 1 + (S.eventArmed.toNat + 0 + 0) + S.pool.world.postedTasks + 1 ≤ 2 + _ + _
        omega
    · next hstage =>
      obtain rfl := Option.some.inj hs
      refine .idle rfl rfl (fun c hc ↦ by cases c <;> exact hc) (fun hr ↦ absurd hr (hdown (by simp)))
        (fun _ ↦ ?_) (.same rfl)
      rw [spare, spare, hstage]
      simp only [Stage.left, Action.own, Bool.toNat_true]
      omega
    · cases hs
  | tick t =>
    obtain rfl := Option.some.inj hs
    exact .idle rfl rfl (fun c hc ↦ by cases c <;> exact hc)
      (fun hr ↦ ⟨hr, fun c ↦ by cases c <;> rfl, .inr ⟨t, rfl⟩⟩) (fun _ ↦ Nat.le_refl _) (.ticks t rfl)

theorem countP_set_add {α : Type} {p : α → Bool} {l : List α} {x y : α} (hk : l[k]? = some x) :
    (l.set k y).countP p + (p x).toNat = l.countP p + (p y).toNat := by
  obtain ⟨hlt, hget⟩ := List.getElem?_eq_some_iff.mp hk
  have hx : p x = true → 0 < l.countP p := fun hp ↦ List.countP_pos_iff.mpr ⟨x, List.mem_of_getElem? hk, hp⟩
  rw [List.countP_set hlt, hget]
  cases hpx : p x <;> cases p y <;> simp_all

/-- How often a chain is there: a handler that is due, and those that run. -/
def total (S : Server) (c : Chain) : ℕ := (armed S c).toNat + busy S c

theorem busy_set {x y : Option Handler} (hk : S.workers[k]? = some x) (hw : S'.workers = S.workers.set k y)
    (c : Chain) :
    busy S' c + (x.any (·.chain = c)).toNat = busy S c + (y.any (·.chain = c)).toNat := by
  rw [busy, hw]
  exact countP_set_add hk

theorem busy_pos (hk : S.workers[k]? = some (some h)) : 0 < busy S h.chain :=
  List.countP_pos_iff.mpr ⟨some h, List.mem_of_getElem? hk, decide_eq_true rfl⟩

theorem worker_unique {k' : ℕ} (hc : busy S h.chain ≤ 1) (hk : S.workers[k]? = some (some h))
    (hk' : S.workers[k']? = some (some h')) (hchain : h'.chain = h.chain) : k' = k := by
  by_contra hne
  have hset : (S.setWorker k none).workers = S.workers.set k none := rfl
  have hb := busy_set hk hset h.chain
  have hk'' : (S.setWorker k none).workers[k']? = some (some h') := by
    rw [← hk']
    exact List.getElem?_set_ne (Ne.symm hne)
  have hpos := busy_pos hk''
  rw [hchain] at hpos
  simp only [Option.any_none, Option.any_some, decide_true, Bool.toNat_true, Bool.toNat_false] at hb
  omega

theorem total_congr (hw : S'.workers = S.workers) (ha : armed S' c = armed S c) : total S' c = total S c := by
  rw [total, total, busy, busy, hw, ha]

/-- What a step does to a chain: nothing, unless its handler ends. -/
theorem total_next (hs : Shape cfg admits a S S') (hc : c ≠ .send) (hsingle : total S c ≤ 1) :
    total S' c ≤ total S c ∧ (S'.running = true → total S' c = total S c ∨ lasting cfg c = false) := by
  cases hs with
  | idle hw ht ha hup =>
    refine ⟨?_, fun hr ↦ .inl (total_congr hw ((hup hr).2.1 c))⟩
    have hle : (armed S' c).toNat ≤ (armed S c).toNat := Bool.toNat_le_toNat (ha c)
    rw [total, total, busy, busy, hw]
    omega
  | begins k h hk hw hr hst hspawn hdue ha =>
    have hb := busy_set hk hw c
    by_cases hch : c = h.chain
    · subst hch
      obtain ⟨h₁, h₂⟩ := hdue hc
      have heq : total S' h.chain = total S h.chain := by
        simp only [total, h₁, h₂, Option.any_none, Option.any_some, decide_true, Bool.toNat_true,
          Bool.toNat_false] at hb ⊢
        omega
      exact ⟨heq.le, fun _ ↦ .inl heq⟩
    · have heq : total S' c = total S c := by
        simp only [total, ha c hch, Option.any_none, Option.any_some, decide_eq_false (Ne.symm hch),
          Bool.toNat_false] at hb ⊢
        omega
      exact ⟨heq.le, fun _ ↦ .inl heq⟩
  | goesOn k h h' hk hend hw hst hch hspawn ha hwinds =>
    have hb := busy_set hk hw c
    have heq : total S' c = total S c := by
      simp only [total, ha c, Option.any_some, hch] at hb ⊢
      omega
    exact ⟨heq.le, fun _ ↦ .inl heq⟩
  | leaves k h hk hend hw hst hp hagain hlasts ha =>
    have hb := busy_set hk hw c
    have hpos := busy_pos hk
    by_cases hch : c = h.chain
    · subst hch
      simp only [Option.any_none, Option.any_some, decide_true, Bool.toNat_true, Bool.toNat_false] at hb
      have hle := Bool.toNat_le (armed S' h.chain)
      rw [total] at hsingle
      refine ⟨by rw [total, total]; omega, fun hr ↦ ?_⟩
      cases hl : lasting cfg h.chain with
      | false => exact .inr rfl
      | true =>
        have harm := hlasts (running_of_stage hst ▸ hr) hl
        left
        rw [total, total, harm, Bool.toNat_true]
        omega
    · have heq : total S' c = total S c := by
        simp only [total, ha c hch, Option.any_none, Option.any_some, decide_eq_false (Ne.symm hch),
          Bool.toNat_false] at hb ⊢
        omega
      exact ⟨heq.le, fun _ ↦ .inl heq⟩
  | steps i ch _ hp hw hst ha =>
    have heq := total_congr hw (ha c)
    exact ⟨heq.le, fun _ ↦ .inl heq⟩

/-- What holds of the workers, of what is armed, and of the threads of the pool. -/
structure Wired (cfg : Config) (S : Server) : Prop where
  single : ∀ c, c ≠ .send → total S c ≤ 1
  unused : ∀ c, c ≠ .send → lasting cfg c = false → total S c = 0
  lasts : S.running = true → ∀ c, lasting cfg c = true → total S c = 1
  jobs : ∀ (k : ℕ) (h : Handler) (i : ℕ), S.workers[k]? = some (some h) → h.thread? = some i →
    ∃ t, S.pool.threads[i]? = some t ∧ chainOf t.job = h.chain
  held : ∀ (i : ℕ) (t : Thread Op Op.Res Job), S.pool.threads[i]? = some t → ¬ t.ended →
    ∃ (k : ℕ) (h : Handler), S.workers[k]? = some (some h) ∧ h.thread? = some i

theorem ne_send_of_lasting (h : lasting cfg c = true) : c ≠ .send := by
  rintro rfl
  cases h

theorem worker_cases {x y : Option Handler} {k' : ℕ} (hw : S'.workers = S.workers.set k x)
    (hk : S'.workers[k']? = some y) :
    k' = k ∧ y = x ∨ k' ≠ k ∧ S.workers[k']? = some y := by
  rw [hw] at hk
  by_cases hkk : k' = k
  · subst hkk
    have hlt := (List.getElem?_eq_some_iff.mp hk).1
    rw [List.length_set] at hlt
    rw [List.getElem?_set_self hlt] at hk
    exact .inl ⟨rfl, (Option.some.inj hk).symm⟩
  · rw [List.getElem?_set_ne (Ne.symm hkk)] at hk
    exact .inr ⟨hkk, hk⟩

theorem worker_set {x y : Option Handler} (hw : S'.workers = S.workers.set k x) (hk : S.workers[k]? = some y) :
    S'.workers[k]? = some x := by
  rw [hw, List.getElem?_set_self (List.getElem?_eq_some_iff.mp hk).1]

theorem worker_set_ne {x y : Option Handler} {k' : ℕ} (hw : S'.workers = S.workers.set k x) (hne : k' ≠ k)
    (hk : S.workers[k']? = some y) : S'.workers[k']? = some y := by
  rw [hw, List.getElem?_set_ne (Ne.symm hne), hk]

theorem threads_of_spawns {x : Option ℕ} (h : Spawns cfg pool pool' c x) (i : ℕ) (t : Thread Op Op.Res Job)
    (ht : pool'.threads[i]? = some t) :
    pool.threads[i]? = some t ∨ x = some i ∧ chainOf t.job = c := by
  cases h with
  | none h =>
    rw [h.1] at ht
    exact .inl ht
  | some j hj h =>
    obtain ⟨w', -, rfl⟩ := Machine.start_cases h
    rcases getElem?_concat_cases ht with ht | ⟨rfl, rfl⟩
    · exact .inl ht
    · exact .inr ⟨rfl, hj⟩

theorem thread_of_spawns (h : Spawns cfg pool pool' c (some i)) :
    ∃ t, pool'.threads[i]? = some t ∧ chainOf t.job = c := by
  cases h with
  | some j hj h =>
    obtain ⟨w', -, rfl⟩ := Machine.start_cases h
    exact ⟨_, List.getElem?_concat_length, hj⟩

theorem kept_of_spawns {x : Option ℕ} {t : Thread Op Op.Res Job} (h : Spawns cfg pool pool' c x)
    (ht : pool.threads[i]? = some t) : pool'.threads[i]? = some t := by
  cases h with
  | none h => rw [h.1, ht]
  | some j hj h =>
    obtain ⟨w', -, rfl⟩ := Machine.start_cases h
    rw [List.getElem?_append_left (List.getElem?_eq_some_iff.mp ht).1, ht]

theorem jobs_of_spawns {g : Handler} (h : Wired cfg S) (hw : S'.workers = S.workers.set k (some g))
    (hspawn : Spawns cfg S.pool S'.pool g.chain g.thread?) {k' : ℕ} (hk' : S'.workers[k']? = some (some h'))
    (hi : h'.thread? = some i) : ∃ t, S'.pool.threads[i]? = some t ∧ chainOf t.job = h'.chain := by
  rcases worker_cases hw hk' with ⟨rfl, hg⟩ | ⟨-, hk'⟩
  · obtain rfl := Option.some.inj hg
    rw [hi] at hspawn
    exact thread_of_spawns hspawn
  · obtain ⟨t, ht, hj⟩ := h.jobs k' h' i hk' hi
    exact ⟨t, kept_of_spawns hspawn ht, hj⟩

/-- Worker `k` has not waited for thread `i`, so another one does, and still does. -/
theorem held_elsewhere {x y : Option Handler} {t : Thread Op Op.Res Job} (h : Wired cfg S)
    (hw : S'.workers = S.workers.set k x) (hk : S.workers[k]? = some y) (hy : y.bind Handler.thread? ≠ some i)
    (ht : S.pool.threads[i]? = some t) (hend : ¬ t.ended) :
    ∃ (k : ℕ) (h : Handler), S'.workers[k]? = some (some h) ∧ h.thread? = some i := by
  obtain ⟨k', g, hk', hi⟩ := h.held i t ht hend
  refine ⟨k', g, worker_set_ne hw ?_ hk', hi⟩
  rintro rfl
  cases hk.symm.trans hk'
  exact hy hi

theorem running_of_next (hs : Shape cfg admits a S S') (hrun : S'.running = true) : S.running = true := by
  cases hs with
  | idle _ _ _ hup => exact (hup hrun).1
  | begins _ _ _ _ hr => exact hr
  | goesOn _ _ _ _ _ _ hst | leaves _ _ _ _ _ hst | steps _ _ _ _ _ hst => exact running_of_stage hst ▸ hrun

theorem wired_next (h : Wired cfg S) (hs : Shape cfg admits a S S') : Wired cfg S' := by
  refine ⟨fun c hc ↦ ?_, fun c hc hl ↦ ?_, fun hr c hl ↦ ?_, ?_, ?_⟩
  · exact (total_next hs hc (h.single c hc)).1.trans (h.single c hc)
  · exact Nat.le_zero.mp ((total_next hs hc (h.single c hc)).1.trans (h.unused c hc hl).le)
  · have hc := ne_send_of_lasting hl
    have hrun := running_of_next hs hr
    obtain heq | hn := (total_next hs hc (h.single c hc)).2 hr
    · exact heq.trans (h.lasts hrun c hl)
    · cases hl.symm.trans hn
  · intro k' h' i hk' hi
    cases hs with
    | idle hw ht =>
      rw [hw] at hk'
      rw [ht]
      exact h.jobs k' h' i hk' hi
    | begins k g hk hw hr hst hspawn => exact jobs_of_spawns h hw hspawn hk' hi
    | goesOn k g g' hk hend hw hst hch hspawn => exact jobs_of_spawns h hw hspawn hk' hi
    | leaves k g hk hend hw hst hp =>
      rw [hp]
      rcases worker_cases hw hk' with ⟨rfl, hg⟩ | ⟨-, hk'⟩
      · cases hg
      · exact h.jobs k' h' i hk' hi
    | steps i' ch _ hp hw =>
      rw [hw] at hk'
      obtain ⟨t, ht, hj⟩ := h.jobs k' h' i hk' hi
      obtain ⟨t', ht', hj'⟩ := Machine.job_next hp ht
      exact ⟨t', ht', hj' ▸ hj⟩
  · intro i t ht hend
    cases hs with
    | idle hw hth =>
      rw [hth] at ht
      rw [hw]
      exact h.held i t ht hend
    | begins k g hk hw hr hst hspawn =>
      rcases threads_of_spawns hspawn i t ht with ht | ⟨hi, -⟩
      · exact held_elsewhere h hw hk (Option.some_ne_none i).symm ht hend
      · exact ⟨k, g, worker_set hw hk, hi⟩
    | goesOn k g g' hk hawait hw hst hch hspawn =>
      rcases threads_of_spawns hspawn i t ht with ht | ⟨hi, -⟩
      · exact held_elsewhere h hw hk (fun hi ↦ hend (hawait i hi t ht)) ht hend
      · exact ⟨k, g', worker_set hw hk, hi⟩
    | leaves k g hk hawait hw hst hp =>
      rw [hp] at ht
      exact held_elsewhere h hw hk (fun hi ↦ hend (hawait i hi t ht)) ht hend
    | steps i' ch _ hp hw =>
      rw [hw]
      obtain ⟨j, o, code, r, w', hth, -, hpool⟩ := Machine.step_cases hp
      rw [hpool] at ht
      by_cases hii : i = i'
      · subst hii
        exact h.held i _ hth fun hended ↦ by
          obtain ⟨u, hu⟩ := hended
          cases hu
      · rw [List.getElem?_set_ne (Ne.symm hii)] at ht
        exact h.held i t ht hend

theorem hasEnded_of_ended {t : Thread Op Op.Res Job} (h : t.ended) : hasEnded t = true := by
  obtain ⟨u, hu⟩ := h
  rw [hasEnded, hu]

theorem busy_of_running (h : Wired cfg S) {t : Thread Op Op.Res Job} (ht : t ∈ S.pool.threads)
    (hend : ¬ t.ended) :
    ∃ (k : ℕ) (g : Handler) (i : ℕ), S.workers[k]? = some (some g) ∧ g.thread? = some i ∧
      S.pool.threads[i]? = some t ∧ g.chain = chainOf t.job := by
  obtain ⟨i, hi⟩ := List.getElem?_of_mem ht
  obtain ⟨k, g, hk, hg⟩ := h.held i t hi hend
  obtain ⟨t', ht', hchain⟩ := h.jobs k g i hk hg
  cases hi.symm.trans ht'
  exact ⟨k, g, i, hk, hg, hi, hchain.symm⟩

variable {threads : ℕ} {metrics : Option Metrics}

theorem started_eq (cfg : Config) (threads : ℕ) (metrics : Option Metrics) : ∃ cleanup ackTimeout,
    started cfg threads metrics =
      { pool := ⟨initial metrics, []⟩, workers := List.replicate threads none, cleanupTimer := cleanup,
        ackTimeoutTimer := ackTimeout } := by
  simp only [started, setupAckTimeoutTimer, setupCleanupTimer]
  split <;> split <;> exact ⟨_, _, rfl⟩

theorem wired_started : Wired cfg (started cfg threads metrics) := by
  have hset : setupCleanupTimer { pool := ⟨initial metrics, []⟩, workers := List.replicate threads none } =
      { pool := ⟨initial metrics, []⟩, workers := List.replicate threads none,
        cleanupTimer := some (cleanupInterval * ticksPerSecond) } := by
    simp [setupCleanupTimer, armCleanupTimer, Server.running, Server.now, initial]
  have hw : (started cfg threads metrics).workers = List.replicate threads none ∧
      (started cfg threads metrics).pool = ⟨initial metrics, []⟩ := by
    obtain ⟨cleanup, ackTimeout, heq⟩ := started_eq cfg threads metrics
    rw [heq]
    exact ⟨rfl, rfl⟩
  obtain ⟨hw, hp⟩ := hw
  have hbusy (c : Chain) : busy (started cfg threads metrics) c = 0 := by
    rw [busy, hw, List.countP_replicate]
    rfl
  have harmed (c : Chain) : armed (started cfg threads metrics) c = lasting cfg c := by
    rw [started, hset, setupAckTimeoutTimer]
    cases c with
    | ackTimeout =>
      by_cases ht : 0 < cfg.ackTimeout
      · rw [if_pos ⟨rfl, ht⟩]
        exact (decide_eq_true ht).symm
      · rw [if_neg fun h ↦ ht h.2]
        exact (decide_eq_false ht).symm
    | _ => split <;> rfl
  have htotal (c : Chain) : total (started cfg threads metrics) c = (lasting cfg c).toNat := by
    rw [total, hbusy, harmed, Nat.add_zero]
  refine ⟨fun c _ ↦ ?_, fun c _ hl ↦ ?_, fun _ c hl ↦ ?_, fun k g i hk ↦ ?_, fun i t ht ↦ ?_⟩
  · rw [htotal]
    exact Bool.toNat_le _
  · rw [htotal, hl, Bool.toNat_false]
  · rw [htotal, hl, Bool.toNat_true]
  · rw [hw] at hk
    cases List.eq_of_mem_replicate (List.mem_of_getElem? hk)
  · rw [hp] at ht
    cases ht

theorem wired_of_leads (h : (server cfg).Leads (Admitted admits) (started cfg threads metrics) S) :
    Wired cfg S :=
  h.invariant wired_started fun _ hw ha hs ↦ wired_next hw (shape_of_next hs ha)

theorem length_workers (hs : Shape cfg admits a S S') : S'.workers.length = S.workers.length := by
  cases hs with
  | idle hw => rw [hw]
  | begins k g hk hw => rw [hw, List.length_set]
  | goesOn k g g' hk hawait hw => rw [hw, List.length_set]
  | leaves k g hk hawait hw => rw [hw, List.length_set]
  | steps i ch _ hp hw => rw [hw]

theorem length_of_leads (h : (server cfg).Leads (Admitted admits) (started cfg threads metrics) S) :
    S.workers.length = threads := by
  refine h.invariant (P := fun S ↦ S.workers.length = threads) ?_ fun _ hw ha hs ↦
    (length_workers (shape_of_next hs ha)).trans hw
  obtain ⟨cleanup, ackTimeout, heq⟩ := started_eq cfg threads metrics
  rw [heq]
  exact List.length_replicate

/-- Each thread that goes on has a worker of its own. -/
theorem running_le_workers (h : Wired cfg S) :
    S.pool.threads.countP (fun t ↦ !hasEnded t) ≤ S.workers.length := by
  have hsub : S.pool.threads.findIdxs (fun t ↦ !hasEnded t) ⊆ S.workers.filterMap fun x ↦
    x.bind Handler.thread? := by
    intro i hi
    obtain ⟨hlt, hgoes⟩ := List.mem_findIdxs_iff_exists_getElem_pos.mp hi
    have hend : ¬ (S.pool.threads[i]).ended := fun hend ↦ by
      rw [hasEnded_of_ended hend] at hgoes
      cases hgoes
    obtain ⟨k, g, hk, hg⟩ := h.held i _ (List.getElem?_eq_getElem hlt) hend
    exact List.mem_filterMap.mpr ⟨some g, List.mem_of_getElem? hk, hg⟩
  calc S.pool.threads.countP (fun t ↦ !hasEnded t)
      = (S.pool.threads.findIdxs fun t ↦ !hasEnded t).length := List.length_findIdxs.symm
    _ ≤ (S.workers.filterMap fun x ↦ x.bind Handler.thread?).length :=
      (List.subperm_of_subset List.nodup_findIdxs hsub).length_le
    _ ≤ S.workers.length := List.length_filterMap_le _ _

/-- At most as many jobs run at a time as there are worker threads. The socket
event and the timers each have one handler, which is due or runs on one worker,
as long as the server is running: the server never stops listening. -/
theorem handlers_last (h : (server cfg).Leads (Admitted admits) (started cfg threads metrics) S) :
    S.pool.threads.countP (fun t ↦ !hasEnded t) ≤ threads ∧ (∀ c, c ≠ .send → total S c ≤ 1) ∧
      (S.running = true → ∀ c, lasting cfg c = true → total S c = 1) := by
  have hw := wired_of_leads h
  exact ⟨length_of_leads h ▸ running_le_workers hw, hw.single, hw.lasts⟩

/-- One of two workers handles a socket event, the other one a cleanup pass. -/
theorem handlers_last_two : ∃ S : Server,
    S.workers = [some (.event (.sending 1)), some (.cleanup (.passing 0))] ∧
    S.pool.threads.countP (fun t ↦ !hasEnded t) ≤ 2 ∧ (∀ c, c ≠ .send → total S c ≤ 1) ∧
      (S.running = true → ∀ c, lasting {} c = true → total S c = 1) := by
  have hrun : ((server {}).runs (Admitted fun _ ↦ True) [.dispatch 0 .event, .work 0 {},
    .tick ⟨0, 10 * ticksPerSecond⟩,
      .dispatch 1 .cleanup, .work 1 {}, .work 0 {}] (started {} 2 none)).map (fun S ↦ S.workers) =
      some [some (.event (.sending 1)), some (.cleanup (.passing 0))] := by decide +kernel
  obtain ⟨S, hS, hw⟩ := System.exists_leads hrun
  exact ⟨S, hw, handlers_last hS⟩

end MessageBroker.EventLoop
