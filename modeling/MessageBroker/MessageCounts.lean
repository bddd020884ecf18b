import MessageBroker.BacklogDelivery
import MessageBroker.ClientAccounting
import Mathlib.Algebra.Order.BigOperators.Group.Finset

namespace MessageBroker.MessageCounts

open WireMessages MessageStore ProgramTrees ThreadPools BrokerState ServerJobs OperationEffects ServerOutlines
  RunInvariants ThreadPhases BacklogDelivery
open ClientAccounting (count touches effect_metrics)

def adds (c : Counter) : Op → Bool
  | .increment c' => c' = c
  | _ => false

def additions (c : Counter) (i : ℕ) (log : List Event) : ℕ :=
  log.countP fun e ↦ decide (e.thread = i) && adds c e.op

variable {cfg : Config} {ok : State → Step → Prop} {metrics : Option Metrics} {m : Metrics} {S : State}
  {w w' : World} {i : ℕ} {j : Job} {o : Op} {ch : Choice} {r : o.Res} {c : Counter} {x y : Progress}
  {d : Delivery}

theorem count_effect (h : effect i ch o w = some (r, w')) (hm : w.metrics.isSome = true) :
    count c w' = count c w + if adds c o then 1 else 0 := by
  have same (ho : touches o = false) (hadds : adds c o = false) :
      count c w' = count c w + if adds c o then 1 else 0 := by
    rw [count, effect_metrics h ho, hadds]
    rfl
  obtain ⟨m, hm⟩ := Option.isSome_iff_exists.mp hm
  cases o with
  | increment c' =>
    cases h
    simp only [World.setMetrics, hm, Option.map_some, Option.elim_some, count, adds, Function.update_apply,
      decide_eq_true_eq]
    by_cases hc : c' = c
    · rw [if_pos hc.symm, if_pos hc, hc]
    · rw [if_neg (Ne.symm hc), if_neg hc]
      rfl
  | setActiveSessions | updateQueueMetrics =>
    cases h
    simp [World.setMetrics, hm, count, adds]
  | lockRegistry | removeClient =>
    simp only [effect] at h
    split at h <;> cases h <;> rfl
  | unlockRegistry | setClient =>
    cases h
    rfl
  | _ => exact same rfl rfl

theorem count_exec (he : exec i j o ch w = some (r, w')) (hm : w.metrics.isSome = true) :
    count c w' = count c w + if adds c o then 1 else 0 := by
  obtain ⟨-, v, h, rfl⟩ := exec_cases he
  exact (count_effect h hm :)

theorem count_eq_additions (h : (broker cfg).Reachable ok (initial (some m)) S) :
    S.world.metrics.isSome = true ∧
      ∀ c, count c S.world = m.counters c + S.world.log.countP fun e ↦ adds c e.op := by
  refine run_invariant (P := fun w ↦ w.metrics.isSome = true ∧
    ∀ c, count c w = m.counters c + w.log.countP fun e ↦ adds c e.op) ⟨rfl, fun _ ↦ rfl⟩ (fun _ _ _ _ h ↦ h)
    (fun hp hw ↦ ⟨(exec_frame hp.exec).metrics.trans hw.1, fun c ↦ ?_⟩) h
  rw [count_exec hp.exec hw.1, hw.2, exec_log hp.exec, List.countP_cons, Nat.add_assoc]

theorem countP_threads {log : List Event} {n : ℕ} (h : ∀ e ∈ log, e.thread < n) :
    (log.countP fun e ↦ adds c e.op) = ∑ i ∈ Finset.range n, additions c i log := by
  induction log with
  | nil => exact (Finset.sum_const_zero).symm
  | cons e log ih =>
    obtain ⟨he, hlog⟩ := List.forall_mem_cons.mp h
    simp only [additions, List.countP_cons, Finset.sum_add_distrib]
    rw [ih hlog]
    congr 1
    simp only [Bool.and_eq_true, decide_eq_true_eq, ite_and]
    rw [Finset.sum_ite_eq, if_pos (Finset.mem_range.mpr he)]

def tallied : Stage → ℕ
  | .counted _ | .head _ | .body _ | .called _ _ | .pushed _ => 1
  | _ => 0

theorem tallied_turn : (x.turn d).finished.length + tallied (x.turn d).stage = x.finished.length + 1 := by
  unfold Progress.turn
  split
  · exact congrArg (· + 0) List.length_append
  · rfl

theorem tallied_advance (ha : Advance o r x y) : y.finished.length + tallied y.stage =
    x.finished.length + tallied x.stage + if adds .offlineDelivered o then 1 else 0 := by
  cases ha with
  | stays ho =>
    cases o with
    | increment counter => cases counter <;> first | rfl | cases ho
    | _ => rfl
  | load hx | sweep hx | countExpired hx | count hx | start hx | online hx | call hx => simp [hx, tallied, adds]
  | offline hx | unmarked hx | unsent hx | unsaved hx => simp [hx, tallied, adds, Progress.finish]
  | refuse hx =>
    rw [tallied_turn, hx]
    rfl
  | push hx ho =>
    rw [hx]
    cases o <;> first | rfl | cases ho
  | back hx ho =>
    rw [tallied_turn, hx]
    cases o with
    | increment counter => cases counter <;> first | rfl | cases ho
    | _ => rfl

theorem sweeps_turn : (x.turn d).sweeps = x.sweeps := by
  unfold Progress.turn
  split <;> rfl

theorem sweeps_advance (ha : Advance o r x y) :
    y.sweeps.length = x.sweeps.length + if adds .messagesExpired o then 1 else 0 := by
  cases ha with
  | stays ho =>
    cases o with
    | increment counter => cases counter <;> first | rfl | cases ho
    | _ => rfl
  | countExpired => exact List.length_append
  | refuse => rw [sweeps_turn]; rfl
  | push hx ho => cases o <;> first | rfl | cases ho
  | back hx ho =>
    rw [sweeps_turn]
    cases o with
    | increment counter => cases counter <;> first | rfl | cases ho
    | _ => rfl
  | _ => rfl

/-- A thread has counted its deliveries and its sweeps, each once. -/
theorem additions_eq (h : (broker cfg).Reachable ok (initial metrics) S) : ∀ i,
    additions .offlineDelivered i S.world.log =
      (progress i S.world).finished.length + tallied (progress i S.world).stage ∧
    additions .messagesExpired i S.world.log = (progress i S.world).sweeps.length := by
  refine thread_invariant (I := fun i w ↦
    additions .offlineDelivered i w.log = (progress i w).finished.length + tallied (progress i w).stage ∧
    additions .messagesExpired i w.log = (progress i w).sweeps.length)
    (fun _ ↦ ⟨rfl, rfl⟩) (fun _ _ _ _ _ h ↦ h) (fun hr hp hw ↦ ?_) (fun _ hp hi hw ↦ ?_) h
  · obtain ⟨hdeliveries, hsweeps⟩ := hw
    have ha := progress_exec hr hp
    rw [tallied_advance ha, sweeps_advance ha, ← hdeliveries, ← hsweeps, exec_log hp.exec]
    simp only [additions, List.countP_cons, decide_true, Bool.true_and, and_self]
  · obtain ⟨hdeliveries, hsweeps⟩ := hw
    rw [progress_exec_ne hp.exec hi, ← hdeliveries, ← hsweeps, exec_log hp.exec]
    simp [additions, Ne.symm hi]

/-- How many rows each finished delivery has handed over. -/
def handed (x : Progress) : List ℕ := x.finished.map (·.handed.length)

def passes (f : Progress → List ℕ) (S : State) : ℕ :=
  ∑ i ∈ Finset.range S.threads.length, (f (progress i S.world)).length

def total (f : Progress → List ℕ) (S : State) : ℕ :=
  ∑ i ∈ Finset.range S.threads.length, (f (progress i S.world)).sum

theorem sum_eq_length_iff {l : List ℕ} (h : ∀ n ∈ l, 1 ≤ n) : l.length = l.sum ↔ ∀ n ∈ l, n = 1 := by
  induction l with
  | nil => simp
  | cons n l ih =>
    obtain ⟨hn, hl⟩ := List.forall_mem_cons.mp h
    have hle := List.length_le_sum_of_one_le l hl
    rw [List.length_cons, List.sum_cons, List.forall_mem_cons, ← ih hl]
    omega

theorem passes_eq_total_iff {f : Progress → List ℕ} (h : (broker cfg).Reachable ok (initial metrics) S)
    (hf : f {} = []) (hpos : ∀ i, ∀ n ∈ f (progress i S.world), 1 ≤ n) :
    passes f S = total f S ↔ ∀ i, ∀ n ∈ f (progress i S.world), n = 1 := by
  rw [passes, total, Finset.sum_eq_sum_iff_of_le fun i _ ↦ List.length_le_sum_of_one_le _ (hpos i)]
  constructor
  · intro heq i
    by_cases hi : i < S.threads.length
    · exact (sum_eq_length_iff (hpos i)).mp (heq i (Finset.mem_range.mpr hi))
    · rw [progress_of_le h (Nat.le_of_not_lt hi), hf]
      exact fun _ hn ↦ absurd hn List.not_mem_nil
  · exact fun hone i _ ↦ (sum_eq_length_iff (hpos i)).mpr (hone i)

/-- A sweep counts itself only when it has found something. -/
def Found (x : Progress) : Prop := (∀ n, x.stage = .expired n → 1 ≤ n) ∧ ∀ n ∈ x.sweeps, 1 ≤ n

theorem found_turn (h : Found x) : Found (x.turn d) := by
  unfold Progress.turn
  split <;> exact ⟨fun _ hn ↦ (by cases hn), h.2⟩

theorem found_advance (ha : Advance o r x y) (h : Found x) : Found y := by
  cases ha with
  | stays => exact h
  | sweep =>
    refine ⟨fun n hn ↦ ?_, h.2⟩
    cases hn
    exact Nat.succ_pos _
  | countExpired hx =>
    refine ⟨fun n hn ↦ (by cases hn), List.forall_mem_append.mpr ⟨h.2, ?_⟩⟩
    exact List.forall_mem_singleton.mpr (h.1 _ hx)
  | refuse | back => exact found_turn h
  | _ => exact ⟨fun n hn ↦ (by cases hn), h.2⟩

theorem found_of_reachable (h : (broker cfg).Reachable ok (initial metrics) S) :
    ∀ i, Found (progress i S.world) :=
  progress_invariant ⟨fun n hn ↦ (by cases hn), fun _ hn ↦ absurd hn List.not_mem_nil⟩
    (fun _ _ _ ha hx ↦ found_advance ha hx) h

/-- What a delivery that hands over one row meets with: the session is online when the
loop comes to the first row and offline when it comes to the second, and the first
is marked. A sweep finds one row. -/
def Meets (ch : Choice) (w : World) : Stage → Option Op → Prop
  | .resting, some (.loadExpiredSent timeout) =>
    (dbSelect ch (w.db.loadExpiredSent ch.tie w.wallClock timeout)).length ≤ 1
  | .head d, some (.isOnline s) => (w.sessions s).isOnline = true ↔ d.handed = []
  | .body _, some (.markSent _) => ch.dbError = false
  | _, _ => True

instance (ch : Choice) (w : World) (stage : Stage) (o : Option Op) : Decidable (Meets ch w stage o) := by
  unfold Meets
  split <;> infer_instance

def OneEach (S : State) : Step → Prop
  | .step i ch => Meets ch S.world (progress i S.world).stage (S.nextOp i)
  | .start _ | .tick _ => True

instance (S : State) : (l : Step) → Decidable (OneEach S l)
  | .step i ch => inferInstanceAs (Decidable (Meets ch S.world (progress i S.world).stage (S.nextOp i)))
  | .start _ | .tick _ => instDecidableTrue

/-- The delivery in progress has handed over no second row. -/
def Single : Stage → Prop
  | .resting => True
  | .loaded d | .counted d | .body d => d.handed = []
  | .head d => d.handed.length ≤ 1
  | .called d _ | .pushed d => d.handed.length = 1
  | .expired n => n = 1

structure Singles (x : Progress) : Prop where
  stage : Single x.stage
  handed : ∀ n ∈ handed x, n = 1
  sweeps : ∀ n ∈ x.sweeps, n = 1

theorem Singles.finish (h : Singles x) (hd : d.handed.length = 1) : Singles (x.finish d) := by
  refine ⟨trivial, ?_, h.sweeps⟩
  rw [MessageCounts.handed, Progress.finish, List.map_append, List.forall_mem_append]
  exact ⟨h.handed, List.forall_mem_singleton.mpr hd⟩

theorem Singles.turn (h : Singles x) (hd : d.handed.length = 1) : Singles (x.turn d) := by
  unfold Progress.turn
  split
  · exact h.finish hd
  · exact ⟨Nat.le_of_eq hd, h.handed, h.sweeps⟩

theorem found_length {t : ℤ} {rows : List PendingMessage}
    (hp : Performs cfg ok S i j (.loadExpiredSent t) ch rows w')
    (h : (dbSelect ch (S.world.db.loadExpiredSent ch.tie S.world.wallClock t)).length ≤ 1) :
    rows.length ≤ 1 := by
  have hrows : some (dbSelect ch (S.world.db.loadExpiredSent ch.tie S.world.wallClock t)) = some rows :=
    exec_reads hp.exec
  rwa [Option.some.inj hrows] at h

theorem online_eq {s : ℕ} {online : Bool} (hp : Performs cfg ok S i j (.isOnline s) ch online w') :
    (S.world.sessions s).isOnline = online := by
  have hr : some (S.world.sessions s).isOnline = some online := exec_reads hp.exec
  exact Option.some.inj hr

theorem singles_advance (hok : ∀ S l, ok S l → OneEach S l) (hp : Performs cfg ok S i j o ch r w')
    (hx : progress i S.world = x) (ha : Advance o r x y) (h : Singles x) : Singles y := by
  have hmeets : Meets ch S.world (progress i S.world).stage (S.nextOp i) := hok S _ hp.ok
  rw [hp.nextOp, hx] at hmeets
  have hstage := h.stage
  cases ha with
  | stays => exact h
  | load => exact ⟨rfl, h.handed, h.sweeps⟩
  | sweep hrest =>
    rw [hrest] at hmeets
    have hle := found_length hp hmeets
    rw [List.length_cons] at hle
    exact ⟨congrArg (· + 1) (Nat.le_zero.mp (Nat.le_of_succ_le_succ hle)), h.handed, h.sweeps⟩
  | count hd =>
    rw [hd] at hstage
    exact ⟨hstage, h.handed, h.sweeps⟩
  | countExpired hn =>
    rw [hn] at hstage
    exact ⟨trivial, h.handed, List.forall_mem_append.mpr ⟨h.sweeps, List.forall_mem_singleton.mpr hstage⟩⟩
  | start hd =>
    rw [hd] at hstage
    exact ⟨(congrArg List.length hstage).trans_le (Nat.zero_le 1), h.handed, h.sweeps⟩
  | online hd =>
    rw [hd] at hmeets
    exact ⟨hmeets.mp (online_eq hp), h.handed, h.sweeps⟩
  | offline hd =>
    rw [hd] at hstage hmeets
    refine h.finish (Nat.le_antisymm hstage (List.length_pos_iff.mpr fun hnil ↦ ?_))
    exact Bool.false_ne_true ((online_eq hp).symm.trans (hmeets.mpr hnil))
  | unmarked hd hne =>
    rw [hd] at hstage
    exact h.finish (Nat.le_antisymm hstage (List.length_pos_iff.mpr hne))
  | unsent hd =>
    rw [hd] at hmeets
    obtain ⟨herror, -⟩ | ⟨hr, -⟩ := exec_markSent hp.exec
    · cases herror.symm.trans hmeets
    · cases hr
  | call hd =>
    rw [hd] at hstage
    exact ⟨congrArg (fun l ↦ (l ++ [_]).length) hstage, h.handed, h.sweeps⟩
  | refuse hd | back hd =>
    rw [hd] at hstage
    exact h.turn hstage
  | push hd =>
    rw [hd] at hstage
    exact ⟨hstage, h.handed, h.sweeps⟩
  | unsaved hd =>
    rw [hd] at hstage
    exact h.finish hstage

theorem singles_of_reachable (hok : ∀ S l, ok S l → OneEach S l)
    (h : (broker cfg).Reachable ok (initial metrics) S) : ∀ i, Singles (progress i S.world) :=
  progress_invariant ⟨trivial, fun _ hn ↦ absurd hn List.not_mem_nil, fun _ hn ↦ absurd hn List.not_mem_nil⟩
    (fun _ hp hx ha h ↦ singles_advance hok hp hx ha h) h

theorem counts_of_resting (h : (broker cfg).Reachable ok (initial (some m)) S)
    (hrest : ∀ i, Resting (progress i S.world)) :
    count .offlineDelivered S.world = m.counters .offlineDelivered + passes handed S ∧
    count .messagesExpired S.world = m.counters .messagesExpired + passes (·.sweeps) S := by
  have hcount := (count_eq_additions h).2
  rw [hcount, hcount, countP_threads (thread_lt h), countP_threads (thread_lt h)]
  refine ⟨congrArg (m.counters .offlineDelivered + ·) (Finset.sum_congr rfl fun i _ ↦ ?_),
    congrArg (m.counters .messagesExpired + ·) (Finset.sum_congr rfl fun i _ ↦ (additions_eq h i).2)⟩
  rw [(additions_eq h i).1, hrest i, handed, List.length_map]
  rfl

/-- The counters count passes. They agree with the numbers of rows handed over and found
expired when every pass has one row to account for, and then only. -/
theorem message_counts (h : (broker cfg).Reachable ok (initial (some m)) S)
    (hrest : ∀ i, Resting (progress i S.world)) :
    ((∀ S l, ok S l → OneEach S l) →
      count .offlineDelivered S.world = m.counters .offlineDelivered + total handed S ∧
      count .messagesExpired S.world = m.counters .messagesExpired + total (·.sweeps) S) ∧
    ((∀ i, ∀ n ∈ handed (progress i S.world), 1 ≤ n) →
      (count .offlineDelivered S.world = m.counters .offlineDelivered + total handed S ↔
        ∀ i, ∀ n ∈ handed (progress i S.world), n = 1)) ∧
    (count .messagesExpired S.world = m.counters .messagesExpired + total (·.sweeps) S ↔
      ∀ i, ∀ n ∈ (progress i S.world).sweeps, n = 1) := by
  obtain ⟨hdelivered, hexpired⟩ := counts_of_resting h hrest
  have hoffline (hpos : ∀ i, ∀ n ∈ handed (progress i S.world), 1 ≤ n) :
      count .offlineDelivered S.world = m.counters .offlineDelivered + total handed S ↔
        ∀ i, ∀ n ∈ handed (progress i S.world), n = 1 := by
    rw [hdelivered, Nat.add_left_cancel_iff]
    exact passes_eq_total_iff h rfl hpos
  have hsweeps : count .messagesExpired S.world = m.counters .messagesExpired + total (·.sweeps) S ↔
      ∀ i, ∀ n ∈ (progress i S.world).sweeps, n = 1 := by
    rw [hexpired, Nat.add_left_cancel_iff]
    exact passes_eq_total_iff h rfl fun i ↦ (found_of_reachable h i).2
  refine ⟨fun hok ↦ ?_, hoffline, hsweeps⟩
  have hsingles := singles_of_reachable hok h
  exact ⟨(hoffline fun i n hn ↦ Nat.le_of_eq ((hsingles i).handed n hn).symm).mpr fun i ↦ (hsingles i).handed,
    hsweeps.mpr fun i ↦ (hsingles i).sweeps⟩

/-- One message waits for bob when he registers, and its acknowledgement does not come. -/
theorem message_counts_one : ∃ S, (broker {}).Reachable OneEach (initial (some {})) S ∧
    total handed S = 1 ∧ total (·.sweeps) S = 1 ∧
    count .offlineDelivered S.world = total handed S ∧ count .messagesExpired S.world = total (·.sweeps) S := by
  have hrun : ((broker {}).runs OneEach (inTurn 0 [
      (arrival { sender := [97], destination := [98], correlationId := 1, flags := flagNeedsAck }, 9),
      (arrival { type := .register, sender := [98] }, 45)] ++ .tick ⟨100, 0⟩ ::
        inTurn 2 [(.checkExpiredAcks, 14)])
      ⟨initial (some {}), []⟩).map (fun S ↦ (S.threads.all hasEnded, total handed S, total (·.sweeps) S)) =
      some (true, 1, 1) := by
    decide +kernel
  obtain ⟨S, hS, hv⟩ := exists_run hrun
  obtain ⟨hended, hv⟩ := Prod.mk.inj hv
  obtain ⟨hhanded, hsweeps⟩ := Prod.mk.inj hv
  have hrest := resting_of_ended hS fun t ht ↦ ended_of_hasEnded (List.all_eq_true.mp hended t ht)
  obtain ⟨hdelivered, hexpired⟩ := (message_counts hS hrest).1 fun _ _ h ↦ h
  exact ⟨S, hS, hhanded, hsweeps, hdelivered.trans (Nat.zero_add _), hexpired.trans (Nat.zero_add _)⟩

/-- Two messages are handed to bob, and both expire: each counter says one. -/
theorem two_rows_counted_once : ∃ S, (broker {}).Reachable (fun _ _ ↦ True) (initial (some {})) S ∧
    (∀ i, Resting (progress i S.world)) ∧
    count .offlineDelivered S.world = 1 ∧ total handed S = 2 ∧
    count .messagesExpired S.world = 1 ∧ total (·.sweeps) S = 2 := by
  have hrun : ((broker {}).runs (fun _ _ ↦ True) (inTurn 0 [
      (arrival { sender := [97], destination := [98], correlationId := 1, flags := flagNeedsAck }, 9),
      (arrival { sender := [97], destination := [98], correlationId := 2, flags := flagNeedsAck }, 9),
      (arrival { type := .register, sender := [98] }, 51)] ++ .tick ⟨100, 0⟩ ::
        inTurn 3 [(.checkExpiredAcks, 26)])
      ⟨initial (some {}), []⟩).map (fun S ↦ (S.threads.all hasEnded, count .offlineDelivered S.world,
        total handed S, count .messagesExpired S.world, total (·.sweeps) S)) = some (true, 1, 2, 1, 2) := by
    decide +kernel
  obtain ⟨S, hS, hv⟩ := exists_run hrun
  obtain ⟨hended, hv⟩ := Prod.mk.inj hv
  obtain ⟨hdelivered, hv⟩ := Prod.mk.inj hv
  obtain ⟨hhanded, hv⟩ := Prod.mk.inj hv
  obtain ⟨hexpired, hsweeps⟩ := Prod.mk.inj hv
  exact ⟨S, hS, resting_of_ended hS fun t ht ↦ ended_of_hasEnded (List.all_eq_true.mp hended t ht),
    hdelivered, hhanded, hexpired, hsweeps⟩

end MessageBroker.MessageCounts
