import MessageBroker.LoopRefinement
import MessageBroker.LoopShutdown
import MessageBroker.SendPasses
import MessageBroker.SendQueue

namespace MessageBroker.EventLoop

open ByteStrings WireMessages ProgramTrees ThreadPools Protocols BrokerState SessionQueues ServerJobs
  OperationEffects ProgramShapes ServerOutlines RunInvariants HandOverOnce ThreadPhases SendLedger
  TransitionSystems LockDiscipline
open SendPasses (isSender)

variable {cfg : Config} {ok : State → Step → Prop} {metrics : Option Metrics} {S S' : Server}
  {pool pool' : State} {w w' : World} {k i i' : ℕ} {h : Handler} {j : Job} {o : Op} {ch : Choice}
  {r : o.Res} {a : Action} {threads : ℕ} {admits : Choice → Prop}

/-- Where a sender stands in its pass over the queue; the other jobs are `free`. -/
inductive SpendPhase
  | free
  | outside
  | inside
deriving DecidableEq

/-- A sender enqueues nothing, and it has taken a batch before it finishes. -/
def spendProtocol : Protocol Op Op.Res SpendPhase where
  may x o :=
    match x with
    | .free => True
    | .outside => (∀ s c data, o ≠ .pushPendingSend s c data) ∧ o ≠ .postSendTask ∧ o ≠ .finishSends
    | .inside => (∀ s c data, o ≠ .pushPendingSend s c data) ∧ o ≠ .postSendTask ∧ o ≠ .takePendingSends
  next
    | .outside, .takePendingSends, n => if n = 0 then .outside else .inside
    | .inside, .finishSends, _ => .outside
    | x, _, _ => x

theorem spending : Spending (Keeps spendProtocol .inside) where
  toComposable := Keeps.composable _ _
  spend o ho := by
    cases o with
    | frontSend | sendFrame | callback | popSend | increment => exact .perform ⟨nofun, nofun, nofun⟩ fun _ ↦ rfl
    | _ => cases ho

def Spends (p : Program Unit) (x : SpendPhase) : Prop :=
  Follows spendProtocol (fun _ _ ↦ True) (fun _ _ ↦ True) p x

theorem spends_processPendingSends : Spends processPendingSends .outside := by
  refine ⟨⟨nofun, nofun, nofun⟩, fun n ↦ ?_⟩
  change Spends (if n ≠ 0 then _ else _) (if n = 0 then _ else _)
  by_cases hn : n = 0
  · rw [if_neg (not_not_intro hn)]
    exact trivial
  · rw [if_pos hn, if_neg hn]
    have hloop : Follows spendProtocol (fun _ y ↦ y = .inside) (fun _ _ ↦ True) (sendLoop n) .inside :=
      Follows.mono (spending.sendLoop n) (fun _ _ ↦ id) fun _ _ _ ↦ trivial
    refine Follows.bind hloop fun _ y hy ↦ ?_
    subst hy
    exact ⟨⟨nofun, nofun, nofun⟩, fun _ ↦ ⟨⟨nofun, nofun, nofun⟩, fun _ ↦ trivial⟩⟩

def spendStart (j : Job) : SpendPhase := if isSender j then .outside else .free

theorem spends_code (cfg : Config) (j : Job) : Spends (code cfg j) (spendStart j) := by
  cases j with
  | receive | cleanupInactiveSessions | checkExpiredAcks =>
    exact Follows.absorbed (fun _ ↦ ⟨trivial, fun _ ↦ rfl⟩) (fun _ ↦ trivial) fun _ ↦ trivial
  | processPendingSends => exact spends_processPendingSends
  | sendTask =>
    refine ⟨⟨nofun, nofun, nofun⟩, fun sending ↦ ?_⟩
    cases sending with
    | true => exact trivial
    | false => exact spends_processPendingSends

def spendPhase (i : ℕ) (w : World) : SpendPhase := phase spendProtocol .outside i w.log

theorem spendPhase_exec (he : exec i j o ch w = some (r, w')) :
    spendPhase i w' = spendProtocol.next (spendPhase i w) o r := phase_exec he

theorem spendPhase_exec_ne (he : exec i j o ch w = some (r, w')) (hi : i' ≠ i) :
    spendPhase i' w' = spendPhase i' w :=
  phase_exec_ne he hi

theorem next_ne_free {x : SpendPhase} (hx : x ≠ .free) : spendProtocol.next x o r ≠ .free := by
  have houtside : SpendPhase.outside ≠ .free := by decide
  have hinside : SpendPhase.inside ≠ .free := by decide
  cases x with
  | free => exact absurd rfl hx
  | outside =>
    cases o with
    | takePendingSends =>
      change (if r = 0 then SpendPhase.outside else .inside) ≠ .free
      split
      · exact houtside
      · exact hinside
    | _ => exact houtside
  | inside =>
    cases o with
    | finishSends => exact houtside
    | _ => exact hinside

theorem spendPhase_ne_free (i : ℕ) (w : World) : spendPhase i w ≠ .free := by
  unfold spendPhase
  induction w.log with
  | nil => exact (by decide : SpendPhase.outside ≠ .free)
  | cons e log ih =>
    rw [phase]
    split
    · exact next_ne_free ih
    · exact ih

def insiders (w : World) : Finset ℕ := (w.log.map Event.thread).toFinset.filter fun i ↦ spendPhase i w = .inside

theorem mem_insiders : i ∈ insiders w ↔ spendPhase i w = .inside := by
  rw [insiders, Finset.mem_filter, List.mem_toFinset, and_iff_right_iff_imp]
  intro hi
  by_contra hnot
  have hstart : spendPhase i w = .outside := phase_eq_start fun e he heq ↦ hnot (List.mem_map.mpr ⟨e, he, heq⟩)
  cases hstart.symm.trans hi

/-- What keeps the senders busy: a queue that is to be taken, the batches that
are out, and the tasks that are posted. Each of the first two leads to the next. -/
def waiting (w : World) : ℕ := 3 * (decide (w.pendingSends ≠ [])).toNat + 2 * (insiders w).card + w.postedTasks

theorem may_spend (hmay : spendProtocol.may (spendPhase i w) o) :
    (∀ s c data, o ≠ .pushPendingSend s c data) ∧ o ≠ .postSendTask ∧
      (o = .takePendingSends → spendPhase i w = .outside) ∧ (o = .finishSends → spendPhase i w = .inside) := by
  cases hx : spendPhase i w with
  | free => exact absurd hx (spendPhase_ne_free i w)
  | outside =>
    rw [hx] at hmay
    exact ⟨hmay.1, hmay.2.1, fun _ ↦ rfl, fun ho ↦ absurd ho hmay.2.2⟩
  | inside =>
    rw [hx] at hmay
    exact ⟨hmay.1, hmay.2.1, fun ho ↦ absurd ho hmay.2.2, fun _ ↦ rfl⟩

theorem insiders_eq (he : exec i j o ch w = some (r, w')) (hx : spendPhase i w' = spendPhase i w) :
    insiders w' = insiders w := by
  ext i'
  rw [mem_insiders, mem_insiders]
  by_cases hi : i' = i
  · rw [hi, hx]
  · rw [spendPhase_exec_ne he hi]

theorem insiders_insert (he : exec i j o ch w = some (r, w')) (hx : spendPhase i w' = .inside) :
    insiders w' = insert i (insiders w) := by
  ext i'
  rw [mem_insiders, Finset.mem_insert, mem_insiders]
  by_cases hi : i' = i
  · rw [hi, hx]
    exact ⟨fun _ ↦ .inl rfl, fun _ ↦ rfl⟩
  · rw [spendPhase_exec_ne he hi, or_iff_right hi]

theorem insiders_erase (he : exec i j o ch w = some (r, w')) (hx : spendPhase i w' = .outside) :
    insiders w' = (insiders w).erase i := by
  ext i'
  rw [mem_insiders, Finset.mem_erase, mem_insiders]
  by_cases hi : i' = i
  · rw [hi, hx]
    exact ⟨fun h ↦ (nomatch h), fun h ↦ absurd rfl h.1⟩
  · rw [spendPhase_exec_ne he hi, and_iff_right hi]

theorem waiting_take {n : ℕ} (he : exec i j .takePendingSends ch w = some (n, w'))
    (hx : spendPhase i w = .outside) :
    waiting w' ≤ waiting w := by
  obtain ⟨hn, hpend, -⟩ := exec_takePendingSends he
  have hposted : w'.postedTasks = w.postedTasks := (exec_aside he).postedTasks nofun nofun
  have hnext : spendPhase i w' = if n = 0 then .outside else .inside := by
    rw [spendPhase_exec he, hx]
    rfl
  rw [waiting, waiting, hpend, hposted]
  by_cases hq : w.pendingSends = []
  · rw [if_pos (by rw [hn, hq]; rfl), ← hx] at hnext
    rw [insiders_eq he hnext, hq]
  · rw [if_neg (by rw [hn, List.length_eq_zero_iff]; exact hq)] at hnext
    have hcard := Finset.card_insert_le i (insiders w)
    rw [insiders_insert he hnext, decide_eq_true hq, decide_eq_false (not_not_intro rfl), Bool.toNat_false,
      Bool.toNat_true]
    omega

theorem waiting_finish {u : Unit} (he : exec i j .finishSends ch w = some (u, w'))
    (hx : spendPhase i w = .inside) :
    waiting w' ≤ waiting w := by
  have hpend : w'.pendingSends = w.pendingSends := (exec_frame he).pendingSends (by simp [writes])
  have hnext : spendPhase i w' = .outside := by
    rw [spendPhase_exec he, hx]
    rfl
  have hcard := Finset.card_erase_add_one (mem_insiders.mpr hx)
  rw [waiting, waiting, hpend, (exec_finishSends he).2, insiders_erase he hnext]
  split <;> omega

theorem waiting_exec (he : exec i j o ch w = some (r, w')) (hmay : spendProtocol.may (spendPhase i w) o) :
    waiting w' ≤ waiting w := by
  obtain ⟨hpush, hpost, htake, hfinish⟩ := may_spend hmay
  have other (hnext : spendProtocol.next (spendPhase i w) o r = spendPhase i w)
    (hpend : .pendingSends ∉ writes o)
      (hposted : o ≠ .finishSends) : waiting w' ≤ waiting w := by
    rw [waiting, waiting, (exec_frame he).pendingSends (by simp [hpend]),
      (exec_aside he).postedTasks hpost hposted, insiders_eq he ((spendPhase_exec he).trans hnext)]
  cases o with
  | pushPendingSend s c data => exact absurd rfl (hpush s c data)
  | postSendTask => exact absurd rfl hpost
  | takePendingSends => exact waiting_take he (htake rfl)
  | finishSends => exact waiting_finish he (hfinish rfl)
  | _ => exact other (by cases spendPhase i w <;> rfl) (by simp [writes]) (by simp)

/-- How much of the handling of an event lies ahead; sends are none of it. -/
def Handler.ahead : Handler → ℕ
  | .event .entered => 7
  | .event .updated => 6
  | .event (.sending _) | .event (.routing _) => 5
  | .event .looping => 4
  | .event .receiving | .event (.reading _) | .cleanup .entered | .ackTimeout .entered => 3
  | .event .leaving | .cleanup (.passing _) | .ackTimeout (.passing _) => 2
  | .event .arming | .cleanup .arming | .ackTimeout .arming => 1
  | .send _ => 0

/-- What there is to read and to route. -/
def ahead (S : Server) : ℕ := 6 * S.inbox.length + (S.workers.map (·.elim 0 Handler.ahead)).sum

theorem ahead_set {x y : Option Handler} (hk : S.workers[k]? = some x) (hw : S'.workers = S.workers.set k y) :
    ahead S' + 6 * S.inbox.length + x.elim 0 Handler.ahead = ahead S + 6 * S'.inbox.length +
      y.elim 0 Handler.ahead := by
  have hsum := sum_set_add (f := (·.elim 0 Handler.ahead)) (y := y) hk
  rw [ahead, ahead, hw]
  omega

theorem ahead_lt {x : Option Handler} (hk : S.workers[k]? = some (some h)) (hw : S'.workers = S.workers.set k x)
    (hlt : 6 * S'.inbox.length + x.elim 0 Handler.ahead < 6 * S.inbox.length + h.ahead) :
    ahead S' < ahead S := by
  have hset := ahead_set hk hw
  rw [Option.elim_some] at hset
  omega

theorem startJob_parts {handler : ℕ → Handler} (hs : S.startJob cfg k j handler = some S') :
    (broker cfg).next S.pool (.start j) = some S'.pool ∧ S'.inbox = S.inbox ∧ S'.stage = S.stage ∧
      S'.workers = S.workers.set k (some (handler S.pool.threads.length)) := by
  obtain ⟨pool, hp, rfl⟩ := Option.map_eq_some_iff.mp hs
  exact ⟨hp, rfl, rfl, rfl⟩

theorem ahead_advance (hk : S.workers[k]? = some (some h)) (hs : advance cfg k S h = some S')
    (hc : h.chain ≠ .send) :
    ahead S' < ahead S := by
  cases h with
  | send i => exact absurd rfl hc
  | cleanup phase =>
    cases phase with
    | entered =>
      have hjob : S.startJob cfg k .cleanupInactiveSessions (fun i ↦ .cleanup (.passing i)) = some S' := hs
      obtain ⟨-, hinbox, -, hw⟩ := startJob_parts hjob
      exact ahead_lt hk hw (hinbox ▸ Nat.lt_succ_self _)
    | passing i =>
      obtain rfl := Option.some.inj hs
      refine ahead_lt hk rfl (Nat.add_lt_add_left ?_ _)
      split
      · exact Nat.lt_succ_self 1
      · exact Nat.two_pos
    | arming =>
      obtain rfl := Option.some.inj hs
      exact ahead_lt (x := none) hk rfl (Nat.lt_succ_self _)
  | ackTimeout phase =>
    cases phase with
    | entered =>
      have hjob : S.startJob cfg k .checkExpiredAcks (fun i ↦ .ackTimeout (.passing i)) = some S' := hs
      obtain ⟨-, hinbox, -, hw⟩ := startJob_parts hjob
      exact ahead_lt hk hw (hinbox ▸ Nat.lt_succ_self _)
    | passing i =>
      obtain rfl := Option.some.inj hs
      refine ahead_lt hk rfl (Nat.add_lt_add_left ?_ _)
      split
      · exact Nat.lt_succ_self 1
      · exact Nat.two_pos
    | arming =>
      obtain rfl := Option.some.inj hs
      exact ahead_lt (x := none) hk rfl (Nat.lt_succ_self _)
  | event phase =>
    cases phase with
    | entered =>
      obtain rfl := Option.some.inj hs
      exact ahead_lt hk rfl (Nat.lt_succ_self _)
    | updated =>
      have hjob : S.startJob cfg k .processPendingSends (fun i ↦ .event (.sending i)) = some S' := hs
      obtain ⟨-, hinbox, -, hw⟩ := startJob_parts hjob
      exact ahead_lt hk hw (hinbox ▸ Nat.lt_succ_self _)
    | sending i =>
      obtain rfl := Option.some.inj hs
      refine ahead_lt hk rfl (Nat.add_lt_add_left ?_ _)
      split
      · exact (by decide : 2 < 5)
      · exact Nat.lt_succ_self 4
    | looping =>
      obtain rfl := Option.some.inj hs
      refine ahead_lt hk rfl (Nat.add_lt_add_left ?_ _)
      split <;> decide
    | receiving =>
      simp only [advance] at hs
      split at hs
      · obtain rfl := Option.some.inj hs
        exact ahead_lt hk rfl (Nat.lt_succ_self _)
      · next identity rest hinbox =>
        obtain rfl := Option.some.inj hs
        refine ahead_lt hk rfl ?_
        rw [hinbox]
        change 6 * rest.length + 3 < 6 * (rest.length + 1) + 3
        omega
    | reading identity =>
      simp only [advance] at hs
      split at hs
      · obtain rfl := Option.some.inj hs
        exact ahead_lt hk rfl (Nat.lt_succ_self _)
      · next data rest hinbox =>
        obtain ⟨-, hrest, -, hw⟩ := startJob_parts hs
        refine ahead_lt hk hw ?_
        rw [hrest, hinbox]
        change 6 * rest.length + 5 < 6 * (rest.length + 1) + 3
        omega
    | routing i =>
      obtain rfl := Option.some.inj hs
      exact ahead_lt hk rfl (Nat.lt_succ_self _)
    | leaving =>
      obtain rfl := Option.some.inj hs
      refine ahead_lt hk rfl (Nat.add_lt_add_left ?_ _)
      split
      · exact Nat.lt_succ_self 1
      · exact Nat.two_pos
    | arming =>
      obtain rfl := Option.some.inj hs
      exact ahead_lt (x := none) hk rfl (Nat.lt_succ_self _)

/-- The jobs that may enqueue sends. -/
def feeders (ths : List (Thread Op Op.Res Job)) : List (Thread Op Op.Res Job) :=
  ths.filter fun t ↦ !isSender t.job

/-- What there is to do before the queue of sends is empty and the workers are
free: first what may still enqueue sends, then what makes senders busy, then the
operations of the senders, and then their handlers. -/
def todo (S : Server) : ℕ × Multiset (Thread Op Op.Res Job) × ℕ × Multiset (Thread Op Op.Res Job) × ℕ :=
  (ahead S, feeders S.pool.threads, waiting S.pool.world, S.pool.threads, busy S .send)

def Fewer : ℕ × Multiset (Thread Op Op.Res Job) × ℕ × Multiset (Thread Op Op.Res Job) × ℕ →
    ℕ × Multiset (Thread Op Op.Res Job) × ℕ × Multiset (Thread Op Op.Res Job) × ℕ → Prop :=
  Prod.Lex (· < ·) (Prod.Lex (Relation.CutExpand Machine.Continues)
    (Prod.Lex (· < ·) (Prod.Lex (Relation.CutExpand Machine.Continues) (· < ·))))

theorem fewer_wf : WellFounded Fewer :=
  WellFounded.prod_lex Nat.lt_wfRel.wf (WellFounded.prod_lex Machine.continues_wf.cutExpand
    (WellFounded.prod_lex Nat.lt_wfRel.wf (WellFounded.prod_lex Machine.continues_wf.cutExpand Nat.lt_wfRel.wf)))

theorem filter_set_of_neg {α : Type} {p : α → Bool} {l : List α} {x y : α} (hi : l[i]? = some x)
    (hx : p x = false) (hy : p y = false) : (l.set i y).filter p = l.filter p := by
  induction l generalizing i with
  | nil => cases hi
  | cons z l ih =>
    cases i with
    | zero =>
      obtain rfl := Option.some.inj hi
      rw [List.set_cons_zero, List.filter_cons_of_neg (ne_true_of_eq_false hy),
        List.filter_cons_of_neg (ne_true_of_eq_false hx)]
    | succ i => rw [List.set_cons_succ, List.filter_cons, List.filter_cons, ih (i := i) hi]

theorem filter_set_of_pos {α : Type} {p : α → Bool} {l : List α} {x y : α} (hi : l[i]? = some x)
    (hx : p x = true)
    (hy : p y = true) : ∃ i', (l.filter p)[i']? = some x ∧ (l.set i y).filter p = (l.filter p).set i' y := by
  induction l generalizing i with
  | nil => cases hi
  | cons z l ih =>
    cases i with
    | zero =>
      obtain rfl := Option.some.inj hi
      refine ⟨0, ?_, ?_⟩
      · rw [List.filter_cons_of_pos hx]
        rfl
      · rw [List.set_cons_zero, List.filter_cons_of_pos hx, List.filter_cons_of_pos hy, List.set_cons_zero]
    | succ i =>
      obtain ⟨i', hi', hset⟩ := ih (i := i) hi
      rw [List.set_cons_succ, List.filter_cons, List.filter_cons, hset]
      split
      · exact ⟨i' + 1, hi', rfl⟩
      · exact ⟨i', hi', rfl⟩

theorem fewer_of_step (hs : (broker cfg).next S.pool (.step i ch) = some S'.pool) (hahead : ahead S' = ahead S)
    (hmay : ∀ j o code, S.pool.threads[i]? = some ⟨j, .op o code⟩ → isSender j = true →
      spendProtocol.may (spendPhase i S.pool.world) o) : Fewer (todo S') (todo S) := by
  obtain ⟨j, o, code, r, w', ht, he, hpool⟩ := Machine.step_cases hs
  have hcont : Machine.Continues (⟨j, code r⟩ : Thread Op Op.Res Job) ⟨j, .op o code⟩ := ⟨o, code, r, rfl, rfl⟩
  rw [todo, todo, hahead, hpool]
  refine .right _ ?_
  cases hj : isSender j with
  | false =>
    obtain ⟨i', hi', hset⟩ : ∃ i', (feeders S.pool.threads)[i']? = some ⟨j, .op o code⟩ ∧
        feeders (S.pool.threads.set i ⟨j, code r⟩) = (feeders S.pool.threads).set i' ⟨j, code r⟩ :=
      filter_set_of_pos ht (by rw [hj]; rfl) (by rw [hj]; rfl)
    refine .left _ _ ?_
    rw [hset]
    exact Machine.cutExpand_set hi' hcont
  | true =>
    have hfeed : feeders (S.pool.threads.set i ⟨j, code r⟩) = feeders S.pool.threads :=
      filter_set_of_neg ht (by rw [hj]; rfl) (by rw [hj]; rfl)
    rw [hfeed]
    refine .right _ ?_
    rcases Nat.lt_or_eq_of_le (waiting_exec he (hmay j o code ht hj)) with hlt | heq
    · exact .left _ _ hlt
    · rw [heq]
      exact .right _ (.left _ _ (Machine.cutExpand_set ht hcont))

theorem fewer_of_task (hs : dispatch cfg k S .sendTask = some S') (hk : S.workers[k]? = some none)
    (hrun : S.running = true) : Fewer (todo S') (todo S) := by
  simp only [dispatch, hrun, if_true] at hs
  obtain ⟨hstart, hinbox, -, hw⟩ := startJob_parts hs
  have hset := ahead_set hk hw
  have hahead : ahead S' = ahead S := by
    simp only [hinbox, Option.elim_none, Option.elim_some, Handler.ahead] at hset
    omega
  obtain ⟨w', hw', hpool⟩ := Machine.start_cases hstart
  have hfeed : feeders S'.pool.threads = feeders S.pool.threads := by
    rw [hpool, feeders, List.filter_append]
    exact List.append_nil _
  have hless : waiting w' < waiting S.pool.world := by
    change ServerJobs.start .sendTask S.pool.world = some w' at hw'
    simp only [ServerJobs.start] at hw'
    split at hw'
    · cases hw'
    · next hposted =>
      obtain rfl := Option.some.inj hw'
      exact Nat.add_lt_add_left (Nat.sub_one_lt hposted) _
  rw [todo, todo, hahead, hfeed]
  refine .right _ (.right _ (.left _ _ ?_))
  rw [hpool]
  exact hless

theorem fewer_of_advance (hk : S.workers[k]? = some (some h)) (hs : advance cfg k S h = some S') :
    Fewer (todo S') (todo S) := by
  by_cases hc : h.chain = .send
  · cases h with
    | send i =>
      obtain rfl := Option.some.inj hs
      have hw : (S.setWorker k none).workers = S.workers.set k none := rfl
      have hset := ahead_set hk hw
      have hbusy := busy_set hk hw .send
      have hahead : ahead (S.setWorker k none) = ahead S := by
        simp only [Option.elim_none, Option.elim_some, Handler.ahead] at hset
        exact Nat.add_right_cancel hset
      rw [todo, todo, hahead]
      refine .right _ (.right _ (.right _ (.right _ ?_)))
      rw [Option.any_some, Option.any_none, decide_eq_true hc, Bool.toNat_true, Bool.toNat_false] at hbusy
      omega
    | _ => cases hc
  · exact .left _ _ (ahead_advance hk hs hc)

/-- The steps by which the workers go on with what the server has taken in. -/
def Action.drains : Action → Bool
  | .work _ _ | .dispatch _ .sendTask => true
  | _ => false

theorem stage_advance (hs : advance cfg k S h = some S') : S'.stage = S.stage := by
  cases h with
  | event phase =>
    cases phase with
    | updated =>
      have hjob : S.startJob cfg k .processPendingSends (fun i ↦ .event (.sending i)) = some S' := hs
      exact (startJob_parts hjob).2.2.1
    | receiving =>
      simp only [advance] at hs
      split at hs
      all_goals
        obtain rfl := Option.some.inj hs
        rfl
    | reading identity =>
      simp only [advance] at hs
      split at hs
      · obtain rfl := Option.some.inj hs
        rfl
      · exact (startJob_parts hs).2.2.1
    | _ =>
      obtain rfl := Option.some.inj hs
      rfl
  | cleanup phase =>
    cases phase with
    | entered =>
      have hjob : S.startJob cfg k .cleanupInactiveSessions (fun i ↦ .cleanup (.passing i)) = some S' := hs
      exact (startJob_parts hjob).2.2.1
    | _ =>
      obtain rfl := Option.some.inj hs
      rfl
  | ackTimeout phase =>
    cases phase with
    | entered =>
      have hjob : S.startJob cfg k .checkExpiredAcks (fun i ↦ .ackTimeout (.passing i)) = some S' := hs
      exact (startJob_parts hjob).2.2.1
    | _ =>
      obtain rfl := Option.some.inj hs
      rfl
  | send i =>
    obtain rfl := Option.some.inj hs
    rfl

theorem may_of_refined {code : o.Res → Program Unit} (hr : Refined cfg admits metrics S)
    (ht : S.pool.threads[i]? = some ⟨j, .op o code⟩) (hj : isSender j = true) :
    spendProtocol.may (spendPhase i S.pool.world) o := by
  obtain ⟨pool, hreach, hthreads, n, hworld⟩ := hr
  rw [hthreads] at ht
  have hfollows := follows_of_reachable (P := fun _ ↦ spendProtocol) (s := spendStart) (Q := fun _ _ ↦ True)
    (X := fun _ _ ↦ True) (spends_code cfg) hreach i _ ht
  have hstart : spendStart j = .outside := if_pos hj
  have hlog : S.pool.world.log = pool.world.log := by
    rw [hworld]
    rfl
  rw [spendPhase, hlog, ← hstart]
  exact hfollows.1

theorem fewer_next (hr : Refined cfg admits metrics S) (hrun : S.running = true) (ha : a.drains = true)
    (hs : next cfg S a = some S') : S'.running = true ∧ Fewer (todo S') (todo S) := by
  cases a with
  | work k ch =>
    simp only [next, work] at hs
    split at hs
    · next h hk =>
      split at hs
      · exact ⟨(running_of_stage (stage_advance hs)).trans hrun, fewer_of_advance hk hs⟩
      · obtain ⟨i, -, hstep⟩ := Option.bind_eq_some_iff.mp hs
        obtain ⟨pool, hpool, rfl⟩ := Option.map_eq_some_iff.mp hstep
        exact ⟨hrun, fewer_of_step hpool rfl fun j o code ht hj ↦ may_of_refined hr ht hj⟩
    · cases hs
  | dispatch k c =>
    cases c with
    | sendTask =>
      simp only [next] at hs
      split at hs
      · next hk =>
        refine ⟨(running_of_stage ?_).trans hrun, fewer_of_task hs hk.2 hrun⟩
        simp only [dispatch, hrun, if_true] at hs
        exact (startJob_parts hs).2.2.1
      · cases hs
    | _ => cases ha
  | _ => cases ha

/-- A step of the workers, before which time may pass. -/
def Drains (cfg : Config) : Server → Server → Prop :=
  (server cfg).Advances (fun _ a ↦ ∃ t, a = .tick t) fun _ a ↦ a.drains = true

/-- No worker has anything to do, and the callback of every send that was ever enqueued was called once. -/
structure Drained (S : Server) : Prop where
  free : ∀ x ∈ S.workers, x = none
  tasks : S.pool.world.postedTasks = 0
  queue : S.pool.world.pendingSends = []
  called : ∀ e ∈ entries S.pool.world.log, e.place = .finished ∧ e.calls = 1

theorem nextOp_of_ended (hend : ∀ t ∈ pool.threads, t.ended) (i : ℕ) : pool.nextOp i = none := by
  cases ho : pool.nextOp i with
  | none => rfl
  | some o =>
    obtain ⟨j, code, ht⟩ := thread_of_nextOp ho
    obtain ⟨u, hu⟩ := hend _ (List.mem_of_getElem? ht)
    cases hu

theorem finished_of_ended (hreach : (broker cfg).Reachable ok (initial metrics) pool)
    (hend : ∀ t ∈ pool.threads, t.ended) (htasks : pool.world.postedTasks = 0) :
    pool.world.pendingSends = [] ∧ ∀ e ∈ entries pool.world.log, e.place = .finished ∧ e.calls = 1 := by
  have hnone := nextOp_of_ended hend
  have hqueue : pool.world.pendingSends = [] := by
    by_contra hq
    cases SendQueue.attended hreach hq with
    | posted h => exact absurd htasks (Nat.ne_of_gt h)
    | starting i h => cases (hnone i).symm.trans h
    | posting i h => cases (hnone i).symm.trans h
    | processing i t ht hcertain =>
      obtain ⟨u, hu⟩ := hend t (List.mem_of_getElem? ht)
      rw [hu] at hcertain
      exact hcertain
  have hbatch (i : ℕ) : pool.world.batches i = [] := by
    by_contra hb
    obtain ⟨o, ho⟩ := SendQueue.owner_of_batch hreach hb
    cases (hnone i).symm.trans ho
  have hc := conserved hreach
  refine ⟨hqueue, fun e he ↦ ?_⟩
  have gone {x : Place} (hx : ((entries pool.world.log).filter (Entry.isAt x)).map Entry.view = []) :
    e.place ≠ x := by
    intro hplace
    have hmem : e ∈ (entries pool.world.log).filter (Entry.isAt x) :=
      List.mem_filter.mpr ⟨he, isAt_iff.mpr hplace⟩
    rw [map_view_eq_nil hx] at hmem
    cases hmem
  cases hplace : e.place with
  | queue => exact absurd hplace (gone (by rw [← hc.queue, hqueue]; rfl))
  | batch i => exact absurd hplace (gone (by rw [← hc.batch, hbatch]; rfl))
  | finished => exact ⟨rfl, hc.finished e he hplace⟩

theorem ended_of_free (hw : Wired cfg S) (hfree : ∀ x ∈ S.workers, x = none) :
    ∀ t ∈ S.pool.threads, t.ended := by
  intro t ht
  by_contra hend
  obtain ⟨k, g, i, hk, -⟩ := busy_of_running hw ht hend
  cases hfree _ (List.mem_of_getElem? hk)

theorem task_isSome (hk : S.workers[k]? = some none) (hrun : S.running = true)
    (htasks : S.pool.world.postedTasks ≠ 0) :
    (next cfg S (.dispatch k .sendTask)).isSome := by
  have hstage : S.stage = .up := of_decide_eq_true hrun
  have hstart : ServerJobs.start .sendTask S.pool.world =
      some { S.pool.world with postedTasks := S.pool.world.postedTasks - 1 } := if_neg htasks
  simp only [next, hstage, hk, dispatch, hrun, if_true, Server.startJob]
  rw [if_pos ⟨by decide, trivial⟩, Option.isSome_map]
  change ((ServerJobs.start .sendTask S.pool.world).map _).isSome
  rw [hstart]
  rfl

/-- Where the workers stop, nothing is left to send. -/
theorem drained_of_stuck (h : (server cfg).Leads (Admitted admits) (started cfg threads metrics) S)
    (hrun : S.running = true) (hthreads : 0 < threads) (ht : S.pool.world.terminated = false)
    (hn : NothingToRemove S.pool.world) (hstuck : ∀ a, a.drains = true → next cfg S a = none) : Drained S := by
  have hw := wired_of_leads h
  have hfree : ∀ x ∈ S.workers, x = none := by
    have hh := holds_of_leads h
    refine (free_or_goes_on hw hh ht (not_waitsForItself hh hn ht)).resolve_right ?_
    rintro ⟨k, ch, hsome⟩
    rw [hstuck (.work k ch) rfl] at hsome
    cases hsome
  have htasks : S.pool.world.postedTasks = 0 := by
    by_contra hposted
    have hlen : 0 < S.workers.length := by rwa [length_of_leads h]
    have hk : S.workers[0]? = some none := by
      rw [List.getElem?_eq_getElem hlen, hfree _ (List.getElem_mem hlen)]
    have hsome : (next cfg S (.dispatch 0 .sendTask)).isSome := task_isSome hk hrun hposted
    rw [hstuck (.dispatch 0 .sendTask) rfl] at hsome
    cases hsome
  obtain ⟨pool, hreach, hpool, n, hworld⟩ := refined_of_leads h hrun
  have hend := ended_of_free hw hfree
  rw [hpool] at hend
  obtain ⟨hqueue, hcalled⟩ := finished_of_ended hreach hend (by rw [hworld] at htasks; exact htasks)
  refine ⟨hfree, htasks, ?_, ?_⟩ <;> rw [hworld]
  · exact hqueue
  · exact hcalled

theorem admitted_any (ha : Admitted admits S a) : Admitted (fun _ ↦ True) S a := by
  cases a with
  | dispatch k c =>
    cases c with
    | eventError aborted => cases aborted <;> exact ha
    | _ => trivial
  | _ => trivial

theorem admitted_drains (ha : a.drains = true) : Admitted (fun _ ↦ True) S a := by
  cases a with
  | dispatch k c =>
    cases c with
    | sendTask => trivial
    | _ => cases ha
  | _ => trivial

/-- A state that a server reaches without being stopped. -/
def Runs (cfg : Config) (threads : ℕ) (metrics : Option Metrics) (S : Server) : Prop :=
  (server cfg).Leads (Admitted fun _ ↦ True) (started cfg threads metrics) S ∧ S.running = true

theorem runs_tick {t : Tick} (hS : Runs cfg threads metrics S) (hs : next cfg S (.tick t) = some S') :
    Runs cfg threads metrics S' ∧ todo S' = todo S := by
  have hleads : (server cfg).Leads (Admitted fun _ ↦ True) (started cfg threads metrics) S' :=
    .next (.tick t) hS.1 trivial hs
  obtain rfl := Option.some.inj hs
  exact ⟨⟨hleads, hS.2⟩, rfl⟩

theorem runs_drains (hS : Runs cfg threads metrics S) (ha : a.drains = true) (hs : next cfg S a = some S') :
    Runs cfg threads metrics S' ∧ Fewer (todo S') (todo S) := by
  obtain ⟨hrun, hless⟩ := fewer_next (refined_of_leads hS.1 hS.2) hS.2 ha hs
  exact ⟨⟨.next a hS.1 (admitted_drains ha) hs, hrun⟩, hless⟩

/-- No send waits for ever: as long as no further event and no timer is handled,
the workers of a running server come to rest, whatever the order of their steps
and however time passes, and wherever they do, every send that was ever enqueued
is finished, its callback called once, unless a cleanup pass waits for itself. -/
theorem sends_drain (h : (server cfg).Leads (Admitted admits) (started cfg threads metrics) S)
    (hrun : S.running = true) (hthreads : 0 < threads) :
    (¬ ∃ f : ℕ → Server, f 0 = S ∧ ∀ n, Drains cfg (f (n + 1)) (f n)) ∧
    ∀ T, (server cfg).Leads (fun _ a ↦ a.drains = true ∨ ∃ t, a = .tick t) S T →
      T.pool.world.terminated = false →
      NothingToRemove T.pool.world → (∀ a, a.drains = true → next cfg T a = none) → Drained T := by
  have hS : Runs cfg threads metrics S := ⟨h.mono fun _ _ ↦ admitted_any, hrun⟩
  refine ⟨?_, fun T hT ↦ ?_⟩
  · refine System.not_endless (m := todo) fewer_wf hS (fun hS ht hs ↦ ?_) runs_drains
    obtain ⟨t, rfl⟩ := ht
    exact (runs_tick hS hs).imp_right .inr
  · have hruns : Runs cfg threads metrics T := by
      refine hT.invariant hS fun _ hS ha hs ↦ ?_
      obtain ha | ⟨t, rfl⟩ := ha
      · exact (runs_drains hS ha hs).1
      · exact (runs_tick hS hs).1
    exact drained_of_stuck hruns.1 hruns.2 hthreads

/-- A message for bob waits in the queue, and a task is posted for it. -/
theorem sends_drain_bob : ∃ S : Server, S.pool.world.pendingSends.length = 1 ∧ S.pool.world.postedTasks = 1 ∧
    (¬ ∃ f : ℕ → Server, f 0 = S ∧ ∀ n, Drains {} (f (n + 1)) (f n)) ∧
    ∀ T, (server {}).Leads (fun _ a ↦ a.drains = true ∨ ∃ t, a = .tick t) S T → T.pool.world.terminated = false →
      NothingToRemove T.pool.world → (∀ a, a.drains = true → next {} T a = none) → Drained T := by
  have hrun : ((server {}).runs (Admitted fun _ ↦ True)
    (.arrive (multipart { type := .register, sender := [98] }) ::
      .arrive (multipart { sender := [97], destination := [98] }) :: .dispatch 0 .event ::
      List.replicate 61 (.work 0 {})) (started {} 2 none)).map (fun S ↦
        (S.pool.world.pendingSends.length, S.pool.world.postedTasks, S.running)) = some (1, 1, true) := by
    decide +kernel
  obtain ⟨S, hS, hv⟩ := System.exists_leads hrun
  simp only [Prod.mk.injEq] at hv
  obtain ⟨hq, htasks, hr⟩ := hv
  exact ⟨S, hq, htasks, sends_drain hS hr Nat.two_pos⟩

end MessageBroker.EventLoop
