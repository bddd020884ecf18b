import MessageBroker.WorkerChains

namespace MessageBroker.EventLoop

open ByteStrings WireMessages PairedReading ThreadPools BrokerState ServerJobs ServerOutlines RunInvariants
  HandOverOnce TransitionSystems ReceiveLoop

variable {cfg : Config} {S S' : Server} {k i n : ℕ} {h h' : Handler} {c : Chain} {j : Job} {ch : Choice}
  {a : Action} {admits : Choice → Prop} {pool pool' : State} {threads : ℕ} {metrics : Option Metrics}
  {batches : List (List Multipart)} {waiting : List Multipart} {read : List Frame} {p p' : EventPhase}

/-- The jobs that have started to handle what was received, in their order. -/
def received (pool : State) : List Job := (pool.threads.map (·.job)).filter isReceive

/-- The rounds of all events, each of which reads what has arrived by its end. -/
def rounds : ℕ → List (List Multipart) → List Round
  | _, [] => []
  | n, batch :: batches => onZmqEvent (frames n batch) ++ rounds (n + batch.length) batches

/-- What the handler of an event that is in this phase has read, but for whole rounds. -/
def Read : EventPhase → List Frame → Prop
  | .looping, read | .receiving, read | .routing _, read => leftover read = []
  | .reading identity, read => leftover read = [identity]
  | _, read => read = []

/-- The events before the present one have read `batches`, the present one `read`. -/
structure Reads (S : Server) (batches : List (List Multipart)) (waiting : List Multipart) (read : List Frame) :
    Prop where
  arrived : S.arrived = batches.flatten ++ waiting
  inbox : frames batches.flatten.length waiting = read ++ S.inbox
  received : received S.pool = (rounds 0 batches ++ onZmqEvent read).map Round.job
  phase : ∀ (k : ℕ) (p : EventPhase), S.workers[k]? = some (some (.event p)) → Read p read
  idle : busy S .event = 0 → read = []

theorem rounds_concat (n : ℕ) (batches : List (List Multipart)) (batch : List Multipart) :
    rounds n (batches ++ [batch]) = rounds n batches ++
      onZmqEvent (frames (n + batches.flatten.length) batch) := by
  induction batches generalizing n with
  | nil => simp [rounds]
  | cons b batches ih =>
    rw [List.cons_append, rounds, ih, rounds, List.append_assoc, List.flatten_cons, List.length_append,
      Nat.add_assoc]

theorem frames_append (n : ℕ) (ms ms' : List Multipart) :
    frames n (ms ++ ms') = frames n ms ++ frames (n + ms.length) ms' := by
  induction ms generalizing n with
  | nil => rfl
  | cons m ms ih =>
    rw [List.cons_append, frames, ih, frames, List.append_assoc, List.length_cons, Nat.add_right_comm,
      Nat.add_assoc]

theorem onZmqEvent_append (fs fs' : List Frame) :
    onZmqEvent (fs ++ fs') = onZmqEvent fs ++ onZmqEvent (leftover fs ++ fs') := by
  rw [onZmqEvent_eq, pairs_append, List.map_append, onZmqEvent_eq, onZmqEvent_eq]

theorem leftover_append {α : Type} (l l' : List α) : leftover (l ++ l') = leftover (leftover l ++ l') := by
  induction l using leftover.induct with
  | case1 => rfl
  | case2 a => rfl
  | case3 a b l ih => exact ih

theorem received_start (hs : (broker cfg).next pool (.start j) = some pool') :
    received pool' = received pool ++ if isReceive j = true then [j] else [] := by
  obtain ⟨w', -, rfl⟩ := Machine.start_cases hs
  rw [received, List.map_append, List.filter_append]
  refine congrArg (received pool ++ ·) ?_
  cases h : isReceive j <;> simp [h]

theorem received_step (hs : (broker cfg).next pool (.step i ch) = some pool') :
    received pool' = received pool := by
  have hjobs : pool'.threads.map (·.job) = pool.threads.map (·.job) := by
    refine List.ext_getElem? fun i' ↦ ?_
    rw [List.getElem?_map, List.getElem?_map]
    exact Machine.job_step hs i'
  rw [received, received, hjobs]

theorem Reads.aside (h : Reads S batches waiting read) {x y : Option Handler} (hk : S.workers[k]? = some x)
    (hw : S'.workers = S.workers.set k y) (hx : x.any (·.chain = .event) = false)
    (hy : y.any (·.chain = .event) = false) (harrived : S'.arrived = S.arrived) (hinbox : S'.inbox = S.inbox)
    (hreceived : EventLoop.received S'.pool = EventLoop.received S.pool) : Reads S' batches waiting read := by
  refine ⟨harrived.trans h.arrived, hinbox ▸ h.inbox, hreceived.trans h.received, fun k' p hk' ↦ ?_,
    fun hb ↦ h.idle ?_⟩
  · rcases worker_cases hw hk' with ⟨-, rfl⟩ | ⟨-, hk'⟩
    · cases hy
    · exact h.phase k' p hk'
  · have hset := busy_set hk hw .event
    rw [hx, hy] at hset
    omega

theorem Reads.elsewhere (h : Reads S batches waiting read) (hw : S'.workers = S.workers)
    (harrived : S'.arrived = S.arrived) (hinbox : S'.inbox = S.inbox)
    (hreceived : EventLoop.received S'.pool = EventLoop.received S.pool) : Reads S' batches waiting read := by
  refine ⟨harrived.trans h.arrived, hinbox ▸ h.inbox, hreceived.trans h.received, fun k p hk ↦ ?_,
    fun hb ↦ h.idle ?_⟩
  · rw [hw] at hk
    exact h.phase k p hk
  · rwa [busy, hw] at hb

theorem reads_phased {x : Option Handler}
    (hothers : ∀ (k' : ℕ) (p : EventPhase), k' ≠ k → S.workers[k']? ≠ some (some (.event p)))
    (hk : S.workers[k]? = some x) (hw : S'.workers = S.workers.set k (some (.event p')))
    (harrived : S'.arrived = batches.flatten ++ waiting)
    (hinbox : frames batches.flatten.length waiting = read ++ S'.inbox)
    (hreceived : EventLoop.received S'.pool = (rounds 0 batches ++ onZmqEvent read).map Round.job)
    (hread : Read p' read) : Reads S' batches waiting read := by
  refine ⟨harrived, hinbox, hreceived, fun k' q hk' ↦ ?_, fun hb ↦ ?_⟩
  · rcases worker_cases hw hk' with ⟨-, hq⟩ | ⟨hne, hk'⟩
    · cases hq
      exact hread
    · exact absurd hk' (hothers k' q hne)
  · have hpos := busy_pos (worker_set hw hk)
    rw [show (Handler.event p').chain = .event from rfl, hb] at hpos
    cases hpos

theorem no_event_of_busy (h : busy S .event = 0) (k : ℕ) (p : EventPhase) :
    S.workers[k]? ≠ some (some (.event p)) := by
  intro hk
  have hpos := busy_pos hk
  rw [show (Handler.event p).chain = .event from rfl, h] at hpos
  cases hpos

theorem Reads.emptied (h : Reads S batches waiting read) (hempty : S.inbox = []) (hsingle : busy S .event ≤ 1)
    (hk : S.workers[k]? = some (some (.event p))) :
    Reads (S.setWorker k (some (.event .leaving))) (batches ++ [waiting]) [] [] := by
  have hframes : frames batches.flatten.length waiting = read := by
    rw [h.inbox, hempty, List.append_nil]
  refine reads_phased (fun k' q hne hk' ↦ hne (worker_unique hsingle hk hk' rfl)) hk rfl ?_ ?_ ?_ rfl
  · rw [List.flatten_append, List.flatten_singleton, List.append_nil]
    exact h.arrived
  · exact hempty.symm
  · rw [rounds_concat, Nat.zero_add, hframes, onZmqEvent, List.append_nil]
    exact h.received

theorem reads_startJob {x : Option Handler} {handler : ℕ → Handler} (hr : Reads S batches waiting read)
    (hk : S.workers[k]? = some x) (hx : x.any (·.chain = .event) = false) (hj : isReceive j = false)
    (hc : ∀ i, decide ((handler i).chain = .event) = false) (hs : S.startJob cfg k j handler = some S') :
    Reads S' batches waiting read := by
  obtain ⟨pool, hpool, rfl⟩ := Option.map_eq_some_iff.mp hs
  refine hr.aside hk rfl hx (hc _) rfl rfl ?_
  have hstart := received_start hpool
  rw [hj] at hstart
  exact hstart.trans (List.append_nil _)

theorem reads_advance (hr : Reads S batches waiting read) (hsingle : busy S .event ≤ 1) (hrun : S.running = true)
    (hk : S.workers[k]? = some (some h)) (hs : advance cfg k S h = some S') :
    ∃ batches waiting read, Reads S' batches waiting read := by
  cases h with
  | event phase =>
    have hothers (k' : ℕ) (q : EventPhase) (hne : k' ≠ k) : S.workers[k']? ≠ some (some (.event q)) :=
      fun hk' ↦ hne (worker_unique hsingle hk hk' rfl)
    have hphase := hr.phase k phase hk
    cases phase with
    | entered =>
      obtain rfl := Option.some.inj hs
      exact ⟨batches, waiting, read, reads_phased hothers hk rfl hr.arrived hr.inbox hr.received hphase⟩
    | updated =>
      have hjob : S.startJob cfg k .processPendingSends (fun i ↦ .event (.sending i)) = some S' := hs
      obtain ⟨pool, hpool, rfl⟩ := Option.map_eq_some_iff.mp hjob
      refine ⟨batches, waiting, read, reads_phased hothers hk rfl hr.arrived hr.inbox ?_ hphase⟩
      exact (received_start hpool).trans ((List.append_nil _).trans hr.received)
    | sending i =>
      obtain rfl := Option.some.inj hs
      refine ⟨batches, waiting, read, reads_phased hothers hk rfl hr.arrived hr.inbox hr.received ?_⟩
      obtain rfl : read = [] := hphase
      split <;> rfl
    | looping =>
      obtain rfl := Option.some.inj hs
      refine ⟨batches, waiting, read, reads_phased hothers hk rfl hr.arrived hr.inbox hr.received ?_⟩
      rw [if_pos hrun]
      exact hphase
    | receiving =>
      simp only [advance] at hs
      split at hs
      · next hempty =>
        obtain rfl := Option.some.inj hs
        exact ⟨_, _, _, hr.emptied hempty hsingle hk⟩
      · next identity rest hinbox =>
        obtain rfl := Option.some.inj hs
        have hleft : leftover read = [] := hphase
        refine ⟨batches, waiting, read ++ [identity], reads_phased hothers hk rfl hr.arrived ?_ ?_ ?_⟩
        · rw [hr.inbox, hinbox, List.append_assoc]
          rfl
        · rw [onZmqEvent_append, hleft, List.nil_append, onZmqEvent, List.append_nil]
          exact hr.received
        · change leftover (read ++ [identity]) = [identity]
          rw [leftover_append, hleft]
          rfl
    | reading identity =>
      have hleft : leftover read = [identity] := hphase
      simp only [advance] at hs
      split at hs
      · next hempty =>
        obtain rfl := Option.some.inj hs
        exact ⟨_, _, _, hr.emptied hempty hsingle hk⟩
      · next data rest hinbox =>
        obtain ⟨pool, hpool, rfl⟩ := Option.map_eq_some_iff.mp hs
        refine ⟨batches, waiting, read ++ [data], reads_phased hothers hk rfl hr.arrived ?_ ?_ ?_⟩
        · rw [hr.inbox, hinbox, List.append_assoc]
          rfl
        · rw [onZmqEvent_append, hleft, ← List.append_assoc, List.map_append, ← hr.received]
          exact received_start hpool
        · change leftover (read ++ [data]) = []
          rw [leftover_append, hleft]
          rfl
    | routing i =>
      obtain rfl := Option.some.inj hs
      exact ⟨batches, waiting, read, reads_phased hothers hk rfl hr.arrived hr.inbox hr.received hphase⟩
    | leaving =>
      obtain rfl := Option.some.inj hs
      rw [if_pos hrun]
      exact ⟨batches, waiting, read, reads_phased hothers hk rfl hr.arrived hr.inbox hr.received hphase⟩
    | arming =>
      obtain rfl := Option.some.inj hs
      obtain rfl : read = [] := hphase
      refine ⟨batches, waiting, [], hr.arrived, hr.inbox, hr.received, fun k' q hk' ↦ ?_, fun _ ↦ rfl⟩
      rcases worker_cases rfl hk' with ⟨-, hq⟩ | ⟨-, hk'⟩
      · cases hq
      · exact hr.phase k' q hk'
  | cleanup phase =>
    refine ⟨batches, waiting, read, ?_⟩
    cases phase with
    | entered =>
      have hjob : S.startJob cfg k .cleanupInactiveSessions (fun i ↦ .cleanup (.passing i)) = some S' := hs
      exact reads_startJob hr hk rfl rfl (fun _ ↦ rfl) hjob
    | passing i =>
      obtain rfl := Option.some.inj hs
      rw [if_pos hrun]
      exact hr.aside hk rfl rfl rfl rfl rfl rfl
    | arming =>
      obtain rfl := Option.some.inj hs
      exact hr.aside (y := none) hk rfl rfl rfl rfl rfl rfl
  | ackTimeout phase =>
    refine ⟨batches, waiting, read, ?_⟩
    cases phase with
    | entered =>
      have hjob : S.startJob cfg k .checkExpiredAcks (fun i ↦ .ackTimeout (.passing i)) = some S' := hs
      exact reads_startJob hr hk rfl rfl (fun _ ↦ rfl) hjob
    | passing i =>
      obtain rfl := Option.some.inj hs
      refine hr.aside hk rfl rfl ?_ rfl rfl rfl
      split <;> rfl
    | arming =>
      obtain rfl := Option.some.inj hs
      exact hr.aside (y := none) hk rfl rfl rfl rfl rfl rfl
  | send i =>
    obtain rfl := Option.some.inj hs
    exact ⟨batches, waiting, read, hr.aside hk (y := none) rfl rfl rfl rfl rfl rfl⟩

theorem reads_dispatch {x : Completion} (hr : Reads S batches waiting read) (htotal : total S .event ≤ 1)
    (hrun : S.running = true)
    (hk : S.workers[k]? = some none) (hs : dispatch cfg k S x = some S') (hx : x ≠ .eventError true) :
    Reads S' batches waiting read := by
  have hidle (harm : S.eventArmed = true) : busy S .event = 0 := by
    rw [total, armed, harm, Bool.toNat_true] at htotal
    omega
  cases x with
  | event =>
    simp only [dispatch, hrun, if_true] at hs
    split at hs
    · next harm =>
      obtain rfl := Option.some.inj hs
      exact reads_phased (fun k' q _ ↦ no_event_of_busy (hidle harm) k' q) hk rfl hr.arrived hr.inbox hr.received
        (hr.idle (hidle harm))
    · cases hs
  | eventError aborted =>
    cases aborted with
    | true => exact absurd rfl hx
    | false =>
      simp only [dispatch, hrun, Bool.not_false, Bool.and_true, if_true] at hs
      split at hs
      · next harm =>
        obtain rfl := Option.some.inj hs
        exact reads_phased (fun k' q _ ↦ no_event_of_busy (hidle harm) k' q)
          hk rfl hr.arrived hr.inbox hr.received (hr.idle (hidle harm))
      · cases hs
  | cleanup =>
    simp only [dispatch, hrun, if_true] at hs
    split at hs
    · obtain rfl := Option.some.inj hs
      exact hr.aside hk rfl rfl rfl rfl rfl rfl
    · cases hs
  | ackTimeout =>
    simp only [dispatch, hrun, if_true] at hs
    split at hs
    · obtain rfl := Option.some.inj hs
      exact hr.aside hk rfl rfl rfl rfl rfl rfl
    · cases hs
  | sendTask =>
    simp only [dispatch, hrun, if_true] at hs
    exact reads_startJob hr hk rfl rfl (fun _ ↦ rfl) hs

theorem reads_next (hr : Reads S batches waiting read) (htotal : total S .event ≤ 1) (hrun : S.running = true)
    (hs : next cfg S a = some S') (ha : Admitted admits S a) (hrun' : S'.running = true) :
    ∃ batches waiting read, Reads S' batches waiting read := by
  cases a with
  | arrive m =>
    obtain rfl := Option.some.inj hs
    refine ⟨batches, waiting ++ [m], read, ?_, ?_, hr.received, hr.phase, hr.idle⟩
    · change S.arrived ++ [m] = _
      rw [hr.arrived, List.append_assoc]
    · change _ = read ++ (S.inbox ++ m.frames S.arrived.length)
      rw [frames_append, hr.inbox, hr.arrived, List.length_append, List.append_assoc, frames, frames,
        List.append_nil]
  | dispatch k x =>
    simp only [next] at hs
    split at hs
    · next hk =>
      refine ⟨batches, waiting, read, reads_dispatch hr htotal hrun hk.2 hs ?_⟩
      rintro rfl
      exact Bool.false_ne_true (ha.symm.trans hrun)
    · cases hs
  | work k ch =>
    simp only [next, work] at hs
    split at hs
    · next h hk =>
      split at hs
      · exact reads_advance hr ((Nat.le_add_left ..).trans htotal) hrun hk hs
      · obtain ⟨i, -, hstep⟩ := Option.bind_eq_some_iff.mp hs
        obtain ⟨pool, hpool, rfl⟩ := Option.map_eq_some_iff.mp hstep
        exact ⟨batches, waiting, read, hr.elsewhere rfl rfl rfl (received_step hpool)⟩
    · cases hs
  | stop =>
    have hup : S.stage = .up := of_decide_eq_true hrun
    simp only [next, stop, hup] at hs
    obtain rfl := Option.some.inj hs
    exact absurd hrun' (by simp [Server.running])
  | tick t =>
    obtain rfl := Option.some.inj hs
    exact ⟨batches, waiting, read, hr.elsewhere rfl rfl rfl rfl⟩

theorem reads_started : Reads (started cfg threads metrics) [] [] [] := by
  obtain ⟨cleanup, ackTimeout, heq⟩ := started_eq cfg threads metrics
  rw [heq]
  refine ⟨rfl, rfl, rfl, fun k p hk ↦ ?_, fun _ ↦ rfl⟩
  cases List.eq_of_mem_replicate (List.mem_of_getElem? hk)

theorem reads_of_leads (h : (server cfg).Leads (Admitted admits) (started cfg threads metrics) S)
    (hrun : S.running = true) :
    ∃ batches waiting read, Reads S batches waiting read := by
  refine h.invariant (P := fun S ↦ S.running = true → ∃ batches waiting read, Reads S batches waiting read)
    (fun _ ↦ ⟨[], [], [], reads_started⟩) (fun {T T' l} hl ih ha hs hrun' ↦ ?_) hrun
  have hrunT := running_of_next (shape_of_next hs ha) hrun'
  obtain ⟨batches, waiting, read, hr⟩ := ih hrunT
  exact reads_next hr ((wired_of_leads hl).single _ (by decide)) hrunT hs ha hrun'

/-- The job that a message with one body is received by. -/
def receipt (m : Multipart) : Job := .receive m.identity (m.bodies.headD [])

theorem receipts_of_single {ms : List Multipart} {rest : List Frame} (hone : ∀ m ∈ ms, m.bodies.length = 1)
    (h : frames n ms = read ++ rest) :
    (onZmqEvent read).map Round.job = (ms.take (read.length / 2)).map receipt := by
  induction read using onZmqEvent.induct generalizing n ms with
  | case1 => rfl
  | case2 f => simp [onZmqEvent]
  | case3 identity data read ih =>
    cases ms with
    | nil => cases h
    | cons m ms =>
      obtain ⟨body, hbody⟩ := List.length_eq_one_iff.mp (hone m List.mem_cons_self)
      have hframes : frames n (m :: ms) = ⟨m.identity, n, 0⟩ :: ⟨body, n, 1⟩ :: frames (n + 1) ms := by
        rw [frames, Multipart.frames, hbody]
        rfl
      rw [hframes] at h
      obtain ⟨hidentity, h⟩ := List.cons.inj h
      obtain ⟨hdata, h⟩ := List.cons.inj h
      have hlen : (identity :: data :: read).length / 2 = read.length / 2 + 1 := by
        simp only [List.length_cons]
        omega
      rw [hlen, List.take_succ_cons, onZmqEvent, List.map_cons, List.map_cons,
        ih (fun m' hm' ↦ hone m' (List.mem_cons_of_mem _ hm')) h, receipt, hbody]
      rw [← hidentity, ← hdata]
      rfl

theorem length_frames {ms : List Multipart} (hone : ∀ m ∈ ms, m.bodies.length = 1) :
    (frames n ms).length = 2 * ms.length := by
  induction ms generalizing n with
  | nil => rfl
  | cons m ms ih =>
    have hm : (m.frames n).length = 2 := by
      rw [Multipart.frames, List.length_cons, bodyFrames_length, hone m List.mem_cons_self]
    rw [frames, List.length_append, hm, ih fun m' hm' ↦ hone m' (List.mem_cons_of_mem _ hm'), List.length_cons]
    omega

theorem receipts_of_batches (hone : ∀ m ∈ batches.flatten, m.bodies.length = 1) :
    (rounds n batches).map Round.job = batches.flatten.map receipt := by
  induction batches generalizing n with
  | nil => rfl
  | cons batch batches ih =>
    have hbatch : ∀ m ∈ batch, m.bodies.length = 1 := fun m hm ↦ hone m (List.mem_append_left _ hm)
    have hread : (onZmqEvent (frames n batch)).map Round.job =
      (batch.take ((frames n batch).length / 2)).map receipt :=
      receipts_of_single hbatch (List.append_nil _).symm
    rw [length_frames hbatch, Nat.mul_div_cancel_left _ Nat.two_pos, List.take_length] at hread
    rw [rounds, List.map_append, hread, ih fun m hm ↦ hone m (List.mem_append_right _ hm), List.flatten_cons,
      List.map_append]

/-- If every message that arrives has one body, as all clients send them, each is
received once, in the order of arrival, but for those that are still in the inbox. -/
theorem received_in_order (h : (server cfg).Leads (Admitted admits) (started cfg threads metrics) S)
    (hrun : S.running = true) (hone : ∀ m ∈ S.arrived, m.bodies.length = 1) :
    received S.pool = (S.arrived.take ((2 * S.arrived.length - S.inbox.length) / 2)).map receipt := by
  obtain ⟨batches, waiting, read, hr⟩ := reads_of_leads h hrun
  have harrived := hr.arrived
  have hinbox := hr.inbox
  rw [harrived] at hone
  have hwaiting : ∀ m ∈ waiting, m.bodies.length = 1 := fun m hm ↦ hone m (List.mem_append_right _ hm)
  have hlen := congrArg List.length hinbox
  rw [length_frames hwaiting, List.length_append] at hlen
  have htake : (2 * S.arrived.length - S.inbox.length) / 2 = batches.flatten.length + read.length / 2 := by
    rw [harrived, List.length_append]
    omega
  rw [hr.received, List.map_append, receipts_of_batches fun m hm ↦ hone m (List.mem_append_left _ hm),
    receipts_of_single hwaiting hinbox, htake, harrived, List.take_length_add_append, List.map_append]

end MessageBroker.EventLoop
