import MessageBroker.ExclusiveSender
import Mathlib.Algebra.Order.BigOperators.Group.Finset

namespace MessageBroker.SendPasses

open WireMessages MessageStore ProgramTrees ThreadPools Protocols BrokerState SessionQueues ServerJobs
  OperationEffects ThreadViews SharedInvariant ProgramShapes ServerOutlines RunInvariants ThreadPhases
open ExclusiveSender (frames)

/-- What a pass over the queue has done with one send: the frames that it tried
and the socket's answers, the calls of the callback, and what it counted. -/
structure Handling where
  send : PendingSend
  tries : List (SendPart × SendResult) := []
  callbacks : List Bool := []
  counted : List Counter := []

namespace Handling

variable (h : Handling)

def dataAccepted : Bool := (.data, .accepted) ∈ h.tries

/-- The send of the identity or of the delimiter would have blocked. -/
def BlockedEarly : Prop := (.identity, .wouldBlock) ∈ h.tries ∨ (.delimiter, .wouldBlock) ∈ h.tries

instance : Decidable h.BlockedEarly := by
  unfold BlockedEarly
  infer_instance

/-- A frame after the identity was not accepted. -/
def Cut : Prop := ∃ t ∈ h.tries, t.1 ≠ .identity ∧ t.2 ≠ .accepted

instance : Decidable h.Cut := by
  unfold Cut
  infer_instance

/-- The counter that agrees with the callback. -/
def outcome : Counter := if h.dataAccepted then .messagesSent else .messagesFailed

def accepted : List (PendingSend × SendPart) :=
  (h.tries.filter fun t ↦ t.2 = .accepted).map fun t ↦ (h.send, t.1)

/-- What one more operation of the loop adds. -/
def after (o : Op) (r : o.Res) : Handling :=
  match o, r with
  | .sendFrame _ part, result => { h with tries := h.tries ++ [(part, result)] }
  | .callback _ success, _ => { h with callbacks := h.callbacks ++ [success] }
  | .increment counter, _ => { h with counted := h.counted ++ [counter] }
  | _, _ => h

theorem after_send (o : Op) (r : o.Res) : (h.after o r).send = h.send := by
  cases o <;> rfl

end Handling

/-- The frames that are tried when the socket answers as `f` says. -/
def attempts (f : SendPart → SendResult) : List SendPart → List (SendPart × SendResult)
  | [] => []
  | part :: parts => (part, f part) :: if f part = .accepted then attempts f parts else []

/-- The loop is done with a send: it has tried the frames up to the first that
was not accepted and called the callback once. It leaves out the counters where
the identity or the delimiter would have blocked. -/
structure Handling.Over (h : Handling) : Prop where
  tries : ∃ f, h.tries = attempts f frames
  callbacks : h.callbacks = [h.dataAccepted]
  counted : h.counted = if h.BlockedEarly then [] else [h.outcome]

/-- How far a pass has come. -/
structure Pass where
  started : Bool := false
  finished : List Handling := []
  current : Option Handling := none

def isSender : Job → Bool
  | .processPendingSends | .sendTask => true
  | _ => false

def sendPassProtocol (j : Job) : Protocol Op Op.Res Pass where
  may x o :=
    match o with
    | .takePendingSends => x = {}
    | .frontSend => x.current = none
    | .sendFrame send _ | .callback send _ => ∃ h, x.current = some h ∧ h.send = send
    | .popSend => ∃ h, x.current = some h ∧ h.Over
    | .increment _ => x.current.isSome = isSender j
    | _ => True
  next x o r :=
    match o, r with
    | .takePendingSends, _ => { x with started := true }
    | .frontSend, some send => { x with current := some { send } }
    | .popSend, _ => { x with finished := x.finished ++ x.current.toList, current := none }
    | o, r => { x with current := x.current.map (·.after o r) }

theorem keeps_perform {j : Job} (hj : isSender j = false) {o : Op} (h : family o ≠ .sends) :
    Keeps (sendPassProtocol j) {} (perform o) := by
  cases o with
  | pushPendingSend | postSendTask | isSending | takePendingSends | frontSend | sendFrame
  | callback | popSend | finishSends | updateQueueMetrics => exact absurd rfl h
  | increment counter => exact .perform hj.symm fun _ ↦ rfl
  | _ => exact .perform trivial fun _ ↦ rfl

theorem handling {j : Job} (hj : isSender j = false) :
    ProgramShapes.Handling (Keeps (sendPassProtocol j) {}) where
  toRegistering := Sending.registering
    { toComposable := Keeps.composable (sendPassProtocol j) {}
      queue := fun o h ↦ keeps_perform hj (by rw [h]; nofun)
      session := fun o h ↦ keeps_perform hj (by rw [h]; nofun)
      sendToClient := fun s c data ↦ ⟨trivial, fun _ ↦ ⟨trivial, fun _ ↦ rfl⟩⟩ }
    (fun o h ↦ keeps_perform hj (by rw [h]; nofun)) fun s ↦ keeps_perform hj nofun
  receipt := fun s ↦ keeps_perform hj nofun
  storage := fun o h ↦ keeps_perform hj (by rw [h]; nofun)

/-- The program of a sender leads from one place of a pass to another, and does not throw. -/
def Moves (j : Job) (p : Program Unit) (Q : Pass → Prop) (x : Pass) : Prop :=
  Follows (sendPassProtocol j) (fun _ ↦ Q) (fun _ _ ↦ False) p x

variable {j : Job} (hj : isSender j = true) {x : Pass} {send : PendingSend}
  {tries : List (SendPart × SendResult)}

/-- The send is done, and the others are as before. -/
def Completes (x : Pass) (send : PendingSend) (y : Pass) : Prop :=
  ∃ h : Handling, h.send = send ∧ h.Over ∧ y = { x with current := some h }

include hj

theorem moves_failSend (counted : Bool) (hover : Handling.Over
    { send, tries, callbacks := [false], counted := if counted then [.messagesFailed] else [] }) :
    Moves j (failSend send counted) (Completes x send) { x with current := some { send, tries } } := by
  refine ⟨⟨_, rfl, rfl⟩, fun _ ↦ ?_⟩
  cases counted with
  | true => exact ⟨hj.symm, fun _ ↦ ⟨_, rfl, hover, rfl⟩⟩
  | false => exact ⟨_, rfl, hover, rfl⟩

theorem moves_sendData : Moves j (sendData send) (Completes x send)
    { x with current := some { send, tries := [(.identity, .accepted), (.delimiter, .accepted)] } } := by
  refine ⟨⟨_, rfl, rfl⟩, fun r ↦ ?_⟩
  cases r with
  | accepted =>
    refine ⟨⟨_, rfl, rfl⟩, fun _ ↦ ⟨hj.symm, fun _ ↦ ⟨_, rfl, ⟨⟨fun _ ↦ .accepted, rfl⟩, rfl, rfl⟩, rfl⟩⟩⟩
  | wouldBlock =>
    exact moves_failSend hj true ⟨⟨fun part ↦ if part = .data then .wouldBlock else .accepted, rfl⟩, rfl, rfl⟩
  | error =>
    exact moves_failSend hj true ⟨⟨fun part ↦ if part = .data then .error else .accepted, rfl⟩, rfl, rfl⟩

theorem moves_sendDelimiter : Moves j (sendDelimiter send) (Completes x send)
    { x with current := some { send, tries := [(.identity, .accepted)] } } := by
  refine ⟨⟨_, rfl, rfl⟩, fun r ↦ ?_⟩
  cases r with
  | accepted => exact moves_sendData hj
  | wouldBlock =>
    exact moves_failSend hj false ⟨⟨fun part ↦ if part = .identity then .accepted else .wouldBlock, rfl⟩, rfl,
      rfl⟩
  | error =>
    exact moves_failSend hj true ⟨⟨fun part ↦ if part = .identity then .accepted else .error, rfl⟩, rfl, rfl⟩

theorem moves_sendIdentity : Moves j (sendIdentity send) (Completes x send)
    { x with current := some { send } } := by
  refine ⟨⟨_, rfl, rfl⟩, fun r ↦ ?_⟩
  cases r with
  | accepted => exact moves_sendDelimiter hj
  | wouldBlock => exact moves_failSend hj false ⟨⟨fun _ ↦ .wouldBlock, rfl⟩, rfl, rfl⟩
  | error => exact moves_failSend hj true ⟨⟨fun _ ↦ .error, rfl⟩, rfl, rfl⟩

theorem moves_sendLoop (n : ℕ) (hx : x.current = none) : Moves j (sendLoop n) (·.current = none) x := by
  induction n generalizing x with
  | zero => exact hx
  | succ n ih =>
    refine ⟨hx, fun r ↦ ?_⟩
    match r with
    | none => exact congrArg (Option.map _) hx
    | some send =>
      refine Follows.bind (p := sendIdentity send) (moves_sendIdentity hj) fun _ y hy ↦ ?_
      obtain ⟨h, -, hover, rfl⟩ := hy
      exact ⟨⟨h, rfl, hover⟩, fun _ ↦ ih rfl⟩

theorem moves_processPendingSends : Moves j processPendingSends (·.current = none) {} := by
  refine ⟨rfl, fun n ↦ ?_⟩
  change Moves j (if n ≠ 0 then _ else _) _ _
  split
  · refine Follows.bind (p := sendLoop n) (moves_sendLoop hj n rfl) fun _ y hy ↦ ?_
    refine ⟨trivial, fun _ ↦ ⟨trivial, fun _ ↦ ?_⟩⟩
    change Option.map _ (Option.map _ y.current) = none
    rw [hy]
    rfl
  · exact rfl

omit hj

theorem follows_code (cfg : Config) (j : Job) :
    Follows (sendPassProtocol j) (fun _ y ↦ y.current = none) (fun _ y ↦ y.current = none) (code cfg j) {} := by
  have idle {p : Program Unit} (h : Keeps (sendPassProtocol j) {} p) :
      Follows (sendPassProtocol j) (fun _ y ↦ y.current = none) (fun _ y ↦ y.current = none) p {} :=
    Follows.mono h (fun _ _ hy ↦ hy ▸ rfl) fun _ _ hy ↦ hy ▸ rfl
  have pass (hj : isSender j = true) : Follows (sendPassProtocol j) (fun _ y ↦ y.current = none)
      (fun _ y ↦ y.current = none) processPendingSends {} :=
    Follows.mono (moves_processPendingSends hj) (fun _ _ hy ↦ hy) fun _ _ hy ↦ hy.elim
  cases j with
  | receive identity data => exact idle (handling rfl).receive
  | cleanupInactiveSessions => exact idle ((handling rfl).timer ((handling rfl).cleanupInactiveSessions cfg))
  | checkExpiredAcks => exact idle ((handling rfl).timer (handling rfl).checkExpiredAcks)
  | processPendingSends => exact pass rfl
  | sendTask =>
    refine ⟨trivial, fun sending ↦ ?_⟩
    cases sending with
    | true => exact rfl
    | false => exact pass rfl

variable {cfg : Config} {ok : State → Step → Prop} {metrics : Option Metrics} {S S₁ S' : State} {w w' : World}
  {i i' : ℕ} {o : Op} {ch : Choice} {r : o.Res} {batch : List PendingSend} {hs : List Handling}

def pass (i : ℕ) (w : World) : Pass := phase (sendPassProtocol .sendTask) {} i w.log

theorem phase_eq_pass (j : Job) : phase (sendPassProtocol j) {} i w.log = pass i w := by
  unfold pass
  induction w.log with
  | nil => rfl
  | cons e log ih =>
    rw [phase, phase, ih]
    rfl

theorem follows_thread (h : (broker cfg).Reachable ok (initial metrics) S) {t : Thread Op Op.Res Job}
    (ht : S.threads[i]? = some t) :
    Follows (sendPassProtocol t.job) (fun _ y ↦ y.current = none) (fun _ y ↦ y.current = none) t.code
      (pass i S.world) := by
  rw [← phase_eq_pass t.job]
  exact follows_of_reachable (P := sendPassProtocol) (s := fun _ ↦ {}) (Q := fun _ y ↦ y.current = none)
    (X := fun _ y ↦ y.current = none) (follows_code cfg) h i t ht

theorem may_of_performs (h : (broker cfg).Reachable ok (initial metrics) S)
    (hp : Performs cfg ok S i j o ch r w') : (sendPassProtocol j).may (pass i S.world) o := by
  obtain ⟨k, hk⟩ := hp.thread
  exact (follows_thread h hk).1

theorem pass_exec (he : exec i j o ch w = some (r, w')) : pass i w' = (sendPassProtocol j).next (pass i w) o r :=
  phase_exec he

theorem pass_exec_ne (he : exec i j o ch w = some (r, w')) (hi : i' ≠ i) : pass i' w' = pass i' w :=
  phase_exec_ne he hi

theorem over_next (hmay : (sendPassProtocol j).may x o) (h : ∀ d ∈ x.finished, d.Over) :
    ∀ d ∈ ((sendPassProtocol j).next x o r).finished, d.Over := by
  cases o with
  | popSend =>
    obtain ⟨d, hd, hover⟩ := hmay
    change ∀ d ∈ x.finished ++ x.current.toList, d.Over
    rw [hd, List.forall_mem_append]
    exact ⟨h, fun d' hd' ↦ List.mem_singleton.mp hd' ▸ hover⟩
  | frontSend => cases r <;> exact h
  | _ => exact h

theorem over_of_finished (h : (broker cfg).Reachable ok (initial metrics) S) :
    ∀ i, ∀ d ∈ (pass i S.world).finished, d.Over := by
  refine thread_invariant (I := fun i w ↦ ∀ d ∈ (pass i w).finished, d.Over)
    (fun _ _ hd ↦ absurd hd List.not_mem_nil) (fun _ _ _ _ _ h ↦ h) (fun hr hp hw ↦ ?_) (fun _ hp hi hw ↦ ?_) h
  · rw [pass_exec hp.exec]
    exact over_next (may_of_performs hr hp) hw
  · rw [pass_exec_ne hp.exec hi]
    exact hw

/-- The sends that a pass has finished and those of its batch are the ones it has taken. -/
def Tracks (batch sends : List PendingSend) (x : Pass) : Prop :=
  x.started = true ∧ match x.current with
    | none => x.finished.map (·.send) ++ sends = batch
    | some h =>
      ∃ called rest, sends = { h.send with called } :: rest ∧ x.finished.map (·.send) ++ h.send :: rest = batch

theorem tracks_own (hp : Performs cfg ok S i j o ch r w') (hmay : (sendPassProtocol j).may (pass i S.world) o)
    (h : Tracks batch (S.world.batches i) (pass i S.world)) : Tracks batch (w'.batches i) (pass i w') := by
  have he := hp.exec
  rw [pass_exec he]
  generalize pass i S.world = x at hmay h ⊢
  obtain ⟨hstarted, hx⟩ := h
  have same (hb : .batches ∉ writes o)
      (hn : (sendPassProtocol j).next x o r = { x with current := x.current.map (·.after o r) }) :
      Tracks batch (w'.batches i) ((sendPassProtocol j).next x o r) := by
    rw [hn, (exec_frame he).batches (by simp [hb])]
    refine ⟨hstarted, ?_⟩
    cases hc : x.current with
    | none => simpa [hc] using hx
    | some d => simpa [hc, d.after_send] using hx
  cases o with
  | takePendingSends =>
    obtain rfl : x = {} := hmay
    cases hstarted
  | frontSend =>
    have hr : some (S.world.batches i).head? = some r := exec_reads he
    cases r with
    | none => exact same (by simp [writes]) rfl
    | some send =>
      obtain ⟨rest, hrest⟩ := List.head?_eq_some_iff.mp (Option.some.inj hr)
      rw [(exec_frame he).batches (by simp [writes])]
      change x.current = none at hmay
      simp only [hmay, hrest] at hx
      exact ⟨hstarted, send.called, rest, hrest, hx⟩
  | callback send success =>
    obtain ⟨d, hd, -⟩ := hmay
    simp only [hd] at hx
    obtain ⟨called, rest, hsends, hall⟩ := hx
    rw [(exec_callback he).1, Function.update_self, hsends]
    refine ⟨hstarted, ?_⟩
    simp only [sendPassProtocol, hd, Option.map_some]
    exact ⟨true, rest, rfl, hall⟩
  | popSend =>
    obtain ⟨d, hd, -⟩ := hmay
    simp only [hd] at hx
    obtain ⟨called, rest, hsends, hall⟩ := hx
    rw [exec_popSend he, Function.update_self, hsends]
    refine ⟨hstarted, ?_⟩
    simp only [sendPassProtocol, hd, Option.toList_some, List.map_append, List.map_cons, List.map_nil,
      List.tail_cons, List.append_assoc]
    exact hall
  | _ => exact same (by simp [writes]) rfl

theorem tracks_take {n : ℕ} (hp : Performs cfg ok S i j .takePendingSends ch n w')
    (hmay : (sendPassProtocol j).may (pass i S.world) .takePendingSends) :
    Tracks S.world.pendingSends (w'.batches i) (pass i w') := by
  have hx : pass i S.world = {} := hmay
  have hnone : S.world.batches i = [] := hp.allowed
  rw [pass_exec hp.exec, hx, (exec_takePendingSends hp.exec).2.2]
  refine ⟨rfl, ?_⟩
  change [] ++ _ = _
  rw [List.nil_append]
  split
  · next hempty => rw [hnone, hempty]
  · rw [Function.update_self]

theorem tracks_of_leads (h : (broker cfg).Reachable ok (initial metrics) S)
    (hop : S.nextOp i = some .takePendingSends) (hok : ok S (.step i ch))
    (hs : (broker cfg).next S (.step i ch) = some S₁) (hl : (broker cfg).Leads ok S₁ S') :
    Tracks S.world.pendingSends (S'.world.batches i) (pass i S'.world) := by
  induction hl with
  | refl =>
    obtain ⟨j, o, k, n, w', ht, he, rfl⟩ := Machine.step_cases hs
    rw [Pool.nextOp, ht] at hop
    obtain rfl := Option.some.inj hop
    have hp : Performs cfg ok S i j .takePendingSends ch n w' := ⟨holds_of_reachable h, ⟨k, ht⟩, hok, he⟩
    exact tracks_take hp (may_of_performs h hp)
  | @next S₂ S₃ l hl hok₂ hs₂ ih =>
    have hr := (h.next _ hok hs).leads hl
    obtain ⟨i', ch', j, o, k, r, rfl, ht, he⟩ | ⟨n, now, elapsed, hw⟩ := next_cases hs₂
    · have hp : Performs cfg ok S₂ i' j o ch' r S₃.world := ⟨holds_of_reachable hr, ⟨k, ht⟩, hok₂, he⟩
      by_cases hi : i = i'
      · subst hi
        exact tracks_own hp (may_of_performs hr hp) ih
      · rw [ExclusiveSender.batch_exec_ne hp hi, pass_exec_ne he hi]
        exact ih
    · rw [hw]
      exact ih

theorem tracks_ended (h : (broker cfg).Reachable ok (initial metrics) S) {t : Thread Op Op.Res Job}
    (ht : S.threads[i]? = some t) (hend : t.ended) :
    (pass i S.world).current = none ∧ S.world.batches i = [] := by
  have houtside : ExclusiveSender.framePhase i S.world = .outside :=
    of_ended_follows (follows_of_reachable (P := fun _ ↦ ExclusiveSender.frameProtocol) (s := fun _ ↦ .outside)
      (Q := fun _ x ↦ x = .outside) (X := fun _ x ↦ x = .outside) (ExclusiveSender.keeps_code cfg) h i t ht) hend
  have hbatch := ExclusiveSender.tracks h i
  rw [houtside] at hbatch
  exact ⟨of_ended_follows (follows_thread h ht) hend, hbatch⟩

def counterOf : Op → Option Counter
  | .increment counter => some counter
  | _ => none

/-- The counters that the sending loop of thread `i` has incremented. -/
def loopCounts (i : ℕ) : List Event → List Counter
  | [] => []
  | e :: log => loopCounts i log ++ if e.thread = i ∧ isSender e.job = true then (counterOf e.op).toList else []

/-- What the handlings of a pass have of something, in order. -/
def Pass.collect {α : Type} (f : Handling → List α) (x : Pass) : List α :=
  (x.finished ++ x.current.toList).flatMap f

theorem collect_next {α : Type} {f : Handling → List α} (hf : ∀ send, f { send } = [])
    (hmay : (sendPassProtocol j).may x o) : ((sendPassProtocol j).next x o r).collect f =
      x.finished.flatMap f ++ (x.current.map (·.after o r)).toList.flatMap f := by
  rw [← List.flatMap_append]
  have same (hn : (sendPassProtocol j).next x o r = { x with current := x.current.map (·.after o r) }) :
      ((sendPassProtocol j).next x o r).collect f =
        (x.finished ++ (x.current.map (·.after o r)).toList).flatMap f := by
    rw [hn, Pass.collect]
  have hid (hr : ∀ d : Handling, d.after o r = d) : x.current.map (·.after o r) = x.current := by
    cases x.current with
    | none => rfl
    | some d => exact congrArg some (hr d)
  cases o with
  | takePendingSends =>
    rw [hid fun _ ↦ rfl]
    rfl
  | frontSend =>
    change x.current = none at hmay
    cases r with
    | none => exact same rfl
    | some send => simp [sendPassProtocol, Pass.collect, hmay, hf]
  | popSend =>
    rw [hid fun _ ↦ rfl]
    simp [sendPassProtocol, Pass.collect]
  | _ => exact same rfl

theorem counts_next (hmay : (sendPassProtocol j).may x o) :
    ((sendPassProtocol j).next x o r).collect (·.counted) =
    x.collect (·.counted) ++ if isSender j = true then (counterOf o).toList else [] := by
  rw [collect_next (fun _ ↦ rfl) hmay, Pass.collect, List.flatMap_append, List.append_assoc]
  congr 1
  have same (ho : counterOf o = none) (hr : ∀ d : Handling, (d.after o r).counted = d.counted) :
      (x.current.map (·.after o r)).toList.flatMap (·.counted) =
        x.current.toList.flatMap (·.counted) ++ if isSender j = true then (counterOf o).toList else [] := by
    rw [ho, Option.toList_none, ite_self, List.append_nil]
    cases x.current with
    | none => rfl
    | some d => simp [hr]
  cases o with
  | increment counter =>
    change x.current.isSome = isSender j at hmay
    rw [← hmay]
    cases x.current with
    | none => rfl
    | some d => simp [Handling.after, counterOf]
  | _ => exact same rfl fun _ ↦ rfl

theorem loopCounts_eq (h : (broker cfg).Reachable ok (initial metrics) S) :
    ∀ i, loopCounts i S.world.log = (pass i S.world).collect (·.counted) := by
  refine thread_invariant (I := fun i w ↦ loopCounts i w.log = (pass i w).collect (·.counted))
    (fun _ ↦ rfl) (fun _ _ _ _ _ h ↦ h) (fun hr hp hw ↦ ?_) (fun _ hp hi hw ↦ ?_) h
  · rw [exec_log hp.exec, loopCounts, pass_exec hp.exec, counts_next (may_of_performs hr hp), hw]
    simp
  · rw [exec_log hp.exec, loopCounts, pass_exec_ne hp.exec hi, if_neg fun h ↦ hi h.1.symm, List.append_nil, hw]

namespace Handling.Over

variable {d : Handling}

theorem counted_iff (h : d.Over) : d.counted = [d.outcome] ↔ ¬ d.BlockedEarly := by
  rw [h.counted]
  split <;> simp [*]

theorem counted_length (h : d.Over) : d.counted.length = if d.BlockedEarly then 0 else 1 := by
  rw [h.counted]
  split <;> rfl

end Handling.Over

/-- The loop has counted at most once for each send, and once for each where neither
the identity nor the delimiter would have blocked. -/
theorem counted_le (h : ∀ d ∈ hs, d.Over) : (hs.flatMap (·.counted)).length ≤ hs.length := by
  induction hs with
  | nil => exact Nat.le_refl _
  | cons d hs ih =>
    obtain ⟨hd, hrest⟩ := List.forall_mem_cons.mp h
    have hle : d.counted.length ≤ 1 := by
      rw [hd.counted_length]
      split <;> omega
    rw [List.flatMap_cons, List.length_append, List.length_cons]
    have := ih hrest
    omega

theorem counted_eq_iff (h : ∀ d ∈ hs, d.Over) :
    (hs.flatMap (·.counted)).length = hs.length ↔ ∀ d ∈ hs, ¬ d.BlockedEarly := by
  induction hs with
  | nil => simp
  | cons d hs ih =>
    obtain ⟨hd, hrest⟩ := List.forall_mem_cons.mp h
    have hle := counted_le hrest
    have hlength := hd.counted_length
    rw [List.flatMap_cons, List.length_append, List.length_cons, List.forall_mem_cons, ← ih hrest]
    split at hlength
    · next hb => exact ⟨fun h ↦ by omega, fun h ↦ absurd hb h.1⟩
    · next hb => exact ⟨fun h ↦ ⟨hb, by omega⟩, fun h ↦ by omega⟩

theorem pass_eq_start (h : (broker cfg).Reachable ok (initial metrics) S) (hi : S.threads.length ≤ i) :
    pass i S.world = {} :=
  phase_eq_start fun e he ↦ Nat.ne_of_lt ((thread_lt h e he).trans_le hi)

/-- The callback is called once with what became of the data frame. The counter
that agrees with it is incremented once for every send, and in all as often as
sends were processed, as long as no identity and no delimiter would have blocked. -/
theorem send_accounting (h : (broker cfg).Reachable ok (initial metrics) S) :
    (∀ i, ∀ d ∈ (pass i S.world).finished, d.callbacks = [d.dataAccepted]) ∧
    ((∀ i, ∀ d ∈ (pass i S.world).finished, d.counted = [d.outcome]) ↔
      ∀ i, ∀ d ∈ (pass i S.world).finished, ¬ d.BlockedEarly) ∧
    ((∀ i, (pass i S.world).current = none) →
      (∑ i ∈ Finset.range S.threads.length, (loopCounts i S.world.log).length =
          ∑ i ∈ Finset.range S.threads.length, (pass i S.world).finished.length ↔
        ∀ i, ∀ d ∈ (pass i S.world).finished, ¬ d.BlockedEarly)) ∧
    ∀ i ch S₁ S' t, S.nextOp i = some .takePendingSends → ok S (.step i ch) →
      (broker cfg).next S (.step i ch) = some S₁ → (broker cfg).Leads ok S₁ S' →
      S'.threads[i]? = some t → t.ended → (pass i S'.world).finished.map (·.send) = S.world.pendingSends := by
  have hover := over_of_finished h
  refine ⟨fun i d hd ↦ (hover i d hd).callbacks, ?_, fun hidle ↦ ?_, ?_⟩
  · exact forall_congr' fun i ↦ forall₂_congr fun d hd ↦ (hover i d hd).counted_iff
  · have hcounts (i : ℕ) : loopCounts i S.world.log = (pass i S.world).finished.flatMap (·.counted) := by
      rw [loopCounts_eq h, Pass.collect, hidle i, Option.toList_none, List.append_nil]
    simp only [hcounts]
    rw [Finset.sum_eq_sum_iff_of_le fun i _ ↦ counted_le (hover i)]
    constructor
    · intro heq i
      by_cases hi : i < S.threads.length
      · exact (counted_eq_iff (hover i)).mp (heq i (Finset.mem_range.mpr hi))
      · rw [pass_eq_start h (Nat.le_of_not_lt hi)]
        exact fun _ hd ↦ absurd hd List.not_mem_nil
    · exact fun hnone i _ ↦ (counted_eq_iff (hover i)).mpr (hnone i)
  · intro i ch S₁ S' t hop hok hs hl ht hend
    have htracks := tracks_of_leads h hop hok hs hl
    obtain ⟨hcurrent, hbatch⟩ := tracks_ended ((h.next _ hok hs).leads hl) ht hend
    rw [Tracks, hcurrent, hbatch] at htracks
    exact (List.append_nil _).symm.trans htracks.2

/-- Bob is sent two messages, and the data frame of the first would block. -/
theorem send_accounting_two : ∃ S, (broker {}).Reachable (fun _ _ ↦ True) (initial (some {})) S ∧
    (pass 3 S.world).finished.map (fun d ↦ (d.callbacks, d.counted)) =
      [([false], [.messagesFailed]), ([true], [.messagesSent])] ∧
    (∀ i, ∀ d ∈ (pass i S.world).finished, d.callbacks = [d.dataAccepted]) ∧
    ((∀ i, ∀ d ∈ (pass i S.world).finished, d.counted = [d.outcome]) ↔
      ∀ i, ∀ d ∈ (pass i S.world).finished, ¬ d.BlockedEarly) := by
  have hrun : ((broker {}).runs (fun _ _ ↦ True) (inTurn 0 [
      (arrival { type := .register, sender := [98] }, 33),
      (arrival { sender := [97], destination := [98], correlationId := 1 }, 16),
      (arrival { sender := [97], destination := [98], correlationId := 2 }, 16), (.processPendingSends, 4)] ++
      .step 3 { socket := .wouldBlock } :: List.replicate 12 (.step 3 {})) ⟨initial (some {}), []⟩).map (fun S ↦
        (pass 3 S.world).finished.map fun d ↦ (d.callbacks, d.counted)) =
      some [([false], [.messagesFailed]), ([true], [.messagesSent])] := by
    decide +kernel
  obtain ⟨S, hS, hv⟩ := exists_run hrun
  exact ⟨S, hS, hv, (send_accounting hS).1, (send_accounting hS).2.1⟩

/-- The identity of a send to bob would have blocked: the callback says so, and no
counter does. -/
theorem blocked_identity_uncounted : ∃ S, (broker {}).Reachable (fun _ _ ↦ True) (initial (some {})) S ∧
    (pass 2 S.world).finished.map (fun d ↦ (d.callbacks, d.outcome, d.counted)) =
      [([false], .messagesFailed, [])] ∧
    S.world.metrics.map (fun m ↦ m.counters .messagesFailed) = some 0 ∧
    ¬ ∀ i, ∀ d ∈ (pass i S.world).finished, d.counted = [d.outcome] := by
  have hrun : ((broker {}).runs (fun _ _ ↦ True) (inTurn 0 [
      (arrival { type := .register, sender := [98] }, 33),
      (arrival { sender := [97], destination := [98], correlationId := 1 }, 16), (.processPendingSends, 2)] ++
      .step 2 { socket := .wouldBlock } :: List.replicate 4 (.step 2 {})) ⟨initial (some {}), []⟩).map (fun S ↦
        ((pass 2 S.world).finished.map (fun d ↦ (d.callbacks, d.outcome, d.counted)),
          S.world.metrics.map fun m ↦ m.counters .messagesFailed)) =
      some ([([false], .messagesFailed, [])], some 0) := by
    decide +kernel
  obtain ⟨S, hS, hv⟩ := exists_run hrun
  obtain ⟨hfinished, hfailed⟩ := Prod.mk.inj hv
  refine ⟨S, hS, hfinished, hfailed, fun hcounted ↦ ?_⟩
  obtain ⟨d, hd, hview⟩ := List.map_eq_singleton_iff.mp hfinished
  have hcount := hcounted 2 d (hd ▸ List.mem_singleton_self d)
  rw [(Prod.mk.inj (Prod.mk.inj hview).2).2] at hcount
  cases hcount

end MessageBroker.SendPasses
