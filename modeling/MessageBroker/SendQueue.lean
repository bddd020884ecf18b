import MessageBroker.SendLedger
import MessageBroker.ThreadPhases

namespace MessageBroker.SendQueue

open WireMessages ProgramTrees ThreadPools Protocols BrokerState SessionQueues ServerJobs
  OperationEffects ThreadViews SharedInvariant ProgramShapes ServerOutlines RunInvariants
  ThreadPhases SendLedger

/-- Where a thread stands between the queue of sends and the task that empties it. -/
inductive SendPhase
  | idle
  | pushed
  | entering
  | inside
deriving DecidableEq

def sendProtocol : Protocol Op Op.Res SendPhase where
  may
    | .idle, o => o ≠ .postSendTask ∧ o ≠ .finishSends
    | .pushed, o => o = .postSendTask
    | .entering, o => o = .takePendingSends
    | .inside, o => (∀ s c data, o ≠ .pushPendingSend s c data) ∧ o ≠ .postSendTask ∧
      o ≠ .isSending ∧ o ≠ .takePendingSends
  next
    | _, .pushPendingSend _ _ _, _ => .pushed
    | _, .postSendTask, _ => .idle
    | _, .isSending, r => if r then .idle else .entering
    | _, .takePendingSends, n => if n = 0 then .idle else .inside
    | _, .finishSends, _ => .idle
    | x, _, _ => x

theorem keeps_perform {o : Op} (h : family o ≠ .sends) : Keeps sendProtocol .idle (perform o) := by
  cases o with
  | pushPendingSend | postSendTask | isSending | takePendingSends | frontSend | sendFrame
  | callback | popSend | finishSends | updateQueueMetrics => exact absurd rfl h
  | _ => exact .perform ⟨nofun, nofun⟩ fun _ ↦ rfl

theorem handling : Handling (Keeps sendProtocol .idle) where
  toRegistering := Sending.registering
    { toComposable := Keeps.composable sendProtocol .idle
      queue := fun o h ↦ keeps_perform (by rw [h]; nofun)
      session := fun o h ↦ keeps_perform (by rw [h]; nofun)
      sendToClient := fun s c data ↦ ⟨⟨nofun, nofun⟩, fun _ ↦ ⟨rfl, fun _ ↦ rfl⟩⟩ }
    (fun o h ↦ keeps_perform (by rw [h]; nofun)) fun s ↦ keeps_perform nofun
  receipt := fun s ↦ keeps_perform nofun
  storage := fun o h ↦ keeps_perform (by rw [h]; nofun)

/-- The program stays in the sending loop, and does not throw. -/
def Loops {α : Type} (p : Program α) : Prop :=
  Follows sendProtocol (fun _ y ↦ y = .inside) (fun _ _ ↦ False) p .inside

theorem Loops.bind {α β : Type} {p : Program α} {f : α → Program β} (h : Loops p)
    (hf : ∀ a, Loops (f a)) : Loops (p.bind f) :=
  Follows.bind h fun a y hy ↦ by
    subst hy
    exact hf a

theorem loops_perform {o : Op} (h : sendProtocol.may .inside o)
    (h' : ∀ r, sendProtocol.next .inside o r = .inside) : Loops (perform o) := ⟨h, h'⟩

theorem loops_increment (counter : Counter) : Loops (perform (.increment counter)) :=
  loops_perform ⟨fun _ _ _ ↦ nofun, nofun, nofun, nofun⟩ fun _ ↦ rfl

theorem loops_callback (send : PendingSend) (success : Bool) :
    Loops (perform (.callback send success)) :=
  loops_perform ⟨fun _ _ _ ↦ nofun, nofun, nofun, nofun⟩ fun _ ↦ rfl

theorem loops_failSend (send : PendingSend) (counted : Bool) : Loops (failSend send counted) := by
  refine (loops_callback send false).bind fun _ ↦ ?_
  cases counted with
  | true => exact loops_increment _
  | false => exact rfl

theorem loops_sendFrame {send : PendingSend} {part : SendPart} {f : SendResult → Program Unit}
    (h : Loops (f .accepted)) (hf : ∀ r, r ≠ .accepted → ∃ counted, f r = failSend send counted) :
    Loops ((perform (.sendFrame send part)).bind f) := by
  refine Loops.bind (loops_perform ⟨fun _ _ _ ↦ nofun, nofun, nofun, nofun⟩ fun _ ↦ rfl) fun r ↦ ?_
  by_cases hr : r = .accepted
  · rwa [hr]
  · obtain ⟨counted, he⟩ := hf r hr
    rw [he]
    exact loops_failSend send counted

theorem loops_sendIdentity (send : PendingSend) : Loops (sendIdentity send) := by
  have hfail {f : SendResult → Program Unit} (h₁ : ∃ b, f .wouldBlock = failSend send b)
      (h₂ : f .error = failSend send true) (r : SendResult) (hr : r ≠ .accepted) :
      ∃ b, f r = failSend send b := by
    cases r with
    | accepted => exact absurd rfl hr
    | wouldBlock => exact h₁
    | error => exact ⟨true, h₂⟩
  refine loops_sendFrame (loops_sendFrame (loops_sendFrame ?_ ?_) ?_) ?_
  · exact (loops_callback send true).bind fun _ ↦ loops_increment _
  all_goals exact hfail ⟨_, rfl⟩ rfl

theorem loops_sendLoop (n : ℕ) : Loops (sendLoop n) := by
  induction n with
  | zero => exact rfl
  | succ n ih =>
    refine Loops.bind (loops_perform ⟨fun _ _ _ ↦ nofun, nofun, nofun, nofun⟩ fun _ ↦ rfl) fun r ↦ ?_
    match r with
    | none => exact rfl
    | some send =>
      refine (loops_sendIdentity send).bind fun _ ↦ Loops.bind ?_ fun _ ↦ ih
      exact loops_perform ⟨fun _ _ _ ↦ nofun, nofun, nofun, nofun⟩ fun _ ↦ rfl

/-- A thread ends as it began, outside the handling of sends. -/
def Rests (p : Program Unit) (x : SendPhase) : Prop :=
  Follows sendProtocol (fun _ y ↦ y = .idle) (fun _ y ↦ y = .idle) p x

theorem rests_processPendingSends {x : SendPhase} (hx : sendProtocol.may x .takePendingSends) :
    Rests processPendingSends x := by
  refine ⟨hx, fun n ↦ ?_⟩
  have hn : sendProtocol.next x .takePendingSends n = if n = 0 then .idle else .inside := by
    cases x <;> rfl
  rw [hn]
  by_cases h : n = 0
  · subst h
    rfl
  · rw [if_neg h]
    change Follows _ _ _ (if n ≠ 0 then _ else _) _
    rw [if_pos h]
    refine Follows.bind (Follows.mono (loops_sendLoop n) (fun _ _ ↦ id) fun _ _ ↦ False.elim) fun _ y hy ↦ ?_
    subst hy
    exact ⟨⟨fun _ _ _ ↦ nofun, nofun, nofun, nofun⟩, fun _ ↦ ⟨⟨nofun, nofun⟩, fun _ ↦ rfl⟩⟩

theorem rests_code (cfg : Config) (j : Job) : Rests (code cfg j) .idle := by
  cases j with
  | receive identity data => exact handling.receive
  | cleanupInactiveSessions => exact handling.timer (handling.cleanupInactiveSessions cfg)
  | checkExpiredAcks => exact handling.timer handling.checkExpiredAcks
  | processPendingSends => exact rests_processPendingSends ⟨nofun, nofun⟩
  | sendTask =>
    refine ⟨⟨nofun, nofun⟩, fun sending ↦ ?_⟩
    cases sending with
    | true => exact rfl
    | false => exact rests_processPendingSends rfl

variable {cfg : Config} {ok : State → Step → Prop} {metrics : Option Metrics} {S S' : State}
  {w w' : World} {i i' : ℕ} {j : Job} {o : Op} {ch : Choice} {r : o.Res}

def sendPhase (i : ℕ) (w : World) : SendPhase := phase sendProtocol .idle i w.log

theorem rests_of_reachable (h : (broker cfg).Reachable ok (initial metrics) S)
    {t : Thread Op Op.Res Job} (ht : S.threads[i]? = some t) : Rests t.code (sendPhase i S.world) :=
  follows_of_reachable (P := fun _ ↦ sendProtocol) (Q := fun _ x ↦ x = SendPhase.idle)
    (X := fun _ x ↦ x = SendPhase.idle) (rests_code cfg) h i t ht

theorem thread_of_phase (h : (broker cfg).Reachable ok (initial metrics) S)
    (hx : sendPhase i S.world ≠ .idle) : ∃ t, S.threads[i]? = some t := by
  by_contra hn
  refine hx (phase_eq_start fun e he hi ↦ hn ?_)
  exact ⟨_, List.getElem?_eq_getElem (hi ▸ thread_lt h e he)⟩

theorem may_of_performs (h : (broker cfg).Reachable ok (initial metrics) S)
    (hp : Performs cfg ok S i j o ch r w') : sendProtocol.may (sendPhase i S.world) o := by
  obtain ⟨k, hk⟩ := hp.thread
  exact (rests_of_reachable h hk).1

theorem next_other (x : SendPhase) (h : (∀ s c data, o ≠ .pushPendingSend s c data) ∧
    o ≠ .postSendTask ∧ o ≠ .isSending ∧ o ≠ .takePendingSends ∧ o ≠ .finishSends) :
    sendProtocol.next x o r = x := by
  obtain ⟨h₁, h₂, h₃, h₄, h₅⟩ := h
  cases o with
  | pushPendingSend s c data => exact absurd rfl (h₁ s c data)
  | postSendTask => exact absurd rfl h₂
  | isSending => exact absurd rfl h₃
  | takePendingSends => exact absurd rfl h₄
  | finishSends => exact absurd rfl h₅
  | _ => cases x <;> rfl

/-- The flag is set only while some thread is in the sending loop. -/
def Flagged (w : World) : Prop := w.sendingInProgress = true → ∃ i, sendPhase i w = .inside

theorem sendPhase_exec (he : exec i j o ch w = some (r, w')) :
    sendPhase i w' = sendProtocol.next (sendPhase i w) o r := phase_exec he

theorem sendPhase_exec_ne (he : exec i j o ch w = some (r, w')) (hi : i' ≠ i) :
    sendPhase i' w' = sendPhase i' w := phase_exec_ne he hi

theorem stays_inside (he : exec i j o ch w = some (r, w'))
    (hmay : sendProtocol.may (sendPhase i w) o) (ho : o ≠ .finishSends)
    (hx : sendPhase i' w = .inside) : sendPhase i' w' = .inside := by
  by_cases hi : i' = i
  · subst hi
    rw [hx] at hmay
    obtain ⟨h₁, h₂, h₃, h₄⟩ := hmay
    rw [sendPhase_exec he, next_other _ ⟨h₁, h₂, h₃, h₄, ho⟩, hx]
  · rwa [sendPhase_exec_ne he hi]

theorem flagged_step (he : exec i j o ch w = some (r, w'))
    (hmay : sendProtocol.may (sendPhase i w) o) (h : Flagged w) : Flagged w' := by
  intro hf
  have kept (h₁ : o ≠ .takePendingSends) (h₂ : o ≠ .finishSends) :
      ∃ i, sendPhase i w' = .inside := by
    rw [(exec_aside he).sendingInProgress h₁ h₂] at hf
    obtain ⟨i', hi'⟩ := h hf
    exact ⟨i', stays_inside he hmay h₂ hi'⟩
  cases o with
  | takePendingSends =>
    refine ⟨i, ?_⟩
    rw [exec_takePendingSends_flag he] at hf
    have hne : r ≠ 0 := by
      rw [(exec_takePendingSends he).1]
      simpa using hf
    rw [sendPhase_exec he]
    have hnext (x : SendPhase) :
        sendProtocol.next x .takePendingSends r = if r = 0 then .idle else .inside := by
      cases x <;> rfl
    rw [hnext, if_neg hne]
  | finishSends => cases hf.symm.trans (exec_finishSends he).1
  | _ => exact kept nofun nofun

/-- Somebody will come back to the queue of sends. -/
def Watched (S : State) : Prop :=
  0 < S.world.postedTasks ∨ (∃ i, S.nextOp i = some .isSending) ∨
    ∃ i, sendPhase i S.world ≠ .idle

theorem start_sends (h : start j w = some w') : w'.sendingInProgress = w.sendingInProgress ∧
    w'.log = w.log ∧ w'.pendingSends = w.pendingSends := by
  obtain ⟨n, rfl⟩ := start_eq h
  exact ⟨rfl, rfl, rfl⟩

theorem watched_start (hl : (broker cfg).next S (.start j) = some S') (h : Watched S) :
    Watched S' := by
  obtain ⟨w', hw, hS⟩ := Machine.start_cases hl
  have hlog : S'.world.log = S.world.log := by
    rw [hS]
    exact start_log hw
  rcases h with hposted | ⟨i, hi⟩ | ⟨i, hi⟩
  · cases j with
    | sendTask =>
      refine .inr (.inl ⟨S.threads.length, ?_⟩)
      rw [hS, Pool.nextOp, List.getElem?_concat_length]
      rfl
    | _ =>
      obtain rfl := Option.some.inj hw
      rw [hS]
      exact .inl hposted
  · exact .inr (.inl ⟨i, Machine.nextOp_start hl hi⟩)
  · refine .inr (.inr ⟨i, ?_⟩)
    rwa [sendPhase, hlog]

theorem watched_step (hl : (broker cfg).next S (.step i ch) = some S')
    (hp : Performs cfg ok S i j o ch r S'.world) (hmay : sendProtocol.may (sendPhase i S.world) o)
    (hflag : Flagged S.world) (h : S.world.pendingSends ≠ [] → Watched S)
    (hq : S'.world.pendingSends ≠ []) : Watched S' := by
  have he := hp.exec
  have inside {k : ℕ} {x : SendPhase} (hx : sendPhase k S'.world = x) (hne : x ≠ .idle) :
      Watched S' := .inr (.inr ⟨k, hx ▸ hne⟩)
  have other (ho : (∀ s c data, o ≠ .pushPendingSend s c data) ∧ o ≠ .postSendTask ∧
      o ≠ .isSending ∧ o ≠ .takePendingSends ∧ o ≠ .finishSends)
      (hw : .pendingSends ∉ writes o) : Watched S' := by
    obtain ⟨-, hpost, hsend, -, hfinish⟩ := id ho
    rw [(exec_frame he).pendingSends (by simp [hw])] at hq
    rcases h hq with hposted | ⟨i', hi'⟩ | ⟨i', hi'⟩
    · exact .inl ((exec_aside he).postedTasks hpost hfinish ▸ hposted)
    · have hne : i' ≠ i := fun hi ↦ hsend (Option.some.inj ((hi ▸ hp.nextOp).symm.trans hi'))
      exact .inr (.inl ⟨i', (Machine.nextOp_step hl hne).trans hi'⟩)
    · by_cases hi : i' = i
      · subst hi
        have hx := sendPhase_exec he
        rw [next_other _ ho] at hx
        exact inside hx hi'
      · exact inside (sendPhase_exec_ne he hi) hi'
  cases o with
  | pushPendingSend s c data =>
    refine inside (k := i) (x := .pushed) ?_ (by decide)
    rw [sendPhase_exec he]
    cases sendPhase i S.world <;> rfl
  | postSendTask => exact .inl (by rw [exec_postSendTask he]; omega)
  | isSending =>
    cases hr : r with
    | true =>
      have hf : S.world.sendingInProgress = true := by
        have := exec_reads he
        rw [hr] at this
        exact Option.some.inj this
      obtain ⟨i', hi'⟩ := hflag hf
      exact inside (stays_inside he hmay (by simp) hi') (by decide)
    | false =>
      refine inside (k := i) (x := .entering) ?_ (by decide)
      rw [sendPhase_exec he, hr]
      cases sendPhase i S.world <;> rfl
  | takePendingSends => exact absurd (exec_takePendingSends he).2.1 hq
  | finishSends =>
    rw [(exec_frame he).pendingSends (by simp [writes])] at hq
    refine .inl ?_
    rw [(exec_finishSends he).2, if_neg hq]
    omega
  | _ => exact other ⟨by simp, by simp, by simp, by simp, by simp⟩ (by simp [writes])

theorem watched (h : (broker cfg).Reachable ok (initial metrics) S) :
    Flagged S.world ∧ (S.world.pendingSends ≠ [] → Watched S) := by
  induction h with
  | init => exact ⟨nofun, fun hq ↦ absurd rfl hq⟩
  | @next S S' l hr hl hs ih =>
    obtain ⟨hflag, hwatch⟩ := ih
    cases l with
    | start j =>
      obtain ⟨w', hw, hS⟩ := Machine.start_cases hs
      have hkept : S'.world.sendingInProgress = S.world.sendingInProgress ∧
          S'.world.log = S.world.log ∧ S'.world.pendingSends = S.world.pendingSends := by
        rw [hS]
        exact start_sends hw
      obtain ⟨hf, hlog, hp⟩ := hkept
      refine ⟨fun h ↦ ?_, fun hq ↦ watched_start hs (hwatch (hp ▸ hq))⟩
      simp only [sendPhase, hlog]
      exact hflag (hf ▸ h)
    | step i ch =>
      obtain ⟨j, o, k, r, w', ht, he, rfl⟩ := Machine.step_cases hs
      have hp : Performs cfg ok S i j o ch r w' := ⟨holds_of_reachable hr, ⟨k, ht⟩, hl, he⟩
      have hmay := may_of_performs hr hp
      exact ⟨flagged_step he hmay hflag, watched_step hs hp hmay hflag hwatch⟩
    | tick t =>
      obtain rfl := Option.some.inj hs
      exact ⟨hflag, hwatch⟩

/-- How the queue of sends will be looked at again: by a posted task, by a task
that is about to enter, by a thread about to post a task, or by one that still
has to take or to reschedule the queue. -/
inductive Attended (S : State) : Prop
  | posted : 0 < S.world.postedTasks → Attended S
  | starting (i : ℕ) : S.nextOp i = some .isSending → S.world.sendingInProgress = false →
      Attended S
  | posting (i : ℕ) : S.nextOp i = some .postSendTask → Attended S
  | processing (i : ℕ) (t : Thread Op Op.Res Job) : S.threads[i]? = some t →
      Certain (fun o ↦ o = .takePendingSends ∨ o = .finishSends) t.code → Attended S

theorem attended_of_phase (h : (broker cfg).Reachable ok (initial metrics) S)
    (hx : sendPhase i S.world ≠ .idle) : Attended S := by
  obtain ⟨t, ht⟩ := thread_of_phase h hx
  have hrest := rests_of_reachable h ht
  cases hphase : sendPhase i S.world with
  | idle => exact absurd hphase hx
  | pushed =>
    rw [hphase] at hrest
    refine .posting i ?_
    rw [Pool.nextOp, ht]
    obtain ⟨j, code⟩ := t
    cases code with
    | ret | fail => cases hrest
    | op o k => exact congrArg some hrest.1
  | entering =>
    rw [hphase] at hrest
    refine .processing i t ht (Follows.certain (I := fun x ↦ x = .entering) hrest rfl
      (fun _ x hx hi ↦ by cases hx.symm.trans hi) (fun _ x hx hi ↦ by cases hx.symm.trans hi) ?_)
    rintro x o rfl ho
    exact .inl (.inl ho)
  | inside =>
    rw [hphase] at hrest
    refine .processing i t ht (Follows.certain (I := fun x ↦ x = .inside) hrest rfl
      (fun _ x hx hi ↦ by cases hx.symm.trans hi) (fun _ x hx hi ↦ by cases hx.symm.trans hi) ?_)
    rintro x o rfl ⟨h₁, h₂, h₃, h₄⟩
    by_cases h₅ : o = .finishSends
    · exact .inl (.inr h₅)
    · exact .inr fun r ↦ next_other _ ⟨h₁, h₂, h₃, h₄, h₅⟩

theorem attended (h : (broker cfg).Reachable ok (initial metrics) S)
    (hq : S.world.pendingSends ≠ []) : Attended S := by
  obtain ⟨hflag, hwatch⟩ := watched h
  rcases hwatch hq with hposted | ⟨i, hi⟩ | ⟨i, hi⟩
  · exact .posted hposted
  · cases hs : S.world.sendingInProgress with
    | false => exact .starting i hi hs
    | true =>
      obtain ⟨i', hi'⟩ := hflag hs
      exact attended_of_phase h (i := i') (by rw [hi']; nofun)
  · exact attended_of_phase h hi

theorem owner_of_batch (h : (broker cfg).Reachable ok (initial metrics) S)
    (hb : S.world.batches i ≠ []) : ∃ o, S.nextOp i = some o := by
  have hrest : ¬ AtRest i S.world := fun hr ↦ hb (congrArg Hold.batch hr.owns)
  exact (holds_of_reachable h).running hrest

/-- Whatever the interleaving, every send that was ever enqueued is in the
queue, in the batch of one thread that goes on, or finished with one call of its
callback, and a queue that is not empty is attended to. -/
theorem send_queue_conserved (h : (broker cfg).Reachable ok (initial metrics) S) :
    Conserved S.world ∧ (∀ i, S.world.batches i ≠ [] → ∃ o, S.nextOp i = some o) ∧
      (S.world.pendingSends ≠ [] → Attended S) :=
  ⟨conserved h, fun _ ↦ owner_of_batch h, attended h⟩

/-- A send is enqueued while another one is on its way to the socket. -/
theorem send_queue_conserved_two : ∃ S, (broker {}).Reachable (fun _ _ ↦ True) (initial none) S ∧
    S.world.pendingSends ≠ [] ∧ S.world.batches 2 ≠ [] ∧ Conserved S.world ∧ Attended S := by
  have hrun : ((broker {}).runs (fun _ _ ↦ True) (inTurn 0 [
      (arrival { type := .register, sender := [98] }, 31),
      (arrival { sender := [97], destination := [98] }, 16), (.processPendingSends, 2),
      (arrival { sender := [97], destination := [98] }, 16)]) ⟨initial none, []⟩).map (fun S ↦
        (S.world.pendingSends.length, (S.world.batches 2).length)) = some (1, 1) := by
    decide +kernel
  obtain ⟨S, hS, hv⟩ := exists_run hrun
  obtain ⟨hpend, hbatch⟩ := Prod.mk.inj hv
  have hq : S.world.pendingSends ≠ [] := List.ne_nil_of_length_eq_add_one hpend
  have hb : S.world.batches 2 ≠ [] := List.ne_nil_of_length_eq_add_one hbatch
  obtain ⟨hc, -, ha⟩ := send_queue_conserved hS
  exact ⟨S, hS, hq, hb, hc, ha hq⟩

end MessageBroker.SendQueue
