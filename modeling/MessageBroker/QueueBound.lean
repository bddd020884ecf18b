import MessageBroker.CarriedCopies
import MessageBroker.ThreadPhases

namespace MessageBroker.QueueBound

open ByteStrings WireMessages MessageStore ProgramTrees Protocols BrokerState SessionQueues MessageHandlers
  ServerJobs OperationEffects SharedInvariant ServerOutlines RunInvariants ThreadPhases CarriedCopies

variable {α : Type} {cfg : Config} {ok : State → Step → Prop} {metrics : Option Metrics} {S : State}
  {w w' : World} {i i' : ℕ} {j : Job} {o : Op} {ch : Choice} {r : o.Res} {s s' : ℕ} {c : Copy}

/-- A thread is `some s` from the moment it pushes a message to the queue of `s`
until it knows the queue to be short, has shortened it, or has failed to. -/
def trimProtocol : Protocol Op Op.Res (Option ℕ) where
  may pushed
    | .pushQueue _ _ | .lockQueue _ | .unlockQueue _ => pushed = none
    | _ => True
  next pushed
    | .pushQueue s _, _ => some s
    | .queueSize s, n => if pushed = some s ∧ n ≤ queuePersistThreshold then none else pushed
    | .queueFront s, front => if pushed = some s ∧ front = none then none else pushed
    | .popQueue s, _ => if pushed = some s then none else pushed
    | .saveMessage _, .error _ => none
    | _, _ => pushed

/-- The program leaves no queue untrimmed, also when it throws. -/
abbrev Trims {α : Type} (p : Program α) : Prop := Keeps trimProtocol none p

theorem trims_perform (hmay : trimProtocol.may none o) (hnext : ∀ r, trimProtocol.next none o r = none) :
    Trims (perform o) := Keeps.perform hmay hnext

theorem trims_other (ho : carries o = false) : Trims (perform o) := by
  apply trims_perform
  · cases o <;> trivial
  · intro r
    cases o <;> first | rfl | cases ho

theorem trims_saveMessage : Trims (saveMessage c) := by
  have h := Keeps.composable trimProtocol none
  refine h.bind (trims_perform trivial fun r ↦ ?_) fun r ↦ h.lift r
  cases r <;> rfl

theorem trims_withQueueLock {p : Program α} (hp : Trims p) : Trims (withQueueLock s p) := by
  have h := Keeps.composable trimProtocol none
  refine h.bind (trims_perform rfl fun _ ↦ rfl) fun _ ↦ ?_
  exact h.ensuring hp (trims_perform rfl fun _ ↦ rfl)

theorem trims_queueSize : Trims (perform (.queueSize s)) := trims_perform trivial fun _ ↦ by
  simp [trimProtocol]

theorem trims_queueFront : Trims (perform (.queueFront s)) := trims_perform trivial fun _ ↦ by
  simp [trimProtocol]

theorem trims_popQueue : Trims (perform (.popQueue s)) := trims_perform trivial fun _ ↦ by
  simp [trimProtocol]

theorem trims_persistFront : Trims (persistFront s c) := by
  have h := Keeps.composable trimProtocol none
  refine h.bind (trims_other rfl) fun n ↦ ?_
  refine h.bind (h.bind trims_saveMessage fun _ ↦ h.ret ()) fun _ ↦ ?_
  exact trims_popQueue

theorem trims_persistLoop (n : ℕ) : Trims (persistLoop s n) := by
  have h := Keeps.composable trimProtocol none
  induction n with
  | zero => exact h.ret ()
  | succ n ih =>
    refine h.bind trims_queueFront fun front ↦ ?_
    match front with
    | none => exact h.ret ()
    | some c => exact h.bind trims_persistFront fun _ ↦ ih

theorem trims_persistQueueToDatabase : Trims (persistQueueToDatabase s) :=
  trims_withQueueLock ((Keeps.composable _ _).bind trims_queueSize fun n ↦ trims_persistLoop n)

/-- After a push, one round of the loop either shortens the queue or fails to save. -/
theorem follows_persistLoop {n : ℕ} (hn : 0 < n) :
    Follows trimProtocol (fun _ t ↦ t = none) (fun _ t ↦ t = none) (persistLoop s n) (some s) := by
  obtain ⟨n, rfl⟩ := Nat.exists_eq_succ_of_ne_zero (Nat.ne_of_gt hn)
  refine ⟨trivial, fun front ↦ ?_⟩
  match front with
  | none => exact if_pos ⟨rfl, rfl⟩
  | some c =>
    have hkept : trimProtocol.next (some s) (.queueFront s) (some c) = some s := if_neg (by simp)
    rw [hkept]
    refine ⟨trivial, fun name ↦ ⟨trivial, fun saved ↦ ?_⟩⟩
    cases saved with
    | error e => exact rfl
    | ok id =>
      refine ⟨trivial, fun _ ↦ ?_⟩
      have hpopped : trimProtocol.next (some s) (.popQueue s) () = none := if_pos rfl
      change Follows _ _ _ _ (trimProtocol.next (some s) (.popQueue s) ())
      rw [hpopped]
      exact trims_persistLoop n

theorem trims_enqueueMessage : Trims (enqueueMessage s c) := by
  apply trims_withQueueLock
  refine ⟨rfl, fun _ ↦ ⟨trivial, fun n ↦ ?_⟩⟩
  change Follows _ _ _ (Prog.when (decide (queuePersistThreshold < n)) (persistLoop s (n / 2)))
    (trimProtocol.next (some s) (.queueSize s) n)
  by_cases hn : queuePersistThreshold < n
  · have hlong : trimProtocol.next (some s) (.queueSize s) n = some s :=
      if_neg fun h ↦ absurd h.2 (not_le.mpr hn)
    have htwo : 2 ≤ queuePersistThreshold := by decide
    have hhalf : 0 < n / 2 := Nat.div_pos (htwo.trans hn.le) Nat.two_pos
    rw [hlong, decide_eq_true hn]
    exact follows_persistLoop hhalf
  · have hshort : trimProtocol.next (some s) (.queueSize s) n = none := if_pos ⟨rfl, not_lt.mp hn⟩
    rw [hshort, decide_eq_false hn]
    exact rfl

theorem trims_flushLoop (n : ℕ) : Trims (flushLoop s n) := by
  have h := Keeps.composable trimProtocol none
  induction n with
  | zero => exact h.ret ()
  | succ n ih =>
    refine h.bind trims_queueFront fun front ↦ ?_
    match front with
    | none => exact h.ret ()
    | some c =>
      refine h.bind (trims_other rfl) fun online ↦ ?_
      cases online with
      | false => exact h.ret ()
      | true =>
        refine h.bind trims_popQueue fun _ ↦ h.bind (h.recover ?_ fun _ ↦ trims_other rfl) fun _ ↦ ih
        exact h.bind (h.lift _) fun data ↦ h.bind (trims_perform trivial fun _ ↦ rfl) fun _ ↦ trims_other rfl

theorem carrying : Carrying Trims (fun _ ↦ True) (fun _ ↦ True) (fun _ _ ↦ True) where
  toComposable := Keeps.composable _ _
  other _ := trims_other
  newSession _ _ _ := trims_perform trivial fun _ ↦ rfl
  saveMessage _ _ := trims_saveMessage
  sendToClient _ _ _ _ := (Keeps.composable _ _).bind (trims_perform trivial fun _ ↦ rfl) fun _ ↦ trims_other rfl
  enqueueMessage _ _ _ := trims_enqueueMessage
  persistQueueToDatabase _ := trims_persistQueueToDatabase
  flushQueue _ := trims_withQueueLock ((Keeps.composable _ _).bind trims_queueSize fun n ↦ trims_flushLoop n)
  queueSize _ := trims_withQueueLock trims_queueSize

def pushed (i : ℕ) (w : World) : Option ℕ := phase trimProtocol none i w.log

theorem may_of_performs (h : (broker cfg).Reachable ok (initial metrics) S)
    (hp : Performs cfg ok S i j o ch r w') :
    trimProtocol.may (pushed i S.world) o :=
  may_of_follows (P := fun _ ↦ trimProtocol) (s := fun _ ↦ none)
    (fun _ ↦ carrying.code (fun _ _ _ _ ↦ trivial) (fun _ _ ↦ trivial) fun _ _ _ ↦ trivial) h hp

theorem pushed_exec (he : exec i j o ch w = some (r, w')) (i' : ℕ) :
    pushed i' w' = if i' = i then trimProtocol.next (pushed i w) o r else pushed i' w := by
  by_cases hi : i' = i
  · subst hi
    rw [if_pos rfl]
    exact phase_exec he
  · rw [if_neg hi]
    exact phase_exec_ne he hi

def failsToSave : (o : Op) → o.Res → Bool
  | .saveMessage _, .error _ => true
  | _, _ => false

def failedSaves (log : List Event) : ℕ := log.countP fun e ↦ failsToSave e.op e.res

theorem failedSaves_exec (he : exec i j o ch w = some (r, w')) :
    failedSaves w'.log = failedSaves w.log + if failsToSave o r = true then 1 else 0 := by
  rw [exec_log he]
  exact List.countP_cons

/-- The length that a queue has while nobody adds to it. -/
def Short (w : World) (s : ℕ) : Prop :=
  (w.sessions s).outgoingQueue.length ≤ queuePersistThreshold + failedSaves w.log

/-- The thread that holds the lock of the queue has pushed a message and goes on to trim it. -/
def Trimming (w : World) (s : ℕ) : Prop :=
  (∃ i, pushed i w = some s ∧ (w.sessions s).queueOwner = some i) ∧
    (w.sessions s).outgoingQueue.length ≤ queuePersistThreshold + 1 + failedSaves w.log

def Bounded (w : World) : Prop := ∀ s, Short w s ∨ Trimming w s

theorem short_of_le (h : Short w s)
    (hq : (w'.sessions s).outgoingQueue.length ≤ (w.sessions s).outgoingQueue.length)
    (hf : failedSaves w.log ≤ failedSaves w'.log) : Short w' s := by
  unfold Short at *
  omega

/-- What remains of the bound when the queue does not grow, its lock stays with
its owner, and the thread that takes the step forgets no push but for a reason. -/
theorem bounded_of_le (h : Short w s ∨ Trimming w s) (he : exec i j o ch w = some (r, w'))
    (hq : (w'.sessions s).outgoingQueue.length ≤ (w.sessions s).outgoingQueue.length)
    (howner : ∀ i, (w.sessions s).queueOwner = some i → pushed i w = some s →
      (w'.sessions s).queueOwner = some i)
    (hnext : pushed i w = some s → Trimming w s → trimProtocol.next (some s) o r = some s ∨ Short w' s) :
    Short w' s ∨ Trimming w' s := by
  have hf : failedSaves w.log ≤ failedSaves w'.log := by
    rw [failedSaves_exec he]
    omega
  rcases h with h | ⟨⟨i', hi', hown⟩, hlen⟩
  · exact .inl (short_of_le h hq hf)
  · have hpushed := pushed_exec he i'
    have htrim : Trimming w s := ⟨⟨i', hi', hown⟩, hlen⟩
    by_cases hii : i' = i
    · subst hii
      rcases hnext hi' htrim with hkept | hshort
      · refine .inr ⟨⟨i', ?_, howner i' hown hi'⟩, by omega⟩
        rw [hpushed, if_pos rfl, hi', hkept]
      · exact .inl hshort
    · refine .inr ⟨⟨i', ?_, howner i' hown hi'⟩, by omega⟩
      rw [hpushed, if_neg hii, hi']

theorem bounded_push {r : Unit} (hp : Performs cfg ok S i j (.pushQueue s' c) ch r w') (h : Bounded S.world)
    (hmay : pushed i S.world = none) : Bounded w' := by
  have hqueue := exec_pushQueue hp.exec
  have howner := (exec_frame hp.exec).queueOwners (by simp [writes])
  have hheld : (S.world.sessions s').queueOwner = some i := of_decide_eq_true hp.allowed.1
  intro s
  by_cases hs : s = s'
  · subst hs
    have hshort : Short S.world s := by
      rcases h s with hshort | ⟨⟨i', hi', hown⟩, -⟩
      · exact hshort
      · rw [hheld] at hown
        rw [Option.some.inj hown, hi'] at hmay
        cases hmay
    refine .inr ⟨⟨i, ?_, (howner s).trans hheld⟩, ?_⟩
    · rw [pushed_exec hp.exec, if_pos rfl]
      rfl
    · have hfailed := failedSaves_exec hp.exec
      rw [hqueue s, if_pos rfl, List.length_append, List.length_singleton]
      unfold Short at hshort
      omega
  · refine bounded_of_le (h s) hp.exec ?_ (fun i' hown _ ↦ (howner s).trans hown) fun hi _ ↦ ?_
    · rw [hqueue s, if_neg hs]
    · rw [hmay] at hi
      cases hi

theorem bounded_pop {r : Unit} (hp : Performs cfg ok S i j (.popQueue s') ch r w') (h : Bounded S.world) :
    Bounded w' := by
  have hqueue := exec_popQueue hp.exec
  have howner := (exec_frame hp.exec).queueOwners (by simp [writes])
  have hfailed := failedSaves_exec hp.exec
  intro s
  have hle : (w'.sessions s).outgoingQueue.length ≤ (S.world.sessions s).outgoingQueue.length := by
    rw [hqueue s]
    split
    · rw [List.length_tail]
      omega
    · exact le_rfl
  refine bounded_of_le (h s) hp.exec hle (fun i' hown _ ↦ (howner s).trans hown) fun hi htrim ↦ ?_
  by_cases hs : s = s'
  · subst hs
    right
    have hlen := htrim.2
    unfold Short
    rw [hqueue s, if_pos rfl, List.length_tail]
    omega
  · left
    exact if_neg fun heq ↦ hs (Option.some.inj heq)

theorem bounded_read (hp : Performs cfg ok S i j o ch r w') (h : Bounded S.world) (hq : .queues ∉ writes o)
    (hown : .queueOwners ∉ writes o)
    (hnext : ∀ s, pushed i S.world = some s → Trimming S.world s →
      trimProtocol.next (some s) o r = some s ∨ Short w' s) :
    Bounded w' := by
  intro s
  refine bounded_of_le (h s) hp.exec ?_ (fun i' ho _ ↦ ?_) (hnext s)
  · rw [(exec_frame hp.exec).queues (by simp [hq]) s]
  · rw [(exec_frame hp.exec).queueOwners (by simp [hown]) s]
    exact ho

theorem bounded_step (hr : (broker cfg).Reachable ok (initial metrics) S) (hp : Performs cfg ok S i j o ch r w')
    (h : Bounded S.world) : Bounded w' := by
  have hmay := may_of_performs hr hp
  have hfailed := failedSaves_exec hp.exec
  cases o with
  | pushQueue s' c => exact bounded_push hp h hmay
  | popQueue s' => exact bounded_pop hp h
  | queueSize s' =>
    apply bounded_read hp h (by simp [writes]) (by simp [writes])
    intro s hs htrim
    have hread : some (S.world.sessions s').outgoingQueue.length = some r := exec_reads hp.exec
    have hlen : (S.world.sessions s').outgoingQueue.length = r := Option.some.inj hread
    by_cases hshort : some s = some s' ∧ r ≤ queuePersistThreshold
    · right
      obtain ⟨heq, hle⟩ := hshort
      obtain rfl := Option.some.inj heq
      unfold Short
      rw [(exec_frame hp.exec).queues (by simp [writes]) s, hlen]
      exact Nat.le_add_right_of_le hle
    · exact .inl (if_neg hshort)
  | queueFront s' =>
    apply bounded_read hp h (by simp [writes]) (by simp [writes])
    intro s hs htrim
    have hread : some (S.world.sessions s').outgoingQueue.head? = some r := exec_reads hp.exec
    have hfront : (S.world.sessions s').outgoingQueue.head? = r := Option.some.inj hread
    by_cases hempty : some s = some s' ∧ r = none
    · right
      obtain ⟨heq, hnone⟩ := hempty
      obtain rfl := Option.some.inj heq
      have hnil : (S.world.sessions s).outgoingQueue = [] := List.head?_eq_none_iff.mp (hfront.trans hnone)
      unfold Short
      rw [(exec_frame hp.exec).queues (by simp [writes]) s, hnil]
      exact Nat.zero_le _
    · exact .inl (if_neg hempty)
  | saveMessage c =>
    apply bounded_read hp h (by simp [writes]) (by simp [writes])
    intro s hs htrim
    cases r with
    | ok id => exact .inl rfl
    | error e =>
      right
      have hlen := htrim.2
      have hone : failedSaves w'.log = failedSaves S.world.log + 1 := hfailed
      unfold Short
      rw [(exec_frame hp.exec).queues (by simp [writes]) s]
      omega
  | lockQueue s' =>
    obtain ⟨hfree, howner⟩ := exec_lockQueue hp.exec
    intro s
    refine bounded_of_le (h s) hp.exec ?_ (fun i' hown _ ↦ ?_) fun hi _ ↦ ?_
    · rw [(exec_frame hp.exec).queues (by simp [writes]) s]
    · have hne : s ≠ s' := by
        rintro rfl
        rw [hfree] at hown
        cases hown
      rw [howner s, if_neg hne]
      exact hown
    · cases hi.symm.trans hmay
  | unlockQueue s' =>
    have howner := exec_unlockQueue hp.exec
    have hheld : (S.world.sessions s').queueOwner = some i := of_decide_eq_true hp.allowed.1
    intro s
    refine bounded_of_le (h s) hp.exec ?_ (fun i' hown hi' ↦ ?_) fun hi _ ↦ ?_
    · rw [(exec_frame hp.exec).queues (by simp [writes]) s]
    · have hne : s ≠ s' := by
        rintro rfl
        rw [hheld] at hown
        obtain rfl := Option.some.inj hown
        cases hi'.symm.trans hmay
      rw [howner s, if_neg hne]
      exact hown
    · cases hi.symm.trans hmay
  | newSession identity n =>
    obtain ⟨-, -, hne, hnew⟩ := exec_newSession hp.exec
    intro s
    by_cases hs : s = S.world.nextSession
    · left
      unfold Short
      rw [hs, hnew]
      exact Nat.zero_le _
    · refine bounded_of_le (h s) hp.exec ?_ (fun i' hown _ ↦ ?_) fun _ _ ↦ .inl rfl
      · rw [hne s hs]
      · rw [hne s hs]
        exact hown
  | _ => exact bounded_read hp h (by simp [writes]) (by simp [writes]) fun _ _ _ ↦ .inl rfl

theorem bounded_of_reachable (h : (broker cfg).Reachable ok (initial metrics) S) : Bounded S.world :=
  reachable_invariant (P := Bounded) (fun _ ↦ .inl (Nat.zero_le _)) (fun _ _ _ _ h ↦ h) bounded_step h

/-- However the threads interleave, a queue holds at most 100 messages, one more
while a thread holds its lock, and one more for each save that has failed. -/
theorem queue_bounded (h : (broker cfg).Reachable ok (initial metrics) S) (s : ℕ) :
    (S.world.sessions s).outgoingQueue.length ≤ 101 + failedSaves S.world.log ∧
      ((S.world.sessions s).queueOwner = none →
        (S.world.sessions s).outgoingQueue.length ≤ 100 + failedSaves S.world.log) := by
  rcases bounded_of_reachable h s with hshort | ⟨⟨i, -, hown⟩, hlen⟩
  · unfold Short queuePersistThreshold at hshort
    exact ⟨by omega, fun _ ↦ hshort⟩
  · unfold queuePersistThreshold at hlen
    refine ⟨hlen, fun hnone ↦ ?_⟩
    cases hown.symm.trans hnone

/-- Bob goes offline while two messages are on their way to his session. He
registers again over another connection, and the second one is not saved. As no
session comes online again, to reach the threshold takes a hundred handlers at
once that have all found him online. -/
theorem queue_bounded_bob : ∃ S, (broker {}).Reachable (fun _ _ ↦ True) (initial none) S ∧
    (S.world.sessions 0).outgoingQueue.length = 1 ∧ failedSaves S.world.log = 1 ∧
      (S.world.sessions 0).outgoingQueue.length ≤ 100 + failedSaves S.world.log := by
  have hrun : ((broker {}).runs (fun _ _ ↦ True) (inTurn 0 [
      (arrival { type := .register, sender := [98] }, 31), (arrival { sender := [97], destination := [98] }, 16),
      (arrival { sender := [97], destination := [98] }, 11),
        (arrival { sender := [97], destination := [98] }, 11),
      (.processPendingSends, 2)] ++ [.step 4 { socket := .wouldBlock }, .step 4 {}] ++
      List.replicate 7 (.step 2 {}) ++ List.replicate 7 (.step 3 {}) ++
      inTurn 5 [(arrivalFrom [99] { type := .register, sender := [98] }, 17)] ++
      [.step 5 { dbError := true }, .step 5 {}]) ⟨initial none, []⟩).map (fun S ↦
        ((S.world.sessions 0).outgoingQueue.length, failedSaves S.world.log, (S.world.sessions 0).queueOwner)) =
      some (1, 1, none) := by decide +kernel
  obtain ⟨S, hS, hv⟩ := exists_run hrun
  simp only [Prod.mk.injEq] at hv
  obtain ⟨hlength, hfailed, hfree⟩ := hv
  exact ⟨S, hS, hlength, hfailed, (queue_bounded hS 0).2 hfree⟩

end MessageBroker.QueueBound
