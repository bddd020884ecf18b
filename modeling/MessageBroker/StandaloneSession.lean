import MessageBroker.SequentialRuns
import MessageBroker.SessionQueues
import MessageBroker.WireCodec

namespace MessageBroker.StandaloneSession

open ByteStrings WireMessages MessageStore ProgramTrees BrokerState SessionQueues WireCodec
  SequentialRuns

inductive Fate
  | handed
  | persisted
deriving DecidableEq

/-- How the outside answers one call: the exception and the result of the
persist callback, and whether `SendToClient` reports a failure before it returns. -/
structure Answer where
  throws : Option String := none
  row : ℕ := 0
  reports : Bool := false

/-- A session whose persist callback is set. `clock` counts the calls to the
outside. The last four fields are auxiliary: the messages passed to
`SendMessage`, the copies that entered the queue, the copies that reached the
outside, and whether the callback has thrown. -/
structure Standalone where
  name : Bytes := []
  isOnline : Bool := true
  outgoingQueue : List Copy := []
  locked : Bool := false
  destroyed : Bool := false
  terminated : Bool := false
  clock : ℕ := 0
  sent : List Message := []
  queued : List Copy := []
  trail : List (Fate × Copy) := []
  threw : Bool := false

/-- The effect of an operation on the session, where `a` is the answer of the
outside if the operation calls it. -/
def effect (a : Answer) : (o : Op) → Standalone → Option (o.Res × Standalone)
  | .nameOf _, x => some (x.name, x)
  | .isOnline _, x => some (x.isOnline, x)
  | .markOffline _, x => some ((), { x with isOnline := false })
  | .updateLastActivity _, x => some ((), x)
  | .lockQueue _, x => if x.locked then none else some ((), { x with locked := true })
  | .unlockQueue _, x => some ((), { x with locked := false })
  | .queueSize _, x => some (x.outgoingQueue.length, x)
  | .queueFront _, x => some (x.outgoingQueue.head?, x)
  | .pushQueue _ c, x =>
    some ((), { x with outgoingQueue := x.outgoingQueue ++ [c], queued := x.queued ++ [c] })
  | .popQueue _, x => some ((), { x with outgoingQueue := x.outgoingQueue.tail })
  | .saveMessage c, x =>
    match a.throws with
    | some e => some (.error e, { x with clock := x.clock + 1, threw := true })
    | none =>
      some (.ok a.row, { x with clock := x.clock + 1, trail := x.trail ++ [(.persisted, c)] })
  | .pushPendingSend _ c _, x =>
    some ((), { x with
      isOnline := x.isOnline && !a.reports
      clock := x.clock + 1
      trail := x.trail ++ [(.handed, c)] })
  | .postSendTask, x => some ((), x)
  | .destroySession _, x => some ((), { x with destroyed := true })
  | .terminate, x => some ((), { x with terminated := true })
  | _, _ => none

def exec (A : ℕ → Answer) (o : Op) (x : Standalone) : Option (o.Res × Standalone) :=
  effect (A x.clock) o x

inductive Call
  | sendMessage (m : Message)
  | markOffline
  | markOnline
  | flushQueue
  | persistQueueToDatabase

/-- One call of a method. A copy carries the position of its call among those
of `SendMessage` as its source. -/
def call (A : ℕ → Answer) (x : Standalone) : Call → Option Standalone
  | .sendMessage m =>
    (interp (exec A) (sendMessage 0 ⟨m, some x.sent.length, m.destination⟩)
      { x with sent := x.sent ++ [m] }).map (·.2)
  | .markOffline => some { x with isOnline := false }
  | .markOnline => some { x with isOnline := true }
  | .flushQueue => (interp (exec A) (flushQueue 0) x).map (·.2)
  | .persistQueueToDatabase => (interp (exec A) (persistQueueToDatabase 0) x).map (·.2)

def run (A : ℕ → Answer) (calls : List Call) (x : Standalone) : Option Standalone :=
  calls.foldlM (call A) x

def Call.message : Call → Option Message
  | .sendMessage m => some m
  | _ => none

variable {A : ℕ → Answer} {x y z : Standalone} {fate : Fate} {k n s : ℕ} {c : Copy}
  {m : Message} {p : Program Unit} {Q R : Except String Unit → Standalone → Prop}

/-- The session of the broker looks like `x`. -/
structure Shows (w : World) (s : ℕ) (x : Standalone) : Prop where
  name : (w.sessions s).name = x.name
  isOnline : (w.sessions s).isOnline = x.isOnline
  outgoingQueue : (w.sessions s).outgoingQueue = x.outgoingQueue
  locked : (w.sessions s).queueOwner.isSome = x.locked
  destroyed : (w.sessions s).destroyed = x.destroyed
  terminated : w.terminated = x.terminated

/-- The operations that the methods of session `s` perform. -/
def OfSession (s : ℕ) : Op → Prop
  | .nameOf t | .isOnline t | .markOffline t | .updateLastActivity t | .lockQueue t
  | .unlockQueue t | .queueSize t | .queueFront t | .pushQueue t _ | .popQueue t
  | .pushPendingSend t _ _ | .destroySession t => t = s
  | .saveMessage _ | .postSendTask | .terminate => True
  | _ => False

theorem Shows.effect {w w' : World} {i : ℕ} {ch : Choice} {o : Op} {r : o.Res}
    (h : Shows w s x) (ho : OfSession s o) (he : BrokerState.effect i ch o w = some (r, w')) :
    ∃ a x', StandaloneSession.effect a o x = some (r, x') ∧ Shows w' s x' := by
  cases o with
  | saveMessage c =>
    simp only [BrokerState.effect, dbCall] at he
    split_ifs at he with hdb
    · cases he
      exact ⟨{ throws := some _ }, _, rfl, h.1, h.2, h.3, h.4, h.5, h.6⟩
    · cases he
      exact ⟨{ row := _ }, _, rfl, h.1, h.2, h.3, h.4, h.5, h.6⟩
  | lockQueue t =>
    cases ho
    simp only [BrokerState.effect] at he
    split_ifs at he with hfree
    cases he
    have hl : x.locked = false := by rw [← h.locked, hfree]; rfl
    refine ⟨{}, { x with locked := true }, ?_, ?_⟩
    · simp only [StandaloneSession.effect, hl, Bool.false_eq_true, if_false]
    · constructor <;> simp [World.setSession, h.1, h.2, h.3, h.5, h.6]
  | nameOf t | isOnline t | queueSize t | queueFront t =>
    cases ho
    cases he
    exact ⟨{}, x, by simp only [StandaloneSession.effect, h.1, h.2, h.3], h⟩
  | postSendTask | terminate =>
    cases he
    exact ⟨{}, _, rfl, h.1, h.2, h.3, h.4, h.5, by first | exact h.6 | rfl⟩
  | pushPendingSend t c d =>
    cases ho
    cases he
    exact ⟨{}, _, rfl, h.1, by simpa using h.2, h.3, h.4, h.5, h.6⟩
  | markOffline t | updateLastActivity t | unlockQueue t | pushQueue t c | popQueue t
  | destroySession t =>
    cases ho
    cases he
    refine ⟨{}, _, rfl, ?_⟩
    constructor <;> simp [World.setSession, h.1, h.2, h.3, h.4, h.5, h.6]
  | _ => exact ho.elim

/-- What becomes of a copy that leaves the queue. -/
def leaving (name : Bytes) : Fate → Copy → Fate × Copy
  | .handed, c => (.handed, c)
  | .persisted, c => (.persisted, { c with msg := { c.msg with destination := name } })

@[simp] theorem leaving_source (name : Bytes) (fate : Fate) (c : Copy) :
    (leaving name fate c).2.source = c.source := by
  cases fate <;> rfl

/-- The first `k` copies have left the queue in the same way, in order. -/
structure Drained (fate : Fate) (k : ℕ) (x y : Standalone) : Prop where
  queue : y.outgoingQueue = x.outgoingQueue.drop k
  trail : y.trail = x.trail ++ (x.outgoingQueue.take k).map (leaving x.name fate)
  name : y.name = x.name
  sent : y.sent = x.sent
  queued : y.queued = x.queued
  locked : y.locked = x.locked
  destroyed : y.destroyed = x.destroyed
  terminated : y.terminated = x.terminated
  clock : x.clock ≤ y.clock
  threw : x.threw = true → y.threw = true

theorem Drained.refl (fate : Fate) (x : Standalone) : Drained fate 0 x x where
  queue := rfl
  trail := (List.append_nil _).symm
  name := rfl
  sent := rfl
  queued := rfl
  locked := rfl
  destroyed := rfl
  terminated := rfl
  clock := Nat.le_refl _
  threw := id

theorem Drained.trans (h : Drained fate 1 x y) (h' : Drained fate k y z) :
    Drained fate (k + 1) x z where
  queue := by rw [h'.queue, h.queue, List.drop_drop, Nat.add_comm 1]
  trail := by
    rw [h'.trail, h.trail, h.queue, h.name, List.append_assoc, ← List.map_append, Nat.add_comm k,
      List.take_add]
  name := h'.name.trans h.name
  sent := h'.sent.trans h.sent
  queued := h'.queued.trans h.queued
  locked := h'.locked.trans h.locked
  destroyed := h'.destroyed.trans h.destroyed
  terminated := h'.terminated.trans h.terminated
  clock := h.clock.trans h'.clock
  threw := h'.threw ∘ h.threw

def Threw (A : ℕ → Answer) (x y : Standalone) : Prop :=
  y.threw = true ∧ ∃ t, x.clock ≤ t ∧ (A t).throws ≠ none

theorem ends_persistFront (hq : x.outgoingQueue.head? = some c) :
    Ends (exec A) (persistFront s c) x fun r y ↦
      (r = .ok () ∧ Drained .persisted 1 x y) ∨
        (∃ e, r = .error e) ∧ Drained .persisted 0 x y ∧ Threw A x y := by
  obtain ⟨q, hx⟩ : ∃ q, x.outgoingQueue = c :: q := List.head?_eq_some_iff.mp hq
  refine Ends.step (t := x) rfl ?_
  cases he : (A x.clock).throws with
  | some e =>
    refine Ends.bind (R := fun r y ↦ r = .error e ∧
      y = { x with clock := x.clock + 1, threw := true }) ?_ (fun _ _ h ↦ nomatch h.1) ?_
    · refine Ends.bind (R := fun r y ↦ r = .error e ∧
        y = { x with clock := x.clock + 1, threw := true }) ?_ (fun _ _ h ↦ nomatch h.1)
        fun _ _ h ↦ ⟨by cases h.1; rfl, h.2⟩
      exact Ends.step (by rw [exec, effect, he]) (.lift ⟨rfl, rfl⟩)
    · rintro e' y ⟨-, rfl⟩
      refine .inr ⟨⟨e', rfl⟩, ?_, rfl, x.clock, Nat.le_refl _, by rw [he]; nofun⟩
      exact { Drained.refl .persisted x with clock := Nat.le_succ _, threw := fun _ ↦ rfl }
  | none =>
    refine Ends.bind (R := fun r y ↦ r = .ok () ∧ y = { x with
      clock := x.clock + 1
      trail := x.trail ++ [leaving x.name .persisted c] }) ?_ ?_ fun _ _ h ↦ nomatch h.1
    · refine Ends.bind (R := fun r y ↦ (∃ a, r = .ok a) ∧ y = { x with
        clock := x.clock + 1
        trail := x.trail ++ [leaving x.name .persisted c] }) ?_ (fun _ _ h ↦ .ret ⟨rfl, h.2⟩)
        fun _ _ h ↦ nomatch h.1.choose_spec
      exact Ends.step (a := .ok (A x.clock).row) (by rw [exec, effect, he]; rfl) (.lift ⟨⟨_, rfl⟩, rfl⟩)
    · rintro u y ⟨-, rfl⟩
      refine Ends.perform rfl (.inl ⟨rfl, ?_⟩)
      exact { Drained.refl .persisted x with
        queue := by rw [List.drop_one]
        trail := by rw [hx]; rfl
        clock := Nat.le_succ _ }

theorem ends_persistLoop (n : ℕ) (x : Standalone) :
    Ends (exec A) (persistLoop s n) x fun r y ↦ ∃ k, Drained .persisted k x y ∧
      ((r = .ok () ∧ k = min n x.outgoingQueue.length) ∨ (∃ e, r = .error e) ∧ Threw A x y) := by
  induction n generalizing x with
  | zero => exact .ret ⟨0, .refl _ _, .inl ⟨rfl, (Nat.zero_min _).symm⟩⟩
  | succ n ih =>
    refine Ends.step (t := x) rfl ?_
    cases hq : x.outgoingQueue.head? with
    | none =>
      have hx : x.outgoingQueue = [] := List.head?_eq_none_iff.mp hq
      exact .ret ⟨0, .refl _ _, .inl ⟨rfl, by rw [hx]; rfl⟩⟩
    | some c =>
      have hpos : 0 < x.outgoingQueue.length := by
        obtain ⟨q, hx⟩ := List.head?_eq_some_iff.mp hq
        rw [hx]
        exact Nat.succ_pos _
      refine (ends_persistFront hq).bind ?_ ?_
      · rintro u y (⟨-, hd⟩ | ⟨⟨e, he⟩, -⟩)
        · refine (ih y).mono ?_
          rintro r z ⟨k, hd', hr⟩
          refine ⟨k + 1, hd.trans hd', ?_⟩
          rcases hr with ⟨rfl, rfl⟩ | ⟨he, hthrew, t, ht, hne⟩
          · refine .inl ⟨rfl, ?_⟩
            rw [hd.queue, List.length_drop]
            omega
          · exact .inr ⟨he, hthrew, t, hd.clock.trans ht, hne⟩
        · exact nomatch he
      · rintro e y (⟨he, -⟩ | ⟨he, hd, ht⟩)
        · exact nomatch he
        · exact ⟨0, hd, .inr ⟨he, ht⟩⟩

theorem ends_sendZmqMessage (hfits : c.msg.Fits) :
    Ends (exec A) (sendZmqMessage s c) x fun r y ↦ r = .ok () ∧ y = { x with
      isOnline := x.isOnline && !(A x.clock).reports
      clock := x.clock + 1
      trail := x.trail ++ [(.handed, c)] } := by
  obtain ⟨data, hdata⟩ : ∃ data, serialize c.msg = .ok data := ⟨_, serialize_frame hfits⟩
  rw [sendZmqMessage, hdata]
  exact .op rfl (.op rfl (.ret ⟨rfl, rfl⟩))

theorem ends_flushLoop (n : ℕ) (x : Standalone) (hfits : ∀ c ∈ x.outgoingQueue, c.msg.Fits) :
    Ends (exec A) (flushLoop s n) x fun r y ↦ r = .ok () ∧ ∃ k, Drained .handed k x y := by
  induction n generalizing x with
  | zero => exact .ret ⟨rfl, 0, .refl _ _⟩
  | succ n ih =>
    refine Ends.step (t := x) rfl ?_
    cases hq : x.outgoingQueue.head? with
    | none => exact .ret ⟨rfl, 0, .refl _ _⟩
    | some c =>
      obtain ⟨q, hx⟩ : ∃ q, x.outgoingQueue = c :: q := List.head?_eq_some_iff.mp hq
      refine Ends.step (t := x) rfl ?_
      cases honline : x.isOnline with
      | false => exact .ret ⟨rfl, 0, .refl _ _⟩
      | true =>
        refine Ends.step rfl ((ends_sendZmqMessage (hfits c ?_)).bind ?_ fun _ _ h ↦ nomatch h.1)
        · rw [hx]
          exact List.mem_cons_self
        · rintro u y ⟨-, hy⟩
          have hd : Drained .handed 1 x y := by
            subst hy
            exact { Drained.refl .handed x with
              queue := by rw [List.drop_one]
              trail := by rw [hx]; rfl
              clock := Nat.le_succ _ }
          have hmem : ∀ c ∈ y.outgoingQueue, c.msg.Fits := fun c hc ↦
            hfits c (List.mem_of_mem_drop (hd.queue ▸ hc))
          refine (ih y hmem).mono ?_
          rintro r z ⟨hr, k, hd'⟩
          exact ⟨hr, k + 1, hd.trans hd'⟩

theorem ends_withQueueLock (hfree : x.locked = false)
    (h : Ends (exec A) p { x with locked := true } R)
    (hQ : ∀ r y, R r y → Q r { y with locked := false }) :
    Ends (exec A) (withQueueLock s p) x Q := by
  refine Ends.step (a := ()) (by rw [exec, effect, hfree]; rfl) (h.ensuring fun r y hr ↦ ?_)
  exact Ends.perform rfl ⟨rfl, hQ r y hr⟩

theorem Drained.unlocked (hfree : x.locked = false) (h : Drained fate k { x with locked := true } y) :
    Drained fate k x { y with locked := false } :=
  { h with locked := hfree.symm }

theorem ends_persistQueueToDatabase (hfree : x.locked = false) :
    Ends (exec A) (persistQueueToDatabase s) x fun r y ↦ ∃ k, Drained .persisted k x y ∧
      ((r = .ok () ∧ k = x.outgoingQueue.length) ∨ (∃ e, r = .error e) ∧ Threw A x y) := by
  refine ends_withQueueLock hfree (Ends.step rfl (ends_persistLoop _ _)) ?_
  rintro r y ⟨k, hd, hr⟩
  refine ⟨k, hd.unlocked hfree, hr.imp (fun h ↦ ⟨h.1, ?_⟩) id⟩
  rw [h.2]
  exact Nat.min_self _

theorem ends_flushQueue (hfree : x.locked = false) (hfits : ∀ c ∈ x.outgoingQueue, c.msg.Fits) :
    Ends (exec A) (flushQueue s) x fun r y ↦ r = .ok () ∧ ∃ k, Drained .handed k x y := by
  refine ends_withQueueLock hfree (Ends.step rfl (ends_flushLoop _ _ hfits)) ?_
  rintro r y ⟨hr, k, hd⟩
  exact ⟨hr, k, hd.unlocked hfree⟩

/-- The queue after one more copy has entered it. -/
def Standalone.push (x : Standalone) (c : Copy) : Standalone :=
  { x with outgoingQueue := x.outgoingQueue ++ [c], queued := x.queued ++ [c] }

theorem ends_enqueueMessage (hfree : x.locked = false) :
    Ends (exec A) (enqueueMessage s c) x fun _ y ↦ ∃ k, Drained .persisted k (x.push c) y ∧
      (y.threw = true ∨ y.outgoingQueue.length ≤ max queuePersistThreshold
        (x.outgoingQueue.length + 1 - (x.outgoingQueue.length + 1) / 2)) := by
  refine ends_withQueueLock hfree (R := fun _ y ↦
    ∃ k, Drained .persisted k { x.push c with locked := true } y ∧
      (y.threw = true ∨ y.outgoingQueue.length ≤ max queuePersistThreshold
        (x.outgoingQueue.length + 1 - (x.outgoingQueue.length + 1) / 2))) ?_ ?_
  · refine Ends.step (t := { x.push c with locked := true }) rfl (Ends.step rfl ?_)
    have hlen : (x.push c).outgoingQueue.length = x.outgoingQueue.length + 1 :=
      List.length_append
    change Ends _ (Prog.when (queuePersistThreshold < (x.push c).outgoingQueue.length)
      (persistLoop s ((x.push c).outgoingQueue.length / 2))) _ _
    rw [hlen, Prog.when]
    split_ifs with hover
    · refine (ends_persistLoop _ _).mono ?_
      rintro r y ⟨k, hd, ⟨-, rfl⟩ | ⟨-, ht, -⟩⟩
      · refine ⟨_, hd, .inr ?_⟩
        rw [hd.queue, List.length_drop]
        change (x.push c).outgoingQueue.length - min _ (x.push c).outgoingQueue.length ≤ _
        omega
      · exact ⟨k, hd, .inl ht⟩
    · refine .ret ⟨0, .refl _ _, .inr ?_⟩
      simp only [decide_eq_true_eq, Nat.not_lt] at hover
      change (x.push c).outgoingQueue.length ≤ _
      omega
  · rintro r y ⟨k, hd, hy⟩
    exact ⟨k, hd.unlocked hfree, hy⟩

theorem ends_sendMessage (hfree : x.locked = false) (hfits : c.msg.Fits) :
    Ends (exec A) (sendMessage s c) x fun _ y ↦
      (∃ online clock, y = { x with
        isOnline := online
        clock := clock
        trail := x.trail ++ [(.handed, c)] }) ∨
      ∃ k, Drained .persisted k (x.push c) y ∧
        (y.threw = true ∨ y.outgoingQueue.length ≤ max queuePersistThreshold
          (x.outgoingQueue.length + 1 - (x.outgoingQueue.length + 1) / 2)) := by
  refine Ends.step (t := x) rfl (Ends.step (t := x) rfl ?_)
  cases hx : x.isOnline with
  | true =>
    refine (ends_sendZmqMessage hfits).bind ?_ fun _ _ he ↦ nomatch he.1
    rintro u y ⟨-, rfl⟩
    exact .ret (.inl ⟨_, _, rfl⟩)
  | false =>
    exact (ends_enqueueMessage hfree).bind (fun _ _ hy ↦ .ret (.inr hy)) fun _ _ hy ↦ .inr hy

end MessageBroker.StandaloneSession
