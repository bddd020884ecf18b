import MessageBroker.ThreadPhases

namespace MessageBroker.AckNotices

open ByteStrings WireMessages MessageStore ProgramTrees ThreadPools Protocols BrokerState SessionQueues
  ClientRegistry MessageHandlers ServerJobs HandlerOutlines StoreInvariant OperationEffects ThreadViews
  SharedInvariant ProgramShapes ServerOutlines RunInvariants ThreadPhases

/-- How a sender is told of an acknowledgement: a notification is saved as a row,
or it is handed to the session that the handler has found online. If that one has
gone offline since, it is handed to its queue. -/
inductive Notice
  | stored (id : ℕ) (n : Message)
  | handed (s : ℕ) (n : Message)
deriving DecidableEq

/-- What a thread that handles an acknowledgement has done so far: the original
sender that it has looked up, the row for which `NeedsAck` was true, whether it
has marked this row, how often it has counted an acknowledgement, the session
that it has last found online, and how it has told the sender. What it saves
while it has locked a queue is the queue of a session, and no notice. -/
structure Handling where
  owner : Option Bytes := none
  row : Option ℕ := none
  marked : Bool := false
  acks : ℕ := 0
  online : Option ℕ := none
  locked : Bool := false
  notices : List Notice := []
deriving DecidableEq

namespace Handling

def tell (x : Handling) (n : Notice) : Handling := { x with notices := x.notices ++ [n] }

/-- The record after an operation, unless a storage call has thrown. -/
def note (x : Handling) : (o : Op) → o.Res → Option Handling
  | .findOriginalSenderByCorrelation _, owner => some { x with owner := some owner }
  | .needsAck id, r => some (if r then { x with row := some id } else x)
  | .markDelivered _, .ok _ => some { x with marked := true }
  | .markDelivered _, .error _ | .saveMessage _, .error _ => none
  | .increment counter, _ => some (if counter = .acksReceived then { x with acks := x.acks + 1 } else x)
  | .isOnline s, r => some (if r then { x with online := some s } else x)
  | .lockQueue _, _ => some { x with locked := true }
  | .unlockQueue _, _ => some { x with locked := false }
  | .saveMessage c, .ok id => some (if x.locked then x else x.tell (.stored id c.msg))
  | .pushQueue s c, _ | .pushPendingSend s c _, _ => some (x.tell (.handed s c.msg))
  | _, _ => some x

/-- The row that the thread must mark next. -/
def pending (x : Handling) : Option ℕ := if x.marked then none else x.row

def allows (x : Handling) : Op → Prop
  | .needsAck _ => x.row = none
  | .markDelivered _ => False
  | .increment counter => counter = .acksReceived → x.acks = 0 ∧ x.row ≠ none
  | .saveMessage _ => x.locked = true ∨ x.notices = [] ∧ x.row ≠ none
  | .pushQueue _ c | .pushPendingSend _ c _ => c.source = none ∧ x.notices = [] ∧ x.row ≠ none
  | _ => True

def may (x : Handling) (o : Op) : Prop :=
  match x.pending with
  | some id => o = .markDelivered id
  | none => x.allows o

end Handling

inductive AckPhase
  | other
  | failed
  | handling (x : Handling)

def ackProtocol : Protocol Op Op.Res AckPhase where
  may
    | .handling x, o => x.may o
    | _, _ => True
  next
    | .handling x, o, r => (x.note o r).elim .failed .handling
    | y, _, _ => y

variable {α β : Type} {p : Program α} {x y : Handling} {z : AckPhase} {Q R : α → Handling → Prop} {o : Op}
  {s : ℕ} {c : Copy} {n : Bytes} {msg m : Message} {id : ℕ} {session : Option ℕ} {owner : Bytes}

/-- The program returns with a record that satisfies `Q`, unless a storage call throws. -/
def Handles (p : Program α) (x : Handling) (Q : α → Handling → Prop) : Prop :=
  Follows ackProtocol (fun a y ↦ y = .failed ∨ ∃ x', y = .handling x' ∧ Q a x') (fun _ y ↦ y = .failed) p
    (.handling x)

theorem follows_failed {p : Program α} :
    Follows ackProtocol (fun _ y ↦ y = .failed) (fun _ y ↦ y = .failed) p .failed :=
  Follows.absorbed (fun _ ↦ ⟨trivial, fun _ ↦ rfl⟩) (fun _ ↦ rfl) fun _ ↦ rfl

theorem Handles.ret {a : α} (h : Q a x) : Handles (.ret a) x Q := .inr ⟨x, rfl, h⟩

theorem Handles.mono (h : Handles p x Q) (hQ : ∀ a y, Q a y → R a y) : Handles p x R :=
  Follows.mono h (fun a _ ↦ Or.imp_right fun ⟨y, hy, hq⟩ ↦ ⟨y, hy, hQ a y hq⟩) fun _ _ ↦ id

theorem Handles.bind {f : α → Program β} {R : β → Handling → Prop} (h : Handles p x Q)
    (hf : ∀ a y, Q a y → Handles (f a) y R) : Handles (p.bind f) x R := by
  refine Follows.bind h fun a y hy ↦ ?_
  rcases hy with rfl | ⟨y, rfl, hy⟩
  · exact Follows.mono follows_failed (fun _ _ ↦ .inl) fun _ _ ↦ id
  · exact hf a y hy

theorem Handles.recover {f : String → Program α} (h : Handles p x Q) : Handles (p.recover f) x Q :=
  Follows.recover h fun e y hy ↦ by
    subst hy
    exact Follows.mono follows_failed (fun _ _ ↦ .inl) fun _ _ ↦ id

theorem Handles.ensuring {q : Program Unit} (h : Handles p x Q) (hq : ∀ a y, Q a y → Handles q y fun _ ↦ R a) :
    Handles (p.ensuring q) x R :=
  h.recover.bind fun a y hy ↦ (hq a y hy).bind fun _ _ hR ↦ .ret hR

theorem Handles.op {k : o.Res → Program α} (hm : x.may o) (h : ∀ r y, x.note o r = some y → Handles (k r) y Q) :
    Handles (.op o k) x Q := by
  refine ⟨hm, fun r ↦ ?_⟩
  change Follows _ _ _ (k r) ((x.note o r).elim AckPhase.failed AckPhase.handling)
  cases hy : x.note o r with
  | none => exact Follows.mono follows_failed (fun _ _ ↦ .inl) fun _ _ ↦ id
  | some y => exact h r y hy

def quiet : Op → Bool
  | .findOriginalSenderByCorrelation _ | .needsAck _ | .markDelivered _ | .saveMessage _ | .isOnline _
  | .lockQueue _ | .unlockQueue _ | .pushQueue _ _ | .pushPendingSend _ _ _ => false
  | .increment counter => counter ≠ .acksReceived
  | _ => true

/-- The thread has no row to mark. -/
def Rests (x : Handling) : Prop := x.pending = none

theorem may_iff (hx : Rests x) : x.may o ↔ x.allows o := by
  rw [Rests] at hx
  rw [Handling.may, hx]

theorem Handles.quiet {k : o.Res → Program α} (hx : Rests x) (ho : quiet o = true) (h : ∀ r, Handles (k r) x Q) :
    Handles (.op o k) x Q := by
  refine .op ((may_iff hx).mpr ?_) fun r y hy ↦ ?_
  · cases o with
    | needsAck | markDelivered | saveMessage | pushQueue | pushPendingSend => cases ho
    | increment counter => exact fun hc ↦ absurd hc (of_decide_eq_true ho)
    | _ => trivial
  · have hnote : x.note o r = some x := by
      cases o with
      | findOriginalSenderByCorrelation | needsAck | markDelivered | saveMessage | isOnline | lockQueue
      | unlockQueue | pushQueue | pushPendingSend => cases ho
      | increment counter => exact congrArg some (if_neg (of_decide_eq_true ho))
      | _ => rfl
    obtain rfl := Option.some.inj (hnote.symm.trans hy)
    exact h r

theorem handles_perform (hx : Rests x) (ho : quiet o = true) : Handles (perform o) x fun _ y ↦ y = x :=
  .quiet hx ho fun _ ↦ .ret rfl

section

variable (hx : Rests x)
include hx

theorem handles_saveLocked (hl : x.locked = true) : Handles (saveMessage c) x fun _ y ↦ y = x := by
  refine .op ((may_iff hx).mpr (.inl hl)) fun r y hy ↦ ?_
  cases r with
  | error e => cases hy
  | ok id =>
    rw [Handling.note, if_pos hl] at hy
    exact .ret (Option.some.inj hy).symm

theorem handles_persistLoop (hl : x.locked = true) (k : ℕ) : Handles (persistLoop s k) x fun _ y ↦ y = x := by
  induction k with
  | zero => exact .ret rfl
  | succ k ih =>
    refine .quiet hx rfl fun r ↦ ?_
    cases r with
    | none => exact .ret rfl
    | some c =>
      have hfront : Handles (persistFront s c) x fun _ y ↦ y = x := by
        refine .quiet hx rfl fun n ↦ ?_
        have hsave : Handles (persistMessageForClient n c) x fun _ y ↦ y = x :=
          (handles_saveLocked hx hl).bind fun _ _ hy ↦ .ret hy
        exact hsave.bind fun _ y hy ↦ by
          subst hy
          exact handles_perform hx rfl
      exact hfront.bind fun _ y hy ↦ by
        subst hy
        exact ih

theorem handles_withQueueLock {p : Program α}
    (h : Handles p { x with locked := true } fun a y ↦ Rests y ∧ Q a { y with locked := false }) :
    Handles (withQueueLock s p) x Q := by
  refine .op ((may_iff hx).mpr trivial) fun _ y hy ↦ ?_
  obtain rfl := Option.some.inj hy
  refine Handles.ensuring h fun a y hy ↦ .op ((may_iff hy.1).mpr trivial) fun _ z hz ↦ ?_
  obtain rfl := Option.some.inj hz
  exact .ret hy.2

end

/-- The thread has no row to mark and has locked no queue. -/
structure Steady (x : Handling) : Prop where
  rests : Rests x
  unlocked : x.locked = false

theorem Steady.relock (h : Steady x) : { x with locked := false } = x := by
  rw [← h.unlocked]

section

variable (hx : Steady x)
include hx

theorem handles_persistQueueToDatabase : Handles (persistQueueToDatabase s) x fun _ y ↦ y = x := by
  have hl : Rests { x with locked := true } := hx.rests
  refine handles_withQueueLock hx.rests
    (.quiet hl rfl fun k ↦ (handles_persistLoop hl rfl k).mono fun _ y hy ↦ ?_)
  subst hy
  exact ⟨hl, hx.relock⟩

theorem handles_dropSession : Handles (dropSession s) x fun _ y ↦ y = x := by
  have hdestroy : Handles (destroy s) x fun _ y ↦ y = x :=
    (handles_persistQueueToDatabase hx).recover.bind fun _ y hy ↦ by
      subst hy
      exact handles_perform hx.rests rfl
  refine .quiet hx.rests rfl fun r ↦ ?_
  cases r with
  | false => exact .ret rfl
  | true => exact hdestroy

theorem handles_withRegistryLock {p : Program α} (h : Handles p x fun _ y ↦ y = x) :
    Handles (withRegistryLock p) x fun _ y ↦ y = x :=
  .quiet hx.rests rfl fun _ ↦ h.ensuring fun _ y hy ↦ by
    subst hy
    exact handles_perform hx.rests rfl

theorem handles_touchSession {identity : Bytes} : Handles (touchSession identity) x fun _ y ↦ y = x := by
  refine handles_withRegistryLock hx (.quiet hx.rests rfl fun r ↦ ?_)
  cases r with
  | none => exact .ret rfl
  | some n =>
    refine .quiet hx.rests rfl fun r ↦ ?_
    cases r with
    | none => exact .ret rfl
    | some s => exact .quiet hx.rests rfl fun _ ↦ .ret rfl

theorem handles_enqueueMessage (hc : c.source = none) (hn : x.notices = [] ∧ x.row ≠ none) :
    Handles (enqueueMessage s c) x fun _ y ↦ y = x.tell (.handed s c.msg) := by
  refine handles_withQueueLock hx.rests (.op ((may_iff hx.rests).mpr ⟨hc, hn⟩) fun _ y hy ↦ ?_)
  obtain rfl := Option.some.inj hy
  have hl : Rests ({ x with locked := true }.tell (.handed s c.msg)) := hx.rests
  have hback : { { x with locked := true }.tell (.handed s c.msg) with locked := false } =
      x.tell (.handed s c.msg) := by
    rw [Handling.tell, Handling.tell, ← hx.unlocked]
  refine .quiet hl rfl fun k ↦ ?_
  rw [Prog.ret_bind, Prog.when]
  split
  · exact (handles_persistLoop hl rfl _).mono fun _ y hy ↦ by
      subst hy
      exact ⟨hl, hback⟩
  · exact .ret ⟨hl, hback⟩

theorem handles_sendZmqMessage (hc : c.source = none) (hn : x.notices = [] ∧ x.row ≠ none) :
    Handles (sendZmqMessage s c) x fun _ y ↦ y = x.tell (.handed s c.msg) ∨ y = x ∧ ¬ c.msg.Fits := by
  unfold SessionQueues.sendZmqMessage
  cases hd : serialize c.msg with
  | ok data =>
    refine Handles.recover (.op ((may_iff hx.rests).mpr ⟨hc, hn⟩) fun _ y hy ↦ ?_)
    obtain rfl := Option.some.inj hy
    have hr : Rests (x.tell (.handed s c.msg)) := hx.rests
    exact .quiet hr rfl fun _ ↦ .ret (.inl rfl)
  | error e =>
    refine .quiet hx.rests rfl fun _ ↦ .ret (.inr ⟨rfl, fun hf ↦ ?_⟩)
    obtain ⟨data, hdata, -⟩ := WireCodec.deserialize_serialize hf
    cases hd.symm.trans hdata

theorem handles_sendMessage (hc : c.source = none) (hn : x.notices = [] ∧ x.row ≠ none)
    (hs : x.online = some s) :
    Handles (sendMessage s c) x fun _ y ↦ y = x.tell (.handed s c.msg) ∨ y = x ∧ ¬ c.msg.Fits := by
  have hback : { x with online := some s } = x := by rw [← hs]
  refine .quiet hx.rests rfl fun _ ↦ .op ((may_iff hx.rests).mpr trivial) fun r y hy ↦ ?_
  have hy : y = x := by
    obtain rfl := Option.some.inj hy
    split
    · exact hback
    · rfl
  subst hy
  cases r with
  | true =>
    change Handles ((sendZmqMessage s c).bind fun _ ↦ .ret true) y _
    exact (handles_sendZmqMessage hx hc hn).bind fun _ z hz ↦ .ret hz
  | false =>
    change Handles ((enqueueMessage s c).bind fun _ ↦ .ret true) y _
    exact (handles_enqueueMessage hx hc hn).bind fun _ z hz ↦ .ret (.inl hz)

theorem handles_findSession : Handles (findSession n) x fun _ y ↦ y = x :=
  handles_withRegistryLock hx (handles_perform hx.rests rfl)

end

/-- The notice tells of `m`: it was saved, or handed to a session that had been found online. -/
def Notice.Tells (m : Message) (y : Handling) : Notice → Prop
  | .stored _ m' => m' = m
  | .handed s m' => m' = m ∧ y.online = some s

/-- Nothing but a notice of `m` has been added, if `m` can be serialised. -/
structure Told (m : Message) (x y : Handling) : Prop where
  same : y = { x with online := y.online, notices := y.notices }
  once : m.Fits → ∃ notice, y.notices = [notice] ∧ notice.Tells m y

theorem Told.steady (h : Told m x y) (hx : Steady x) : Steady y := by
  rw [h.same]
  exact ⟨hx.rests, hx.unlocked⟩

theorem handles_notifySender (hx : Steady x) (hn : x.notices = [] ∧ x.row ≠ none) :
    Handles (notifySender m session) x fun _ y ↦ Told m x y := by
  have hstore (y : Handling) (hy : y = { x with online := y.online }) :
      Handles ((saveMessage ⟨m, none, m.destination⟩).bind fun _ ↦ .ret ()) y fun _ z ↦ Told m x z := by
    have hr : Steady y := by
      rw [hy]
      exact ⟨hx.rests, hx.unlocked⟩
    have hny : y.notices = [] ∧ y.row ≠ none := by
      rw [hy]
      exact hn
    have hsave : Handles (saveMessage ⟨m, none, m.destination⟩) y fun _ z ↦ Told m x z := by
      refine .op ((may_iff hr.rests).mpr (.inr hny)) fun r z hz ↦ ?_
      cases r with
      | error e => cases hz
      | ok id =>
        rw [Handling.note, hr.unlocked] at hz
        obtain rfl := Option.some.inj hz
        refine .ret ⟨?_, fun _ ↦ ⟨.stored id m, ?_, rfl⟩⟩
        · rw [hy]
          rfl
        · exact congrArg (· ++ [Notice.stored id m]) hny.1
    exact hsave.bind fun _ _ hz ↦ .ret hz
  cases session with
  | none => exact hstore x rfl
  | some s =>
    refine .op ((may_iff hx.rests).mpr trivial) fun r y hy ↦ ?_
    obtain rfl := Option.some.inj hy
    cases r with
    | false => exact hstore x rfl
    | true =>
      have hy : Steady { x with online := some s } := ⟨hx.rests, hx.unlocked⟩
      refine Handles.bind (p := sendMessage s ⟨m, none, m.destination⟩) (handles_sendMessage hy rfl hn rfl)
        fun _ z hz ↦ .ret ?_
      rcases hz with rfl | ⟨rfl, hfits⟩
      · exact ⟨rfl, fun _ ↦ ⟨.handed s m, congrArg (· ++ [Notice.handed s m]) hn.1, rfl, rfl⟩⟩
      · exact ⟨rfl, fun h ↦ absurd h hfits⟩

theorem handles_holding {p : Program α} (h : Handles p x Q) (hQ : ∀ a y, Q a y → Steady y) :
    Handles (holding session p) x Q := by
  cases session with
  | none => exact h
  | some s => exact Handles.ensuring h fun a y hy ↦ (handles_dropSession (hQ a y hy)).mono fun _ z hz ↦ hz ▸ hy

/-- What the handler of the acknowledgement `msg` has done when it returns. -/
structure Done (msg : Message) (x : Handling) : Prop where
  steady : Steady x
  ignored : x.row = none → x.acks = 0 ∧ x.notices = []
  counted : ∀ id, x.row = some id → x.acks = 1
  owner : ∀ id, x.row = some id → ∃ owner, x.owner = some owner
  unowned : x.owner = some [] → x.notices = []
  told : ∀ id owner, x.row = some id → x.owner = some owner → owner ≠ [] →
    (ackNotification msg.sender owner msg.correlationId).Fits → ∃ notice, x.notices = [notice] ∧
      notice.Tells (ackNotification msg.sender owner msg.correlationId) x

theorem handles_acknowledge : Handles (acknowledge msg owner id) { owner := some owner, row := some id }
    fun _ y ↦ Done msg y := by
  have hmark : Handles (markDelivered id) { owner := some owner, row := some id }
      fun _ y ↦ y = { owner := some owner, row := some id, marked := true } := by
    refine .op rfl fun r y hy ↦ ?_
    cases r with
    | error e => cases hy
    | ok u => exact .ret (Option.some.inj hy).symm
  refine hmark.bind fun _ y hy ↦ ?_
  subst hy
  have hmarked : Rests { owner := some owner, row := some id, marked := true } := rfl
  refine .quiet hmarked rfl fun _ ↦ .op ((may_iff hmarked).mpr fun _ ↦ ⟨rfl, by simp⟩) fun _ y hy ↦ ?_
  obtain rfl := Option.some.inj hy
  rw [Prog.ret_bind, if_pos rfl]
  have hx : Steady { owner := some owner, row := some id, marked := true, acks := 1 } := ⟨rfl, rfl⟩
  by_cases howner : owner = []
  · rw [if_neg (not_not_intro howner)]
    refine .ret ⟨hx, fun h ↦ (by cases h), fun _ _ ↦ rfl, fun _ _ ↦ ⟨owner, rfl⟩, fun _ ↦ rfl,
      fun id' owner' _ ho hne ↦ ?_⟩
    obtain rfl := Option.some.inj ho
    exact absurd howner hne
  · rw [if_pos howner]
    refine Handles.bind (handles_findSession hx) fun session y hy ↦ ?_
    subst hy
    refine Handles.mono (handles_holding (handles_notifySender hx ⟨rfl, by simp⟩) fun _ y hy ↦ hy.steady hx)
      fun _ y hy ↦ ?_
    have hsame := hy.same
    refine ⟨hy.steady hx, fun h ↦ ?_, fun _ _ ↦ ?_, fun _ _ ↦ ⟨owner, ?_⟩, fun h ↦ ?_,
      fun _ owner' _ ho _ hfits ↦ ?_⟩
    · rw [hsame] at h
      cases h
    · rw [hsame]
    · rw [hsame]
    · rw [hsame] at h
      exact absurd (Option.some.inj h) howner
    · rw [hsame] at ho
      obtain rfl := Option.some.inj ho
      exact hy.once hfits

theorem handles_ackHandler : Handles (ackHandler msg) {} fun _ y ↦ Done msg y := by
  have hnothing (owner : Option Bytes) : Done msg { owner := owner } :=
    ⟨⟨rfl, rfl⟩, fun _ ↦ ⟨rfl, rfl⟩, fun _ h ↦ (by cases h), fun _ h ↦ (by cases h), fun _ ↦ rfl,
      fun _ _ h ↦ (by cases h)⟩
  unfold MessageHandlers.ackHandler
  split
  · have hstart : Rests {} := rfl
    refine .op ((may_iff hstart).mpr trivial) fun owner y hy ↦ ?_
    obtain rfl := Option.some.inj hy
    rw [Prog.ret_bind]
    have hx : Rests { owner := some owner } := rfl
    have hfind : Handles (findAcknowledged msg) { owner := some owner } fun _ y ↦
      y = { owner := some owner } := by
      refine .quiet hx rfl fun id ↦ ?_
      rw [Prog.ret_bind]
      split
      · exact handles_perform hx rfl
      · exact .ret rfl
    refine Handles.bind hfind fun id y hy ↦ ?_
    subst hy
    split
    · refine .op ((may_iff hx).mpr rfl) fun r y hy ↦ ?_
      obtain rfl := Option.some.inj hy
      cases r with
      | true => exact handles_acknowledge
      | false => exact .ret (hnothing _)
    · exact .ret (hnothing _)
  · exact .ret (hnothing _)

theorem handles_receive {identity data : Bytes} (hd : deserialize data = .ok msg) (ht : msg.type = .ack) :
    Handles (receive identity data) {} fun _ y ↦ Done msg y := by
  have hx : Steady {} := ⟨rfl, rfl⟩
  have hroute : Handles (routeMessage msg identity) {} fun _ y ↦ Done msg y := by
    refine Handles.bind (handles_touchSession hx) fun session y hy ↦ ?_
    subst hy
    refine handles_holding ?_ fun _ y hy ↦ hy.steady
    rw [handle, ht]
    exact handles_ackHandler
  refine Handles.recover (.quiet hx.rests rfl fun _ ↦ ?_)
  rw [hd]
  exact hroute

def startPhase : Job → AckPhase
  | .receive _ data =>
    match deserialize data with
    | .ok msg => if msg.type = .ack then .handling {} else .other
    | .error _ => .other
  | _ => .other

/-- Where a thread that handles an acknowledgement ends, unless a storage call has thrown. -/
def Ends (j : Job) (x : AckPhase) : Prop :=
  ∀ msg, Receives j msg → msg.type = .ack → x = .failed ∨ ∃ y, x = .handling y ∧ Done msg y

theorem startPhase_receives {j : Job} (h : Receives j msg) :
    startPhase j = if msg.type = .ack then .handling {} else .other := by
  obtain ⟨identity, data, rfl, hd⟩ := h
  simp only [startPhase, hd]

theorem startPhase_other {j : Job} (h : ¬ ∃ msg, Receives j msg ∧ msg.type = .ack) : startPhase j = .other := by
  cases j with
  | receive identity data =>
    cases hd : deserialize data with
    | error e => simp only [startPhase, hd]
    | ok msg =>
      rw [startPhase_receives ⟨identity, data, rfl, hd⟩]
      exact if_neg fun ht ↦ h ⟨msg, ⟨identity, data, rfl, hd⟩, ht⟩
  | checkExpiredAcks | cleanupInactiveSessions | processPendingSends | sendTask => rfl

theorem follows_code (cfg : Config) (j : Job) :
    Follows ackProtocol (fun _ ↦ Ends j) (fun _ _ ↦ True) (code cfg j) (startPhase j) := by
  by_cases hj : ∃ msg, Receives j msg ∧ msg.type = .ack
  · obtain ⟨msg, hr, ht⟩ := hj
    rw [startPhase_receives hr, if_pos ht]
    obtain ⟨identity, data, rfl, hd⟩ := hr
    refine Follows.mono (handles_receive hd ht) (fun _ y hy msg' hr' _ ↦ ?_) fun _ _ _ ↦ trivial
    obtain ⟨identity', data', hj, hd'⟩ := hr'
    cases hj
    obtain rfl := Except.ok.inj (hd.symm.trans hd')
    exact hy
  · rw [startPhase_other hj]
    exact Follows.absorbed (fun o ↦ ⟨trivial, fun _ ↦ rfl⟩) (fun _ msg hr ht ↦ absurd ⟨msg, hr, ht⟩ hj)
      fun _ ↦ trivial

variable {cfg : Config} {ok : State → Step → Prop} {metrics : Option Metrics} {S S' : State} {w w' : World}
  {i i' : ℕ} {j : Job} {ch : Choice} {r : o.Res} {e : Event}

def AckPhase.record : AckPhase → Option Handling
  | .handling x => some x
  | _ => none

theorem record_eq_some : z.record = some x ↔ z = .handling x := by
  cases z <;> simp [AckPhase.record]

theorem record_next : (ackProtocol.next z o r).record = z.record.bind (·.note o r) := by
  cases z with
  | other | failed => rfl
  | handling x =>
    change ((x.note o r).elim AckPhase.failed AckPhase.handling).record = x.note o r
    cases x.note o r <;> rfl

/-- What thread `i` has done, if it handles an acknowledgement. -/
def handled (i : ℕ) (S : State) : Option Handling := (phaseOf ackProtocol startPhase i S).bind AckPhase.record

theorem handled_eq_some : handled i S = some x ↔ phaseOf ackProtocol startPhase i S = some (.handling x) := by
  rw [handled, Option.bind_eq_some_iff]
  exact ⟨fun ⟨z, hz, hx⟩ ↦ hz.trans (congrArg some (record_eq_some.mp hx)), fun h ↦ ⟨_, h, rfl⟩⟩

def acks : Job → Bool
  | .receive _ data => (deserialize data).toOption.any fun msg ↦ msg.type = .ack
  | _ => false

theorem acks_iff : acks j = true ↔ ∃ msg, Receives j msg ∧ msg.type = .ack := by
  cases j with
  | receive identity data =>
    cases hd : deserialize data with
    | error e =>
      simp only [acks, hd]
      constructor
      · rintro ⟨⟩
      · rintro ⟨msg, ⟨identity', data', hj, hd'⟩, -⟩
        cases hj
        cases hd.symm.trans hd'
    | ok msg =>
      simp only [acks, hd]
      constructor
      · exact fun h ↦ ⟨msg, ⟨identity, data, rfl, hd⟩, of_decide_eq_true h⟩
      · rintro ⟨msg', ⟨identity', data', hj, hd'⟩, ht⟩
        cases hj
        obtain rfl := Except.ok.inj (hd.symm.trans hd')
        exact decide_eq_true ht
  | checkExpiredAcks | cleanupInactiveSessions | processPendingSends | sendTask =>
    constructor
    · rintro ⟨⟩
    · rintro ⟨msg, ⟨identity, data, hj, -⟩, -⟩
      cases hj

/-- `AckHandler` takes the branch for a row that needs an acknowledgement. -/
def accepts (id : ℕ) (e : Event) : Bool :=
  acks e.job && match e.op, e.res with
    | .needsAck id', r => id' = id && r
    | _, _ => false

theorem op_of_accepts (h : accepts id ⟨i, j, o, ch, r, w.wallClock⟩ = true) :
    acks j = true ∧ o = .needsAck id := by
  rw [accepts, Bool.and_eq_true] at h
  refine ⟨h.1, ?_⟩
  cases o with
  | needsAck id' => exact congrArg Op.needsAck (of_decide_eq_true (Bool.and_eq_true_iff.mp h.2).1)
  | _ => cases h.2

theorem note_of_accepts (h : accepts id ⟨i, j, o, ch, r, w.wallClock⟩ = true) :
    x.note o r = some { x with row := some id } := by
  obtain ⟨-, rfl⟩ := op_of_accepts h
  rw [accepts, Bool.and_eq_true] at h
  exact congrArg some (if_pos (Bool.and_eq_true_iff.mp h.2).2)

def underway (i : ℕ) (S : State) : Bool :=
  (S.threads[i]?).any (fun t ↦ acks t.job && !hasEnded t) && S.world.log.any fun e ↦ e.thread = i

/-- No storage call fails, and the acknowledgements are handled one at a time. -/
def OneAtATime (S : State) : Step → Prop
  | .start _ | .tick _ => True
  | .step i ch => ch.dbError = false ∧ ((S.threads[i]?).any (acks ·.job) = true →
    ∀ i' < S.threads.length, i' ≠ i → underway i' S = false)

instance (S : State) : (l : Step) → Decidable (OneAtATime S l)
  | .start _ | .tick _ => instDecidableTrue
  | .step i ch => inferInstanceAs (Decidable (ch.dbError = false ∧ ((S.threads[i]?).any (acks ·.job) = true →
    ∀ i' < S.threads.length, i' ≠ i → underway i' S = false)))

/-- Row `id` holds a notification that was saved as pending; only a mark changes that. -/
def Stored (w : World) (id : ℕ) (m : Message) : Prop :=
  ∃ row ∈ w.db.messages, row.id = id ∧ Records row m ∧
    (row.status = .pending ∨ ∃ e ∈ w.log, e.op = .markDelivered id ∨ e.op = .markSent id)

def Notice.Reports (w : World) : Notice → Prop
  | .stored id m => Stored w id m
  | .handed s m => s < w.nextSession ∧ (w.sessions s).name = m.destination

/-- What is known of a thread that handles an acknowledgement. -/
structure Facts (w : World) (x : Handling) : Prop where
  owner : ∀ owner, x.owner = some owner → owner.length ≤ 255
  row : ∀ id, x.row = some id → ∃ row ∈ w.db.messages, row.id = id
  marked : x.marked = true → ∃ row ∈ w.db.messages, x.row = some row.id ∧ row.status = .delivered
  acks_le : x.acks ≤ 1
  notices_le : x.notices.length ≤ 1
  ignored : x.row = none → x.acks = 0 ∧ x.notices = []
  notices : ∀ n ∈ x.notices, n.Reports w

theorem records_withStatus {row : Row} (h : Records row m) (st : MessageStatus) :
    Records { row with status := st } m :=
  ⟨h.type, h.flags, h.correlationId, h.sender, h.destination, h.payload⟩

theorem statusAfter_pending (hd : o ≠ .markDelivered id) (hs : o ≠ .markSent id) :
    statusAfter id .pending o r = .pending := by
  cases o with
  | markDelivered id' | markSent id' =>
    cases r with
    | error e => rfl
    | ok u => simp_all [statusAfter]
  | markPending id' =>
    cases r with
    | error e => rfl
    | ok u => simp [statusAfter]
  | _ => rfl

theorem Stored.step (h : Stored w id m) (he : exec i j o ch w = some (r, w')) : Stored w' id m := by
  obtain ⟨row, hrow, rfl, hrec, hst⟩ := h
  refine ⟨_, status_exec he hrow, rfl, records_withStatus hrec _, ?_⟩
  rcases hst with hst | ⟨e, hmem, hop⟩
  · by_cases ho : o = .markDelivered row.id ∨ o = .markSent row.id
    · exact .inr ⟨_, exec_log he ▸ List.mem_cons_self, ho⟩
    · rw [not_or] at ho
      exact .inl (by rw [hst, statusAfter_pending ho.1 ho.2])
  · exact .inr ⟨e, mem_log he hmem, hop⟩

theorem stored_saveMessage {r : Except String ℕ} (he : exec i j (.saveMessage c) ch w = some (r, w'))
    (hr : r = .ok id) :
    Stored w' id c.msg := by
  obtain ⟨-, ⟨e, he⟩, -⟩ | ⟨hid, hdb⟩ := exec_saveMessage he
  · cases hr.symm.trans he
  · refine ⟨w.db.newRow w.wallClock c, ?_, ?_, records_newRow _ _, .inl rfl⟩
    · rw [hdb]
      exact List.mem_append_right _ (List.mem_singleton_self _)
    · exact Except.ok.inj (hid.symm.trans hr)

theorem Notice.Reports.step {n : Notice} (h : n.Reports w) (hg : Grows w w')
    (he : exec i j o ch w = some (r, w')) :
    n.Reports w' := by
  cases n with
  | stored id m => exact Stored.step h he
  | handed s m => exact ⟨Nat.lt_of_lt_of_le h.1 hg.sessions, (hg.name s h.1).trans h.2⟩

theorem Facts.step (h : Facts w x) (hg : Grows w w') (he : exec i j o ch w = some (r, w')) : Facts w' x where
  owner := h.owner
  row id hid := by
    obtain ⟨row, hrow, hrowid⟩ := h.row id hid
    exact ⟨_, status_exec he hrow, hrowid⟩
  marked hm := by
    obtain ⟨row, hrow, hid, hst⟩ := h.marked hm
    exact ⟨_, status_exec he hrow, hid, by rw [hst, statusAfter_delivered]⟩
  acks_le := h.acks_le
  notices_le := h.notices_le
  ignored := h.ignored
  notices n hn := (h.notices n hn).step hg he

theorem Facts.tell {n : Notice} (h : Facts w x) (hx : x.notices = [] ∧ x.row ≠ none) (hn : n.Reports w) :
    Facts w (x.tell n) := by
  have hnotices : (x.tell n).notices = [n] := congrArg (· ++ [n]) hx.1
  refine ⟨h.owner, h.row, h.marked, h.acks_le, ?_, fun hrow ↦ absurd hrow hx.2, fun n' hn' ↦ ?_⟩
  · rw [hnotices]
    exact Nat.le_refl _
  · rw [hnotices] at hn'
    rw [List.mem_singleton.mp hn']
    exact hn

theorem row_of_pending (h : x.pending = some id) : x.row = some id := by
  rw [Handling.pending] at h
  split at h
  · cases h
  · exact h

theorem facts_marks (hp : Performs cfg ok S i j o ch r w') (hmay : x.may o) (hx : x.pending = some id)
    (hy : x.note o r = some y) (h : Facts S.world x) : Facts w' y := by
  rw [Handling.may, hx] at hmay
  obtain rfl : o = .markDelivered id := hmay
  have hrow := row_of_pending hx
  have h' := h.step hp.grows hp.exec
  cases r with
  | error e => cases hy
  | ok u =>
    obtain rfl := Option.some.inj hy
    refine ⟨h'.owner, h'.row, fun _ ↦ ?_, h'.acks_le, h'.notices_le, h'.ignored, h'.notices⟩
    obtain ⟨row, hmem, rfl⟩ := h.row id hrow
    exact ⟨_, status_exec hp.exec hmem, hrow, if_pos rfl⟩

theorem sent_of_needsAck {r : Bool} (he : exec i j (.needsAck id) ch w = some (r, w')) (hr : r = true) :
    ∃ row ∈ w.db.messages, row.id = id ∧ row.status = .sent := by
  have hread : some (!ch.dbError && w.db.needsAck id) = some r := exec_reads he
  rw [hr, Option.some_inj, Bool.and_eq_true, Database.needsAck, Option.any_eq_true] at hread
  obtain ⟨-, row, hrow, hneeds⟩ := hread
  rw [Bool.and_eq_true] at hneeds
  exact ⟨row, (mem_of_row? hrow).1, (mem_of_row? hrow).2, of_decide_eq_true hneeds.2⟩

theorem sent_of_accepts (he : exec i j o ch w = some (r, w'))
    (h : accepts id ⟨i, j, o, ch, r, w.wallClock⟩ = true) :
    ∃ row ∈ w.db.messages, row.id = id ∧ row.status = .sent := by
  obtain ⟨-, rfl⟩ := op_of_accepts h
  rw [accepts, Bool.and_eq_true] at h
  exact sent_of_needsAck he (Bool.and_eq_true_iff.mp h.2).2

theorem facts_note (hp : Performs cfg ok S i j o ch r w') (hmay : x.may o) (hy : x.note o r = some y)
    (h : Facts S.world x) : Facts w' y := by
  cases hx : x.pending with
  | some id => exact facts_marks hp hmay hx hy h
  | none =>
    have he := hp.exec
    have hg := hp.grows
    have h' := h.step hg he
    have hallows := (may_iff hx).mp hmay
    have handed {s : ℕ} {c : Copy} (ho : hands o = some (s, c))
        (hc : c.source = none ∧ x.notices = [] ∧ x.row ≠ none) : Facts w' (x.tell (.handed s c.msg)) := by
      have hand := allowed_hands hp.allowed ho
      have hs := hp.inv.lt_of_pointer hand.pointer
      exact h'.tell hc.2 ⟨hs.trans_le hg.sessions, (hg.name s hs).trans (hand.name hc.1).symm⟩
    cases o with
    | markDelivered id => exact hallows.elim
    | pushQueue s c | pushPendingSend s c data =>
      obtain rfl := Option.some.inj hy
      exact handed rfl hallows
    | saveMessage c =>
      cases r with
      | error e => cases hy
      | ok id =>
        have hy := Option.some.inj hy
        split at hy
        · exact hy ▸ h'
        · next hl =>
          subst hy
          exact h'.tell (hallows.resolve_left hl) (stored_saveMessage he rfl)
    | increment counter =>
      have hy := Option.some.inj hy
      split at hy
      · next hc =>
        subst hy
        obtain ⟨hacks, hrow⟩ := hallows hc
        refine ⟨h'.owner, h'.row, h'.marked, ?_, h'.notices_le, fun hn ↦ absurd hn hrow, h'.notices⟩
        change x.acks + 1 ≤ 1
        rw [hacks]
      · exact hy ▸ h'
    | findOriginalSenderByCorrelation corr =>
      obtain rfl := Option.some.inj hy
      refine ⟨fun owner ho ↦ ?_, h'.row, h'.marked, h'.acks_le, h'.notices_le, h'.ignored, h'.notices⟩
      obtain rfl := Option.some.inj ho
      have hr : some (if ch.dbError then [] else S.world.db.findOriginalSenderByCorrelation ch.tie corr) =
          some r := exec_reads he
      rw [← Option.some.inj hr]
      split
      · exact Nat.zero_le _
      · exact originalSender_length hp.inv.store _ _
    | needsAck id =>
      have hy := Option.some.inj hy
      split at hy
      · next hr =>
        subst hy
        refine ⟨h'.owner, fun id' hid ↦ ?_, fun hm ↦ ?_, h'.acks_le, h'.notices_le, fun hn ↦ ?_, h'.notices⟩
        · obtain rfl := Option.some.inj hid
          obtain ⟨row, hrow, hrowid, -⟩ := sent_of_needsAck he hr
          exact ⟨_, status_exec he hrow, hrowid⟩
        · obtain ⟨row, -, hrow, -⟩ := h.marked hm
          exact absurd (hrow.symm.trans hallows) (by simp)
        · cases hn
      · exact hy ▸ h'
    | isOnline s =>
      have hy := Option.some.inj hy
      split at hy
      · subst hy
        exact ⟨h'.owner, h'.row, h'.marked, h'.acks_le, h'.notices_le, h'.ignored, h'.notices⟩
      · exact hy ▸ h'
    | lockQueue | unlockQueue =>
      obtain rfl := Option.some.inj hy
      exact ⟨h'.owner, h'.row, h'.marked, h'.acks_le, h'.notices_le, h'.ignored, h'.notices⟩
    | _ => exact Option.some.inj hy ▸ h'

theorem facts_start : Facts w {} := by
  refine ⟨?_, ?_, ?_, Nat.zero_le _, Nat.zero_le _, fun _ ↦ ⟨rfl, rfl⟩, fun n hn ↦ absurd hn List.not_mem_nil⟩
  · rintro owner ⟨⟩
  · rintro id ⟨⟩
  · rintro ⟨⟩

theorem note_ne_none (he : exec i j o ch w = some (r, w')) (hch : ch.dbError = false) : x.note o r ≠ none := by
  cases o with
  | markDelivered id =>
    obtain ⟨hd, -⟩ | ⟨⟨rfl, -⟩, -⟩ := exec_markDelivered he
    · cases hch.symm.trans hd
    · simp [Handling.note]
  | saveMessage c =>
    obtain ⟨hd, -⟩ | ⟨rfl, -⟩ := exec_saveMessage he
    · cases hch.symm.trans hd
    · simp [Handling.note]
  | _ => simp [Handling.note]

/-- What is known of a thread in its phase. -/
def Knows (w : World) (y : AckPhase) : Prop := y ≠ .failed ∧ ∀ x, y = .handling x → Facts w x

theorem knows_start : Knows w (startPhase j) := by
  cases hacks : acks j with
  | true =>
    obtain ⟨msg, hr, ht⟩ := acks_iff.mp hacks
    rw [startPhase_receives hr, if_pos ht]
    refine ⟨by simp, ?_⟩
    rintro x ⟨⟩
    exact facts_start
  | false =>
    rw [startPhase_other fun h ↦ by rw [acks_iff.mpr h] at hacks; cases hacks]
    refine ⟨by simp, ?_⟩
    rintro x ⟨⟩

theorem knows_step (hmay : ackProtocol.may z o) (hp : Performs cfg OneAtATime S i j o ch r w')
    (h : Knows S.world z) :
    Knows w' (ackProtocol.next z o r) := by
  cases z with
  | other => exact ⟨by simp [ackProtocol], fun x hx ↦ by cases hx⟩
  | failed => exact absurd rfl h.1
  | handling x =>
    obtain ⟨y, hy⟩ := Option.ne_none_iff_exists'.mp (note_ne_none (x := x) hp.exec hp.ok.1)
    have hnext : ackProtocol.next (.handling x) o r = .handling y := by
      change (x.note o r).elim AckPhase.failed AckPhase.handling = .handling y
      rw [hy]
      rfl
    rw [hnext]
    refine ⟨by simp, ?_⟩
    rintro x' ⟨⟩
    exact facts_note hp hmay hy (h.2 x rfl)

theorem follows_thread (h : (broker cfg).Reachable ok (initial metrics) S) {t : Thread Op Op.Res Job}
    (ht : S.threads[i]? = some t) : Follows ackProtocol (fun _ ↦ Ends t.job) (fun _ _ ↦ True) t.code
      (phase ackProtocol (startPhase t.job) i S.world.log) :=
  follows_of_reachable (P := fun _ ↦ ackProtocol) (Q := Ends) (X := fun _ _ ↦ True) (follows_code cfg) h i t ht

theorem may_of_performs (h : (broker cfg).Reachable ok (initial metrics) S)
    (hp : Performs cfg ok S i j o ch r w') :
    ackProtocol.may (phase ackProtocol (startPhase j) i S.world.log) o := by
  obtain ⟨k, hk⟩ := hp.thread
  exact (follows_thread h hk).1

theorem knows_thread (h : (broker cfg).Reachable OneAtATime (initial metrics) S) {t : Thread Op Op.Res Job}
    (ht : S.threads[i]? = some t) : Knows S.world (phase ackProtocol (startPhase t.job) i S.world.log) := by
  refine knows_of_reachable (P := fun _ ↦ ackProtocol) (s := startPhase) (I := fun _ _ y w ↦ Knows w y)
    (fun _ _ _ ↦ knows_start) (fun i j y w n now elapsed hk ↦ ⟨hk.1, fun x hx ↦ ?_⟩)
    (fun _ hp _ _ hk ↦ ⟨hk.1, fun x hx ↦ (hk.2 x hx).step hp.grows hp.exec⟩) (fun hr hp hk ↦ ?_) h i t ht
  · have hf := hk.2 x hx
    refine ⟨hf.owner, hf.row, hf.marked, hf.acks_le, hf.notices_le, hf.ignored, fun n hn ↦ ?_⟩
    cases n with
    | stored | handed => exact hf.notices _ hn
  · rw [phase_exec hp.exec]
    exact knows_step (may_of_performs hr hp) hp hk

theorem facts_of_handled (h : (broker cfg).Reachable OneAtATime (initial metrics) S)
    (hx : handled i S = some x) :
    Facts S.world x := by
  obtain ⟨t, ht, hphase⟩ := Option.map_eq_some_iff.mp (handled_eq_some.mp hx)
  exact (knows_thread h ht).2 x hphase

theorem done_of_ended (h : (broker cfg).Reachable OneAtATime (initial metrics) S) {t : Thread Op Op.Res Job}
    (ht : S.threads[i]? = some t) (hend : t.ended) (hr : Receives t.job msg) (htype : msg.type = .ack) :
    ∃ x, handled i S = some x ∧ Done msg x := by
  have hends := of_ended_follows (follows_thread h ht) hend
  obtain hf | ⟨x, hx, hdone⟩ := hends msg hr htype
  · exact absurd hf (knows_thread h ht).1
  · exact ⟨x, handled_eq_some.mpr ((phaseOf_eq ht).trans (congrArg some hx)), hdone⟩

/-- Each row has been accepted at most once, by the thread that has it in its record. -/
structure Sole (S : State) : Prop where
  row : ∀ e ∈ S.world.log, ∀ id, accepts id e = true → ∃ x, handled e.thread S = some x ∧ x.row = some id
  once : ∀ id, S.world.log.countP (accepts id) ≤ 1

theorem handled_step {k : o.Res → Program Unit} (hi : S.threads[i]? = some ⟨j, .op o k⟩)
    (he : exec i j o ch S.world = some (r, w')) (i' : ℕ) :
    handled i' ⟨w', S.threads.set i ⟨j, k r⟩⟩ =
      if i' = i then (handled i S).bind (·.note o r) else handled i' S := by
  rw [handled, phaseOf_step hi he]
  split
  · rw [handled, phaseOf_eq hi]
    exact record_next
  · rfl

theorem handled_start (h : (broker cfg).Reachable ok (initial metrics) S) (hw : start j S.world = some w')
    (hi : i < S.threads.length) : handled i ⟨w', S.threads ++ [⟨j, (broker cfg).code j⟩]⟩ = handled i S := by
  rw [handled, phaseOf_start h hw, if_neg (Nat.ne_of_lt hi), handled]

theorem not_may_needsAck {id' : ℕ} (h : x.row = some id) : ¬ x.may (.needsAck id') := by
  intro hmay
  cases hx : x.pending with
  | some id'' =>
    rw [Handling.may, hx] at hmay
    cases hmay
  | none => cases h.symm.trans ((may_iff hx).mp hmay)

theorem row_note (hmay : x.may o) (hy : x.note o r = some y) (h : x.row = some id) : y.row = some id := by
  cases o with
  | needsAck id' => exact absurd hmay (not_may_needsAck h)
  | markDelivered =>
    cases r with
    | error e => cases hy
    | ok u => exact Option.some.inj hy ▸ h
  | saveMessage =>
    cases r with
    | error e => cases hy
    | ok id' =>
      have hy := Option.some.inj hy
      split at hy <;> exact hy ▸ h
  | increment | isOnline =>
    have hy := Option.some.inj hy
    split at hy <;> exact hy ▸ h
  | _ => exact Option.some.inj hy ▸ h

theorem phase_ne_other (hj : acks j = true) (log : List Event) :
    phase ackProtocol (startPhase j) i log ≠ .other := by
  induction log with
  | nil =>
    obtain ⟨msg, hr, ht⟩ := acks_iff.mp hj
    rw [phase, startPhase_receives hr, if_pos ht]
    simp
  | cons e log ih =>
    rw [phase]
    split
    · generalize phase ackProtocol (startPhase j) i log = z at ih
      cases z with
      | other => exact absurd rfl ih
      | failed => simp [ackProtocol]
      | handling x =>
        change (x.note e.op e.res).elim AckPhase.failed AckPhase.handling ≠ .other
        cases x.note e.op e.res <;> simp
    · exact ih

theorem exists_handled (h : (broker cfg).Reachable OneAtATime (initial metrics) S) {t : Thread Op Op.Res Job}
    (ht : S.threads[i]? = some t) (hj : acks t.job = true) : ∃ x, handled i S = some x := by
  have hne := phase_ne_other hj S.world.log (i := i)
  have hknows := (knows_thread h ht).1
  rw [handled, phaseOf_eq ht]
  generalize phase ackProtocol (startPhase t.job) i S.world.log = z at hne hknows
  cases z with
  | other => exact absurd rfl hne
  | failed => exact absurd rfl hknows
  | handling x => exact ⟨x, rfl⟩

theorem may_of_handled (h : (broker cfg).Reachable OneAtATime (initial metrics) S)
    (hp : Performs cfg OneAtATime S i j o ch r w') (hx : handled i S = some x) : x.may o := by
  have hmay := may_of_performs h hp
  obtain ⟨k, hk⟩ := hp.thread
  have hphase := handled_eq_some.mp hx
  rw [phaseOf_eq hk, Option.some_inj] at hphase
  rw [hphase] at hmay
  exact hmay

section

variable {k : o.Res → Program Unit} (hr : (broker cfg).Reachable OneAtATime (initial metrics) S)
  (ht : S.threads[i]? = some ⟨j, .op o k⟩) (hok : OneAtATime S (.step i ch))
  (he : exec i j o ch S.world = some (r, w')) (h : Sole S)

include hr ht hok he h

theorem row_step : ∀ e ∈ w'.log, ∀ id, accepts id e = true →
    ∃ x, handled e.thread ⟨w', S.threads.set i ⟨j, k r⟩⟩ = some x ∧ x.row = some id := by
  have hp : Performs cfg OneAtATime S i j o ch r w' := ⟨holds_of_reachable hr, ⟨k, ht⟩, hok, he⟩
  intro e hmem id hacc
  rw [exec_log he] at hmem
  rcases List.mem_cons.mp hmem with rfl | hmem
  · obtain ⟨x, hx⟩ := exists_handled hr ht (op_of_accepts hacc).1
    rw [handled_step ht he, if_pos rfl, hx]
    exact ⟨_, note_of_accepts hacc, rfl⟩
  · obtain ⟨x, hx, hrow⟩ := h.row e hmem id hacc
    rw [handled_step ht he]
    split
    · next hi =>
      rw [hi] at hx
      obtain ⟨y, hy⟩ := Option.ne_none_iff_exists'.mp (note_ne_none (x := x) he hok.1)
      rw [hx]
      exact ⟨y, hy, row_note (may_of_handled hr hp hx) hy hrow⟩
    · exact ⟨x, hx, hrow⟩

theorem not_accepted {id : ℕ} (hacc : accepts id ⟨i, j, o, ch, r, S.world.wallClock⟩ = true) :
    ∀ e ∈ S.world.log, ¬ accepts id e = true := by
  have hp : Performs cfg OneAtATime S i j o ch r w' := ⟨holds_of_reachable hr, ⟨k, ht⟩, hok, he⟩
  obtain ⟨hj, ho⟩ := op_of_accepts hacc
  intro e hmem hold
  obtain ⟨x, hx, hrow⟩ := h.row e hmem id hold
  by_cases hi : e.thread = i
  · rw [hi] at hx
    have hmay := may_of_handled hr hp hx
    rw [ho] at hmay
    exact not_may_needsAck hrow hmay
  · obtain ⟨t, ht', hjob⟩ := Option.map_eq_some_iff.mp (job_of_event hr e hmem)
    have hjacks : acks t.job = true := by
      rw [hjob]
      exact (Bool.and_eq_true_iff.mp hold).1
    have hidle := hok.2 (by rw [ht]; exact hj) e.thread (List.getElem?_eq_some_iff.mp ht').1 hi
    have hended : hasEnded t = true := by
      have hbegun : S.world.log.any (fun e' ↦ e'.thread = e.thread) = true :=
        List.any_eq_true.mpr ⟨e, hmem, decide_eq_true rfl⟩
      rw [underway, hbegun, Bool.and_true, ht', Option.any_some, hjacks, Bool.true_and] at hidle
      simpa using hidle
    obtain ⟨msg, hrec, htype⟩ := acks_iff.mp hjacks
    obtain ⟨x', hx', hdone⟩ := done_of_ended hr ht' (ended_of_hasEnded hended) hrec htype
    obtain rfl : x = x' := Option.some.inj (hx.symm.trans hx')
    have hmarked : x.marked = true := by
      have hrests := hdone.steady.rests
      rw [Rests, Handling.pending] at hrests
      split at hrests
      · assumption
      · cases hrow.symm.trans hrests
    obtain ⟨row, hrowmem, hrowid, hst⟩ := (facts_of_handled hr hx).marked hmarked
    obtain ⟨row', hrowmem', hrowid', hst'⟩ := sent_of_accepts he hacc
    obtain rfl := Option.some.inj (hrow.symm.trans hrowid)
    obtain rfl := id_inj hp.inv.store hrowmem hrowmem' hrowid'.symm
    cases hst.symm.trans hst'

theorem once_step (id : ℕ) : w'.log.countP (accepts id) ≤ 1 := by
  rw [exec_log he, List.countP_cons]
  split
  · next hacc =>
    rw [List.countP_eq_zero.mpr (not_accepted hr ht hok he h hacc)]
  · exact h.once id

end

theorem sole_of_reachable (h : (broker cfg).Reachable OneAtATime (initial metrics) S) : Sole S := by
  induction h with
  | init => exact ⟨fun e he ↦ absurd he List.not_mem_nil, fun id ↦ Nat.zero_le _⟩
  | @next S S' l hr hl hs ih =>
    cases l with
    | start j =>
      obtain ⟨w', hw, rfl⟩ := Machine.start_cases hs
      refine ⟨fun e he id hacc ↦ ?_, fun id ↦ ?_⟩
      · change e ∈ w'.log at he
        rw [start_log hw] at he
        rw [handled_start hr hw (thread_lt hr e he)]
        exact ih.row e he id hacc
      · change w'.log.countP (accepts id) ≤ 1
        rw [start_log hw]
        exact ih.once id
    | tick t => exact Option.some.inj hs ▸ ⟨ih.row, ih.once⟩
    | step i ch =>
      obtain ⟨j, o, k, r, w', ht, he, rfl⟩ := Machine.step_cases hs
      exact ⟨row_step hr ht hl he ih, once_step hr ht hl he ih⟩

/-- In a run without database errors that handles acknowledgements one at a time,
each row is accepted at most once; no thread counts or tells twice, and one that
has accepted a row has counted once and told the sender, if one was found, once. -/
theorem one_notification (h : (broker cfg).Reachable OneAtATime (initial metrics) S) :
    (∀ id, S.world.log.countP (accepts id) ≤ 1) ∧
    (∀ i x, handled i S = some x →
      x.acks ≤ 1 ∧ x.notices.length ≤ 1 ∧ (x.row = none → x.acks = 0 ∧ x.notices = [])) ∧
    ∀ e ∈ S.world.log, ∀ id t, accepts id e = true → S.threads[e.thread]? = some t → t.ended →
      ∃ msg x owner, Receives t.job msg ∧ handled e.thread S = some x ∧ x.row = some id ∧ x.acks = 1 ∧
        x.owner = some owner ∧ (owner = [] → x.notices = []) ∧
        (owner ≠ [] → ∃ n : Notice, x.notices = [n] ∧
          n.Tells (ackNotification msg.sender owner msg.correlationId) x ∧ n.Reports S.world) := by
  have hsole := sole_of_reachable h
  refine ⟨hsole.once, fun i x hx ↦ ?_, fun e he id t hacc ht hend ↦ ?_⟩
  · have hf := facts_of_handled h hx
    exact ⟨hf.acks_le, hf.notices_le, hf.ignored⟩
  · obtain ⟨t', ht', hjob⟩ := Option.map_eq_some_iff.mp (job_of_event h e he)
    obtain rfl : t' = t := Option.some.inj (ht'.symm.trans ht)
    have hj : acks t'.job = true := by
      rw [hjob]
      exact (Bool.and_eq_true_iff.mp hacc).1
    obtain ⟨msg, hr, htype⟩ := acks_iff.mp hj
    obtain ⟨x, hx, hdone⟩ := done_of_ended h ht hend hr htype
    obtain ⟨x', hx', hrow⟩ := hsole.row e he id hacc
    obtain rfl : x = x' := Option.some.inj (hx.symm.trans hx')
    have hf := facts_of_handled h hx
    obtain ⟨owner, ho⟩ := hdone.owner id hrow
    refine ⟨msg, x, owner, hr, hx, hrow, hdone.counted id hrow, ho, fun hnone ↦ ?_, fun hne ↦ ?_⟩
    · exact hdone.unowned (hnone ▸ ho)
    · have hfits : (ackNotification msg.sender owner msg.correlationId).Fits :=
        ⟨(receives_fits hr).1, hf.owner owner ho, Nat.zero_le _⟩
      obtain ⟨n, hn, htells⟩ := hdone.told id owner hrow ho hne hfits
      exact ⟨n, hn, htells, hf.notices n (hn ▸ List.mem_singleton_self n)⟩

/-- Bob acknowledges a message of alice twice; she is not there. -/
theorem one_notification_alice : ∃ S e x, (broker {}).Reachable OneAtATime (initial none) S ∧ e ∈ S.world.log ∧
    accepts 1 e = true ∧ handled e.thread S = some x ∧ x.acks = 1 := by
  have hrun : ((broker {}).runs OneAtATime (inTurn 0 [
      (arrival { type := .register, sender := [98] }, 31),
      (arrival { flags := flagNeedsAck, correlationId := 7, sender := [97], destination := [98] }, 17),
      (arrival { type := .ack, correlationId := 7, sender := [98] }, 17),
      (arrival { type := .ack, correlationId := 7, sender := [98] }, 10)]) ⟨initial none, []⟩).map
      (fun S ↦ (S.threads.all hasEnded, S.world.log.any (accepts 1))) = some (true, true) := by decide +kernel
  obtain ⟨S, hS, hv⟩ := exists_run hrun
  obtain ⟨hended, hacc⟩ := Prod.mk.inj hv
  obtain ⟨e, he, hacc⟩ := List.any_eq_true.mp hacc
  obtain ⟨t, ht, -⟩ := Option.map_eq_some_iff.mp (job_of_event hS e he)
  have hend := ended_of_hasEnded (List.all_eq_true.mp hended t (List.mem_of_getElem? ht))
  obtain ⟨msg, x, owner, -, hx, -, hacks, -⟩ := (one_notification hS).2.2 e he 1 t hacc ht hend
  exact ⟨S, e, x, hS, he, hacc, hx, hacks⟩

end MessageBroker.AckNotices
