import MessageBroker.RunInvariants
import MessageBroker.ProgramShapes

namespace MessageBroker.CarriedCopies

open ByteStrings WireMessages MessageStore ProgramTrees Protocols BrokerState SessionQueues ClientRegistry
  MessageHandlers ServerJobs SharedInvariant

/-- A copy that the handling of `msg` saves for the first time. -/
structure First (msg : Message) (c : Copy) : Prop where
  source : c.source = none
  made : msg.type = .message ∧ c.msg = msg ∨ msg.type = .reply ∧ (∃ d, c.msg = { msg with destination := d }) ∨
    msg.type = .ack ∧ ∃ d, c.msg = ackNotification msg.sender d msg.correlationId

/-- A copy that a job passes to a session: one with a row, or a notification that has none. -/
def Onward (j : Job) (c : Copy) : Prop :=
  c.source ≠ none ∨ ∃ msg, Receives j msg ∧ msg.type = .ack ∧ First msg c

/-- A session that a job opens: the one of the client that registers with it. -/
def Opens (j : Job) (identity name : Bytes) : Prop :=
  ∃ data msg, j = .receive identity data ∧ deserialize data = .ok msg ∧ msg.type = .register ∧ msg.sender = name

/-- Whether an operation opens a session, carries a copy somewhere, or works on the queue of a session. -/
def carries : Op → Bool
  | .newSession _ _ => true
  | .saveMessage _ | .lockQueue _ | .unlockQueue _ | .queueSize _ | .queueFront _ | .pushQueue _ _ | .popQueue _
  | .pushPendingSend _ _ _ => true
  | _ => false

/-- `K` holds of the programs that carry copies, when `new` holds of those that
are saved for the first time and `passed` of those that are passed to a session,
and `opened` of the sessions that are opened. -/
structure Carrying (K : ∀ {α : Type}, Program α → Prop) (new passed : Copy → Prop)
    (opened : Bytes → Bytes → Prop) : Prop
    extends Composable K where
  other : ∀ o, carries o = false → K (perform o)
  newSession : ∀ identity name, opened identity name → K (perform (.newSession identity name))
  saveMessage : ∀ c, new c → K (saveMessage c)
  sendToClient : ∀ s c data, passed c → K (sendToClient s c data)
  enqueueMessage : ∀ s c, passed c → K (enqueueMessage s c)
  persistQueueToDatabase : ∀ s, K (persistQueueToDatabase s)
  flushQueue : ∀ s, K (flushQueue s)
  queueSize : ∀ s, K (withQueueLock s (perform (.queueSize s)))

variable {K : ∀ {α : Type}, Program α → Prop} {new passed : Copy → Prop} {opened : Bytes → Bytes → Prop}
  {α : Type} {s id : ℕ} {c : Copy} {n : Bytes}
  {msg : Message} {session : Option ℕ} {cfg : Config} {j : Job}

namespace Carrying

variable (h : Carrying K new passed opened)
include h

theorem markDelivered : K (markDelivered id) := h.bind (h.other (.markDelivered id) rfl) fun r ↦ h.lift r

theorem markSent : K (markSent id) := h.bind (h.other (.markSent id) rfl) fun r ↦ h.lift r

theorem markPending : K (markPending id) := h.bind (h.other (.markPending id) rfl) fun r ↦ h.lift r

theorem dropSession : K (dropSession s) := by
  refine h.bind (h.other (.release s) rfl) fun r ↦ h.when ?_
  refine h.bind (h.recover (h.persistQueueToDatabase s) fun _ ↦ h.other .terminate rfl) fun _ ↦ ?_
  exact h.other (.destroySession s) rfl

theorem holding {p : Program α} (hp : K p) : K (holding session p) := by
  cases session with
  | none => exact hp
  | some s => exact h.ensuring hp h.dropSession

theorem sendMessage (hc : passed c) : K (sendMessage s c) := by
  refine h.bind (h.other (.updateLastActivity s) rfl) fun _ ↦
    h.bind (h.other (.isOnline s) rfl) fun online ↦ h.bind ?_ fun _ ↦ h.ret true
  cases online with
  | false => exact h.enqueueMessage s c hc
  | true =>
    exact h.recover (h.bind (h.lift _) fun data ↦ h.sendToClient s c data hc) fun _ ↦
      h.other (.markOffline s) rfl

theorem withRegistryLock {p : Program α} (hp : K p) : K (withRegistryLock p) :=
  h.bind (h.other .lockRegistry rfl) fun _ ↦ h.ensuring hp (h.other .unlockRegistry rfl)

theorem withSession {p : Option ℕ → Program α} (hp : ∀ session, K (p session)) :
    K (findSession n >>= fun session ↦ SessionQueues.holding session (p session)) :=
  h.bind (h.withRegistryLock (h.other (.findClient n) rfl)) fun session ↦ h.holding (hp session)

theorem placeSession : K (placeSession n s session) := by
  cases session with
  | none => exact h.other (.setClient n s) rfl
  | some old =>
    refine h.recover ?_ fun e ↦ h.bind h.dropSession fun _ ↦ h.fail e
    exact h.bind (h.persistQueueToDatabase old) fun _ ↦ h.bind (h.other (.markOffline old) rfl) fun _ ↦
      h.bind (h.other (.identityOf old) rfl) fun x ↦ h.bind (h.other (.eraseName x) rfl) fun _ ↦
        h.other (.setClient n s) rfl

theorem upsertClient : K (upsertClient n s) := by
  refine h.withRegistryLock (h.bind (h.other (.findClient n) rfl) fun old ↦ h.bind h.placeSession fun _ ↦ ?_)
  refine h.bind (h.other (.identityOf s) rfl) fun x ↦ h.bind (h.other (.setName x n) rfl) fun _ ↦
    h.bind (h.other .hasMetrics rfl) fun _ ↦ h.bind (h.when ?_) fun _ ↦ h.ret old
  exact h.bind (h.other .setActiveSessions rfl) fun _ ↦
    h.bind (h.when (h.other (.increment .clientsUnregistered) rfl)) fun _ ↦
      h.other (.increment .clientsRegistered) rfl

theorem eraseClient : K (eraseClient n s) :=
  h.bind (h.other (.identityOf s) rfl) fun x ↦ h.bind (h.other (.eraseName x) rfl) fun _ ↦
    h.bind (h.other (.removeClient n) rfl) fun _ ↦ h.dropSession

theorem unregisterHandler : K (unregisterHandler msg) := by
  refine h.withSession fun session ↦ ?_
  cases session with
  | none => exact h.ret ()
  | some s =>
    refine h.bind (h.persistQueueToDatabase s) fun _ ↦ h.bind (h.other (.markOffline s) rfl) fun _ ↦ ?_
    refine h.withRegistryLock (h.bind (h.other (.peekClient msg.sender) rfl) fun r ↦ ?_)
    match r with
    | none => exact h.ret ()
    | some s =>
      exact h.bind h.eraseClient fun _ ↦ h.bind (h.other (.increment .clientsUnregistered) rfl) fun _ ↦
        h.other .setActiveSessions rfl

section Sends

variable (hrow : ∀ c : Copy, c.source ≠ none → passed c)
include hrow

theorem sendRow {p : PendingMessage} : K (SessionQueues.sendMessage s p.copy) :=
  h.sendMessage (hrow p.copy (Option.some_ne_none _))

theorem offlineLoop (ps : List PendingMessage) : K (offlineLoop s ps) := by
  induction ps with
  | nil => exact h.ret ()
  | cons p rest ih =>
    refine h.bind (h.other (.isOnline s) rfl) fun online ↦ ?_
    cases online with
    | false => exact h.ret ()
    | true =>
      refine h.bind (h.when h.markSent) fun _ ↦ h.bind (h.sendRow hrow) fun sent ↦ ?_
      cases sent with
      | false => exact h.ret ()
      | true => exact h.bind (h.when h.markDelivered) fun _ ↦ ih

theorem repliesLoop (ps : List PendingMessage) : K (repliesLoop s ps) := by
  induction ps with
  | nil => exact h.ret ()
  | cons p rest ih =>
    refine h.bind (h.other (.isOnline s) rfl) fun online ↦ ?_
    cases online with
    | false => exact h.ret ()
    | true =>
      exact h.bind (h.when h.markSent) fun _ ↦ h.bind (h.sendRow hrow) fun _ ↦
        h.bind (h.when h.markDelivered) fun _ ↦ ih

omit hrow in
theorem printActiveClients : K printActiveClients := by
  refine h.withRegistryLock (h.bind (h.other .listClients rfl) fun entries ↦ ?_)
  induction entries with
  | nil => exact h.ret ()
  | cons e rest ih => exact h.bind (h.queueSize e.2) fun _ ↦ ih

theorem registerHandler {identity : Bytes} (hopen : opened identity msg.sender) :
    K (registerHandler msg identity) := by
  have deliver (s : ℕ) : K (deliverOffline msg.sender (some s)) := by
    refine h.bind (h.other (.loadPendingMessagesOnly msg.sender) rfl) fun rows ↦ ?_
    split
    · exact h.bind (h.other (.increment .offlineDelivered) rfl) fun _ ↦
        h.bind (h.other (.updateLastActivity s) rfl) fun _ ↦ h.bind (h.other (.updateLastReceive s) rfl) fun _ ↦
          h.bind (h.offlineLoop hrow rows) fun _ ↦ h.flushQueue s
    · exact h.ret ()
  have replies (s : ℕ) : K (deliverReplies msg.sender (some s)) := by
    refine h.bind (h.other (.loadPendingRepliesForSenderOnly msg.sender) rfl) fun rows ↦ ?_
    split
    · exact h.bind (h.other (.updateLastActivity s) rfl) fun _ ↦
        h.bind (h.other (.updateLastReceive s) rfl) fun _ ↦ h.repliesLoop hrow rows
    · exact h.ret ()
  change K (if msg.sender ≠ [] then _ else pure ())
  split
  · refine h.bind (h.newSession identity msg.sender hopen) fun s ↦ h.holding ?_
    refine h.bind (h.other (.updateLastActivity s) rfl) fun _ ↦ h.bind (h.other (.updateLastReceive s) rfl)
      fun _ ↦ h.bind h.upsertClient fun old ↦ h.holding ?_
    refine h.bind (h.withSession fun session ↦ ?_) fun _ ↦
      h.bind (h.withSession fun session ↦ ?_) fun _ ↦ h.printActiveClients
    · cases session with
      | none => exact h.ret ()
      | some s => exact deliver s
    · cases session with
      | none => exact h.ret ()
      | some s => exact replies s
  · exact h.ret ()

theorem retryLoop (ps : List PendingMessage) : K (retryLoop ps) := by
  induction ps with
  | nil => exact h.ret ()
  | cons p rest ih =>
    refine h.bind h.markPending fun _ ↦ h.bind ?_ fun session ↦ h.bind (h.holding ?_) fun _ ↦ ih
    · refine h.withRegistryLock (h.bind (h.other (.peekClient p.msg.destination) rfl) fun r ↦ ?_)
      match r with
      | none => exact h.ret none
      | some s =>
        refine h.bind (h.other (.isOnline s) rfl) fun online ↦ ?_
        cases online with
        | true => exact h.other (.findClient p.msg.destination) rfl
        | false => exact h.ret none
    · cases session with
      | none => exact h.ret ()
      | some s =>
        refine h.bind h.markSent fun _ ↦ h.bind (h.sendRow hrow) fun sent ↦ ?_
        cases sent with
        | true => exact h.ret ()
        | false => exact h.markPending

theorem checkExpiredAcks : K (checkExpiredAcks cfg) := by
  unfold ClientRegistry.checkExpiredAcks
  split
  · exact h.bind (h.other (.loadExpiredSent cfg.ackTimeout) rfl) fun rows ↦
      h.bind (h.when (h.other (.increment .messagesExpired) rfl)) fun _ ↦ h.retryLoop hrow rows
  · exact h.ret ()

end Sends

theorem cleanupInactiveSessions : K (cleanupInactiveSessions cfg) := by
  have expire (s : ℕ) : K (expireSession cfg.sessionTimeout s) := by
    refine h.bind (h.other (.isExpired s cfg.sessionTimeout) rfl) fun expired ↦ ?_
    cases expired with
    | false => exact h.ret false
    | true =>
      exact h.bind (h.other (.markOffline s) rfl) fun _ ↦ h.bind (h.persistQueueToDatabase s) fun _ ↦ h.ret true
  have scan (entries : List (Bytes × ℕ)) : K (scanClients cfg.sessionTimeout entries) := by
    induction entries with
    | nil => exact h.ret []
    | cons e rest ih =>
      refine h.bind (h.bind (h.other (.isOnline e.2) rfl) fun online ↦ ?_) fun remove ↦
        h.bind ih fun names ↦ h.ret _
      cases online with
      | false => exact h.ret true
      | true =>
        change K (if 0 < cfg.sessionTimeout then expireSession cfg.sessionTimeout e.2 else pure false)
        split
        · exact expire e.2
        · exact h.ret false
  have remove (names : List Bytes) : K (removeClients names) := by
    induction names with
    | nil => exact h.ret ()
    | cons n rest ih =>
      refine h.bind (h.bind (h.other (.peekClient n) rfl) fun r ↦ ?_) fun _ ↦ ih
      match r with
      | none => exact h.ret ()
      | some s => exact h.bind h.eraseClient fun _ ↦ h.other (.increment .clientsTimeout) rfl
  refine h.withRegistryLock (h.bind (h.other .listClients rfl) fun entries ↦
    h.bind (scan entries) fun names ↦ h.bind (remove names) fun _ ↦ h.when ?_)
  exact h.bind (h.other .hasMetrics rfl) fun _ ↦ h.when (h.withRegistryLock (h.other .setActiveSessions rfl))

theorem rollBack : K (rollBack id s) :=
  h.bind (h.recover h.markPending fun _ ↦ h.ret ()) fun _ ↦
    h.bind (h.other (.markOffline s) rfl) fun _ ↦ h.other (.increment .messagesFailed) rfl

theorem accepting {p : Program α} (hp : K p) : K (accepting p) :=
  h.recover (h.bind hp fun a ↦ h.ret (some a)) fun _ ↦
    h.bind (h.other (.increment .messagesFailed) rfl) fun _ ↦ h.ret none

theorem saveCorrelation {corr : UInt64} : K (saveCorrelation id corr n) :=
  h.bind (h.other (.saveCorrelation id corr n) rfl) fun r ↦ h.lift r

theorem isOnlineSession : K (isOnlineSession session) := by
  cases session with
  | none => exact h.ret false
  | some s => exact h.other (.isOnline s) rfl

theorem messageHandler (hnew : new ⟨msg, none, msg.destination⟩)
    (hrow : ∀ c : Copy, c.source ≠ none → passed c) :
    K (messageHandler msg) := by
  refine h.withSession fun session ↦ h.bind h.isOnlineSession fun online ↦
    h.bind (h.accepting (h.bind (h.saveMessage _ hnew) fun id ↦ h.bind (h.when h.saveCorrelation) fun _ ↦
      h.ret id)) fun accepted ↦ ?_
  match accepted, session with
  | none, _ | some _, none => exact h.ret ()
  | some id, some s =>
    refine h.when (h.recover (h.bind (h.other (.updateLastReceive s) rfl) fun _ ↦
      h.bind (h.sendMessage (hrow _ (Option.some_ne_none id))) fun sent ↦ ?_) fun _ ↦ h.rollBack)
    cases sent with
    | false => exact h.rollBack
    | true =>
      refine h.recover ?_ fun _ ↦ h.other (.increment .messagesFailed) rfl
      cases msg.needsAck with
      | true => exact h.markSent
      | false => exact h.markDelivered

theorem replyHandler (hnew : ∀ d, new ⟨{ msg with destination := d }, none, d⟩)
    (hrow : ∀ c : Copy, c.source ≠ none → passed c) : K (replyHandler msg) := by
  have accept : K (acceptReply msg) := by
    refine h.bind (h.other (.findOriginalSenderByCorrelation msg.correlationId) rfl) fun owner ↦
      h.bind ?_ fun id ↦ h.bind h.saveCorrelation fun _ ↦ h.ret _
    split
    · exact h.saveMessage _ (hnew msg.destination)
    · exact h.saveMessage _ (hnew owner)
  refine h.bind (h.accepting accept) fun accepted ↦ ?_
  match accepted with
  | none => exact h.ret ()
  | some (id, reply) =>
    refine h.withSession fun session ↦ h.bind h.isOnlineSession fun online ↦ ?_
    cases session with
    | none => exact h.ret ()
    | some s =>
      refine h.when (h.recover (h.bind (h.when h.markSent) fun _ ↦
        h.bind (h.sendMessage (hrow _ (Option.some_ne_none id))) fun sent ↦ ?_) fun _ ↦ h.rollBack)
      cases sent with
      | true => exact h.when h.markDelivered
      | false =>
        exact h.bind (h.when (h.recover h.markPending fun _ ↦ h.ret ())) fun _ ↦
          h.bind (h.other (.markOffline s) rfl) fun _ ↦ h.other (.increment .messagesFailed) rfl

theorem ackHandler
    (hnotice : ∀ d, new ⟨ackNotification msg.sender d msg.correlationId, none, d⟩ ∧
      passed ⟨ackNotification msg.sender d msg.correlationId, none, d⟩) : K (ackHandler msg) := by
  have notify (d : Bytes) (session : Option ℕ) : K
    (notifySender (ackNotification msg.sender d msg.correlationId) session) := by
    refine h.bind h.isOnlineSession fun online ↦ ?_
    match session, online with
    | none, _ | some _, false => exact h.bind (h.saveMessage _ (hnotice d).1) fun _ ↦ h.ret ()
    | some s, true => exact h.bind (h.sendMessage (hnotice d).2) fun _ ↦ h.ret ()
  have acknowledge (owner : Bytes) (id : ℕ) : K (acknowledge msg owner id) := by
    refine h.bind h.markDelivered fun _ ↦ h.bind (h.other (.markAckReceived id msg.sender) rfl) fun _ ↦
      h.bind (h.other (.increment .acksReceived) rfl) fun _ ↦ ?_
    split
    · exact h.withSession (notify owner)
    · exact h.ret ()
  have find : K (findAcknowledged msg) := by
    refine h.bind (h.other (.findMessageIdByCorrelation msg.correlationId) rfl) fun id ↦ ?_
    split
    · exact h.other (.findMessageIdByCorrelationAndDestination msg.correlationId msg.sender) rfl
    · exact h.ret id
  unfold MessageHandlers.ackHandler
  split
  · refine h.bind (h.other (.findOriginalSenderByCorrelation msg.correlationId) rfl) fun owner ↦
      h.bind find fun id ↦ ?_
    split
    · exact h.bind (h.other (.needsAck id) rfl) fun _ ↦ h.when (acknowledge owner id)
    · exact h.ret ()
  · exact h.ret ()

theorem handle {identity : Bytes} (hnew : ∀ c, First msg c → new c)
    (hrow : ∀ c : Copy, c.source ≠ none → passed c) (hnotice : msg.type = .ack → ∀ c, First msg c → passed c)
    (hopen : msg.type = .register → opened identity msg.sender) : K (handle msg identity) := by
  unfold MessageHandlers.handle
  split
  · next ht => exact h.registerHandler hrow (hopen ht)
  · next ht => exact h.messageHandler (hnew _ ⟨rfl, .inl ⟨ht, rfl⟩⟩) hrow
  · next ht => exact h.replyHandler (fun d ↦ hnew _ ⟨rfl, .inr (.inl ⟨ht, d, rfl⟩)⟩) hrow
  · next ht =>
    have first (d : Bytes) : First msg ⟨ackNotification msg.sender d msg.correlationId, none, d⟩ :=
      ⟨rfl, .inr (.inr ⟨ht, d, rfl⟩)⟩
    exact h.ackHandler fun d ↦ ⟨hnew _ (first d), hnotice ht _ (first d)⟩
  · exact h.unregisterHandler
  · exact h.ret ()

theorem touchSession {identity : Bytes} : K (touchSession identity) := by
  refine h.withRegistryLock (h.bind (h.other (.findName identity) rfl) fun r ↦ ?_)
  match r with
  | none => exact h.ret none
  | some n =>
    refine h.bind (h.other (.findClient n) rfl) fun r' ↦ ?_
    match r' with
    | none => exact h.ret none
    | some s => exact h.bind (h.other (.updateLastReceive s) rfl) fun _ ↦ h.ret (some s)

theorem processPendingSends : K processPendingSends := by
  have hspend : ProgramShapes.Spending K :=
    ⟨h.toComposable, fun o ho ↦ h.other o (by cases o <;> first | rfl | cases ho)⟩
  refine h.bind (h.other .takePendingSends rfl) fun m ↦ ?_
  split
  · exact h.bind (hspend.sendLoop m) fun _ ↦ h.bind (h.other .finishSends rfl) fun _ ↦
      h.other .updateQueueMetrics rfl
  · exact h.ret ()

theorem code (hnew : ∀ m, Receives j m → ∀ c, First m c → new c) (hpassed : ∀ c, Onward j c → passed c)
    (hopened : ∀ identity name, Opens j identity name → opened identity name) : K (code cfg j) := by
  have hrow (c : Copy) (hc : c.source ≠ none) : passed c := hpassed c (.inl hc)
  have timer {p : Program Unit} (hp : K p) : K (timer p) := h.recover hp fun _ ↦ h.other .terminate rfl
  cases j with
  | receive identity data =>
    refine h.recover (h.bind (h.other (.increment .messagesReceived) rfl) fun _ ↦ ?_) fun _ ↦
      h.other (.increment .messagesFailed) rfl
    cases hdata : deserialize data with
    | error e => exact h.fail e
    | ok msg =>
      have hm : Receives (.receive identity data) msg := ⟨identity, data, rfl, hdata⟩
      change K (routeMessage msg identity)
      exact h.bind h.touchSession fun session ↦ h.holding
        (h.handle (hnew msg hm) hrow (fun ht c hc ↦ hpassed c (.inr ⟨msg, hm, ht, hc⟩)) fun ht ↦
          hopened identity msg.sender ⟨data, msg, rfl, hdata, ht, rfl⟩)
  | cleanupInactiveSessions => exact timer h.cleanupInactiveSessions
  | checkExpiredAcks => exact timer (h.checkExpiredAcks hrow)
  | processPendingSends => exact h.processPendingSends
  | sendTask =>
    refine h.bind (h.other .isSending rfl) fun sending ↦ ?_
    cases sending with
    | true => exact h.ret ()
    | false => exact h.processPendingSends

end Carrying

end MessageBroker.CarriedCopies
