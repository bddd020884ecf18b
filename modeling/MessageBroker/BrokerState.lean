import MessageBroker.MessageStore
import MessageBroker.ThreadPools
import Mathlib.Data.List.AList

namespace MessageBroker.BrokerState

open ByteStrings WireMessages OrderedSelection MessageStore ProgramTrees

structure Config where
  sessionTimeout : ℤ := 60
  ackTimeout : ℤ := 30

/-- A session object. `owners` lists the threads that hold a shared pointer to
it, once for each pointer; the registry's pointers are the entries of
`activeClients`. -/
structure Session where
  identity : Bytes := []
  name : Bytes := []
  isOnline : Bool := true
  outgoingQueue : List Copy := []
  queueOwner : Option ℕ := none
  lastReceive : ℕ := 0
  lastActivity : ℕ := 0
  owners : List ℕ := []
  destroyed : Bool := false

/-- A send handed to the server. Its callback refers to `session`. The last two
fields are auxiliary: the copy that was serialised, and whether the callback
has been called. -/
structure PendingSend where
  identity : Bytes
  data : Bytes
  session : ℕ
  copy : Copy
  called : Bool := false
deriving DecidableEq

inductive SendPart
  | identity
  | delimiter
  | data
deriving DecidableEq

inductive SendResult
  | accepted
  | wouldBlock
  | error
deriving DecidableEq

inductive Counter
  | messagesReceived
  | messagesSent
  | messagesFailed
  | acksReceived
  | messagesExpired
  | offlineDelivered
  | clientsRegistered
  | clientsUnregistered
  | clientsTimeout
deriving DecidableEq

structure Metrics where
  counters : Counter → ℕ := fun _ ↦ 0
  activeSessions : ℕ := 0
  pendingSendQueueSize : ℕ := 0

/-- The atomic operations: storage calls, accesses to the registry under its
mutex, accesses to one session, and the steps of the send queue. -/
inductive Op
  | saveMessage (c : Copy)
  | saveCorrelation (messageId : ℕ) (correlationId : UInt64) (originalSender : Bytes)
  | markDelivered (messageId : ℕ)
  | markSent (messageId : ℕ)
  | markPending (messageId : ℕ)
  | needsAck (messageId : ℕ)
  | findOriginalSenderByCorrelation (correlationId : UInt64)
  | findMessageIdByCorrelation (correlationId : UInt64)
  | findMessageIdByCorrelationAndDestination (correlationId : UInt64) (destination : Bytes)
  | markAckReceived (messageId : ℕ) (ackSender : Bytes)
  | loadExpiredSent (timeoutSeconds : ℤ)
  | loadPendingMessagesOnly (clientName : Bytes)
  | loadPendingRepliesForSenderOnly (senderName : Bytes)
  | lockRegistry
  | unlockRegistry
  | findName (identity : Bytes)
  | setName (identity name : Bytes)
  | eraseName (identity : Bytes)
  | findClient (name : Bytes)
  | peekClient (name : Bytes)
  | setClient (name : Bytes) (session : ℕ)
  | removeClient (name : Bytes)
  | listClients
  | newSession (identity name : Bytes)
  | release (session : ℕ)
  | destroySession (session : ℕ)
  | identityOf (session : ℕ)
  | nameOf (session : ℕ)
  | isOnline (session : ℕ)
  | markOffline (session : ℕ)
  | isExpired (session : ℕ) (timeoutSeconds : ℤ)
  | updateLastActivity (session : ℕ)
  | updateLastReceive (session : ℕ)
  | lockQueue (session : ℕ)
  | unlockQueue (session : ℕ)
  | queueSize (session : ℕ)
  | queueFront (session : ℕ)
  | pushQueue (session : ℕ) (c : Copy)
  | popQueue (session : ℕ)
  | pushPendingSend (session : ℕ) (c : Copy) (data : Bytes)
  | postSendTask
  | isSending
  | takePendingSends
  | frontSend
  | sendFrame (send : PendingSend) (part : SendPart)
  | callback (send : PendingSend) (success : Bool)
  | popSend
  | finishSends
  | updateQueueMetrics
  | hasMetrics
  | increment (counter : Counter)
  | setActiveSessions
  | terminate

@[reducible] def Op.Res : Op → Type
  | saveMessage _ => Except String ℕ
  | saveCorrelation _ _ _ | markDelivered _ | markSent _ | markPending _ => Except String Unit
  | needsAck _ | release _ | isOnline _ | isExpired _ _ | isSending | hasMetrics => Bool
  | findOriginalSenderByCorrelation _ | identityOf _ | nameOf _ => Bytes
  | findMessageIdByCorrelation _ | findMessageIdByCorrelationAndDestination _ _ => ℕ
  | newSession _ _ | queueSize _ | takePendingSends => ℕ
  | loadExpiredSent _ | loadPendingMessagesOnly _ | loadPendingRepliesForSenderOnly _ =>
    List PendingMessage
  | findName _ => Option Bytes
  | findClient _ | peekClient _ => Option ℕ
  | listClients => List (Bytes × ℕ)
  | queueFront _ => Option Copy
  | frontSend => Option PendingSend
  | sendFrame _ _ => SendResult
  | _ => Unit

/-- What the environment decides about one operation: whether the database
call fails, and after how many rows a selection then stops; the order of rows
and of map entries that the code leaves open; the outcome of a socket send. -/
structure Choice where
  dbError : Bool := false
  taken : ℕ := 0
  tie : ℕ → ℕ := id
  socket : SendResult := .accepted

inductive Job
  | receive (identity data : Bytes)
  | cleanupInactiveSessions
  | checkExpiredAcks
  | processPendingSends
  | sendTask
deriving DecidableEq

/-- A performed operation with the thread and job that performed it. -/
structure Event where
  thread : ℕ
  job : Job
  op : Op
  choice : Choice
  res : op.Res
  wallClock : ℤ

structure World where
  db : Database := {}
  activeClients : AList (fun _ : Bytes ↦ ℕ) := ∅
  identityToName : AList (fun _ : Bytes ↦ Bytes) := ∅
  registryOwner : Option ℕ := none
  sessions : ℕ → Session := fun _ ↦ {}
  nextSession : ℕ := 0
  pendingSends : List PendingSend := []
  batches : ℕ → List PendingSend := fun _ ↦ []
  sendingInProgress : Bool := false
  postedTasks : ℕ := 0
  wire : List (PendingSend × SendPart) := []
  metrics : Option Metrics := none
  wallClock : ℤ := 0
  steadyClock : ℕ := 0
  terminated : Bool := false
  log : List Event := []

namespace World

variable (w : World)

def setSession (s : ℕ) (f : Session → Session) : World :=
  { w with sessions := Function.update w.sessions s (f (w.sessions s)) }

def setBatch (i : ℕ) (sends : List PendingSend) : World :=
  { w with batches := Function.update w.batches i sends }

def setDb (db : Database) : World := { w with db := db }

def setMetrics (f : Metrics → Metrics) : World := { w with metrics := w.metrics.map f }

def Registered (s : ℕ) : Prop := ∃ e ∈ w.activeClients.entries, e.2 = s

instance (s : ℕ) : Decidable (w.Registered s) := by
  unfold Registered
  infer_instance

end World

def ticksPerSecond : ℕ := 1000000000

/-- A database call that throws when the database reports an error. -/
def dbCall (ch : Choice) (message : String) {α : Type} (w : World) (a : α) (db : Database) :
    Option (Except String α × World) :=
  if ch.dbError then some (.error message, w) else some (.ok a, w.setDb db)

/-- A selection that just ends when the database reports an error. -/
def dbSelect (ch : Choice) {α : Type} (rows : List α) : List α :=
  if ch.dbError then rows.take ch.taken else rows

/-- The effect of one operation of thread `i`. A mutex that is held blocks. -/
def effect (i : ℕ) (ch : Choice) : (o : Op) → World → Option (o.Res × World)
  | .saveMessage c, w =>
    let r := w.db.saveMessage w.wallClock c
    dbCall ch "Failed to insert message" w r.1 r.2
  | .saveCorrelation messageId correlationId originalSender, w =>
    match w.db.saveCorrelation w.wallClock messageId correlationId originalSender with
    | none => some (.error "Failed to save correlation", w)
    | some db => dbCall ch "Failed to save correlation" w () db
  | .markDelivered id, w =>
    dbCall ch "Failed to mark message as delivered" w () (w.db.markDelivered id)
  | .markSent id, w => dbCall ch "Failed to mark message as sent" w () (w.db.markSent id)
  | .markPending id, w => dbCall ch "Failed to mark message as pending" w () (w.db.markPending id)
  | .needsAck id, w => some (!ch.dbError && w.db.needsAck id, w)
  | .findOriginalSenderByCorrelation c, w =>
    some (if ch.dbError then [] else w.db.findOriginalSenderByCorrelation ch.tie c, w)
  | .findMessageIdByCorrelation c, w =>
    some (if ch.dbError then 0 else w.db.findMessageIdByCorrelation ch.tie c, w)
  | .findMessageIdByCorrelationAndDestination c d, w =>
    some (if ch.dbError then 0 else w.db.findMessageIdByCorrelationAndDestination ch.tie c d, w)
  | .markAckReceived id sender, w =>
    some ((), if ch.dbError then w else w.setDb (w.db.markAckReceived id sender))
  | .loadExpiredSent timeout, w =>
    some (dbSelect ch (w.db.loadExpiredSent ch.tie w.wallClock timeout), w)
  | .loadPendingMessagesOnly name, w =>
    some (dbSelect ch (w.db.loadPendingMessagesOnly ch.tie name), w)
  | .loadPendingRepliesForSenderOnly name, w =>
    some (dbSelect ch (w.db.loadPendingRepliesForSenderOnly ch.tie name), w)
  | .lockRegistry, w =>
    if w.registryOwner = none then some ((), { w with registryOwner := some i }) else none
  | .unlockRegistry, w => some ((), { w with registryOwner := none })
  | .findName identity, w => some (w.identityToName.lookup identity, w)
  | .setName identity name, w =>
    some ((), { w with identityToName := w.identityToName.insert identity name })
  | .eraseName identity, w =>
    some ((), { w with identityToName := w.identityToName.erase identity })
  | .findClient name, w =>
    match w.activeClients.lookup name with
    | none => some (none, w)
    | some s => some (some s, w.setSession s fun x ↦ { x with owners := i :: x.owners })
  | .peekClient name, w => some (w.activeClients.lookup name, w)
  | .setClient name s, w =>
    some ((), { w with activeClients := w.activeClients.insert name s })
  | .removeClient name, w =>
    match w.activeClients.lookup name with
    | none => some ((), w)
    | some s => some ((), { w.setSession s fun x ↦ { x with owners := i :: x.owners } with
        activeClients := w.activeClients.erase name })
  | .listClients, w =>
    some ((orderBy (fun _ ↦ 0) (fun e ↦ ch.tie e.2) w.activeClients.entries).map fun e ↦
      (e.1, e.2), w)
  | .newSession identity name, w =>
    some (w.nextSession, { w with
      sessions := Function.update w.sessions w.nextSession
        { identity, name, lastReceive := w.steadyClock, lastActivity := w.steadyClock, owners := [i] }
      nextSession := w.nextSession + 1 })
  | .release s, w =>
    let w' := w.setSession s fun x ↦ { x with owners := x.owners.erase i }
    some (decide ((w'.sessions s).owners = [] ∧ ¬ w.Registered s), w')
  | .destroySession s, w => some ((), w.setSession s fun x ↦ { x with destroyed := true })
  | .identityOf s, w => some ((w.sessions s).identity, w)
  | .nameOf s, w => some ((w.sessions s).name, w)
  | .isOnline s, w => some ((w.sessions s).isOnline, w)
  | .markOffline s, w => some ((), w.setSession s fun x ↦ { x with isOnline := false })
  | .isExpired s timeout, w =>
    some (!(w.sessions s).isOnline ||
      decide (timeout < ((w.steadyClock - (w.sessions s).lastReceive) / ticksPerSecond : ℕ)), w)
  | .updateLastActivity s, w =>
    some ((), w.setSession s fun x ↦ { x with lastActivity := w.steadyClock })
  | .updateLastReceive s, w =>
    some ((), w.setSession s fun x ↦ { x with lastReceive := w.steadyClock })
  | .lockQueue s, w =>
    if (w.sessions s).queueOwner = none then
      some ((), w.setSession s fun x ↦ { x with queueOwner := some i })
    else none
  | .unlockQueue s, w => some ((), w.setSession s fun x ↦ { x with queueOwner := none })
  | .queueSize s, w => some ((w.sessions s).outgoingQueue.length, w)
  | .queueFront s, w => some ((w.sessions s).outgoingQueue.head?, w)
  | .pushQueue s c, w =>
    some ((), w.setSession s fun x ↦ { x with outgoingQueue := x.outgoingQueue ++ [c] })
  | .popQueue s, w =>
    some ((), w.setSession s fun x ↦ { x with outgoingQueue := x.outgoingQueue.tail })
  | .pushPendingSend s c data, w =>
    some ((), { w with pendingSends :=
      w.pendingSends ++ [{ identity := (w.sessions s).identity, data, session := s, copy := c }] })
  | .postSendTask, w => some ((), { w with postedTasks := w.postedTasks + 1 })
  | .isSending, w => some (w.sendingInProgress, w)
  | .takePendingSends, w =>
    if w.pendingSends = [] then some (0, { w with sendingInProgress := false })
    else some (w.pendingSends.length,
      { w.setBatch i w.pendingSends with pendingSends := [], sendingInProgress := true })
  | .frontSend, w => some ((w.batches i).head?, w)
  | .sendFrame send part, w =>
    some (ch.socket, if ch.socket = .accepted then { w with wire := w.wire ++ [(send, part)] } else w)
  | .callback send success, w =>
    let w' := w.setBatch i (((w.batches i).head?.map fun x ↦ { x with called := true }).toList ++
      (w.batches i).tail)
    some ((), if success then w' else w'.setSession send.session fun x ↦ { x with isOnline := false })
  | .popSend, w => some ((), w.setBatch i (w.batches i).tail)
  | .finishSends, w =>
    some ((), { w with
      sendingInProgress := false
      postedTasks := if w.pendingSends = [] then w.postedTasks else w.postedTasks + 1 })
  | .updateQueueMetrics, w =>
    some ((), w.setMetrics fun m ↦ { m with pendingSendQueueSize := w.pendingSends.length })
  | .hasMetrics, w => some (w.metrics.isSome, w)
  | .increment counter, w =>
    some ((), w.setMetrics fun m ↦
      { m with counters := Function.update m.counters counter (m.counters counter + 1) })
  | .setActiveSessions, w =>
    some ((), w.setMetrics fun m ↦ { m with activeSessions := w.activeClients.entries.length })
  | .terminate, w => some ((), { w with terminated := true })

/-- One operation of a thread, unless the process has terminated. -/
def exec (i : ℕ) (j : Job) (o : Op) (ch : Choice) (w : World) : Option (o.Res × World) :=
  if w.terminated then none
  else (effect i ch o w).map fun r ↦
    (r.1, { r.2 with log := ⟨i, j, o, ch, r.1, w.wallClock⟩ :: r.2.log })

end MessageBroker.BrokerState
