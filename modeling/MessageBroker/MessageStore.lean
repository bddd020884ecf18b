import MessageBroker.WireMessages
import MessageBroker.OrderedSelection
import Mathlib.Data.List.Nodup

namespace MessageBroker.MessageStore

open ByteStrings WireMessages OrderedSelection

inductive MessageStatus
  | pending
  | delivered
  | sent
deriving DecidableEq

/-- A copy of a message on its way through the broker. Its provenance is
auxiliary and no operation reads it: `source` is the row the copy was saved as
or loaded from, `accepted` the destination under which the message came in. -/
structure Copy where
  msg : Message
  source : Option ℕ
  accepted : Bytes
deriving DecidableEq

/-- A row of `messages`. The last three fields are auxiliary: the row that the
saved copy came from, the first row of that chain, and the destination under
which the message came in. -/
structure Row where
  id : ℕ
  type : ℕ
  flags : ℕ
  correlationId : Int64
  sender : CText
  destination : CText
  payload : Option Bytes
  status : MessageStatus
  createdAt : ℤ
  source : Option ℕ
  origin : ℕ
  accepted : Bytes
deriving DecidableEq

structure Correlation where
  id : ℕ
  messageId : ℕ
  correlationId : Int64
  originalSender : CText
  createdAt : ℤ
deriving DecidableEq

structure Database where
  messages : List Row := []
  correlations : List Correlation := []
  lastMessageId : ℕ := 0
  lastCorrelationId : ℕ := 0

structure PendingMessage where
  id : ℕ
  msg : Message
  accepted : Bytes
deriving DecidableEq

def PendingMessage.copy (p : PendingMessage) : Copy := ⟨p.msg, some p.id, p.accepted⟩

/-- The message that a loader builds from the columns of a row. -/
def Row.message (r : Row) : Message where
  type := .ofByte (.ofNat r.type)
  flags := .ofNat r.flags
  correlationId := r.correlationId.toUInt64
  sender := r.sender.val
  destination := r.destination.val
  payload := r.payload.getD []

def Row.load (r : Row) : PendingMessage := ⟨r.id, r.message, r.accepted⟩

def Row.needsAck (r : Row) : Bool := UInt8.ofNat r.flags &&& flagNeedsAck != 0

namespace Database

variable (db : Database)

def row? (id : ℕ) : Option Row := db.messages.find? (·.id = id)

def originOf (id : ℕ) (source : Option ℕ) : ℕ :=
  ((source.bind db.row?).map (·.origin)).getD id

def newRow (now : ℤ) (c : Copy) : Row where
  id := db.lastMessageId + 1
  type := c.msg.type.toByte.toNat
  flags := c.msg.flags.toNat
  correlationId := c.msg.correlationId.toInt64
  sender := .of c.msg.sender
  destination := .of c.msg.destination
  payload := if c.msg.payload = [] then none else some c.msg.payload
  status := .pending
  createdAt := now
  source := c.source
  origin := db.originOf (db.lastMessageId + 1) c.source
  accepted := c.accepted

def saveMessage (now : ℤ) (c : Copy) : ℕ × Database :=
  (db.lastMessageId + 1,
    { db with
      messages := db.messages ++ [db.newRow now c]
      lastMessageId := db.lastMessageId + 1 })

/-- The `UPDATE` of the status of one row, guarded by its present status. -/
def setStatus (id : ℕ) (status : MessageStatus) (guard : MessageStatus → Bool) : Database :=
  { db with
    messages := db.messages.map fun r ↦
      if r.id = id ∧ guard r.status then { r with status := status } else r }

def markDelivered (id : ℕ) : Database := db.setStatus id .delivered fun _ ↦ true
def markSent (id : ℕ) : Database := db.setStatus id .sent (· = .pending)
def markPending (id : ℕ) : Database := db.setStatus id .pending (· = .sent)

def needsAck (id : ℕ) : Bool := (db.row? id).any fun r ↦ r.needsAck && r.status = .sent

/-- The foreign key makes the insertion fail when there is no such message. The
unique index on correlation id and owner makes it replace an earlier row. -/
def saveCorrelation (now : ℤ) (messageId : ℕ) (correlationId : UInt64) (originalSender : Bytes) :
    Option Database :=
  if (db.row? messageId).isSome then
    some { db with
      correlations := db.correlations.filter (fun k ↦
          ¬ (k.correlationId = correlationId.toInt64 ∧ k.originalSender = .of originalSender)) ++
        [⟨db.lastCorrelationId + 1, messageId, correlationId.toInt64, .of originalSender, now⟩]
      lastCorrelationId := db.lastCorrelationId + 1 }
  else none

/-- The rows of `correlations` for an id, the latest first. -/
def latestCorrelation (tie : ℕ → ℕ) (correlationId : UInt64) : Option Correlation :=
  latest (·.createdAt) (fun k ↦ tie k.id)
    (db.correlations.filter (·.correlationId = correlationId.toInt64))

def findOriginalSenderByCorrelation (tie : ℕ → ℕ) (correlationId : UInt64) : Bytes :=
  ((db.latestCorrelation tie correlationId).map (·.originalSender.val)).getD []

def findMessageIdByCorrelation (tie : ℕ → ℕ) (correlationId : UInt64) : ℕ :=
  ((db.latestCorrelation tie correlationId).map (·.messageId)).getD 0

def findMessageIdByCorrelationAndDestination (tie : ℕ → ℕ) (correlationId : UInt64)
    (destination : Bytes) : ℕ :=
  ((latest (·.createdAt) (fun k ↦ tie k.id) (db.correlations.filter fun k ↦
      k.correlationId = correlationId.toInt64 ∧
        ∃ r ∈ db.messages, r.id = k.messageId ∧ r.destination = .of destination)).map
    (·.messageId)).getD 0

def markAckReceived (messageId : ℕ) (ackSender : Bytes) : Database :=
  let originalSender := ((db.correlations.find? (·.messageId = messageId)).map
    (·.originalSender.val)).getD []
  if originalSender = ackSender then
    { db with correlations := db.correlations.filter (·.messageId ≠ messageId) }
  else db

def loadExpiredSent (tie : ℕ → ℕ) (now timeoutSeconds : ℤ) : List PendingMessage :=
  (orderBy (·.createdAt) (fun r ↦ tie r.id) (db.messages.filter fun r ↦
    r.status = .sent ∧ now - r.createdAt > timeoutSeconds)).map Row.load

def loadPendingMessagesOnly (tie : ℕ → ℕ) (clientName : Bytes) : List PendingMessage :=
  (orderBy (·.createdAt) (fun r ↦ tie r.id) (db.messages.filter fun r ↦
    r.destination = .of clientName ∧ r.status = .pending ∧
      r.type ≠ MessageType.reply.toByte.toNat)).map Row.load

/-- Whether the join with `correlations` selects a row for `senderName`. -/
def isPendingReplyFor (senderName : Bytes) (r : Row) : Prop :=
  (r.status = .pending ∨ r.status = .sent) ∧ r.type = MessageType.reply.toByte.toNat ∧
    ∃ k ∈ db.correlations, k.correlationId = r.correlationId ∧ k.originalSender = .of senderName

instance (senderName : Bytes) (r : Row) : Decidable (db.isPendingReplyFor senderName r) := by
  unfold isPendingReplyFor
  infer_instance

def loadPendingRepliesForSenderOnly (tie : ℕ → ℕ) (senderName : Bytes) : List PendingMessage :=
  (orderBy (·.createdAt) (fun r ↦ tie r.id)
    (db.messages.filter (db.isPendingReplyFor senderName))).map Row.load

end Database

end MessageBroker.MessageStore
