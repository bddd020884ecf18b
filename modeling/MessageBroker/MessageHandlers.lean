import MessageBroker.ClientRegistry

namespace MessageBroker.MessageHandlers

open ByteStrings WireMessages MessageStore ProgramTrees BrokerState SessionQueues ClientRegistry

def registerHandler (msg : Message) (identity : Bytes) : Program Unit := do
  let clientName := msg.sender
  if clientName ≠ [] then
    let session ← perform (.newSession identity clientName)
    holding (some session) do
      perform (.updateLastActivity session)
      perform (.updateLastReceive session)
      let oldSession ← upsertClient clientName session
      holding oldSession do
        deliverOfflineMessages clientName
        deliverPendingReplies clientName
        printActiveClients

/-- Save an accepted message with its correlation, if it needs one. -/
def acceptMessage (msg : Message) : Program ℕ := do
  let messageId ← saveMessage ⟨msg, none, msg.destination⟩
  Prog.when (msg.needsReply || msg.needsAck)
    (saveCorrelation messageId msg.correlationId msg.sender)
  return messageId

/-- The accept block of a handler: `none` when the database call failed. -/
def accepting {α : Type} (p : Program α) : Program (Option α) :=
  (some <$> p).recover fun _ ↦ do
    perform (.increment .messagesFailed)
    return none

def rollBack (messageId s : ℕ) : Program Unit := do
  (markPending messageId).recover fun _ ↦ pure ()
  perform (.markOffline s)
  perform (.increment .messagesFailed)

def markHandedOver (msg : Message) (messageId : ℕ) : Program Unit :=
  (cond msg.needsAck (markSent messageId) (markDelivered messageId)).recover fun _ ↦
    perform (.increment .messagesFailed)

def sendNow (msg : Message) (messageId s : ℕ) : Program Unit :=
  Prog.recover (do
    perform (.updateLastReceive s)
    if ← sendMessage s ⟨msg, some messageId, msg.destination⟩ then markHandedOver msg messageId
    else rollBack messageId s) fun _ ↦ rollBack messageId s

def isOnlineSession : Option ℕ → Program Bool
  | none => pure false
  | some s => perform (.isOnline s)

def handleMessage (msg : Message) (session : Option ℕ) : Program Unit := do
  let canDeliverImmediately ← isOnlineSession session
  match ← accepting (acceptMessage msg), session with
  | some messageId, some s => Prog.when canDeliverImmediately (sendNow msg messageId s)
  | _, _ => pure ()

def messageHandler (msg : Message) : Program Unit := do
  let session ← findSession msg.destination
  holding session (handleMessage msg session)

/-- Save a reply, redirected to the owner of its correlation if there is one. -/
def acceptReply (msg : Message) : Program (ℕ × Message) := do
  let originalSender ← perform (.findOriginalSenderByCorrelation msg.correlationId)
  let replyMsg := if originalSender = [] then msg else { msg with destination := originalSender }
  let messageId ← saveMessage ⟨replyMsg, none, replyMsg.destination⟩
  let correlationOwner := if originalSender = [] then replyMsg.destination else originalSender
  saveCorrelation messageId msg.correlationId correlationOwner
  return (messageId, replyMsg)

def rollBackReply (replyMsg : Message) (messageId s : ℕ) : Program Unit := do
  Prog.when replyMsg.needsAck ((markPending messageId).recover fun _ ↦ pure ())
  perform (.markOffline s)
  perform (.increment .messagesFailed)

def sendReply (replyMsg : Message) (messageId s : ℕ) : Program Unit :=
  Prog.recover (do
    Prog.when replyMsg.needsAck (markSent messageId)
    if ← sendMessage s ⟨replyMsg, some messageId, replyMsg.destination⟩ then
      Prog.when (!replyMsg.needsAck) (markDelivered messageId)
    else rollBackReply replyMsg messageId s) fun _ ↦ rollBack messageId s

def replyHandler (msg : Message) : Program Unit := do
  match ← accepting (acceptReply msg) with
  | none => pure ()
  | some (messageId, replyMsg) =>
    let session ← findSession replyMsg.destination
    holding session do
      let online ← isOnlineSession session
      match session with
      | none => pure ()
      | some s => Prog.when online (sendReply replyMsg messageId s)

def ackNotification (ackSender originalSender : Bytes) (correlationId : UInt64) : Message :=
  { type := .ack, sender := ackSender, destination := originalSender, correlationId }

def notifySender (notification : Message) (session : Option ℕ) : Program Unit := do
  let online ← isOnlineSession session
  match session, online with
  | some s, true => do
    let _ ← sendMessage s ⟨notification, none, notification.destination⟩
  | _, _ => do
    let _ ← saveMessage ⟨notification, none, notification.destination⟩

def acknowledge (msg : Message) (originalSender : Bytes) (messageId : ℕ) : Program Unit := do
  markDelivered messageId
  perform (.markAckReceived messageId msg.sender)
  perform (.increment .acksReceived)
  if originalSender ≠ [] then
    let session ← findSession originalSender
    holding session
      (notifySender (ackNotification msg.sender originalSender msg.correlationId) session)

/-- The message an ACK refers to: by correlation id, and only when that finds
nothing by correlation id and destination. Zero stands for none. -/
def findAcknowledged (msg : Message) : Program ℕ := do
  let messageId ← perform (.findMessageIdByCorrelation msg.correlationId)
  if messageId = 0 then
    perform (.findMessageIdByCorrelationAndDestination msg.correlationId msg.sender)
  else return messageId

def ackHandler (msg : Message) : Program Unit := do
  if msg.correlationId ≠ 0 then
    let originalSender ← perform (.findOriginalSenderByCorrelation msg.correlationId)
    let messageId ← findAcknowledged msg
    if messageId ≠ 0 then
      Prog.when (← perform (.needsAck messageId)) (acknowledge msg originalSender messageId)

def unregisterHandler (msg : Message) : Program Unit := do
  let session ← findSession msg.sender
  holding session do
    match session with
    | none => pure ()
    | some s =>
      persistQueueToDatabase s
      perform (.markOffline s)
      unregisterClient msg.sender

def handle (msg : Message) (identity : Bytes) : Program Unit :=
  match msg.type with
  | .register => registerHandler msg identity
  | .message => messageHandler msg
  | .reply => replyHandler msg
  | .ack => ackHandler msg
  | .unregister => unregisterHandler msg
  | .unknown _ _ => pure ()

/-- The session registered for an identity, whose last-receive time is renewed. -/
def touchSession (identity : Bytes) : Program (Option ℕ) :=
  withRegistryLock do
    match ← perform (.findName identity) with
    | none => return none
    | some name =>
      match ← perform (.findClient name) with
      | none => return none
      | some s =>
        perform (.updateLastReceive s)
        return some s

def routeMessage (msg : Message) (identity : Bytes) : Program Unit := do
  let session ← touchSession identity
  holding session (handle msg identity)

end MessageBroker.MessageHandlers
