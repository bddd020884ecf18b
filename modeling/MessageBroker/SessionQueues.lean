import MessageBroker.BrokerState

namespace MessageBroker.SessionQueues

open ByteStrings WireMessages MessageStore ProgramTrees BrokerState

abbrev Program := Prog Op Op.Res

def perform (o : Op) : Program o.Res := Prog.perform o

def saveMessage (c : Copy) : Program ℕ := do
  Prog.lift (← perform (.saveMessage c))

def saveCorrelation (messageId : ℕ) (correlationId : UInt64) (originalSender : Bytes) :
    Program Unit := do
  Prog.lift (← perform (.saveCorrelation messageId correlationId originalSender))

def markDelivered (messageId : ℕ) : Program Unit := do
  Prog.lift (← perform (.markDelivered messageId))

def markSent (messageId : ℕ) : Program Unit := do
  Prog.lift (← perform (.markSent messageId))

def markPending (messageId : ℕ) : Program Unit := do
  Prog.lift (← perform (.markPending messageId))

def withQueueLock {α : Type} (s : ℕ) (p : Program α) : Program α := do
  perform (.lockQueue s)
  p.ensuring (perform (.unlockQueue s))

/-- The persist callback of a session: the router saves the message under the
name of the session. -/
def persistMessageForClient (name : Bytes) (c : Copy) : Program Unit := do
  let _ ← saveMessage { c with msg := { c.msg with destination := name } }

def persistFront (s : ℕ) (c : Copy) : Program Unit := do
  persistMessageForClient (← perform (.nameOf s)) c
  perform (.popQueue s)

/-- At most `n` turns of a loop that persists the front of the queue and removes it. -/
def persistLoop (s : ℕ) : ℕ → Program Unit
  | 0 => pure ()
  | n + 1 => do
    match ← perform (.queueFront s) with
    | none => pure ()
    | some c =>
      persistFront s c
      persistLoop s n

def persistQueueToDatabase (s : ℕ) : Program Unit :=
  withQueueLock s do
    persistLoop s (← perform (.queueSize s))

def queuePersistThreshold : ℕ := 100

def enqueueMessage (s : ℕ) (c : Copy) : Program Unit :=
  withQueueLock s do
    perform (.pushQueue s c)
    let size ← perform (.queueSize s)
    Prog.when (queuePersistThreshold < size) (persistLoop s (size / 2))

def sendToClient (s : ℕ) (c : Copy) (data : Bytes) : Program Unit := do
  perform (.pushPendingSend s c data)
  perform .postSendTask

def sendZmqMessage (s : ℕ) (c : Copy) : Program Unit :=
  try
    let data ← Prog.lift (serialize c.msg)
    sendToClient s c data
  catch _ => perform (.markOffline s)

/-- A session that is offline queues the message; both ways report success. -/
def sendMessage (s : ℕ) (c : Copy) : Program Bool := do
  perform (.updateLastActivity s)
  let online ← perform (.isOnline s)
  cond online (sendZmqMessage s c) (enqueueMessage s c)
  return true

def flushLoop (s : ℕ) : ℕ → Program Unit
  | 0 => pure ()
  | n + 1 => do
    match ← perform (.queueFront s) with
    | none => pure ()
    | some c =>
      if ← perform (.isOnline s) then
        perform (.popQueue s)
        sendZmqMessage s c
        flushLoop s n

def flushQueue (s : ℕ) : Program Unit :=
  withQueueLock s do
    flushLoop s (← perform (.queueSize s))

/-- The destructor. An exception that leaves a destructor ends the process. -/
def destroy (s : ℕ) : Program Unit := do
  (persistQueueToDatabase s).recover fun _ ↦ perform .terminate
  perform (.destroySession s)

def dropSession (s : ℕ) : Program Unit := do
  Prog.when (← perform (.release s)) (destroy s)

/-- Run `p` while a local variable holds the pointer, if any. -/
def holding {α : Type} (session : Option ℕ) (p : Program α) : Program α :=
  match session with
  | none => p
  | some s => p.ensuring (dropSession s)

end MessageBroker.SessionQueues
