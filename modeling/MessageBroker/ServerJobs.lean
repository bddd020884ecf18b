import MessageBroker.MessageHandlers

namespace MessageBroker.ServerJobs

open ByteStrings WireMessages MessageStore ProgramTrees ThreadPools BrokerState SessionQueues
  ClientRegistry MessageHandlers

/-- The send of one part failed: the callback is told, and only the exception
path and a failed data part reach the counters. -/
def failSend (send : PendingSend) (counted : Bool) : Program Unit := do
  perform (.callback send false)
  Prog.when counted (perform (.increment .messagesFailed))

def sendData (send : PendingSend) : Program Unit := do
  match ← perform (.sendFrame send .data) with
  | .accepted =>
    perform (.callback send true)
    perform (.increment .messagesSent)
  | _ => failSend send true

def sendDelimiter (send : PendingSend) : Program Unit := do
  match ← perform (.sendFrame send .delimiter) with
  | .accepted => sendData send
  | .wouldBlock => failSend send false
  | .error => failSend send true

def sendIdentity (send : PendingSend) : Program Unit := do
  match ← perform (.sendFrame send .identity) with
  | .accepted => sendDelimiter send
  | .wouldBlock => failSend send false
  | .error => failSend send true

def sendLoop : ℕ → Program Unit
  | 0 => pure ()
  | n + 1 => do
    match ← perform .frontSend with
    | none => pure ()
    | some send =>
      sendIdentity send
      perform .popSend
      sendLoop n

def processPendingSends : Program Unit := do
  let size ← perform .takePendingSends
  if size ≠ 0 then
    sendLoop size
    perform .finishSends
    perform .updateQueueMetrics

/-- The body of the receive loop for one message. -/
def receive (identity data : Bytes) : Program Unit :=
  Prog.recover (do
    perform (.increment .messagesReceived)
    let msg ← Prog.lift (deserialize data)
    routeMessage msg identity) fun _ ↦ perform (.increment .messagesFailed)

/-- The task that `scheduleSendProcessing` posts. -/
def sendTask : Program Unit := do
  if ← perform .isSending then pure () else processPendingSends

/-- An exception that leaves a timer callback ends the process. -/
def timer (p : Program Unit) : Program Unit :=
  p.recover fun _ ↦ perform .terminate

def code (cfg : Config) : Job → Program Unit
  | .receive identity data => receive identity data
  | .cleanupInactiveSessions => timer (cleanupInactiveSessions cfg)
  | .checkExpiredAcks => timer (checkExpiredAcks cfg)
  | .processPendingSends => processPendingSends
  | .sendTask => sendTask

/-- The wall clock may be set at will; the steady clock only advances. -/
structure Tick where
  wallClock : ℤ
  elapsed : ℕ

def start : Job → World → Option World
  | .sendTask, w =>
    if w.postedTasks = 0 then none else some { w with postedTasks := w.postedTasks - 1 }
  | _, w => some w

def tick (t : Tick) (w : World) : World :=
  { w with wallClock := t.wallClock, steadyClock := w.steadyClock + t.elapsed }

def broker (cfg : Config) : Machine Op Op.Res World Job Choice Tick where
  exec := exec
  start := start
  code := code cfg
  tick := tick

def initial (metrics : Option Metrics) : World := { metrics }

end MessageBroker.ServerJobs
