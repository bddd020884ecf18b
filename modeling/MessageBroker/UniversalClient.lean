import MessageBroker.NumberTexts
import MessageBroker.OrderedSelection
import MessageBroker.ThreadPools
import MessageBroker.WireMessages
import Mathlib.Data.List.AList

namespace MessageBroker.UniversalClient

open ByteStrings WireMessages NumberTexts OrderedSelection ProgramTrees ThreadPools

/-- The client's own encoder. It checks the names, and cuts the length of the
payload to 16 bits. -/
def serialize (m : Message) : Except String Bytes :=
  if 255 < m.sender.length ∨ 255 < m.destination.length then .error "Name too long"
  else
    let netCorr := hostToNetwork64 m.correlationId
    let netPayloadLen := hostToNetwork16 (.ofNat m.payload.length)
    .ok ([protocolVersion, m.type.toByte, m.flags] ++ toMemory 8 netCorr.toNat
      ++ [.ofNat m.sender.length, .ofNat m.destination.length]
      ++ toMemory 2 netPayloadLen.toNat
      ++ m.sender ++ m.destination ++ m.payload)

def deserialize (data : Bytes) : Except String Message :=
  if data.length < headerSize then .error "Message too short"
  else
    let version := data.getD 0 0
    if version ≠ protocolVersion then .error "Wrong protocol version"
    else
      let netCorr := UInt64.ofNat (ofMemory (slice data 3 8))
      let senderLen := (data.getD 11 0).toNat
      let destLen := (data.getD 12 0).toNat
      let netPayloadLen := UInt16.ofNat (ofMemory (slice data 13 2))
      let payloadLen := (networkToHost16 netPayloadLen).toNat
      if data.length ≠ headerSize + senderLen + destLen + payloadLen then
        .error "Message size mismatch"
      else
        let pos := headerSize
        .ok {
          type := .ofByte (data.getD 1 0)
          flags := data.getD 2 0
          correlationId := networkToHost64 netCorr
          sender := slice data pos senderLen
          destination := slice data (pos + senderLen) destLen
          payload := slice data (pos + senderLen + destLen) payloadLen }

inductive Report
  | registered (name : Bytes)
  | unregistered
  | sent (m : Message)
  | sentReply (m : Message)
  | sentManualReply (m : Message)
  | sentAck (correlationId : UInt64)
  | message (m : Message)
  | reply (m : Message)
  | ack (m : Message)
  | help
  | status (name : Bytes) (pendingRequests : List (UInt64 × Bytes))
  | usage (command : String)
  | unknownCommand (cmd : Bytes)
  | error (what : String)
deriving DecidableEq

/-- The atomic operations: the socket, the random numbers, the pending requests
under their mutex, the terminal, and the life of the receiver thread. -/
inductive Op
  | send (data : Bytes)
  | receive
  | getline
  | generateCorrelationId
  | setPendingRequest (correlationId : UInt64) (dest : Bytes)
  | erasePendingRequest (correlationId : UInt64)
  | listPendingRequests
  | report (r : Report)
  | isRunning
  | stopRunning
  | startReceiver
  | endReceiver
  | joinReceiver
deriving DecidableEq

@[reducible] def Op.Res : Op → Type
  | send _ => Except String Unit
  | receive | getline => Option Bytes
  | generateCorrelationId => UInt64
  | listPendingRequests => List (UInt64 × Bytes)
  | isRunning => Bool
  | _ => Unit

abbrev Program := Prog Op Op.Res

abbrev perform (o : Op) : Program o.Res := Prog.perform o

def sendRawMessage (msg : Message) : Program Unit := do
  let data ← Prog.lift (serialize msg)
  Prog.lift (← perform (.send data))

def register (clientName : Bytes) : Program Unit := do
  sendRawMessage { type := .register, sender := clientName }
  perform (.report (.registered clientName))

def unregister (clientName : Bytes) : Program Unit := do
  sendRawMessage { type := .unregister, sender := clientName }
  perform (.report .unregistered)

def newMessage (clientName dest text : Bytes) (needsReply needsAck : Bool) (correlationId : UInt64) :
    Message where
  type := .message
  flags := (if needsReply then flagNeedsReply else flagNone) ||| if needsAck then flagNeedsAck else flagNone
  correlationId := correlationId
  sender := clientName
  destination := dest
  payload := text

/-- A request is remembered before it is sent. -/
def sendMessage (clientName dest text : Bytes) (needsReply needsAck : Bool) : Program Unit := do
  let correlationId ← perform .generateCorrelationId
  let msg := newMessage clientName dest text needsReply needsAck correlationId
  Prog.when needsReply (perform (.setPendingRequest correlationId dest))
  sendRawMessage msg
  perform (.report (.sent msg))

def replyTo (clientName : Bytes) (original : Message) (text : Bytes) : Message :=
  { type := .reply, sender := clientName, destination := original.sender,
    correlationId := original.correlationId, payload := text }

def sendReply (clientName : Bytes) (original : Message) (text : Bytes) : Program Unit := do
  sendRawMessage (replyTo clientName original text)
  perform (.report (.sentReply (replyTo clientName original text)))

/-- A reply that the user writes names no destination. -/
def manualReply (clientName : Bytes) (correlationId : UInt64) (text : Bytes) : Message :=
  { type := .reply, sender := clientName, correlationId, payload := text }

def sendManualReply (clientName : Bytes) (correlationId : UInt64) (text : Bytes) : Program Unit := do
  sendRawMessage (manualReply clientName correlationId text)
  perform (.report (.sentManualReply (manualReply clientName correlationId text)))

def ackOf (clientName : Bytes) (correlationId : UInt64) (originalSender : Bytes) : Message :=
  { type := .ack, sender := clientName, destination := originalSender, correlationId }

def sendAck (clientName : Bytes) (correlationId : UInt64) (originalSender : Bytes) : Program Unit := do
  sendRawMessage (ackOf clientName correlationId originalSender)
  perform (.report (.sentAck correlationId))

def autoReply (m : Message) : Bytes := ascii "Auto-reply to: " ++ m.payload

def handleMessage (clientName : Bytes) (msg : Message) : Program Unit :=
  match msg.type with
  | .message => do
    perform (.report (.message msg))
    Prog.when msg.needsAck (sendAck clientName msg.correlationId msg.sender)
    Prog.when msg.needsReply (sendReply clientName msg (autoReply msg))
  | .reply => do
    perform (.report (.reply msg))
    perform (.erasePendingRequest msg.correlationId)
  | .ack => perform (.report (.ack msg))
  | _ => pure ()

/-- The body of the receiver loop for one frame. The delimiter is skipped, and
an exception ends the handling of its frame only. -/
def receiveFrame (clientName data : Bytes) : Program Unit :=
  if data = [] then pure ()
  else Prog.recover (do
    let msg ← Prog.lift (deserialize data)
    handleMessage clientName msg) fun _ ↦ pure ()

/-- The first rounds of the receiver thread. -/
def receiverLoop (clientName : Bytes) : ℕ → Program Unit
  | 0 => pure ()
  | n + 1 => do
    if ← perform .isRunning then
      match ← perform .receive with
      | none => receiverLoop clientName n
      | some data =>
        receiveFrame clientName data
        receiverLoop clientName n
    else perform .endReceiver

/-- The extraction of a word from a stream, with what is left of it. -/
def readWord (s : Bytes) : Bytes × Bytes :=
  let t := s.dropWhile isSpace
  (t.takeWhile (!isSpace ·), t.dropWhile (!isSpace ·))

def arguments (rest : Bytes) : Option (Bytes × Bytes) :=
  let (dest, rest) := readWord rest
  let message := rest.takeWhile (· ≠ 10)
  if dest ≠ [] ∧ message ≠ [] then some (dest, message.drop 1) else none

/-- The conversion of a text to a correlation id throws with this text alone. -/
def stoull (s : Bytes) : Except String UInt64 :=
  match toUnsigned64 s with
  | .ok n => .ok n
  | .error _ => .error "stoull"

def showStatus (clientName : Bytes) : Program Unit := do
  let pendingRequests ← perform .listPendingRequests
  perform (.report (.status clientName pendingRequests))

def sendCommand (clientName rest : Bytes) (command : String) (needsReply needsAck : Bool) : Program Unit :=
  match arguments rest with
  | some (dest, message) => sendMessage clientName dest message needsReply needsAck
  | none => perform (.report (.usage command))

def processCommand (clientName line : Bytes) : Program Unit :=
  let (cmd, rest) := readWord line
  if cmd = ascii "send" then sendCommand clientName rest "send" false false
  else if cmd = ascii "send_ack" then sendCommand clientName rest "send_ack" false true
  else if cmd = ascii "request" then sendCommand clientName rest "request" true false
  else if cmd = ascii "reply" then
    match arguments rest with
    | some (corrIdStr, message) => do
      let corrId ← Prog.lift (stoull corrIdStr)
      sendManualReply clientName corrId message
    | none => perform (.report (.usage "reply"))
  else if cmd = ascii "status" then showStatus clientName
  else if cmd = ascii "help" then perform (.report .help)
  else if cmd = ascii "quit" ∨ cmd = ascii "exit" then perform .stopRunning
  else perform (.report (.unknownCommand cmd))

/-- The loop over the lines of the standard input: one round for each line and
one for the end of the input. -/
def inputLoop (clientName : Bytes) : ℕ → Program Unit
  | 0 => pure ()
  | n + 1 => do
    if ← perform .isRunning then
      match ← perform .getline with
      | none => pure ()
      | some line =>
        if line = [] then inputLoop clientName n
        else
          processCommand clientName line
          inputLoop clientName n
    else pure ()

def run (clientName : Bytes) (rounds : ℕ) : Program Unit := do
  register clientName
  perform .startReceiver
  perform (.report .help)
  inputLoop clientName rounds
  unregister clientName

def stop : Program Unit := do
  perform .stopRunning
  perform .joinReceiver

/-- The client is destroyed before its exception is reported. -/
def main (clientName : Bytes) (rounds : ℕ) : Program Unit :=
  ((run clientName rounds).ensuring stop).recover fun e ↦ perform (.report (.error e))

inductive Receiver
  | absent
  | created
  | running
  | ended
deriving DecidableEq

structure Event where
  op : Op
  res : op.Res

structure World where
  input : List Bytes := []
  pendingRequests : AList (fun _ : UInt64 ↦ Bytes) := ∅
  running : Bool := true
  started : Bool := false
  receiver : Receiver := .absent
  log : List Event := []

/-- What the environment decides about one operation: the frame that the socket
yields, the error that a send meets, the next random number, and the order in
which the pending requests are listed. -/
structure Choice where
  frame : Option Bytes := none
  fault : Option String := none
  random : UInt64 := 0
  tie : UInt64 → ℕ := UInt64.toNat

/-- The effect of one operation. The receiver is joined once it has ended. -/
def effect (ch : Choice) : (o : Op) → World → Option (o.Res × World)
  | .send _, w => some (ch.fault.elim (.ok ()) .error, w)
  | .receive, w => some (ch.frame, w)
  | .getline, w => some (w.input.head?, { w with input := w.input.tail })
  | .generateCorrelationId, w => some (ch.random, w)
  | .setPendingRequest id dest, w => some ((), { w with pendingRequests := w.pendingRequests.insert id dest })
  | .erasePendingRequest id, w => some ((), { w with pendingRequests := w.pendingRequests.erase id })
  | .listPendingRequests, w =>
    some ((orderBy (fun _ ↦ 0) (fun e ↦ ch.tie e.1) w.pendingRequests.entries).map fun e ↦ (e.1, e.2), w)
  | .report _, w => some ((), w)
  | .isRunning, w => some (w.running, w)
  | .stopRunning, w => some ((), { w with running := false })
  | .startReceiver, w => some ((), { w with receiver := .created })
  | .endReceiver, w => some ((), { w with receiver := .ended })
  | .joinReceiver, w => if w.receiver = .absent ∨ w.receiver = .ended then some ((), w) else none

def exec (o : Op) (ch : Choice) (w : World) : Option (o.Res × World) :=
  (effect ch o w).map fun r ↦ (r.1, { r.2 with log := ⟨o, r.1⟩ :: r.2.log })

/-- The main thread with the lines of its input, and the receiver thread. -/
inductive Job
  | main (lines : List Bytes)
  | receiver (rounds : ℕ)

def start : Job → World → Option World
  | .main lines, w => if w.started then none else some { w with started := true, input := lines }
  | .receiver _, w => if w.receiver = .created then some { w with receiver := .running } else none

def code (clientName : Bytes) : Job → Program Unit
  | .main lines => main clientName (lines.length + 1)
  | .receiver rounds => receiverLoop clientName rounds

def client (clientName : Bytes) : Machine Op Op.Res World Job Choice Unit where
  exec _ _ := exec
  start := start
  code := code clientName
  tick _ w := w

end MessageBroker.UniversalClient
