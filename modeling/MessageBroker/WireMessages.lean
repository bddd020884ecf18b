import MessageBroker.ByteStrings

namespace MessageBroker.WireMessages

open ByteStrings

/-- Any byte is a value of the enumeration; five of them have names. -/
inductive MessageType
  | register
  | message
  | reply
  | ack
  | unregister
  | unknown (code : UInt8) (h : code = 0 ∨ 5 < code)
deriving DecidableEq

def MessageType.toByte : MessageType → UInt8
  | .register => 1
  | .message => 2
  | .reply => 3
  | .ack => 4
  | .unregister => 5
  | .unknown code _ => code

def MessageType.ofByte (b : UInt8) : MessageType :=
  if b = 1 then .register
  else if b = 2 then .message
  else if b = 3 then .reply
  else if b = 4 then .ack
  else if b = 5 then .unregister
  else if h : b = 0 ∨ 5 < b then .unknown b h
  else .unregister

def flagNone : UInt8 := 0
def flagNeedsReply : UInt8 := 1
def flagNeedsAck : UInt8 := 2

structure Message where
  type : MessageType := .message
  flags : UInt8 := flagNone
  correlationId : UInt64 := 0
  sender : Bytes := []
  destination : Bytes := []
  payload : Bytes := []
deriving DecidableEq

namespace Message

def hasFlag (m : Message) (flag : UInt8) : Bool := m.flags &&& flag != 0
def needsReply (m : Message) : Bool := m.hasFlag flagNeedsReply
def needsAck (m : Message) : Bool := m.hasFlag flagNeedsAck

end Message

def protocolVersion : UInt8 := 1
def headerSize : ℕ := 15

def hostToNetwork64 (host : UInt64) : UInt64 := .ofNat (byteSwap 8 host.toNat)
def networkToHost64 (net : UInt64) : UInt64 := .ofNat (byteSwap 8 net.toNat)
def hostToNetwork16 (host : UInt16) : UInt16 := .ofNat (byteSwap 2 host.toNat)
def networkToHost16 (net : UInt16) : UInt16 := .ofNat (byteSwap 2 net.toNat)

def serialize (m : Message) : Except String Bytes :=
  if 255 < m.sender.length then .error "Sender name too long (max 255 bytes)"
  else if 255 < m.destination.length then .error "Destination name too long (max 255 bytes)"
  else if 65535 < m.payload.length then .error "Payload too large (max 65535 bytes)"
  else
    let netCorr := hostToNetwork64 m.correlationId
    let netPayloadLen := hostToNetwork16 (.ofNat m.payload.length)
    .ok ([protocolVersion, m.type.toByte, m.flags] ++ toMemory 8 netCorr.toNat
      ++ [.ofNat m.sender.length, .ofNat m.destination.length]
      ++ toMemory 2 netPayloadLen.toNat
      ++ m.sender ++ m.destination ++ m.payload)

/-- The `n` bytes of `data` from `pos` on. -/
def slice (data : Bytes) (pos n : ℕ) : Bytes := (data.drop pos).take n

def deserialize (data : Bytes) : Except String Message :=
  if data.length < headerSize then .error "Message too short"
  else
    let version := data.getD 0 0
    if version ≠ protocolVersion then
      .error ("Unsupported protocol version: " ++ toString version.toNat)
    else
      let netCorr := UInt64.ofNat (ofMemory (slice data 3 8))
      let senderLen := (data.getD 11 0).toNat
      let destLen := (data.getD 12 0).toNat
      let netPayloadLen := UInt16.ofNat (ofMemory (slice data 13 2))
      let payloadLen := (networkToHost16 netPayloadLen).toNat
      if data.length ≠ headerSize + senderLen + destLen + payloadLen then
        .error "Message size mismatch"
      else
        let pos := headerSize
        .ok {
          type := .ofByte (data.getD 1 0)
          flags := data.getD 2 0
          correlationId := networkToHost64 netCorr
          sender := slice data pos senderLen
          destination := slice data (pos + senderLen) destLen
          payload := slice data (pos + senderLen + destLen) payloadLen }

/-- The limits that `serialize` checks. -/
def Message.Fits (m : Message) : Prop :=
  m.sender.length ≤ 255 ∧ m.destination.length ≤ 255 ∧ m.payload.length ≤ 65535

instance (m : Message) : Decidable m.Fits := by
  unfold Message.Fits
  infer_instance

theorem MessageType.ofByte_unknown (code : UInt8) (h : code = 0 ∨ 5 < code) :
    ofByte code = .unknown code h := by
  have hne : ∀ n : UInt8, 0 < n → n ≤ 5 → code ≠ n := by
    rintro n hn hn' rfl
    rcases h with rfl | h
    · exact absurd hn (by decide)
    · exact absurd h (UInt8.not_lt.mpr hn')
  unfold ofByte
  rw [if_neg (hne 1 (by decide) (by decide)), if_neg (hne 2 (by decide) (by decide)),
    if_neg (hne 3 (by decide) (by decide)), if_neg (hne 4 (by decide) (by decide)),
    if_neg (hne 5 (by decide) (by decide)), dif_pos h]

@[simp] theorem MessageType.ofByte_toByte (t : MessageType) : ofByte t.toByte = t := by
  cases t with
  | unknown code h => exact ofByte_unknown code h
  | _ => rfl

@[simp] theorem MessageType.toByte_ofByte (b : UInt8) : (ofByte b).toByte = b := by
  unfold ofByte
  split_ifs with h1 h2 h3 h4 h5 h
  all_goals first | (simp only [toByte]; exact Eq.symm ‹_›) | rfl | skip
  exfalso
  simp only [← UInt8.toNat_inj, UInt8.lt_iff_toNat_lt] at h1 h2 h3 h4 h5 h
  simp at h1 h2 h3 h4 h5 h
  omega

end MessageBroker.WireMessages
