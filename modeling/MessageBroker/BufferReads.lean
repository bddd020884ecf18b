import MessageBroker.WireCodec
import MessageBroker.SequentialRuns

namespace MessageBroker.BufferReads

open ByteStrings WireMessages WireCodec ProgramTrees SequentialRuns

/-- How `Deserialize` reads the vector: one element, the bytes from the address
of an element on, or the elements between two iterators. -/
inductive Read
  | element (k : ℕ)
  | bytes (k n : ℕ)
  | range (first last : ℕ)
deriving DecidableEq

@[reducible] def Read.Res : Read → Type
  | element _ => UInt8
  | bytes _ _ | range _ _ => Bytes

def Read.value (data : Bytes) : (o : Read) → o.Res
  | .element k => data.getD k 0
  | .bytes k n => slice data k n
  | .range first last => slice data first (last - first)

abbrev Reader := Prog Read Read.Res

def read (o : Read) : Reader o.Res := Prog.perform o

/-- The part of `Deserialize` that follows the check of the size. -/
def readFields (type flags : UInt8) (netCorr : UInt64) (senderLen destLen payloadLen : ℕ) : Reader Message := do
  let pos := headerSize
  let sender ← read (.bytes pos senderLen)
  let pos := pos + senderLen
  let destination ← read (.bytes pos destLen)
  let pos := pos + destLen
  let payload ← read (.range pos (pos + payloadLen))
  return {
    type := .ofByte type
    flags
    correlationId := networkToHost64 netCorr
    sender
    destination
    payload }

def readHeader (size : ℕ) : Reader Message := do
  let type ← read (.element 1)
  let flags ← read (.element 2)
  let netCorr := UInt64.ofNat (ofMemory (← read (.bytes 3 8)))
  let senderLen ← read (.element 11)
  let destLen ← read (.element 12)
  let netPayloadLen := UInt16.ofNat (ofMemory (← read (.bytes 13 2)))
  let payloadLen := (networkToHost16 netPayloadLen).toNat
  if size ≠ headerSize + senderLen.toNat + destLen.toNat + payloadLen then .fail "Message size mismatch"
  else readFields type flags netCorr senderLen.toNat destLen.toNat payloadLen

/-- `Deserialize` with every access to the vector as an operation of its own. -/
def deserializeReads (size : ℕ) : Reader Message :=
  if size < headerSize then .fail "Message too short"
  else do
    let version ← read (.element 0)
    if version ≠ protocolVersion then .fail ("Unsupported protocol version: " ++ toString version.toNat)
    else readHeader size

/-- Read from the vector, and note what is read. -/
def observe (data : Bytes) (o : Read) (log : List Read) : Option (o.Res × List Read) :=
  some (o.value data, log ++ [o])

def reads (data : Bytes) : List Read :=
  ((interp (observe data) (deserializeReads data.length) []).map (·.2)).getD []

/-- An element that is accessed is there, also when only its address is taken,
and so are the bytes that are copied from there. -/
def Read.InBounds (size : ℕ) : Read → Prop
  | .element k => k < size
  | .bytes k n => k < size ∧ k + n ≤ size
  | .range first last => first ≤ last ∧ last ≤ size

instance (size : ℕ) : (o : Read) → Decidable (o.InBounds size)
  | .element k => inferInstanceAs (Decidable (k < size))
  | .bytes k n => inferInstanceAs (Decidable (k < size ∧ k + n ≤ size))
  | .range first last => inferInstanceAs (Decidable (first ≤ last ∧ last ≤ size))

/-- The payload length that the header gives. -/
def payloadLength (data : Bytes) : ℕ := (networkToHost16 (.ofNat (ofMemory (slice data 13 2)))).toNat

/-- The vector is a message that ends with the name of its sender. -/
def EndsWithSender (data : Bytes) : Prop :=
  data.getD 0 0 = protocolVersion ∧ data.length = headerSize + (data.getD 11 0).toNat ∧
    data.getD 12 0 = 0 ∧ payloadLength data = 0

instance (data : Bytes) : Decidable (EndsWithSender data) := by
  unfold EndsWithSender
  infer_instance

variable {data : Bytes} {log : List Read}

def headerReads : List Read :=
  [.element 0, .element 1, .element 2, .bytes 3 8, .element 11, .element 12, .bytes 13 2]

def fieldReads (senderLen destLen payloadLen : ℕ) : List Read :=
  [.bytes headerSize senderLen, .bytes (headerSize + senderLen) destLen,
    .range (headerSize + senderLen + destLen) (headerSize + senderLen + destLen + payloadLen)]

theorem interp_readFields (type flags : UInt8) (netCorr : UInt64) (senderLen destLen payloadLen : ℕ) :
    interp (observe data) (readFields type flags netCorr senderLen destLen payloadLen) log =
      some (.ok {
        type := .ofByte type
        flags
        correlationId := networkToHost64 netCorr
        sender := slice data headerSize senderLen
        destination := slice data (headerSize + senderLen) destLen
        payload := slice data (headerSize + senderLen + destLen) payloadLen },
      log ++ fieldReads senderLen destLen payloadLen) := by
  have hpayload : (Read.range (headerSize + senderLen + destLen)
    (headerSize + senderLen + destLen + payloadLen)).value
      data = slice data (headerSize + senderLen + destLen) payloadLen := by
    rw [Read.value, Nat.add_sub_cancel_left]
  rw [← hpayload, fieldReads, List.append_cons, List.append_cons]
  rfl

/-- The reads on each way through `Deserialize`, and that it computes `deserialize`. -/
theorem interp_deserializeReads (data : Bytes) :
    interp (observe data) (deserializeReads data.length) [] = some (deserialize data,
      if data.length < headerSize then []
      else if data.getD 0 0 ≠ protocolVersion then [.element 0]
      else if data.length ≠ headerSize + (data.getD 11 0).toNat +
        (data.getD 12 0).toNat + payloadLength data then
        headerReads
      else headerReads ++ fieldReads (data.getD 11 0).toNat (data.getD 12 0).toNat (payloadLength data)) := by
  unfold deserializeReads deserialize
  by_cases hshort : data.length < headerSize
  · rw [if_pos hshort, if_pos hshort, if_pos hshort]
    rfl
  rw [if_neg hshort, if_neg hshort, if_neg hshort]
  change interp (observe data) (if data.getD 0 0 ≠ protocolVersion then _ else readHeader data.length)
    [.element 0] = _
  by_cases hversion : data.getD 0 0 ≠ protocolVersion
  · simp only [if_pos hversion]
    rfl
  simp only [if_neg hversion]
  change interp (observe data) (if data.length ≠ headerSize + (data.getD 11 0).toNat + (data.getD 12 0).toNat +
    payloadLength data then _ else _) headerReads = some (if data.length ≠ headerSize + (data.getD 11 0).toNat +
      (data.getD 12 0).toNat + payloadLength data then _ else _, _)
  by_cases hsize : data.length ≠ headerSize + (data.getD 11 0).toNat +
    (data.getD 12 0).toNat + payloadLength data
  · simp only [if_pos hsize]
    rfl
  · simp only [if_neg hsize]
    exact interp_readFields ..

theorem reads_eq (data : Bytes) : reads data =
    if data.length < headerSize then []
    else if data.getD 0 0 ≠ protocolVersion then [.element 0]
    else if data.length ≠ headerSize + (data.getD 11 0).toNat + (data.getD 12 0).toNat + payloadLength data then
      headerReads
    else headerReads ++ fieldReads (data.getD 11 0).toNat (data.getD 12 0).toNat (payloadLength data) := by
  rw [reads, interp_deserializeReads]
  rfl

theorem headerReads_inBounds {size : ℕ} (h : headerSize ≤ size) : ∀ o ∈ headerReads, o.InBounds size := by
  unfold headerSize at h
  simp only [headerReads, List.forall_mem_cons, Read.InBounds]
  refine ⟨?_, ?_, ?_, ?_, ?_, ?_, ?_, fun _ ho ↦ absurd ho List.not_mem_nil⟩ <;> omega

/-- With no byte behind the sender the address of the destination is that of an
element past the end. -/
theorem fieldReads_inBounds_iff {size s d p : ℕ} (h : size = headerSize + s + d + p) :
    (∀ o ∈ fieldReads s d p, o.InBounds size) ↔ 0 < d + p := by
  simp only [fieldReads, List.forall_mem_cons, Read.InBounds, List.not_mem_nil, false_imp_iff, implies_true,
    and_true]
  omega

/-- `Deserialize` stays within the vector exactly on those that are no message
ending with the name of its sender. -/
theorem reads_in_bounds_iff (data : Bytes) :
    (∀ o ∈ reads data, o.InBounds data.length) ↔ ¬ EndsWithSender data := by
  have hzero : (data.getD 12 0).toNat = 0 ↔ data.getD 12 0 = 0 := by rw [← UInt8.toNat_inj]; rfl
  rw [reads_eq]
  by_cases hshort : data.length < headerSize
  · rw [if_pos hshort]
    refine iff_of_true (fun _ ho ↦ absurd ho List.not_mem_nil) ?_
    rintro ⟨-, hlen, -⟩
    omega
  rw [if_neg hshort]
  have hheader := headerReads_inBounds (Nat.le_of_not_lt hshort)
  by_cases hversion : data.getD 0 0 ≠ protocolVersion
  · rw [if_pos hversion]
    refine iff_of_true (fun o ho ↦ hheader o ?_) fun h ↦ hversion h.1
    rw [List.mem_singleton.mp ho]
    exact List.mem_cons_self ..
  rw [if_neg hversion]
  by_cases hsize : data.length ≠ headerSize + (data.getD 11 0).toNat +
    (data.getD 12 0).toNat + payloadLength data
  · rw [if_pos hsize]
    refine iff_of_true hheader ?_
    rintro ⟨-, hlen, hdest, hpayload⟩
    rw [hdest, hpayload] at hsize
    exact hsize hlen
  · rw [if_neg hsize, List.forall_mem_append, fieldReads_inBounds_iff (not_not.mp hsize)]
    constructor
    · rintro ⟨-, hpos⟩ ⟨-, -, hdest, hpayload⟩
      rw [hdest, hpayload] at hpos
      exact absurd hpos (Nat.lt_irrefl 0)
    · intro hends
      refine ⟨hheader, Nat.pos_of_ne_zero fun hnone ↦ hends ?_⟩
      obtain ⟨hdest, hpayload⟩ := Nat.add_eq_zero_iff.mp hnone
      exact ⟨not_not.mp hversion, by omega, hzero.mp hdest, hpayload⟩

/-- The registration of a client: an empty destination and an empty payload. -/
theorem registration_out_of_bounds : ¬ ∀ data, ∀ o ∈ reads data, o.InBounds data.length := by
  intro h
  have hreg := h ([1, 1, 0] ++ List.replicate 8 0 ++ [1, 0] ++ [0, 0] ++ [98]) (.bytes 16 0) (by decide)
  exact absurd hreg (by decide)

end MessageBroker.BufferReads
