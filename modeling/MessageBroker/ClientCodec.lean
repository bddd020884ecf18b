import MessageBroker.UniversalClient
import MessageBroker.WireCodec

namespace MessageBroker.ClientCodec

open ByteStrings WireMessages WireCodec

variable {m : Message} {data : Bytes}

/-- The names that the client's encoder accepts. -/
def NamesFit (m : Message) : Prop := m.sender.length ≤ 255 ∧ m.destination.length ≤ 255

theorem serialize_error (h : ¬ NamesFit m) : UniversalClient.serialize m = .error "Name too long" := by
  rw [UniversalClient.serialize, if_pos]
  unfold NamesFit at h
  omega

theorem serialize_frame (h : NamesFit m) :
    UniversalClient.serialize m = .ok (frame protocolVersion m.type.toByte m.flags
      (toMemory 8 (byteSwap 8 m.correlationId.toNat)) (.ofNat m.sender.length) (.ofNat m.destination.length)
      (toMemory 2 (byteSwap 2 (m.payload.length % 65536))) (m.sender ++ m.destination ++ m.payload)) := by
  obtain ⟨hs, hd⟩ := h
  have hpl : (UInt16.ofNat m.payload.length).toNat = m.payload.length % 65536 := UInt16.toNat_ofNat'
  rw [UniversalClient.serialize, if_neg (by omega)]
  simp only [hostToNetwork64_toNat, hostToNetwork16_toNat, hpl, frame, List.append_assoc]

theorem serialize_eq (h : m.Fits) : UniversalClient.serialize m = serialize m := by
  rw [serialize_frame ⟨h.1, h.2.1⟩, WireCodec.serialize_frame h, Nat.mod_eq_of_lt (Nat.lt_succ_of_le h.2.2)]

theorem deserialize_eq_ok : UniversalClient.deserialize data = .ok m ↔ deserialize data = .ok m := by
  unfold UniversalClient.deserialize deserialize
  split
  · exact ⟨nofun, nofun⟩
  · dsimp only
    split
    · exact ⟨nofun, nofun⟩
    · exact Iff.rfl

/-- A payload that is too long goes out under a length that its frame contradicts. -/
theorem deserialize_oversized (h : NamesFit m) (hp : 65535 < m.payload.length)
    (hs : UniversalClient.serialize m = .ok data) : deserialize data = .error "Message size mismatch" := by
  rw [serialize_frame h] at hs
  obtain rfl := Except.ok.inj hs
  obtain ⟨hsl, hdl⟩ := h
  have hlt : m.payload.length % 65536 < 256 ^ 2 := Nat.mod_lt _ (by decide)
  have hmod : m.payload.length % 65536 < m.payload.length := by omega
  have hs' : (UInt8.ofNat m.sender.length).toNat = m.sender.length := by
    rw [UInt8.toNat_ofNat', Nat.mod_eq_of_lt (by omega)]
  have hd' : (UInt8.ofNat m.destination.length).toNat = m.destination.length := by
    rw [UInt8.toNat_ofNat', Nat.mod_eq_of_lt (by omega)]
  rw [deserialize_frame (toMemory_length _ _) (toMemory_length _ _), hs', hd', bigEndian_toMemory_byteSwap hlt,
    if_neg (not_not.mpr rfl), if_pos]
  rw [List.length_append, List.length_append]
  omega

theorem namesFit_of_serialize (h : UniversalClient.serialize m = .ok data) : NamesFit m := by
  by_contra hn
  rw [serialize_error hn] at h
  cases h

theorem written_injective {m' : Message} (hs : UniversalClient.serialize m = .ok data)
    (hs' : UniversalClient.serialize m' = .ok data) : m = m' := by
  have hfit := namesFit_of_serialize hs
  have hfit' := namesFit_of_serialize hs'
  rw [serialize_frame hfit] at hs
  rw [serialize_frame hfit'] at hs'
  obtain ⟨⟨htype, hflags, hcorr⟩, hsl, hdl, hrest⟩ := frame_inj (toMemory_length _ _) (toMemory_length _ _)
    (toMemory_length _ _) (toMemory_length _ _) (Except.ok.inj (hs.trans hs'.symm))
  have length_inj {n n' : ℕ} (hn : n ≤ 255) (hn' : n' ≤ 255) (h : UInt8.ofNat n = .ofNat n') : n = n' := by
    have heq := congrArg UInt8.toNat h
    rwa [UInt8.toNat_ofNat', UInt8.toNat_ofNat', Nat.mod_eq_of_lt (by omega), Nat.mod_eq_of_lt (by omega)] at heq
  have hid : m.correlationId = m'.correlationId := by
    have heq := congrArg bigEndian hcorr
    rw [bigEndian_toMemory_byteSwap m.correlationId.toNat_lt,
      bigEndian_toMemory_byteSwap m'.correlationId.toNat_lt] at heq
    exact UInt64.toNat_inj.mp heq
  rw [List.append_assoc, List.append_assoc] at hrest
  obtain ⟨hsender, hrest⟩ := List.append_inj hrest (length_inj hfit.1 hfit'.1 hsl)
  obtain ⟨hdest, hpayload⟩ := List.append_inj hrest (length_inj hfit.2 hfit'.2 hdl)
  have htype' := congrArg MessageType.ofByte htype
  rw [MessageType.ofByte_toByte, MessageType.ofByte_toByte] at htype'
  cases m
  cases m'
  congr

theorem deserialize_written (hs : UniversalClient.serialize m = .ok data) :
    deserialize data = if m.payload.length ≤ 65535 then .ok m else .error "Message size mismatch" := by
  have hnames := namesFit_of_serialize hs
  split
  · next hp =>
    have hfits : m.Fits := ⟨hnames.1, hnames.2, hp⟩
    obtain ⟨data', hs', hd⟩ := deserialize_serialize hfits
    rw [serialize_eq hfits, hs'] at hs
    exact Except.ok.inj hs ▸ hd
  · next hp => exact deserialize_oversized hnames (not_le.mp hp) hs

theorem eq_of_written {m' : Message} (hs : UniversalClient.serialize m = .ok data)
    (hd : deserialize data = .ok m') :
    m' = m := by
  rw [deserialize_written hs] at hd
  split at hd
  · exact (Except.ok.inj hd).symm
  · cases hd

/-- What the broker has written is written the same by the client, and read back by both. -/
theorem written_by_broker (h : serialize m = .ok data) :
    UniversalClient.serialize m = .ok data ∧ deserialize data = .ok m := by
  have hfits : m.Fits := by
    by_contra hn
    obtain ⟨e, he⟩ := WireCodec.serialize_error hn
    rw [he] at h
    cases h
  obtain ⟨data', hs, hd⟩ := deserialize_serialize hfits
  obtain rfl := Except.ok.inj (hs.symm.trans h)
  exact ⟨(serialize_eq hfits).trans h, hd⟩

/-- The client and the broker read the same frames as the same messages. The
broker reads back what the client has written when the payload fits, and
refuses the frame otherwise; the client reads back all that the broker writes. -/
theorem codecs_agree :
    (∀ data m, UniversalClient.deserialize data = .ok m ↔ deserialize data = .ok m) ∧
    (∀ m, (∃ data, UniversalClient.serialize m = .ok data) ↔ NamesFit m) ∧
    (∀ m data, UniversalClient.serialize m = .ok data →
      deserialize data = if m.payload.length ≤ 65535 then .ok m else .error "Message size mismatch") ∧
    ∀ m data, serialize m = .ok data →
      UniversalClient.serialize m = .ok data ∧ UniversalClient.deserialize data = .ok m := by
  refine ⟨fun _ _ ↦ deserialize_eq_ok,
    fun m ↦ ⟨fun ⟨_, h⟩ ↦ namesFit_of_serialize h, fun h ↦ ⟨_, serialize_frame h⟩⟩,
    fun m data h ↦ deserialize_written h, fun m data h ↦ ?_⟩
  obtain ⟨hs, hd⟩ := written_by_broker h
  exact ⟨hs, deserialize_eq_ok.mpr hd⟩

end MessageBroker.ClientCodec
