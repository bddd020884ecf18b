import MessageBroker.WireMessages

namespace MessageBroker.WireCodec

open ByteStrings WireMessages

theorem networkToHost64_ofMemory {bs : Bytes} (h : bs.length = 8) :
    networkToHost64 (.ofNat (ofMemory bs)) = .ofNat (bigEndian bs) := by
  have hlt : ofMemory bs < 2 ^ 64 := by simpa [h] using ofMemory_lt bs
  rw [networkToHost64, UInt64.toNat_ofNat', Nat.mod_eq_of_lt hlt, ← byteSwap_ofMemory, h]

theorem networkToHost16_ofMemory {bs : Bytes} (h : bs.length = 2) :
    (networkToHost16 (.ofNat (ofMemory bs))).toNat = bigEndian bs := by
  have hlt : ofMemory bs < 2 ^ 16 := by simpa [h] using ofMemory_lt bs
  have hlt' : bigEndian bs < 2 ^ 16 := by simpa [h] using bigEndian_lt bs
  have hs : byteSwap 2 (ofMemory bs) = bigEndian bs := by rw [← h, byteSwap_ofMemory]
  rw [networkToHost16, UInt16.toNat_ofNat', UInt16.toNat_ofNat', Nat.mod_eq_of_lt hlt, hs,
    Nat.mod_eq_of_lt hlt']

theorem hostToNetwork64_toNat (x : UInt64) : (hostToNetwork64 x).toNat = byteSwap 8 x.toNat := by
  rw [hostToNetwork64, UInt64.toNat_ofNat', Nat.mod_eq_of_lt]
  exact byteSwap_lt 8 x.toNat

theorem hostToNetwork16_toNat (x : UInt16) : (hostToNetwork16 x).toNat = byteSwap 2 x.toNat := by
  rw [hostToNetwork16, UInt16.toNat_ofNat', Nat.mod_eq_of_lt]
  exact byteSwap_lt 2 x.toNat

/-- A message frame, field by field: the header and the three variable parts. -/
def frame (version type flags : UInt8) (corr : Bytes) (senderLen destLen : UInt8)
    (payloadLen : Bytes) (rest : Bytes) : Bytes :=
  [version, type, flags] ++ (corr ++ ([senderLen, destLen] ++ (payloadLen ++ rest)))

theorem exists_frame {data : Bytes} (h : headerSize ≤ data.length) :
    ∃ v t f corr sl dl pl rest, corr.length = 8 ∧ pl.length = 2 ∧
      data = frame v t f corr sl dl pl rest := by
  match data, h with
  | v :: t :: f :: c0 :: c1 :: c2 :: c3 :: c4 :: c5 :: c6 :: c7 :: sl :: dl :: p0 :: p1 :: rest, _ =>
    exact ⟨v, t, f, [c0, c1, c2, c3, c4, c5, c6, c7], sl, dl, [p0, p1], rest, rfl, rfl, rfl⟩

variable {v t f sl dl : UInt8} {corr pl rest : Bytes}

theorem slice_append (pre mid post : Bytes) :
    slice (pre ++ (mid ++ post)) pre.length mid.length = mid := by
  rw [slice, List.drop_left, List.take_left]

theorem frame_length (hc : corr.length = 8) (hp : pl.length = 2) :
    (frame v t f corr sl dl pl rest).length = headerSize + rest.length := by
  simp [frame, hc, hp, headerSize]
  omega

theorem frame_senderLen (hc : corr.length = 8) :
    (frame v t f corr sl dl pl rest).getD 11 0 = sl := by
  simp [frame, hc]

theorem frame_destLen (hc : corr.length = 8) :
    (frame v t f corr sl dl pl rest).getD 12 0 = dl := by
  simp [frame, List.getElem?_append, hc]

theorem frame_corr (hc : corr.length = 8) :
    slice (frame v t f corr sl dl pl rest) 3 8 = corr := by
  rw [← hc]
  exact slice_append [v, t, f] corr _

theorem frame_payloadLen (hc : corr.length = 8) (hp : pl.length = 2) :
    slice (frame v t f corr sl dl pl rest) 13 2 = pl := by
  have h := slice_append ([v, t, f] ++ corr ++ [sl, dl]) pl rest
  simpa [frame, hc, hp] using h

theorem frame_drop (hc : corr.length = 8) (hp : pl.length = 2) (n : ℕ) :
    (frame v t f corr sl dl pl rest).drop (headerSize + n) = rest.drop n := by
  have h : (([v, t, f] ++ corr ++ [sl, dl] ++ pl) ++ rest).drop
      (([v, t, f] ++ corr ++ [sl, dl] ++ pl).length + n) = rest.drop n :=
    List.drop_length_add_append n
  simpa [frame, hc, hp, headerSize] using h

theorem frame_inj {v' t' f' sl' dl' : UInt8} {corr' pl' rest' : Bytes} (hc : corr.length = 8)
    (hp : pl.length = 2) (hc' : corr'.length = 8) (hp' : pl'.length = 2)
    (h : frame v t f corr sl dl pl rest = frame v' t' f' corr' sl' dl' pl' rest') :
    (t = t' ∧ f = f' ∧ corr = corr') ∧ sl = sl' ∧ dl = dl' ∧ rest = rest' := by
  have htype : t = t' := congrArg (·.getD 1 0) h
  have hflags : f = f' := congrArg (·.getD 2 0) h
  have hcorr := congrArg (slice · 3 8) h
  have hsl := congrArg (·.getD 11 0) h
  have hdl := congrArg (·.getD 12 0) h
  have hrest := congrArg (·.drop (headerSize + 0)) h
  simp only [frame_corr hc, frame_corr hc'] at hcorr
  simp only [frame_senderLen hc, frame_senderLen hc'] at hsl
  simp only [frame_destLen hc, frame_destLen hc'] at hdl
  simp only [frame_drop hc hp, frame_drop hc' hp', List.drop_zero] at hrest
  exact ⟨⟨htype, hflags, hcorr⟩, hsl, hdl, hrest⟩

theorem deserialize_frame (hc : corr.length = 8) (hp : pl.length = 2) :
    deserialize (frame v t f corr sl dl pl rest) =
      if v ≠ protocolVersion then
        .error ("Unsupported protocol version: " ++ toString v.toNat)
      else if rest.length ≠ sl.toNat + dl.toNat + bigEndian pl then .error "Message size mismatch"
      else .ok {
        type := .ofByte t
        flags := f
        correlationId := .ofNat (bigEndian corr)
        sender := rest.take sl.toNat
        destination := (rest.drop sl.toNat).take dl.toNat
        payload := (rest.drop (sl.toNat + dl.toNat)).take (bigEndian pl) } := by
  have h0 : (frame v t f corr sl dl pl rest).getD 0 0 = v := rfl
  have h1 : (frame v t f corr sl dl pl rest).getD 1 0 = t := rfl
  have h2 : (frame v t f corr sl dl pl rest).getD 2 0 = f := rfl
  have hrest : (frame v t f corr sl dl pl rest).drop headerSize = rest :=
    frame_drop hc hp 0
  rw [deserialize, if_neg (by rw [frame_length hc hp]; omega)]
  simp only [h0, h1, h2, frame_corr hc, frame_payloadLen hc hp, frame_senderLen hc,
    frame_destLen hc, networkToHost64_ofMemory hc, networkToHost16_ofMemory hp]
  simp only [slice, frame_length hc hp, Nat.add_assoc, frame_drop hc hp, hrest, ne_eq,
    Nat.add_right_inj]

theorem serialize_frame {m : Message} (h : m.Fits) :
    serialize m = .ok (frame protocolVersion m.type.toByte m.flags
      (toMemory 8 (byteSwap 8 m.correlationId.toNat)) (.ofNat m.sender.length)
      (.ofNat m.destination.length) (toMemory 2 (byteSwap 2 m.payload.length))
      (m.sender ++ m.destination ++ m.payload)) := by
  obtain ⟨hs, hd, hp⟩ := h
  have hpl : (UInt16.ofNat m.payload.length).toNat = m.payload.length := by
    rw [UInt16.toNat_ofNat', Nat.mod_eq_of_lt (by omega)]
  rw [serialize, if_neg (by omega), if_neg (by omega), if_neg (by omega)]
  simp only [hostToNetwork64_toNat, hostToNetwork16_toNat, hpl, frame, List.append_assoc]

theorem serialize_error {m : Message} (h : ¬ m.Fits) : ∃ e, serialize m = .error e := by
  rw [serialize]
  split_ifs with hs hd hp
  · exact ⟨_, rfl⟩
  · exact ⟨_, rfl⟩
  · exact ⟨_, rfl⟩
  · exact absurd ⟨by omega, by omega, by omega⟩ h

theorem bigEndian_toMemory_byteSwap {n x : ℕ} (h : x < 256 ^ n) :
    bigEndian (toMemory n (byteSwap n x)) = x := by
  rw [← ofMemory_reverse, toMemory_byteSwap, List.reverse_reverse, ofMemory_toMemory,
    Nat.mod_eq_of_lt h]

theorem deserialize_serialize {m : Message} (h : m.Fits) :
    ∃ data, serialize m = .ok data ∧ deserialize data = .ok m := by
  refine ⟨_, serialize_frame h, ?_⟩
  obtain ⟨hs, hd, hp⟩ := h
  have hsl : (UInt8.ofNat m.sender.length).toNat = m.sender.length := by
    rw [UInt8.toNat_ofNat', Nat.mod_eq_of_lt (by omega)]
  have hdl : (UInt8.ofNat m.destination.length).toNat = m.destination.length := by
    rw [UInt8.toNat_ofNat', Nat.mod_eq_of_lt (by omega)]
  have hpl : bigEndian (toMemory 2 (byteSwap 2 m.payload.length)) = m.payload.length :=
    bigEndian_toMemory_byteSwap (by omega)
  have hcorr : bigEndian (toMemory 8 (byteSwap 8 m.correlationId.toNat)) = m.correlationId.toNat :=
    bigEndian_toMemory_byteSwap m.correlationId.toNat_lt
  rw [deserialize_frame (by simp) (by simp), hsl, hdl, hpl, hcorr, if_neg (by simp),
    if_neg (by simp; omega)]
  simp [-List.length_append, List.append_assoc]

theorem deserialize_accepts (data : Bytes) :
    (∃ m, deserialize data = .ok m) ↔ 15 ≤ data.length ∧ data.getD 0 0 = 1 ∧
      data.length = 15 + (data.getD 11 0).toNat + (data.getD 12 0).toNat +
        256 * (data.getD 13 0).toNat + (data.getD 14 0).toNat := by
  by_cases hlen : headerSize ≤ data.length
  · obtain ⟨v, t, f, corr, sl, dl, pl, rest, hc, hp, rfl⟩ := exists_frame hlen
    have hv : (frame v t f corr sl dl pl rest).getD 0 0 = v := rfl
    have hpl : bigEndian pl = 256 * ((frame v t f corr sl dl pl rest).getD 13 0).toNat +
        ((frame v t f corr sl dl pl rest).getD 14 0).toNat := by
      match pl, hp with
      | [p0, p1], _ => simp [frame, hc, bigEndian, List.getElem?_append]
    rw [deserialize_frame hc hp, hv, frame_senderLen hc, frame_destLen hc]
    rw [frame_length hc hp] at hlen ⊢
    simp only [headerSize] at hlen ⊢
    split_ifs with h1 h2
    · refine ⟨?_, fun h ↦ absurd h.2.1 h1⟩
      rintro ⟨_, h⟩
      cases h
    · refine ⟨?_, fun h ↦ by omega⟩
      rintro ⟨_, h⟩
      cases h
    · rw [not_not] at h1
      exact ⟨fun _ ↦ ⟨hlen, h1, by omega⟩, fun _ ↦ ⟨_, rfl⟩⟩
  · rw [deserialize, if_pos (Nat.lt_of_not_le hlen)]
    refine ⟨?_, fun h ↦ absurd h.1 hlen⟩
    rintro ⟨_, h⟩
    cases h

theorem serialize_deserialize {data : Bytes} {m : Message} (h : deserialize data = .ok m) :
    m.Fits ∧ serialize m = .ok data ∧ m.correlationId.toNat = bigEndian (slice data 3 8) := by
  obtain ⟨hlen, -⟩ := (deserialize_accepts data).mp ⟨m, h⟩
  obtain ⟨v, t, f, corr, sl, dl, pl, rest, hc, hp, rfl⟩ := exists_frame hlen
  rw [deserialize_frame hc hp] at h
  split_ifs at h with h1 h2
  rw [not_not] at h1 h2
  obtain rfl := Except.ok.inj h
  have hsl := sl.toNat_lt
  have hdl := dl.toNat_lt
  have hpl : bigEndian pl < 65536 := by simpa [hp] using bigEndian_lt pl
  have hcorr : bigEndian corr < 2 ^ 64 := by simpa [hc] using bigEndian_lt corr
  have hfits : Message.Fits ⟨.ofByte t, f, .ofNat (bigEndian corr), rest.take sl.toNat,
      (rest.drop sl.toNat).take dl.toNat, (rest.drop (sl.toNat + dl.toNat)).take (bigEndian pl)⟩ := by
    simp only [Message.Fits, List.length_take, List.length_drop]
    omega
  have hcorr' : (UInt64.ofNat (bigEndian corr)).toNat = bigEndian corr := by
    rw [UInt64.toNat_ofNat', Nat.mod_eq_of_lt hcorr]
  refine ⟨hfits, ?_, ?_⟩
  · have hs : (rest.take sl.toNat).length = sl.toNat := by rw [List.length_take]; omega
    have hd : ((rest.drop sl.toNat).take dl.toNat).length = dl.toNat := by
      rw [List.length_take, List.length_drop]; omega
    have hq : ((rest.drop (sl.toNat + dl.toNat)).take (bigEndian pl)).length = bigEndian pl := by
      rw [List.length_take, List.length_drop]; omega
    have hall : (rest.drop (sl.toNat + dl.toNat)).take (bigEndian pl) =
        rest.drop (sl.toNat + dl.toNat) :=
      List.take_of_length_le (by rw [List.length_drop]; omega)
    have hrest : rest.take sl.toNat ++ (rest.drop sl.toNat).take dl.toNat ++
        (rest.drop (sl.toNat + dl.toNat)).take (bigEndian pl) = rest := by
      rw [hall, ← List.drop_drop, List.append_assoc, List.take_append_drop, List.take_append_drop]
    have hc8 := toMemory_byteSwap_bigEndian corr
    have hp2 := toMemory_byteSwap_bigEndian pl
    rw [hc] at hc8
    rw [hp] at hp2
    rw [serialize_frame hfits]
    simp only [hs, hd, hq, hrest, hcorr', hc8, hp2, h1, MessageType.toByte_ofByte,
      UInt8.ofNat_toNat]
  · rw [frame_corr hc, hcorr']

/-- The two codec routines are inverse to each other, between the messages
within the limits and the frames of version 1 whose length agrees with their
header. -/
theorem codec_bijection :
    (∀ m : Message, m.Fits → ∃ data, serialize m = .ok data ∧ deserialize data = .ok m) ∧
    (∀ m : Message, ¬ m.Fits → ∃ e, serialize m = .error e) ∧
    (∀ data : Bytes, (∃ m, deserialize data = .ok m) ↔
      15 ≤ data.length ∧ data.getD 0 0 = 1 ∧
        data.length = 15 + (data.getD 11 0).toNat + (data.getD 12 0).toNat +
          256 * (data.getD 13 0).toNat + (data.getD 14 0).toNat) ∧
    (∀ (data : Bytes) (m : Message), deserialize data = .ok m →
      serialize m = .ok data ∧ m.correlationId.toNat = bigEndian (slice data 3 8)) :=
  ⟨fun _ ↦ deserialize_serialize, fun _ ↦ serialize_error, deserialize_accepts,
    fun _ _ h ↦ (serialize_deserialize h).2⟩

end MessageBroker.WireCodec
