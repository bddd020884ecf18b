import MessageBroker.MessageStore

namespace MessageBroker.StoreInvariant

open ByteStrings WireMessages OrderedSelection MessageStore

/-- A message or reply that is not acknowledged. -/
def plain (m : Message) : Bool := (m.type = .message || m.type = .reply) && !m.needsAck

/-- The columns of a row are those under which a message is saved. -/
structure Records (r : Row) (m : Message) : Prop where
  type : r.type = m.type.toByte.toNat
  flags : r.flags = m.flags.toNat
  correlationId : r.correlationId = m.correlationId.toInt64
  sender : r.sender = .of m.sender
  destination : r.destination = .of m.destination
  payload : r.payload = if m.payload = [] then none else some m.payload

structure Carries (r : Row) (c : Copy) : Prop where
  records : Records r c.msg
  accepted : r.accepted = c.accepted

/-- A row saved from a copy of an earlier row holds the same message, up to its
destination. -/
structure Descends (r r₀ : Row) : Prop where
  id_lt : r₀.id < r.id
  type : r.type = r₀.type
  flags : r.flags = r₀.flags
  correlationId : r.correlationId = r₀.correlationId
  sender : r.sender = r₀.sender
  payload : r.payload = r₀.payload
  origin : r.origin = r₀.origin
  accepted : r.accepted = r₀.accepted

/-- Rows are only added, and only their status changes. -/
def Extends (db db' : Database) : Prop :=
  ∀ r ∈ db.messages, ∃ st, { r with status := st } ∈ db'.messages

/-- A copy that may be on its way: it fits on the wire and is that of its row. -/
structure Authentic (db : Database) (c : Copy) : Prop where
  fits : c.msg.Fits
  source : plain c.msg = true → c.source ≠ none
  accepted : c.source = none → c.accepted = c.msg.destination
  row : ∀ id, c.source = some id → ∃ r ∈ db.messages, r.id = id ∧ Carries r c

/-- The invariant of the tables. -/
structure Sound (db : Database) : Prop where
  ids : (db.messages.map (·.id)).Nodup
  bound : ∀ r ∈ db.messages, 0 < r.id ∧ r.id ≤ db.lastMessageId
  columns : ∀ r ∈ db.messages, ∃ m : Message, m.Fits ∧ Records r m
  sent : ∀ r ∈ db.messages, r.status = .sent → r.needsAck = true
  origin : ∀ r ∈ db.messages, r.source = none → r.origin = r.id
  source : ∀ r ∈ db.messages, ∀ id, r.source = some id →
    ∃ r₀ ∈ db.messages, r₀.id = id ∧ Descends r r₀
  correlations : ∀ k ∈ db.correlations, k.originalSender.val.length ≤ 255 ∧
    ∃ r ∈ db.messages, r.id = k.messageId ∧ r.correlationId = k.correlationId

variable {db db' db'' : Database} {r : Row} {m : Message} {c : Copy} {id : ℕ}

theorem Extends.refl (db : Database) : Extends db db := fun r hr ↦ ⟨r.status, hr⟩

theorem Extends.trans (h : Extends db db') (h' : Extends db' db'') : Extends db db'' := by
  intro r hr
  obtain ⟨st, hst⟩ := h r hr
  obtain ⟨st', hst'⟩ := h' _ hst
  exact ⟨st', hst'⟩

theorem Authentic.mono (h : Authentic db c) (hx : Extends db db') : Authentic db' c := by
  refine ⟨h.fits, h.source, h.accepted, fun id hid ↦ ?_⟩
  obtain ⟨r, hr, hrid, hc⟩ := h.row id hid
  obtain ⟨st, hst⟩ := hx r hr
  exact ⟨_, hst, hrid, ⟨hc.records.type, hc.records.flags, hc.records.correlationId,
    hc.records.sender, hc.records.destination, hc.records.payload⟩, hc.accepted⟩

theorem Records.message_eq (h : Records r m) : r.message =
    { m with sender := cString m.sender, destination := cString m.destination } := by
  simp only [Row.message, h.type, h.flags, h.correlationId, h.sender, h.destination, h.payload,
    CText.of, UInt8.ofNat_toNat, MessageType.ofByte_toByte, UInt64.toUInt64_toInt64]
  congr
  split
  · next hp => exact hp.symm
  · rfl

theorem Records.fits (h : Records r m) (hm : m.Fits) : r.message.Fits := by
  obtain ⟨hs, hd, hp⟩ := hm
  rw [h.message_eq]
  exact ⟨(cString_length_le _).trans hs, (cString_length_le _).trans hd, hp⟩

theorem Records.load (h : Records r m) : Records r r.message := by
  have hcut (s : Bytes) : CText.of (cString s) = CText.of s :=
    Subtype.ext (cString_eq (cString_nulFree s))
  rw [h.message_eq]
  exact ⟨h.type, h.flags, h.correlationId, by rw [hcut, h.sender],
    by rw [hcut, h.destination], h.payload⟩

theorem Records.needsAck (h : Records r m) : r.needsAck = m.needsAck := by
  simp [Row.needsAck, Message.needsAck, Message.hasFlag, h.flags]

theorem Records.plain (h : Records r m) : plain r.message = plain m := by
  rw [h.message_eq]
  rfl

theorem plain_of_columns {r₀ : Row} (ht : r.type = r₀.type) (hf : r.flags = r₀.flags) :
    plain r.message = plain r₀.message := by
  unfold StoreInvariant.plain Message.needsAck Message.hasFlag Row.message
  rw [ht, hf]

theorem Descends.plain {r₀ : Row} (h : Descends r r₀) : plain r.message = plain r₀.message :=
  plain_of_columns h.type h.flags

theorem mem_of_row? (h : db.row? id = some r) : r ∈ db.messages ∧ r.id = id :=
  ⟨List.mem_of_find?_eq_some h, by simpa using List.find?_some h⟩

theorem id_inj (hdb : Sound db) {r' : Row} (hr : r ∈ db.messages) (hr' : r' ∈ db.messages)
    (h : r.id = r'.id) : r = r' := List.inj_on_of_nodup_map hdb.ids hr hr' h

theorem row?_eq (hdb : Sound db) (hr : r ∈ db.messages) : db.row? r.id = some r := by
  have hex : (db.row? r.id).isSome := List.find?_isSome.mpr ⟨r, hr, by simp⟩
  obtain ⟨r', hr'⟩ := Option.isSome_iff_exists.mp hex
  obtain ⟨hm, hid⟩ := mem_of_row? hr'
  rw [hr', id_inj hdb hm hr hid]

theorem authentic_load (hdb : Sound db) (hr : r ∈ db.messages) : Authentic db r.load.copy := by
  obtain ⟨m, hm, hrm⟩ := hdb.columns r hr
  refine ⟨hrm.fits hm, fun _ ↦ Option.some_ne_none _, (nomatch ·), fun id hid ↦ ?_⟩
  exact ⟨r, hr, Option.some.inj hid, hrm.load, rfl⟩

theorem sound_empty : Sound {} := by
  constructor <;> simp

theorem records_newRow (now : ℤ) (c : Copy) : Records (db.newRow now c) c.msg :=
  ⟨rfl, rfl, rfl, rfl, rfl, rfl⟩

theorem extends_saveMessage (now : ℤ) (c : Copy) : Extends db (db.saveMessage now c).2 :=
  fun r hr ↦ ⟨r.status, List.mem_append_left _ hr⟩

theorem sound_saveMessage (hdb : Sound db) (now : ℤ) (hfits : c.msg.Fits)
    (hrow : ∀ id, c.source = some id → ∃ r ∈ db.messages, r.id = id ∧
      (Records r { c.msg with destination := r.destination.val }) ∧ r.accepted = c.accepted) :
    Sound (db.saveMessage now c).2 := by
  have hnew : ∀ r ∈ db.messages, r.id ≠ db.lastMessageId + 1 := fun r hr h ↦ by
    have := (hdb.bound r hr).2
    omega
  constructor
  case ids =>
    simp only [Database.saveMessage, List.map_append, List.map_cons, List.map_nil]
    refine List.nodup_append.mpr ⟨hdb.ids, by simp, ?_⟩
    rintro x hx y hy rfl
    obtain ⟨r, hr, rfl⟩ := List.mem_map.mp hx
    exact hnew r hr (by simpa [Database.newRow] using hy)
  case bound =>
    intro r hr
    rcases List.mem_append.mp hr with hr | hr
    · have := hdb.bound r hr
      exact ⟨this.1, Nat.le_succ_of_le this.2⟩
    · obtain rfl := List.mem_singleton.mp hr
      exact ⟨Nat.succ_pos _, Nat.le_refl _⟩
  case columns =>
    intro r hr
    rcases List.mem_append.mp hr with hr | hr
    · exact hdb.columns r hr
    · obtain rfl := List.mem_singleton.mp hr
      exact ⟨c.msg, hfits, records_newRow now c⟩
  case sent =>
    intro r hr hs
    rcases List.mem_append.mp hr with hr | hr
    · exact hdb.sent r hr hs
    · obtain rfl := List.mem_singleton.mp hr
      cases hs
  case origin =>
    intro r hr hs
    rcases List.mem_append.mp hr with hr | hr
    · exact hdb.origin r hr hs
    · obtain rfl := List.mem_singleton.mp hr
      have hc : c.source = none := hs
      simp [Database.newRow, Database.originOf, hc]
  case source =>
    intro r hr id hs
    rcases List.mem_append.mp hr with hr | hr
    · obtain ⟨r₀, hr₀, hid, hd⟩ := hdb.source r hr id hs
      exact ⟨r₀, List.mem_append_left _ hr₀, hid, hd⟩
    · obtain rfl := List.mem_singleton.mp hr
      have hc : c.source = some id := hs
      obtain ⟨r₀, hr₀, rfl, hrec, hacc⟩ := hrow id hc
      refine ⟨r₀, List.mem_append_left _ hr₀, rfl, ?_, hrec.type.symm, hrec.flags.symm,
        hrec.correlationId.symm, hrec.sender.symm, hrec.payload.symm, ?_, hacc.symm⟩
      · exact Nat.lt_succ_of_le (hdb.bound r₀ hr₀).2
      · simp [Database.newRow, Database.originOf, hc, row?_eq hdb hr₀]
  case correlations =>
    intro k hk
    obtain ⟨hlen, r, hr, hid, hcorr⟩ := hdb.correlations k hk
    exact ⟨hlen, r, List.mem_append_left _ hr, hid, hcorr⟩

theorem mem_setStatus {st : MessageStatus} {guard : MessageStatus → Bool}
    (h : r ∈ (db.setStatus id st guard).messages) : ∃ r₀ ∈ db.messages,
      r₀ = r ∨ r₀.id = id ∧ guard r₀.status = true ∧ r = { r₀ with status := st } := by
  obtain ⟨r₀, hr₀, rfl⟩ := List.mem_map.mp h
  refine ⟨r₀, hr₀, ?_⟩
  split
  · next hg => exact .inr ⟨hg.1, hg.2, rfl⟩
  · exact .inl rfl

theorem extends_setStatus (st : MessageStatus) (guard : MessageStatus → Bool) :
    Extends db (db.setStatus id st guard) := by
  intro r hr
  by_cases hg : r.id = id ∧ guard r.status = true
  · exact ⟨st, List.mem_map.mpr ⟨r, hr, if_pos hg⟩⟩
  · exact ⟨r.status, List.mem_map.mpr ⟨r, hr, if_neg hg⟩⟩

theorem sound_setStatus (hdb : Sound db) {st : MessageStatus} {guard : MessageStatus → Bool}
    (hst : st = .sent → ∀ r ∈ db.messages, r.id = id → r.needsAck = true) :
    Sound (db.setStatus id st guard) := by
  have hsame : ∀ r ∈ (db.setStatus id st guard).messages,
      ∃ r₀ ∈ db.messages, ∃ st', r = { r₀ with status := st' } := fun r hr ↦ by
    obtain ⟨r₀, hr₀, rfl | ⟨-, -, rfl⟩⟩ := mem_setStatus hr
    · exact ⟨r₀, hr₀, r₀.status, rfl⟩
    · exact ⟨r₀, hr₀, st, rfl⟩
  have hx : Extends db (db.setStatus id st guard) := extends_setStatus st guard
  constructor
  case ids =>
    have heq : (db.setStatus id st guard).messages.map (·.id) = db.messages.map (·.id) := by
      rw [Database.setStatus, List.map_map]
      apply List.map_congr_left
      intro r _
      simp only [Function.comp_apply]
      split <;> rfl
    rw [heq]
    exact hdb.ids
  case bound =>
    intro r hr
    obtain ⟨r₀, hr₀, st', rfl⟩ := hsame r hr
    exact hdb.bound r₀ hr₀
  case columns =>
    intro r hr
    obtain ⟨r₀, hr₀, st', rfl⟩ := hsame r hr
    obtain ⟨m, hm, hrec⟩ := hdb.columns r₀ hr₀
    exact ⟨m, hm, hrec.type, hrec.flags, hrec.correlationId, hrec.sender, hrec.destination,
      hrec.payload⟩
  case sent =>
    intro r hr hs
    obtain ⟨r₀, hr₀, rfl | ⟨hid, -, rfl⟩⟩ := mem_setStatus hr
    · exact hdb.sent r₀ hr₀ hs
    · exact hst hs r₀ hr₀ hid
  case origin =>
    intro r hr hs
    obtain ⟨r₀, hr₀, st', rfl⟩ := hsame r hr
    exact hdb.origin r₀ hr₀ hs
  case source =>
    intro r hr id' hs
    obtain ⟨r₀, hr₀, st', rfl⟩ := hsame r hr
    obtain ⟨r₁, hr₁, hid, hd⟩ := hdb.source r₀ hr₀ id' hs
    obtain ⟨st₁, hr₁⟩ := hx r₁ hr₁
    exact ⟨_, hr₁, hid, hd.id_lt, hd.type, hd.flags, hd.correlationId, hd.sender, hd.payload,
      hd.origin, hd.accepted⟩
  case correlations =>
    intro k hk
    obtain ⟨hlen, r, hr, hid, hcorr⟩ := hdb.correlations k hk
    obtain ⟨st', hr⟩ := hx r hr
    exact ⟨hlen, _, hr, hid, hcorr⟩

theorem sound_of_correlations (hdb : Sound db) (hm : db'.messages = db.messages)
    (hl : db'.lastMessageId = db.lastMessageId)
    (hk : ∀ k ∈ db'.correlations, k ∈ db.correlations ∨ k.originalSender.val.length ≤ 255 ∧
      ∃ r ∈ db.messages, r.id = k.messageId ∧ r.correlationId = k.correlationId) :
    Sound db' := by
  constructor
  case correlations =>
    intro k hk'
    rw [hm]
    rcases hk k hk' with h | h
    · exact hdb.correlations k h
    · exact h
  all_goals rw [hm]
  case ids => exact hdb.ids
  case bound =>
    rw [hl]
    exact hdb.bound
  case columns => exact hdb.columns
  case sent => exact hdb.sent
  case origin => exact hdb.origin
  case source => exact hdb.source

theorem saveCorrelation_eq_some {now : ℤ} {corr : UInt64} {owner : Bytes}
    (h : db.saveCorrelation now id corr owner = some db') :
    db'.messages = db.messages ∧ db'.lastMessageId = db.lastMessageId ∧
      db'.correlations = db.correlations.filter (fun k ↦
          ¬ (k.correlationId = corr.toInt64 ∧ k.originalSender = .of owner)) ++
        [⟨db.lastCorrelationId + 1, id, corr.toInt64, .of owner, now⟩] := by
  unfold Database.saveCorrelation at h
  split at h
  · cases h
    exact ⟨rfl, rfl, rfl⟩
  · cases h

theorem sound_saveCorrelation (hdb : Sound db) {now : ℤ} {corr : UInt64} {owner : Bytes}
    (howner : owner.length ≤ 255)
    (hrow : ∃ r ∈ db.messages, r.id = id ∧ r.correlationId = corr.toInt64)
    (h : db.saveCorrelation now id corr owner = some db') : Sound db' := by
  obtain ⟨hm, hl, hc⟩ := saveCorrelation_eq_some h
  refine sound_of_correlations hdb hm hl fun k hk ↦ ?_
  rw [hc] at hk
  rcases List.mem_append.mp hk with hk | hk
  · exact .inl (List.mem_filter.mp hk).1
  · obtain rfl := List.mem_singleton.mp hk
    exact .inr ⟨(cString_length_le owner).trans howner, hrow⟩

theorem markAckReceived_eq (sender : Bytes) :
    (db.markAckReceived id sender).messages = db.messages ∧
      (db.markAckReceived id sender).lastMessageId = db.lastMessageId ∧
      (db.markAckReceived id sender).correlations ⊆ db.correlations := by
  simp only [Database.markAckReceived]
  split
  · exact ⟨rfl, rfl, List.filter_sublist.subset⟩
  · exact ⟨rfl, rfl, List.Subset.refl _⟩

theorem sound_markAckReceived (hdb : Sound db) (sender : Bytes) :
    Sound (db.markAckReceived id sender) :=
  have ⟨hm, hl, hc⟩ := markAckReceived_eq sender
  sound_of_correlations hdb hm hl fun _ hk ↦ .inl (hc hk)

variable {tie : ℕ → ℕ} {name : Bytes} {p : PendingMessage}

theorem mem_loadExpiredSent {now timeout : ℤ} (h : p ∈ db.loadExpiredSent tie now timeout) :
    ∃ r ∈ db.messages, r.load = p ∧ r.status = .sent ∧ timeout < now - r.createdAt := by
  obtain ⟨r, hr, rfl⟩ := List.mem_map.mp h
  have hf := List.mem_filter.mp (mem_orderBy.mp hr)
  exact ⟨r, hf.1, rfl, of_decide_eq_true hf.2⟩

theorem mem_loadPendingMessagesOnly (h : p ∈ db.loadPendingMessagesOnly tie name) :
    ∃ r ∈ db.messages, r.load = p ∧ r.destination = .of name ∧ r.status = .pending := by
  obtain ⟨r, hr, rfl⟩ := List.mem_map.mp h
  have hf := List.mem_filter.mp (mem_orderBy.mp hr)
  have hd := of_decide_eq_true hf.2
  exact ⟨r, hf.1, rfl, hd.1, hd.2.1⟩

theorem mem_loadPendingRepliesForSenderOnly
    (h : p ∈ db.loadPendingRepliesForSenderOnly tie name) :
    ∃ r ∈ db.messages, r.load = p ∧ db.isPendingReplyFor name r := by
  obtain ⟨r, hr, rfl⟩ := List.mem_map.mp h
  have hf := List.mem_filter.mp (mem_orderBy.mp hr)
  exact ⟨r, hf.1, rfl, of_decide_eq_true hf.2⟩

theorem originalSender_length (hdb : Sound db) (tie : ℕ → ℕ) (corr : UInt64) :
    (db.findOriginalSenderByCorrelation tie corr).length ≤ 255 := by
  unfold Database.findOriginalSenderByCorrelation
  cases h : db.latestCorrelation tie corr with
  | none => simp
  | some k => exact (hdb.correlations k (List.mem_filter.mp (mem_of_latest h)).1).1

theorem loaded_ids_nodup (hids : (db.messages.map (·.id)).Nodup) (key : Row → ℤ) (tie : Row → ℕ)
    (q : Row → Bool) :
    (((orderBy key tie (db.messages.filter q)).map Row.load).map (·.id)).Nodup := by
  rw [List.map_map]
  have hp : ((orderBy key tie (db.messages.filter q)).map (·.id)).Perm
      ((db.messages.filter q).map (·.id)) := (orderBy_perm _).map _
  exact hp.nodup_iff.mpr (hids.sublist (List.filter_sublist.map _))

end MessageBroker.StoreInvariant
