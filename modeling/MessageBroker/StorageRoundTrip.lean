import MessageBroker.StoreInvariant
import MessageBroker.WireCodec

namespace MessageBroker.StorageRoundTrip

open ByteStrings WireMessages OrderedSelection MessageStore StoreInvariant

variable {db db' : Database} {now : ℤ} {c : Copy} {row : Row} {p : PendingMessage} {tie : ℕ → ℕ}
  {name : Bytes}

/-- The database after any further calls of the storage. -/
inductive Later (db : Database) : Database → Prop
  | refl : Later db db
  | saveMessage {db' : Database} (now : ℤ) (c : Copy) :
      Later db db' → Later db (db'.saveMessage now c).2
  | saveCorrelation {db' db'' : Database} (now : ℤ) (id : ℕ) (corr : UInt64) (owner : Bytes) :
      Later db db' → db'.saveCorrelation now id corr owner = some db'' → Later db db''
  | markDelivered {db' : Database} (id : ℕ) : Later db db' → Later db (db'.markDelivered id)
  | markSent {db' : Database} (id : ℕ) : Later db db' → Later db (db'.markSent id)
  | markPending {db' : Database} (id : ℕ) : Later db db' → Later db (db'.markPending id)
  | markAckReceived {db' : Database} (id : ℕ) (sender : Bytes) :
      Later db db' → Later db (db'.markAckReceived id sender)

/-- One of the three loaders returns `p`. -/
inductive Selects (db : Database) (p : PendingMessage) : Prop
  | message (tie : ℕ → ℕ) (name : Bytes) : p ∈ db.loadPendingMessagesOnly tie name → Selects db p
  | reply (tie : ℕ → ℕ) (name : Bytes) :
      p ∈ db.loadPendingRepliesForSenderOnly tie name → Selects db p
  | expired (tie : ℕ → ℕ) (now timeout : ℤ) : p ∈ db.loadExpiredSent tie now timeout → Selects db p

/-- What was saved is what is loaded, and a message waits for its destination. -/
structure RoundTrip (db : Database) (now : ℤ) (c : Copy) : Prop where
  loaded : ∀ db', Later (db.saveMessage now c).2 db' → ∀ p, Selects db' p →
    p.id = (db.saveMessage now c).1 → p.msg = c.msg
  waiting : c.msg.type ≠ .reply → ∀ tie,
    ∃ p ∈ (db.saveMessage now c).2.loadPendingMessagesOnly tie c.msg.destination,
      p.id = (db.saveMessage now c).1

/-- The row that was saved is still the only one with its id. -/
structure Held (row : Row) (db : Database) : Prop where
  bound : row.id ≤ db.lastMessageId
  only : ∀ r ∈ db.messages, r.id = row.id → ∃ st, r = { row with status := st }

theorem held_saveMessage (hdb : ∀ r ∈ db.messages, r.id ≤ db.lastMessageId) :
    Held (db.newRow now c) (db.saveMessage now c).2 where
  bound := Nat.le_refl _
  only r hr hid := by
    rcases List.mem_append.mp hr with hr | hr
    · have := hdb r hr
      have : r.id = db.lastMessageId + 1 := hid
      omega
    · exact ⟨.pending, List.mem_singleton.mp hr⟩

theorem Held.setStatus (h : Held row db) (id : ℕ) (st : MessageStatus)
    (guard : MessageStatus → Bool) : Held row (db.setStatus id st guard) where
  bound := h.bound
  only r hr hid := by
    obtain ⟨r₀, hr₀, rfl | ⟨-, -, rfl⟩⟩ := mem_setStatus hr
    · exact h.only r₀ hr₀ hid
    · obtain ⟨st₀, rfl⟩ := h.only r₀ hr₀ hid
      exact ⟨st, rfl⟩

theorem Held.later (h : Held row db) (hl : Later db db') : Held row db' := by
  induction hl with
  | refl => exact h
  | saveMessage now c hl ih =>
    refine ⟨Nat.le_succ_of_le ih.bound, fun r hr hid ↦ ?_⟩
    rcases List.mem_append.mp hr with hr | hr
    · exact ih.only r hr hid
    · obtain rfl := List.mem_singleton.mp hr
      have := ih.bound
      simp only [Database.newRow] at hid
      omega
  | saveCorrelation now id corr owner hl hs ih =>
    obtain ⟨hm, hlast, -⟩ := saveCorrelation_eq_some hs
    exact ⟨hlast ▸ ih.bound, hm ▸ ih.only⟩
  | markDelivered id hl ih => exact ih.setStatus id _ _
  | markSent id hl ih => exact ih.setStatus id _ _
  | markPending id hl ih => exact ih.setStatus id _ _
  | @markAckReceived db' id sender hl ih =>
    obtain ⟨hm, hlast, -⟩ : (db'.markAckReceived id sender).messages = db'.messages ∧ _ :=
      markAckReceived_eq sender
    exact ⟨ih.bound.trans_eq hlast.symm, fun r hr ↦ ih.only r (hm ▸ hr)⟩

theorem selects_row (h : Selects db p) : ∃ r ∈ db.messages, r.load = p := by
  cases h with
  | message tie name hp =>
    obtain ⟨r, hr, hload, -⟩ := mem_loadPendingMessagesOnly hp
    exact ⟨r, hr, hload⟩
  | reply tie name hp =>
    obtain ⟨r, hr, hload, -⟩ := mem_loadPendingRepliesForSenderOnly hp
    exact ⟨r, hr, hload⟩
  | expired tie now timeout hp =>
    obtain ⟨r, hr, hload, -⟩ := mem_loadExpiredSent hp
    exact ⟨r, hr, hload⟩

/-- Only what follows a NUL byte in a name is lost. -/
theorem loaded_msg (hdb : ∀ r ∈ db.messages, r.id ≤ db.lastMessageId)
    (hl : Later (db.saveMessage now c).2 db') (hp : Selects db' p)
    (hid : p.id = (db.saveMessage now c).1) : p.msg = { c.msg with
      sender := cString c.msg.sender
      destination := cString c.msg.destination } := by
  obtain ⟨r, hr, rfl⟩ := selects_row hp
  obtain ⟨st, rfl⟩ := ((held_saveMessage hdb).later hl).only r hr hid
  exact (show Records (db.newRow now c) c.msg from records_newRow now c).message_eq

theorem cString_eq_iff {s : Bytes} : cString s = s ↔ NulFree s :=
  ⟨fun h ↦ h ▸ cString_nulFree s, cString_eq⟩

theorem toByte_reply {t : MessageType} (h : t ≠ .reply) :
    t.toByte.toNat ≠ MessageType.reply.toByte.toNat := fun heq ↦ by
  have := congrArg MessageType.ofByte (UInt8.toNat_inj.mp heq)
  rw [MessageType.ofByte_toByte, MessageType.ofByte_toByte] at this
  exact h this

theorem waiting_saveMessage (h : c.msg.type ≠ .reply) (tie : ℕ → ℕ) :
    ∃ p ∈ (db.saveMessage now c).2.loadPendingMessagesOnly tie c.msg.destination,
      p.id = (db.saveMessage now c).1 := by
  refine ⟨(db.newRow now c).load, List.mem_map_of_mem (mem_orderBy.mpr ?_), rfl⟩
  refine List.mem_filter.mpr ⟨List.mem_append_right _ (List.mem_singleton_self _), ?_⟩
  exact decide_eq_true ⟨rfl, rfl, toByte_reply h⟩

/-- A row that has been sent for more than no time at all is selected as expired. -/
theorem selects_expired (db : Database) (now : ℤ) (c : Copy) :
    ∃ db', Later (db.saveMessage now c).2 db' ∧ ∃ p, Selects db' p ∧
      p.id = (db.saveMessage now c).1 := by
  refine ⟨_, .markSent (db.lastMessageId + 1) .refl,
    ({ db.newRow now c with status := .sent } : Row).load, .expired id (now + 1) 0 ?_, rfl⟩
  refine List.mem_map_of_mem (mem_orderBy.mpr (List.mem_filter.mpr ⟨?_, ?_⟩))
  · refine List.mem_map.mpr ⟨db.newRow now c, ?_, if_pos ⟨rfl, rfl⟩⟩
    exact List.mem_append_right _ (List.mem_singleton_self _)
  · refine decide_eq_true ⟨rfl, ?_⟩
    simp only [Database.newRow]
    omega

theorem roundTrip_iff (hdb : ∀ r ∈ db.messages, r.id ≤ db.lastMessageId) :
    RoundTrip db now c ↔ NulFree c.msg.sender ∧ NulFree c.msg.destination := by
  constructor
  · intro h
    obtain ⟨db', hl, p, hp, hid⟩ := selects_expired db now c
    have heq := (loaded_msg hdb hl hp hid).symm.trans (h.loaded db' hl p hp hid)
    exact ⟨cString_eq_iff.mp (congrArg Message.sender heq),
      cString_eq_iff.mp (congrArg Message.destination heq)⟩
  · rintro ⟨hs, hd⟩
    refine ⟨fun db' hl p hp hid ↦ ?_, waiting_saveMessage⟩
    rw [loaded_msg hdb hl hp hid, cString_eq hs, cString_eq hd]

/-- What carol has sent to bob before. -/
def fromCarol : Copy := ⟨{ sender := [99], destination := [98], payload := [1] }, none, [98]⟩

def fromAlice : Copy :=
  ⟨{ sender := [97], destination := [98], flags := flagNeedsAck, correlationId := 0xffffffffffffffff,
     payload := [0, 255] }, none, [98]⟩

/-- What alice sends to bob is loaded again when it has been marked sent and has expired. -/
theorem roundTrip_alice : ∃ db : Database, db.messages.length = 1 ∧ RoundTrip db 7 fromAlice ∧
    ∃ p ∈ ((db.saveMessage 7 fromAlice).2.markSent 2).loadExpiredSent (fun _ ↦ 0) 100 30,
      p.id = 2 ∧ p.msg = fromAlice.msg := by
  have htrip : RoundTrip (({} : Database).saveMessage 5 fromCarol).2 7 fromAlice :=
    (roundTrip_iff (by decide)).mpr (by decide)
  refine ⟨_, rfl, htrip, ?_⟩
  obtain ⟨p, hp, hid⟩ : ∃ p ∈ ((((({} : Database).saveMessage 5 fromCarol).2.saveMessage 7
      fromAlice).2.markSent 2).loadExpiredSent (fun _ ↦ 0) 100 30), p.id = 2 := by decide +kernel
  exact ⟨p, hp, hid, htrip.loaded _ (.markSent 2 .refl) p (.expired _ _ _ hp) hid⟩

/-- The name of the sender is cut at a NUL byte. -/
theorem nul_lost : ¬ ∀ db now c data, (∀ r ∈ db.messages, r.id ≤ db.lastMessageId) →
    deserialize data = .ok c.msg → RoundTrip db now c := by
  intro h
  let m : Message := { sender := [97, 0, 98], destination := [98] }
  obtain ⟨data, -, hdata⟩ := WireCodec.deserialize_serialize (m := m)
    ⟨by decide, by decide, by decide⟩
  have hempty : ∀ r ∈ ({} : Database).messages, r.id ≤ ({} : Database).lastMessageId :=
    fun _ hr ↦ absurd hr List.not_mem_nil
  have hfree := (roundTrip_iff hempty).mp (h {} 0 ⟨m, none, [98]⟩ data hempty hdata)
  exact absurd hfree (by decide)

end MessageBroker.StorageRoundTrip
