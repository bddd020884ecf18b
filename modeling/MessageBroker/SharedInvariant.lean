import MessageBroker.ThreadViews
import MessageBroker.ServerJobs

namespace MessageBroker.SharedInvariant

open ByteStrings WireMessages MessageStore BrokerState StoreInvariant OperationEffects ThreadViews

/-- The invariant of the shared state. -/
structure Consistent (w : World) : Prop where
  store : Sound w.db
  queues : ∀ s, ∀ c ∈ (w.sessions s).outgoingQueue, Authentic w.db c
  sends : ∀ p ∈ w.pendingSends, Authentic w.db p.copy
  batches : ∀ i, ∀ p ∈ w.batches i, Authentic w.db p.copy
  uncalled : ∀ p ∈ w.pendingSends, p.called = false
  offline : ∀ s, (w.sessions s).outgoingQueue ≠ [] → (w.sessions s).isOnline = false
  names : ∀ s < w.nextSession, (w.sessions s).name.length ≤ 255
  unused : ∀ s, w.nextSession ≤ s → (w.sessions s).owners = [] ∧
    (w.sessions s).outgoingQueue = [] ∧ (w.sessions s).queueOwner = none
  clients : ∀ n s, w.activeClients.lookup n = some s →
    s < w.nextSession ∧ (w.sessions s).name = n
  destroyed : ∀ s, (w.sessions s).destroyed = true →
    Dead w s ∧ (w.sessions s).outgoingQueue = []

def Receives (j : Job) (m : Message) : Prop :=
  ∃ identity data, j = .receive identity data ∧ deserialize data = .ok m

/-- A message that a handler saves for the first time. -/
structure Incoming (j : Job) (c : Copy) : Prop where
  source : c.source = none
  accepted : c.accepted = c.msg.destination
  job : ∃ m, Receives j m ∧
    (m.type = .message ∧ c.msg = m ∨
      m.type = .reply ∧ (∃ d, c.msg = { m with destination := d } ∧
        (d = m.destination ∨ NulFree d)) ∨
      m.type = .ack ∧ c.msg.type = .ack ∧ NulFree c.msg.destination)

variable (i : ℕ) (j : Job) (w : World)

/-- The front of a queue that the thread has locked, on its way to the database. -/
def Persisting (c : Copy) : Prop :=
  ∃ s c₀, s < w.nextSession ∧ (hold i w).queues s = true ∧
    (w.sessions s).outgoingQueue.head? = some c₀ ∧
    c = { c₀ with msg := { c₀.msg with destination := (w.sessions s).name } } ∧
    (account i w.log).unpopped = false

/-- What a thread must know when it hands a copy to a session. -/
structure HandOver (s : ℕ) (c : Copy) : Prop where
  pointer : 0 < (hold i w).pointers s
  authentic : Authentic w.db c
  credit : plain c.msg = true →
    (∃ m, Receives j m) ∧ ∃ id ∈ (account i w.log).credit, c.source = some id
  name : c.source = none → c.msg.destination = (w.sessions s).name
  addressed : ∀ id, c.source = some id →
    CText.of c.msg.destination = .of (w.sessions s).name ∨
      (id, (w.sessions s).name) ∈ (account i w.log).replies
  resent : (∃ m, Receives j m) ∨ c.msg.needsAck = true

/-- When thread `i`, running job `j`, may perform an operation. -/
def Allowed : Op → Prop
  | .saveMessage c => c.msg.Fits ∧ (Incoming j c ∨ Persisting i w c)
  | .saveCorrelation id corr owner => owner.length ≤ 255 ∧
    ∃ r ∈ w.db.messages, r.id = id ∧ r.correlationId = corr.toInt64
  | .markDelivered id => ∀ r ∈ w.db.messages, r.id = id →
    (plain r.message = true → id ∈ (account i w.log).debt) ∧
    (r.needsAck = true → (∃ m, Receives j m ∧ m.type = .ack) ∨
      ∃ n, (id, n) ∈ (account i w.log).replies)
  | .markSent id => ∀ r ∈ w.db.messages, r.id = id → r.needsAck = true
  | .loadPendingMessagesOnly _ | .loadPendingRepliesForSenderOnly _ =>
    ((account i w.log).debt = [] ∨ (account i w.log).failed = true) ∧ ∃ m, Receives j m
  | .lockRegistry => (∀ s, (hold i w).queues s = false) ∧
    ((hold i w).registry = true → j = .cleanupInactiveSessions ∧ w.metrics.isSome = true ∧
      (account i w.log).removing = true)
  | .unlockRegistry | .setName _ _ | .eraseName _ => (hold i w).registry = true
  | .removeClient _ => (hold i w).registry = true ∧ ∀ m, Receives j m → m.type ≠ .register
  | .setClient n s => (hold i w).registry = true ∧ (w.sessions s).name = n ∧
    0 < (hold i w).pointers s ∧ ∃ data, j = .receive (w.sessions s).identity data
  | .findName identity => ∃ data, j = .receive identity data
  | .newSession identity n => n.length ≤ 255 ∧ ∃ data, j = .receive identity data
  | .release s => 0 < (hold i w).pointers s
  | .destroySession s => Dead w s ∧ (w.sessions s).outgoingQueue = []
  | .lockQueue s => s < w.nextSession ∧ ∀ s', (hold i w).queues s' = false
  | .unlockQueue s => (hold i w).queues s = true ∧ (account i w.log).unpopped = false
  | .pushQueue s c => (hold i w).queues s = true ∧ (w.sessions s).isOnline = false ∧
    HandOver i j w s c
  | .popQueue s => (hold i w).queues s = true ∧
    ∀ c id, (w.sessions s).outgoingQueue.head? = some c → c.source = some id →
      ∃ r ∈ w.db.messages, r.source = some id
  | .pushPendingSend s c data => HandOver i j w s c ∧ serialize c.msg = .ok data
  | .takePendingSends => (hold i w).batch = []
  | .callback send success => (hold i w).batch.head? = some send ∧ send.called = false ∧
    (success = false → ∃ r, (account i w.log).frame = some (send, r) ∧ r ≠ .accepted)
  | .popSend => ∀ p, (hold i w).batch.head? = some p → p.called = true
  | _ => True

/-- What thread `i` relies on while other threads take steps. -/
structure Rely (w w' : World) : Prop where
  owns : hold i w' = hold i w
  books : account i w'.log = account i w.log
  clients : (hold i w).registry = true → w'.activeClients = w.activeClients
  queue : ∀ s, (hold i w).queues s = true →
    (w'.sessions s).outgoingQueue = (w.sessions s).outgoingQueue
  grows : Grows w w'

variable {i j w}

theorem Rely.refl : Rely i w w := ⟨rfl, rfl, fun _ ↦ rfl, fun _ _ ↦ rfl, .refl w⟩

theorem Rely.trans {u v : World} (h : Rely i u v) (h' : Rely i v w) : Rely i u w where
  owns := h'.owns.trans h.owns
  books := h'.books.trans h.books
  clients hr := (h'.clients (h.owns ▸ hr)).trans (h.clients hr)
  queue s hs := (h'.queue s (h.owns ▸ hs)).trans (h.queue s hs)
  grows := h.grows.trans h'.grows

variable {ch : Choice} {o : Op} {w' : World} {r : o.Res} {s : ℕ}

theorem owners_of_pointer (h : 0 < (hold i w).pointers s) : (w.sessions s).owners ≠ [] :=
  List.ne_nil_of_mem (List.count_pos_iff.mp h)

theorem Consistent.lt_of_pointer (hinv : Consistent w) (h : 0 < (hold i w).pointers s) : s < w.nextSession := by
  by_contra hs
  exact owners_of_pointer h (hinv.unused s (by omega)).1

theorem Consistent.lt_of_registered (hinv : Consistent w) (h : w.Registered s) :
    s < w.nextSession ∧ w.activeClients.lookup (w.sessions s).name = some s := by
  obtain ⟨⟨n, s'⟩, he, rfl⟩ := h
  have hl := AList.mem_lookup_iff.mpr he
  obtain ⟨hlt, hname⟩ := hinv.clients n s' hl
  exact ⟨hlt, by rw [hname]; exact hl⟩

theorem registered_of_lookup {n : Bytes} (h : w.activeClients.lookup n = some s) :
    w.Registered s := ⟨⟨n, s⟩, AList.mem_lookup_iff.mp h, rfl⟩

theorem step_store (hinv : Consistent w) (ha : Allowed i j w o) (he : exec i j o ch w = some (r, w')) :
    Sound w'.db ∧ Extends w.db w'.db := by
  have same (hdb : w'.db = w.db) : Sound w'.db ∧ Extends w.db w'.db := by
    rw [hdb]
    exact ⟨hinv.store, .refl _⟩
  have frame (hm : .messages ∉ writes o) (hc : .correlations ∉ writes o) :
      Sound w'.db ∧ Extends w.db w'.db := by
    have hf := exec_frame he
    obtain ⟨hm, hl⟩ := hf.messages (by simp [hm])
    have hc := hf.correlations (by simp [hc])
    refine ⟨sound_of_correlations hinv.store hm hl fun k hk ↦ .inl (hc ▸ hk), fun r hr ↦ ?_⟩
    exact ⟨r.status, hm ▸ hr⟩
  cases o with
  | saveMessage c =>
    obtain ⟨-, -, hdb⟩ | ⟨-, hdb⟩ := exec_saveMessage he
    · exact same hdb
    · rw [hdb]
      refine ⟨sound_saveMessage hinv.store _ ha.1 fun id hid ↦ ?_, extends_saveMessage _ _⟩
      obtain hin | ⟨s, c₀, -, -, hc₀, rfl, -⟩ := ha.2
      · exact absurd hid (hin.source ▸ nofun)
      · obtain ⟨r, hr, hrid, hrc⟩ :=
          (hinv.queues s c₀ (List.mem_of_mem_head? hc₀)).row id hid
        have hrec := hrc.records
        exact ⟨r, hr, hrid, ⟨hrec.type, hrec.flags, hrec.correlationId, hrec.sender,
          (CText.of_val _).symm, hrec.payload⟩, hrc.accepted⟩
  | saveCorrelation id corr n =>
    obtain ⟨-, -, hdb⟩ | ⟨-, hdb⟩ := exec_saveCorrelation he
    · exact same hdb
    · refine ⟨sound_saveCorrelation hinv.store ha.1 ha.2 hdb, fun r hr ↦ ⟨r.status, ?_⟩⟩
      rw [(saveCorrelation_eq_some hdb).1]
      exact hr
  | markAckReceived id n =>
    obtain hdb | hdb := exec_markAckReceived he
    · exact same hdb
    · rw [hdb]
      refine ⟨sound_markAckReceived hinv.store n, fun r hr ↦ ⟨r.status, ?_⟩⟩
      rw [(markAckReceived_eq n).1]
      exact hr
  | markDelivered id =>
    obtain ⟨-, -, hdb⟩ | ⟨-, hdb⟩ := exec_markDelivered he
    · exact same hdb
    · rw [hdb]
      exact ⟨sound_setStatus hinv.store (nomatch ·), extends_setStatus _ _⟩
  | markSent id =>
    obtain ⟨-, -, hdb⟩ | ⟨-, hdb⟩ := exec_markSent he
    · exact same hdb
    · rw [hdb]
      exact ⟨sound_setStatus hinv.store fun _ ↦ ha, extends_setStatus _ _⟩
  | markPending id =>
    obtain ⟨-, -, hdb⟩ | ⟨-, hdb⟩ := exec_markPending he
    · exact same hdb
    · rw [hdb]
      exact ⟨sound_setStatus hinv.store (nomatch ·), extends_setStatus _ _⟩
  | _ => exact frame (by simp [writes]) (by simp [writes])

theorem step_queues (hinv : Consistent w) (ha : Allowed i j w o) (he : exec i j o ch w = some (r, w')) :
    ∀ s, ∀ c ∈ (w'.sessions s).outgoingQueue, Authentic w'.db c := by
  have hx := (step_store hinv ha he).2
  have old (s : ℕ) (c : Copy) (hc : c ∈ (w.sessions s).outgoingQueue) : Authentic w'.db c :=
    (hinv.queues s c hc).mono hx
  have frame (hq : .queues ∉ writes o) (s : ℕ) (c : Copy)
      (hc : c ∈ (w'.sessions s).outgoingQueue) : Authentic w'.db c :=
    old s c ((exec_frame he).queues (by simp [hq]) s ▸ hc)
  intro s c hc
  cases o with
  | pushQueue s' c' =>
    rw [exec_pushQueue he s] at hc
    split at hc
    · rcases List.mem_append.mp hc with hc | hc
      · exact old s c hc
      · rw [List.mem_singleton.mp hc]
        exact ha.2.2.authentic.mono hx
    · exact old s c hc
  | popQueue s' =>
    rw [exec_popQueue he s] at hc
    split at hc
    · exact old s c (List.mem_of_mem_tail hc)
    · exact old s c hc
  | newSession identity n =>
    obtain ⟨-, -, hne, hnew⟩ := exec_newSession he
    by_cases hs : s = w.nextSession
    · rw [hs, hnew] at hc
      cases hc
    · rw [hne s hs] at hc
      exact old s c hc
  | _ => exact frame (by simp [writes]) s c hc

theorem step_sends (hinv : Consistent w) (ha : Allowed i j w o) (he : exec i j o ch w = some (r, w')) :
    (∀ p ∈ w'.pendingSends, Authentic w'.db p.copy) ∧
      ∀ k, ∀ p ∈ w'.batches k, Authentic w'.db p.copy := by
  have hx := (step_store hinv ha he).2
  have hsends (p : PendingSend) (hp : p ∈ w.pendingSends) : Authentic w'.db p.copy :=
    (hinv.sends p hp).mono hx
  have hbatch (k : ℕ) (p : PendingSend) (hp : p ∈ w.batches k) : Authentic w'.db p.copy :=
    (hinv.batches k p hp).mono hx
  have own (sends : List PendingSend) (hs : ∀ p ∈ sends, Authentic w'.db p.copy)
      (hb : w'.batches = Function.update w.batches i sends) (k : ℕ) (p : PendingSend)
      (hp : p ∈ w'.batches k) : Authentic w'.db p.copy := by
    rw [hb, Function.update_apply] at hp
    split at hp
    · exact hs p hp
    · exact hbatch k p hp
  have frameS (hq : .pendingSends ∉ writes o) (p : PendingSend) (hp : p ∈ w'.pendingSends) :
      Authentic w'.db p.copy := hsends p ((exec_frame he).pendingSends (by simp [hq]) ▸ hp)
  have frameB (hq : .batches ∉ writes o) (k : ℕ) (p : PendingSend) (hp : p ∈ w'.batches k) :
      Authentic w'.db p.copy :=
    hbatch k p ((exec_frame he).batches (by simp [hq]) ▸ hp)
  cases o with
  | pushPendingSend s c data =>
    refine ⟨fun p hp ↦ ?_, frameB (by simp [writes])⟩
    rw [exec_pushPendingSend he] at hp
    rcases List.mem_append.mp hp with hp | hp
    · exact hsends p hp
    · rw [List.mem_singleton.mp hp]
      exact ha.1.authentic.mono hx
  | takePendingSends =>
    obtain ⟨-, hp, hb⟩ := exec_takePendingSends he
    refine ⟨by simp [hp], ?_⟩
    split at hb
    · exact fun k p hp ↦ hbatch k p (hb ▸ hp)
    · exact own _ hsends hb
  | callback send success =>
    refine ⟨frameS (by simp [writes]), own _ (fun p hp ↦ ?_) (exec_callback he).1⟩
    rcases List.mem_append.mp hp with hp | hp
    · obtain ⟨q, hq, rfl⟩ := Option.map_eq_some_iff.mp (Option.mem_toList.mp hp)
      exact hbatch i q (List.mem_of_mem_head? hq)
    · exact hbatch i p (List.mem_of_mem_tail hp)
  | popSend =>
    exact ⟨frameS (by simp [writes]),
      own _ (fun p hp ↦ hbatch i p (List.mem_of_mem_tail hp)) (exec_popSend he)⟩
  | _ => exact ⟨frameS (by simp [writes]), frameB (by simp [writes])⟩

theorem step_names (hinv : Consistent w) (ha : Allowed i j w o) (he : exec i j o ch w = some (r, w')) :
    w.nextSession ≤ w'.nextSession ∧
      (∀ s < w.nextSession, (w'.sessions s).name = (w.sessions s).name) ∧
      ∀ s < w'.nextSession, (w'.sessions s).name.length ≤ 255 := by
  have frame (hq : .allocation ∉ writes o) : w.nextSession ≤ w'.nextSession ∧
      (∀ s < w.nextSession, (w'.sessions s).name = (w.sessions s).name) ∧
      ∀ s < w'.nextSession, (w'.sessions s).name.length ≤ 255 := by
    have hn := (exec_frame he).nextSession (by simp [hq])
    have hname := (exec_frame he).name (by simp [hq])
    exact ⟨hn.ge, fun s _ ↦ hname s, fun s hs ↦ hname s ▸ hinv.names s (hn ▸ hs)⟩
  cases o with
  | newSession identity n =>
    obtain ⟨-, hn, hne, hnew⟩ := exec_newSession he
    refine ⟨by omega, fun s hs ↦ by rw [hne s (by omega)], fun s hs ↦ ?_⟩
    by_cases h : s = w.nextSession
    · rw [h, hnew]
      exact ha.1
    · rw [hne s h]
      exact hinv.names s (by omega)
  | _ => exact frame (by simp [writes])

theorem step_offline (hinv : Consistent w) (ha : Allowed i j w o) (he : exec i j o ch w = some (r, w')) :
    (∀ s < w.nextSession, (w.sessions s).isOnline = false → (w'.sessions s).isOnline = false) ∧
      ∀ s, (w'.sessions s).outgoingQueue ≠ [] → (w'.sessions s).isOnline = false := by
  have frame (hp : .presence ∉ writes o) (s : ℕ) :
      (w'.sessions s).isOnline = (w.sessions s).isOnline :=
    (exec_frame he).presence (by simp [hp]) s
  have frameQ (hq : .queues ∉ writes o) (s : ℕ) :
      (w'.sessions s).outgoingQueue = (w.sessions s).outgoingQueue :=
    (exec_frame he).queues (by simp [hq]) s
  have still (hp : .presence ∉ writes o) (s : ℕ) (hs : (w.sessions s).isOnline = false) :
      (w'.sessions s).isOnline = false := (frame hp s).trans hs
  have only (hq : .queues ∉ writes o)
      (hoff : ∀ s, (w.sessions s).isOnline = false → (w'.sessions s).isOnline = false) :
      (∀ s < w.nextSession, (w.sessions s).isOnline = false → (w'.sessions s).isOnline = false) ∧
        ∀ s, (w'.sessions s).outgoingQueue ≠ [] → (w'.sessions s).isOnline = false :=
    ⟨fun s _ ↦ hoff s, fun s hs ↦ hoff s (hinv.offline s (frameQ hq s ▸ hs))⟩
  cases o with
  | markOffline s' =>
    exact only (by simp [writes]) fun s hs ↦ by rw [exec_markOffline he, hs, Bool.and_false]
  | callback send success =>
    exact only (by simp [writes]) fun s hs ↦ by rw [(exec_callback he).2, hs, Bool.and_false]
  | newSession identity n =>
    obtain ⟨-, -, hne, hnew⟩ := exec_newSession he
    refine ⟨fun s hs ho ↦ by rw [hne s (Nat.ne_of_lt hs), ho], fun s hs ↦ ?_⟩
    by_cases h : s = w.nextSession
    · rw [h, hnew] at hs
      exact absurd rfl hs
    · rw [hne s h] at hs ⊢
      exact hinv.offline s hs
  | pushQueue s' c =>
    have hoff := still (by simp [writes])
    refine ⟨fun s _ ↦ hoff s, fun s hs ↦ hoff s ?_⟩
    rw [exec_pushQueue he] at hs
    split at hs
    · next h => exact h ▸ ha.2.1
    · exact hinv.offline s hs
  | popQueue s' =>
    have hoff := still (by simp [writes])
    refine ⟨fun s _ ↦ hoff s, fun s hs ↦ hoff s (hinv.offline s fun hn ↦ hs ?_)⟩
    rw [exec_popQueue he, hn, List.tail_nil, ite_self]
  | _ => exact only (by simp [writes]) (still (by simp [writes]))

theorem step_uncalled (hinv : Consistent w) (he : exec i j o ch w = some (r, w')) :
    ∀ p ∈ w'.pendingSends, p.called = false := by
  have frame (h : .pendingSends ∉ writes o) : ∀ p ∈ w'.pendingSends, p.called = false := by
    rw [(exec_frame he).pendingSends (by simp [h])]
    exact hinv.uncalled
  intro p hp
  cases o with
  | pushPendingSend s c data =>
    rw [exec_pushPendingSend he] at hp
    rcases List.mem_append.mp hp with hp | hp
    · exact hinv.uncalled p hp
    · rw [List.mem_singleton.mp hp]
  | takePendingSends =>
    rw [(exec_takePendingSends he).2.1] at hp
    cases hp
  | _ => exact frame (by simp [writes]) p hp

theorem step_unused (hinv : Consistent w) (ha : Allowed i j w o) (he : exec i j o ch w = some (r, w')) :
    ∀ s, w'.nextSession ≤ s → (w'.sessions s).owners = [] ∧
      (w'.sessions s).outgoingQueue = [] ∧ (w'.sessions s).queueOwner = none := by
  intro s hs
  have hlt : w.nextSession ≤ s := (step_names hinv ha he).1.trans hs
  obtain ⟨ho, hq, hl⟩ := hinv.unused s hlt
  have frameO (h : .owners ∉ writes o) : (w'.sessions s).owners = [] :=
    ((exec_frame he).owners (by simp [h]) s).trans ho
  have frameQ (h : .queues ∉ writes o) : (w'.sessions s).outgoingQueue = [] :=
    ((exec_frame he).queues (by simp [h]) s).trans hq
  have frameL (h : .queueOwners ∉ writes o) : (w'.sessions s).queueOwner = none :=
    ((exec_frame he).queueOwners (by simp [h]) s).trans hl
  have acquired (n : Bytes) : w.activeClients.lookup n ≠ some s := fun hn ↦ by
    have := (hinv.clients n s hn).1
    omega
  cases o with
  | findClient n =>
    refine ⟨?_, frameQ (by simp [writes]), frameL (by simp [writes])⟩
    obtain ⟨hr, hown⟩ := exec_findClient he
    rw [hown, if_neg (hr ▸ acquired n), ho]
  | removeClient n =>
    refine ⟨?_, frameQ (by simp [writes]), frameL (by simp [writes])⟩
    obtain ⟨-, x, hx, hown⟩ := exec_removeClient he
    rw [hown, if_neg (hx ▸ acquired n), ho]
  | release s' =>
    refine ⟨?_, frameQ (by simp [writes]), frameL (by simp [writes])⟩
    rw [(exec_release he).2, ho, List.erase_nil, ite_self]
  | newSession identity n =>
    obtain ⟨-, hn, hne, -⟩ := exec_newSession he
    rw [hne s (by omega)]
    exact ⟨ho, hq, hl⟩
  | lockQueue s' =>
    refine ⟨frameO (by simp [writes]), frameQ (by simp [writes]), ?_⟩
    rw [(exec_lockQueue he).2, if_neg (by have := ha.1; omega), hl]
  | unlockQueue s' =>
    refine ⟨frameO (by simp [writes]), frameQ (by simp [writes]), ?_⟩
    rw [exec_unlockQueue he, hl, ite_self]
  | pushQueue s' c =>
    refine ⟨frameO (by simp [writes]), ?_, frameL (by simp [writes])⟩
    have hlt' := hinv.lt_of_pointer ha.2.2.pointer
    rw [exec_pushQueue he, if_neg (by omega), hq]
  | popQueue s' =>
    refine ⟨frameO (by simp [writes]), ?_, frameL (by simp [writes])⟩
    rw [exec_popQueue he, hq, List.tail_nil, ite_self]
  | _ => exact ⟨frameO (by simp [writes]), frameQ (by simp [writes]), frameL (by simp [writes])⟩

theorem step_clients (hinv : Consistent w) (ha : Allowed i j w o) (he : exec i j o ch w = some (r, w')) :
    ∀ n s, w'.activeClients.lookup n = some s →
      s < w'.nextSession ∧ (w'.sessions s).name = n := by
  obtain ⟨hle, hname, -⟩ := step_names hinv ha he
  have old (n : Bytes) (s : ℕ) (hs : w.activeClients.lookup n = some s) :
      s < w'.nextSession ∧ (w'.sessions s).name = n := by
    obtain ⟨hlt, hn⟩ := hinv.clients n s hs
    exact ⟨by omega, (hname s hlt).trans hn⟩
  have frame (hq : .clients ∉ writes o) (n : Bytes) (s : ℕ)
      (hs : w'.activeClients.lookup n = some s) : s < w'.nextSession ∧ (w'.sessions s).name = n :=
    old n s ((exec_frame he).clients (by simp [hq]) ▸ hs)
  intro n s hs
  cases o with
  | setClient n' s' =>
    rw [exec_setClient he] at hs
    by_cases hn : n = n'
    · rw [hn, AList.lookup_insert] at hs
      obtain rfl := Option.some.inj hs
      have hlt := hinv.lt_of_pointer ha.2.2.1
      exact ⟨by omega, (hname s' hlt).trans (ha.2.1.trans hn.symm)⟩
    · rw [AList.lookup_insert_ne hn] at hs
      exact old n s hs
  | removeClient n' =>
    rw [(exec_removeClient he).1] at hs
    by_cases hn : n = n'
    · rw [hn, AList.lookup_erase] at hs
      cases hs
    · rw [AList.lookup_erase_ne hn] at hs
      exact old n s hs
  | _ => exact frame (by simp [writes]) n s hs

theorem step_dead (hinv : Consistent w) (ha : Allowed i j w o) (he : exec i j o ch w = some (r, w')) :
    ∀ s, Dead w s → Dead w' s ∧
      ((w.sessions s).outgoingQueue = [] → (w'.sessions s).outgoingQueue = []) := by
  intro s hd
  obtain ⟨hlt, ho, hreg⟩ := hd
  have hlt' : s < w'.nextSession := Nat.lt_of_lt_of_le hlt (step_names hinv ha he).1
  have acquired (n : Bytes) : w.activeClients.lookup n ≠ some s :=
    fun hn ↦ hreg (registered_of_lookup hn)
  have frameO (h : .owners ∉ writes o) : (w'.sessions s).owners = [] :=
    ((exec_frame he).owners (by simp [h]) s).trans ho
  have frameC (h : .clients ∉ writes o) : ¬ w'.Registered s := by
    rw [World.Registered, (exec_frame he).clients (by simp [h])]
    exact hreg
  have frameQ (h : .queues ∉ writes o) : (w.sessions s).outgoingQueue = [] →
      (w'.sessions s).outgoingQueue = [] :=
    ((exec_frame he).queues (by simp [h]) s).trans
  have pointed (s' : ℕ) (h : 0 < (hold i w).pointers s') : s ≠ s' :=
    fun hs ↦ owners_of_pointer h (hs ▸ ho)
  cases o with
  | findClient n =>
    obtain ⟨hr, hown⟩ := exec_findClient he
    refine ⟨⟨hlt', ?_, frameC (by simp [writes])⟩, frameQ (by simp [writes])⟩
    rw [hown, if_neg (hr ▸ acquired n), ho]
  | removeClient n =>
    obtain ⟨hc, x, hx, hown⟩ := exec_removeClient he
    refine ⟨⟨hlt', ?_, ?_⟩, frameQ (by simp [writes])⟩
    · rw [hown, if_neg (hx ▸ acquired n), ho]
    · rintro ⟨⟨n', s'⟩, hm, rfl⟩
      rw [hc] at hm
      exact hreg ⟨_, (List.kerase_sublist n _).subset hm, rfl⟩
  | setClient n s' =>
    refine ⟨⟨hlt', frameO (by simp [writes]), ?_⟩, frameQ (by simp [writes])⟩
    rintro ⟨⟨n', s''⟩, hm, rfl⟩
    rw [exec_setClient he, AList.entries_insert] at hm
    rcases List.mem_cons.mp hm with hm | hm
    · cases hm
      exact pointed s' ha.2.2.1 rfl
    · exact hreg ⟨_, (List.kerase_sublist n _).subset hm, rfl⟩
  | release s' =>
    refine ⟨⟨hlt', ?_, frameC (by simp [writes])⟩, frameQ (by simp [writes])⟩
    rw [(exec_release he).2, ho, List.erase_nil, ite_self]
  | newSession identity n =>
    obtain ⟨-, -, hne, -⟩ := exec_newSession he
    refine ⟨⟨hlt', ?_, frameC (by simp [writes])⟩, fun hq ↦ ?_⟩
    · rw [hne s (Nat.ne_of_lt hlt), ho]
    · rw [hne s (Nat.ne_of_lt hlt), hq]
  | pushQueue s' c =>
    refine ⟨⟨hlt', frameO (by simp [writes]), frameC (by simp [writes])⟩, fun hq ↦ ?_⟩
    rw [exec_pushQueue he, if_neg (pointed s' ha.2.2.pointer), hq]
  | popQueue s' =>
    refine ⟨⟨hlt', frameO (by simp [writes]), frameC (by simp [writes])⟩, fun hq ↦ ?_⟩
    rw [exec_popQueue he, hq, List.tail_nil, ite_self]
  | _ =>
    exact ⟨⟨hlt', frameO (by simp [writes]), frameC (by simp [writes])⟩, frameQ (by simp [writes])⟩

theorem step_destroyed (hinv : Consistent w) (ha : Allowed i j w o)
    (he : exec i j o ch w = some (r, w')) :
    ∀ s, (w'.sessions s).destroyed = true → Dead w' s ∧ (w'.sessions s).outgoingQueue = [] := by
  have old (s : ℕ) (hs : Dead w s ∧ (w.sessions s).outgoingQueue = []) :
      Dead w' s ∧ (w'.sessions s).outgoingQueue = [] :=
    have ⟨hd, hq⟩ := step_dead hinv ha he s hs.1
    ⟨hd, hq hs.2⟩
  have frame (h : .destroyed ∉ writes o) (s : ℕ) (hs : (w'.sessions s).destroyed = true) :
      Dead w' s ∧ (w'.sessions s).outgoingQueue = [] :=
    old s (hinv.destroyed s ((exec_frame he).destroyed (by simp [h]) s ▸ hs))
  intro s hs
  cases o with
  | destroySession s' =>
    rw [exec_destroySession he, Bool.or_eq_true, decide_eq_true_eq] at hs
    rcases hs with rfl | hs
    · exact old s ha
    · exact old s (hinv.destroyed s hs)
  | newSession identity n =>
    obtain ⟨-, -, hne, hnew⟩ := exec_newSession he
    by_cases h : s = w.nextSession
    · rw [h, hnew] at hs
      cases hs
    · rw [hne s h] at hs
      exact old s (hinv.destroyed s hs)
  | _ => exact frame (by simp [writes]) s hs

theorem step_identity (he : exec i j o ch w = some (r, w')) :
    ∀ s < w.nextSession, (w'.sessions s).identity = (w.sessions s).identity := by
  intro s hs
  by_cases ho : ∃ identity n, o = .newSession identity n
  · obtain ⟨identity, n, rfl⟩ := ho
    rw [(exec_newSession he).2.2.1 s (Nat.ne_of_lt hs)]
  · exact (exec_aside he).identity (fun identity n h ↦ ho ⟨identity, n, h⟩) s

theorem step_grows (hinv : Consistent w) (ha : Allowed i j w o) (he : exec i j o ch w = some (r, w')) :
    Grows w w' where
  db := (step_store hinv ha he).2
  sessions := (step_names hinv ha he).1
  name := (step_names hinv ha he).2.1
  identity := step_identity he
  offline := (step_offline hinv ha he).1
  dead := step_dead hinv ha he
  metrics := (exec_frame he).metrics
  terminated ht := by
    rw [(exec_cases he).1] at ht
    cases ht

theorem step_inv (hinv : Consistent w) (ha : Allowed i j w o) (he : exec i j o ch w = some (r, w')) :
    Consistent w' where
  store := (step_store hinv ha he).1
  queues := step_queues hinv ha he
  sends := (step_sends hinv ha he).1
  batches := (step_sends hinv ha he).2
  uncalled := step_uncalled hinv he
  offline := (step_offline hinv ha he).2
  names := (step_names hinv ha he).2.2
  unused := step_unused hinv ha he
  clients := step_clients hinv ha he
  destroyed := step_destroyed hinv ha he

section Others

variable {i' : ℕ} (hi : i' ≠ i) (ha : Allowed i j w o) (he : exec i j o ch w = some (r, w'))
include hi ha he

theorem step_registry : (hold i' w').registry = (hold i' w).registry := by
  have frame (h : .registryOwner ∉ writes o) : (hold i' w').registry = (hold i' w).registry := by
    simp only [hold, (exec_frame he).registryOwner (by simp [h])]
  cases o with
  | lockRegistry =>
    obtain ⟨hn, hs⟩ := exec_lockRegistry he
    simp [hold, hn, hs, Ne.symm hi]
  | unlockRegistry =>
    have hs : w.registryOwner = some i := of_decide_eq_true ha
    simp [hold, exec_unlockRegistry he, hs, Ne.symm hi]
  | _ => exact frame (by simp [writes])

theorem step_queueOwner (hinv : Consistent w) (s : ℕ) : (hold i' w').queues s = (hold i' w).queues s := by
  have frame (h : .queueOwners ∉ writes o) : (hold i' w').queues s = (hold i' w).queues s := by
    simp only [hold, (exec_frame he).queueOwners (by simp [h])]
  cases o with
  | lockQueue s' =>
    obtain ⟨hn, hs⟩ := exec_lockQueue he
    simp only [hold, hs]
    split
    · next h => simp [h, hn, Ne.symm hi]
    · rfl
  | unlockQueue s' =>
    have hs : (w.sessions s').queueOwner = some i := of_decide_eq_true ha.1
    simp only [hold, exec_unlockQueue he]
    split
    · next h => simp [h, hs, Ne.symm hi]
    · rfl
  | newSession identity n =>
    obtain ⟨-, -, hne, hnew⟩ := exec_newSession he
    by_cases h : s = w.nextSession
    · have hn := (hinv.unused s h.ge).2.2
      subst h
      simp [hold, hnew, hn]
    · simp only [hold, hne s h]
  | _ => exact frame (by simp [writes])

theorem step_pointers (hinv : Consistent w) (s : ℕ) : (hold i' w').pointers s = (hold i' w).pointers s := by
  have frame (h : .owners ∉ writes o) : (hold i' w').pointers s = (hold i' w).pointers s := by
    simp only [hold, (exec_frame he).owners (by simp [h])]
  cases o with
  | findClient n =>
    simp only [hold, (exec_findClient he).2]
    split
    · exact List.count_cons_of_ne (Ne.symm hi)
    · rfl
  | removeClient n =>
    obtain ⟨-, x, -, hown⟩ := exec_removeClient he
    simp only [hold, hown]
    split
    · exact List.count_cons_of_ne (Ne.symm hi)
    · rfl
  | release s' =>
    simp only [hold, (exec_release he).2]
    split
    · exact List.count_erase_of_ne hi
    · rfl
  | newSession identity n =>
    obtain ⟨-, -, hne, hnew⟩ := exec_newSession he
    by_cases h : s = w.nextSession
    · have hn := (hinv.unused s h.ge).1
      subst h
      simp [hold, hnew, hn, Ne.symm hi]
    · simp only [hold, hne s h]
  | _ => exact frame (by simp [writes])

theorem step_batch : (hold i' w').batch = (hold i' w).batch := by
  have frame (h : .batches ∉ writes o) : (hold i' w').batch = (hold i' w).batch := by
    simp only [hold, (exec_frame he).batches (by simp [h])]
  cases o with
  | takePendingSends =>
    simp only [hold, (exec_takePendingSends he).2.2]
    split
    · rfl
    · exact Function.update_of_ne hi _ _
  | callback send success =>
    simp only [hold, (exec_callback he).1]
    exact Function.update_of_ne hi _ _
  | popSend =>
    simp only [hold, exec_popSend he]
    exact Function.update_of_ne hi _ _
  | _ => exact frame (by simp [writes])

theorem step_ownClients (hr : (hold i' w).registry = true) :
    w'.activeClients = w.activeClients := by
  have other (h : (hold i w).registry = true) : False := by
    have hs' : w.registryOwner = some i' := of_decide_eq_true hr
    have hs : w.registryOwner = some i := of_decide_eq_true h
    rw [hs'] at hs
    exact hi (Option.some.inj hs)
  cases o with
  | setClient => exact (other ha.1).elim
  | removeClient => exact (other ha.1).elim
  | _ => exact (exec_frame he).clients (by simp [writes])

theorem step_ownQueue (hinv : Consistent w) (s : ℕ) (hs : (hold i' w).queues s = true) :
    (w'.sessions s).outgoingQueue = (w.sessions s).outgoingQueue := by
  have hs' : (w.sessions s).queueOwner = some i' := of_decide_eq_true hs
  have other (s' : ℕ) (h : (hold i w).queues s' = true) : s ≠ s' := fun heq ↦ by
    have h' : (w.sessions s').queueOwner = some i := of_decide_eq_true h
    rw [← heq, hs'] at h'
    exact hi (Option.some.inj h')
  cases o with
  | pushQueue s' c => rw [exec_pushQueue he, if_neg (other s' ha.1)]
  | popQueue s' => rw [exec_popQueue he, if_neg (other s' ha.1)]
  | newSession identity n =>
    have hne : s ≠ w.nextSession := fun h ↦ by
      rw [(hinv.unused s h.ge).2.2] at hs'
      cases hs'
    rw [(exec_newSession he).2.2.1 s hne]
  | _ => exact (exec_frame he).queues (by simp [writes]) s

theorem step_rely (hinv : Consistent w) : Rely i' w w' where
  owns := by
    have hr := step_registry hi ha he
    have hq := funext (step_queueOwner hi ha he hinv)
    have hp := funext (step_pointers hi ha he hinv)
    have hb := step_batch hi ha he
    cases h : hold i' w'
    cases h' : hold i' w
    simp_all
  books := account_exec_ne he hi
  clients := step_ownClients hi ha he
  queue := step_ownQueue hi ha he hinv
  grows := step_grows hinv ha he

end Others

theorem rely_of_eq (hdb : w'.db = w.db) (hc : w'.activeClients = w.activeClients)
    (hr : w'.registryOwner = w.registryOwner) (hs : w'.sessions = w.sessions)
    (hn : w'.nextSession = w.nextSession) (hb : w'.batches = w.batches)
    (hm : w'.metrics = w.metrics) (hl : w'.log = w.log)
    (ht : w'.terminated = w.terminated) : Rely i w w' where
  owns := hold_eq hr (by simp [hs]) (by simp [hs]) (by rw [hb])
  books := by rw [hl]
  clients _ := hc
  queue s _ := by rw [hs]
  grows := by
    refine ⟨hdb ▸ .refl _, hn.ge, by simp [hs], by simp [hs], by simp [hs], fun s hd ↦ ?_,
      by rw [hm], by rw [ht]; exact id⟩
    simpa only [Dead, World.Registered, hs, hn, hc, id_eq, imp_self, and_true] using hd

theorem inv_of_eq (hinv : Consistent w) (hdb : w'.db = w.db) (hc : w'.activeClients = w.activeClients)
    (hs : w'.sessions = w.sessions) (hn : w'.nextSession = w.nextSession)
    (hp : w'.pendingSends = w.pendingSends) (hb : w'.batches = w.batches) : Consistent w' := by
  obtain ⟨h₁, h₂, h₃, h₄, h₅, h₆, h₇, h₈, h₉, h₁₀⟩ := hinv
  constructor <;> simpa only [Dead, World.Registered, hdb, hc, hs, hn, hp, hb]

theorem inv_initial (metrics : Option Metrics) : Consistent (ServerJobs.initial metrics) := by
  constructor <;> simp [ServerJobs.initial, sound_empty, AList.lookup_empty]

/-- A thread that has nothing left to do: it owns nothing and owes nothing. -/
structure AtRest (i : ℕ) (w : World) : Prop where
  owns : hold i w = .free
  unpopped : (account i w.log).unpopped = false
  settled : (account i w.log).debt = [] ∨ (account i w.log).failed = true

theorem AtRest.rely (h : AtRest i w) (hr : Rely i w w') : AtRest i w' :=
  ⟨hr.owns.trans h.owns, hr.books ▸ h.unpopped, hr.books ▸ h.settled⟩

theorem atRest_initial (i : ℕ) (metrics : Option Metrics) :
    AtRest i (ServerJobs.initial metrics) := by
  constructor <;> simp [ServerJobs.initial, hold, Hold.free, account]

/-- The outline of the broker: every thread performs only operations that are
allowed to it, whatever the other threads do in between. -/
def outline (cfg : Config) : ThreadPools.Outline (ServerJobs.broker cfg) where
  admits _ _ := True
  rely := Rely
  inv := Consistent
  allowed i j o w := w.terminated = false → Allowed i j w o
  fresh := AtRest
  rely_refl _ _ := .refl
  rely_trans _ := .trans
  step hinv ha _ he :=
    have ha := ha (exec_cases he).1
    ⟨step_inv hinv ha he, fun _ hi ↦ step_rely hi ha he hinv⟩
  start {j w w'} hinv hs := by
    cases j with
    | sendTask =>
      simp only [ServerJobs.broker, ServerJobs.start] at hs
      split at hs
      · cases hs
      · cases hs
        exact ⟨inv_of_eq hinv rfl rfl rfl rfl rfl rfl,
          fun i ↦ rely_of_eq rfl rfl rfl rfl rfl rfl rfl rfl rfl⟩
    | _ =>
      obtain rfl := Option.some.inj hs
      exact ⟨hinv, fun i ↦ .refl⟩
  tick hinv :=
    ⟨inv_of_eq hinv rfl rfl rfl rfl rfl rfl,
      fun _ ↦ rely_of_eq rfl rfl rfl rfl rfl rfl rfl rfl rfl⟩
  fresh_rely := AtRest.rely

end MessageBroker.SharedInvariant
