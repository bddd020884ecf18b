import MessageBroker.CarriedCopies
import MessageBroker.OutgoingMessages
import MessageBroker.SendOwnership
import MessageBroker.FrameTriples

namespace MessageBroker.MessageOrigins

open ByteStrings WireMessages MessageStore ProgramTrees Protocols BrokerState SessionQueues MessageHandlers
  ServerJobs StoreInvariant OperationEffects SharedInvariant ServerOutlines RunInvariants ThreadPhases
  CarriedCopies
open OutgoingMessages (takes)
open SendOwnership (Waiting)
open SendPasses (pass)

variable {K : ∀ {α : Type}, Program α → Prop} {α : Type} {cfg : Config} {ok : State → Step → Prop}
  {metrics : Option Metrics} {S : State} {w w' : World} {i : ℕ} {j : Job} {o : Op} {ch : Choice} {r : o.Res}
  {s : ℕ} {c c₀ : Copy} {m m' : Message} {send : PendingSend} {n : Bytes}

/-- The copy under which the front of a queue is persisted. -/
def Renamed (c₀ c : Copy) : Prop := ∃ n, c = { c₀ with msg := { c₀.msg with destination := n } }

/-- The phase of a thread is the copy that it took last from the front of a
queue. Apart from it, a thread saves and passes on only copies of its own; and
it opens a session only for the client that registers with it. -/
def copyProtocol (j : Job) : Protocol Op Op.Res (Option Copy) where
  may front
    | .saveMessage c => (∃ msg, Receives j msg ∧ First msg c) ∨ ∃ c₀, front = some c₀ ∧ Renamed c₀ c
    | .pushQueue _ c | .pushPendingSend _ c _ => Onward j c ∨ front = some c
    | .newSession identity name => Opens j identity name
    | _ => True
  next front
    | .queueFront _, r => r
    | _, _ => front

/-- The program follows the protocol wherever it starts. -/
abbrev Anywhere (j : Job) {α : Type} (p : Program α) : Prop := Within (copyProtocol j) (fun _ ↦ True) p

theorem anywhere_other (ho : carries o = false) : Anywhere j (perform o) := by
  refine Within.perform fun front _ ↦ ⟨?_, fun _ ↦ trivial⟩
  cases o with
  | saveMessage | pushQueue | pushPendingSend | newSession => cases ho
  | _ => trivial

theorem anywhere_withQueueLock {p : Program α} (hp : Anywhere j p) : Anywhere j (withQueueLock s p) :=
  (Within.composable _ _).bind (Within.perform fun _ _ ↦ ⟨trivial, fun _ ↦ trivial⟩) fun _ ↦
    (Within.composable _ _).ensuring hp (Within.perform fun _ _ ↦ ⟨trivial, fun _ ↦ trivial⟩)

theorem anywhere_queueSize : Anywhere j (perform (.queueSize s)) :=
  Within.perform fun _ _ ↦ ⟨trivial, fun _ ↦ trivial⟩

theorem anywhere_persistLoop (k : ℕ) : Anywhere j (persistLoop s k) := by
  induction k with
  | zero => exact (Within.composable _ _).ret ()
  | succ k ih =>
    refine fun front _ ↦ ⟨trivial, fun r ↦ ?_⟩
    match r with
    | none => trivial
    | some c =>
      -- the name is read and the copy saved before anything else is taken from a queue
      refine ⟨trivial, fun n ↦ ⟨.inr ⟨c, rfl, n, rfl⟩, fun saved ↦ ?_⟩⟩
      cases saved with
      | error e => trivial
      | ok id => exact ⟨trivial, fun _ ↦ ih _ trivial⟩

theorem anywhere_enqueueMessage (hc : Onward j c) : Anywhere j (enqueueMessage s c) := by
  have h := Within.composable (copyProtocol j) fun _ ↦ True
  exact anywhere_withQueueLock (h.bind (Within.perform fun _ _ ↦ ⟨.inl hc, fun _ ↦ trivial⟩) fun _ ↦
    h.bind anywhere_queueSize fun size ↦ h.when (anywhere_persistLoop (size / 2)))

theorem anywhere_flushLoop (k : ℕ) : Anywhere j (flushLoop s k) := by
  induction k with
  | zero => exact (Within.composable _ _).ret ()
  | succ k ih =>
    refine fun front _ ↦ ⟨trivial, fun r ↦ ?_⟩
    match r with
    | none => trivial
    | some c =>
      refine ⟨trivial, fun online ↦ ?_⟩
      cases online with
      | false => trivial
      | true =>
        refine ⟨trivial, fun _ ↦ ?_⟩
        have send : Follows (copyProtocol j) (fun _ _ ↦ True) (fun _ _ ↦ True) (sendZmqMessage s c)
          (some c) := by
          unfold sendZmqMessage
          cases serialize c.msg with
          | error e => exact ⟨trivial, fun _ ↦ trivial⟩
          | ok data => exact ⟨.inr rfl, fun _ ↦ ⟨trivial, fun _ ↦ trivial⟩⟩
        change Follows _ _ _ ((sendZmqMessage s c).bind fun _ ↦ flushLoop s k) (some c)
        exact send.bind fun _ front _ ↦ ih front trivial

theorem carrying : Carrying (Anywhere j) (fun c ↦ ∃ msg, Receives j msg ∧ First msg c) (Onward j) (Opens j) where
  toComposable := Within.composable _ _
  other _ ho := anywhere_other ho
  newSession _ _ hopen := Within.perform fun _ _ ↦ ⟨hopen, fun _ ↦ trivial⟩
  saveMessage _ hc := (Within.composable _ _).bind (Within.perform fun _ _ ↦ ⟨.inl hc, fun _ ↦ trivial⟩) fun r ↦
    (Within.composable _ _).lift r
  sendToClient _ _ _ hc := (Within.composable _ _).bind (Within.perform fun _ _ ↦ ⟨.inl hc, fun _ ↦ trivial⟩)
    fun _ ↦ anywhere_other rfl
  enqueueMessage _ _ hc := anywhere_enqueueMessage hc
  persistQueueToDatabase _ :=
    anywhere_withQueueLock ((Within.composable _ _).bind anywhere_queueSize fun k ↦ anywhere_persistLoop k)
  flushQueue _ := anywhere_withQueueLock
    ((Within.composable _ _).bind anywhere_queueSize fun k ↦ anywhere_flushLoop k)
  queueSize _ := anywhere_withQueueLock anywhere_queueSize

/-- The copy that thread `i` took last from the front of a queue. -/
def front (i : ℕ) (w : World) : Option Copy := phase (copyProtocol .sendTask) none i w.log

theorem phase_eq_front (j : Job) : phase (copyProtocol j) none i w.log = front i w := by
  unfold front
  induction w.log with
  | nil => rfl
  | cons e log ih =>
    rw [phase, phase, ih]
    rfl

theorem may_of_performs (h : (broker cfg).Reachable ok (initial metrics) S)
    (hp : Performs cfg ok S i j o ch r w') :
    (copyProtocol j).may (front i S.world) o := by
  rw [← phase_eq_front j]
  refine may_of_follows (P := copyProtocol) (s := fun _ ↦ none) (Q := fun _ _ ↦ True) (X := fun _ _ ↦ True)
    (fun j ↦ ?_) h hp
  exact carrying.code (fun m hm c hc ↦ ⟨m, hm, hc⟩) (fun _ ↦ id) (fun _ _ ↦ id) none trivial

theorem taken_of_phase {log : List Event} (h : phase (copyProtocol .sendTask) none i log = some c) :
    ∃ e ∈ log, takes e.op e.res = some c := by
  induction log with
  | nil => cases h
  | cons e log ih =>
    rw [phase] at h
    have older (h : phase (copyProtocol .sendTask) none i log = some c) : ∃ e' ∈ e :: log,
      takes e'.op e'.res = some c := by
      obtain ⟨e', he, ht⟩ := ih h
      exact ⟨e', List.mem_cons_of_mem _ he, ht⟩
    split at h
    · obtain ⟨i', j', o, ch, r, t⟩ := e
      cases o with
      | queueFront s => exact ⟨_, List.mem_cons_self, h⟩
      | _ => exact older h
    · exact older h

theorem taken_of_front (h : front i w = some c) : ∃ e ∈ w.log, takes e.op e.res = some c := taken_of_phase h

/-- A message that the broker has begun to route. -/
def Received (w : World) (m : Message) : Prop := ∃ e ∈ w.log, Receives e.job m

/-- A client has registered with a name over the connection of an identity. -/
def Claimed (w : World) (identity name : Bytes) : Prop := ∃ e ∈ w.log, Opens e.job identity name

/-- What the broker may make of a message `m`. A message or a reply stays as it
is, but for what follows a NUL in the names, and for the destination of a reply;
an acknowledgement leads to a notification. -/
structure Comes (m m' : Message) : Prop where
  type : m'.type = m.type
  correlationId : m'.correlationId = m.correlationId
  sender : CText.of m'.sender = .of m.sender
  destination : m.type = .message → CText.of m'.destination = .of m.destination
  content : (m.type = .message ∨ m.type = .reply) ∧ m'.flags = m.flags ∧ m'.payload = m.payload ∨
    m.type = .ack ∧ m'.flags = flagNone ∧ m'.payload = []

def Genuine (w : World) (m' : Message) : Prop := ∃ m, Received w m ∧ Comes m m'

theorem Genuine.like (h : Genuine w m) (ht : m'.type = m.type) (hc : m'.correlationId = m.correlationId)
    (hs : CText.of m'.sender = .of m.sender)
    (hd : m.type = .message → CText.of m'.destination = .of m.destination)
    (hf : m'.flags = m.flags) (hp : m'.payload = m.payload) : Genuine w m' := by
  obtain ⟨m₀, hr, hcomes⟩ := h
  refine ⟨m₀, hr, ht.trans hcomes.type, hc.trans hcomes.correlationId, hs.trans hcomes.sender, fun htype ↦ ?_,
    ?_⟩
  · exact (hd (hcomes.type.trans htype)).trans (hcomes.destination htype)
  rw [hf, hp]
  exact hcomes.content

theorem genuine_records {row : Row} (h : Records row m) : Genuine w row.message ↔ Genuine w m := by
  have hcut (n : Bytes) : CText.of (cString n) = .of n := CText.of_val (.of n)
  rw [h.message_eq]
  exact ⟨fun hg ↦ hg.like rfl rfl (hcut _).symm (fun _ ↦ (hcut _).symm) rfl rfl,
    fun hg ↦ hg.like rfl rfl (hcut _) (fun _ ↦ hcut _) rfl rfl⟩

theorem comes_of_first (h : First m c) : Comes m c.msg := by
  rcases h.made with ⟨ht, hc⟩ | ⟨ht, d, hc⟩ | ⟨ht, d, hc⟩
  · rw [hc]
    exact ⟨rfl, rfl, rfl, fun _ ↦ rfl, .inl ⟨.inl ht, rfl, rfl⟩⟩
  · rw [hc]
    exact ⟨rfl, rfl, rfl, fun hm ↦ absurd (ht.symm.trans hm) nofun, .inl ⟨.inr ht, rfl, rfl⟩⟩
  · rw [hc]
    exact ⟨ht.symm, rfl, rfl, fun hm ↦ absurd (ht.symm.trans hm) nofun, .inr ⟨ht, rfl, rfl⟩⟩

theorem Genuine.renamed (h : Genuine w c₀.msg) (hc : Renamed c₀ c)
    (hd : c₀.msg.type = .message → CText.of c.msg.destination = .of c₀.msg.destination) : Genuine w c.msg := by
  obtain ⟨n, rfl⟩ := hc
  exact h.like rfl rfl rfl hd rfl rfl

/-- The message is addressed to the name, up to a NUL. Replies may go elsewhere. -/
def Directed (m : Message) (n : Bytes) : Prop := m.type ≠ .reply → CText.of m.destination = .of n

/-- The send carries a genuine message, and goes to a client that has registered
with the name to which the message is addressed. -/
structure Honest (w : World) (p : PendingSend) : Prop where
  identity : ∃ n, Claimed w p.identity n ∧ Directed p.copy.msg n
  genuine : Genuine w p.copy.msg
  data : serialize p.copy.msg = .ok p.data

/-- Whatever is stored, queued or on its way is genuine. -/
structure Origins (w : World) : Prop where
  rows : ∀ row ∈ w.db.messages, Genuine w row.message
  sessions : ∀ s < w.nextSession, Claimed w (w.sessions s).identity (w.sessions s).name
  queues : ∀ s, ∀ c ∈ (w.sessions s).outgoingQueue, Genuine w c.msg
  directed : ∀ s, ∀ c ∈ (w.sessions s).outgoingQueue, Directed c.msg (w.sessions s).name
  replies : Replies (fun _ row ↦ row.type = 3) w
  taken : Always (fun e w ↦ ∀ c, takes e.op e.res = some c → Genuine w c.msg) w
  handed : Always (fun e w ↦ ∀ s c, hands e.op = some (s, c) → Genuine w c.msg) w
  waiting : ∀ p, Waiting w p → Honest w p
  current : ∀ i, ∀ d ∈ (pass i w).current, Honest w d.send
  wire : ∀ f ∈ w.wire, Honest w f.1

theorem Received.step (h : Received w m) (he : exec i j o ch w = some (r, w')) : Received w' m := by
  obtain ⟨e, hm, hr⟩ := h
  exact ⟨e, mem_log he hm, hr⟩

theorem Claimed.step {identity : Bytes} (h : Claimed w identity n) (he : exec i j o ch w = some (r, w')) :
    Claimed w' identity n := by
  obtain ⟨e, hm, hr⟩ := h
  exact ⟨e, mem_log he hm, hr⟩

theorem Genuine.step (h : Genuine w m) (he : exec i j o ch w = some (r, w')) : Genuine w' m := by
  obtain ⟨m₀, hr, hc⟩ := h
  exact ⟨m₀, hr.step he, hc⟩

theorem Honest.step (h : Honest w send) (he : exec i j o ch w = some (r, w')) : Honest w' send := by
  obtain ⟨⟨n, hclaimed, hdirected⟩, hg, hd⟩ := h
  exact ⟨⟨n, hclaimed.step he, hdirected⟩, hg.step he, hd⟩

theorem event_mem (he : exec i j o ch w = some (r, w')) : ∃ e ∈ w'.log, e.job = j := by
  rw [exec_log he]
  exact ⟨_, List.mem_cons_self, rfl⟩

theorem received_of_receives (he : exec i j o ch w = some (r, w')) (hm : Receives j m) : Received w' m := by
  obtain ⟨e, hmem, rfl⟩ := event_mem he
  exact ⟨e, hmem, hm⟩

theorem genuine_of_first (he : exec i j o ch w = some (r, w')) (hm : Receives j m) (hc : First m c) :
    Genuine w' c.msg := ⟨m, received_of_receives he hm, comes_of_first hc⟩

theorem Origins.front (h : Origins w) (hc : front i w = some c) : Genuine w c.msg := by
  obtain ⟨e, he, ht⟩ := taken_of_front hc
  exact h.taken e he c ht

/-- A message that is saved keeps its destination: it is a new one, or comes
from the queue of the session with whose name it is saved. -/
theorem saved_destination {r : Except String ℕ} (hp : Performs cfg ok S i j (.saveMessage c) ch r w')
    (h : Origins S.world) (ht : c.msg.type = .message) : Genuine w' c.msg := by
  rcases hp.allowed.2 with ⟨-, -, m, hm, hmade⟩ | ⟨s, c₀, -, -, hhead, rfl, -⟩
  · rcases hmade with ⟨htype, hc⟩ | ⟨htype, ⟨d, hc, -⟩⟩ | ⟨-, hc, -⟩
    · rw [hc]
      exact ⟨m, received_of_receives hp.exec hm, rfl, rfl, rfl, fun _ ↦ rfl, .inl ⟨.inl htype, rfl, rfl⟩⟩
    · rw [hc] at ht
      cases htype.symm.trans ht
    · cases hc.symm.trans ht
  · have hqueue := List.mem_of_mem_head? hhead
    have hgen : Genuine S.world { c₀.msg with destination := (S.world.sessions s).name } := by
      refine (h.queues s c₀ hqueue).like rfl rfl rfl (fun hm ↦ ?_) rfl rfl
      exact (h.directed s c₀ hqueue (by rw [hm]; nofun)).symm
    exact hgen.step hp.exec

theorem genuine_saved {r : Except String ℕ} (hp : Performs cfg ok S i j (.saveMessage c) ch r w')
    (h : Origins S.world)
    (hmay : (copyProtocol j).may (front i S.world) (.saveMessage c)) : Genuine w' c.msg := by
  by_cases ht : c.msg.type = .message
  · exact saved_destination hp h ht
  · rcases hmay with ⟨m, hm, hc⟩ | ⟨c₀, hc₀, hc⟩
    · exact genuine_of_first hp.exec hm hc
    · refine ((h.front hc₀).renamed hc fun hm ↦ absurd ?_ ht).step hp.exec
      obtain ⟨n, rfl⟩ := hc
      exact hm

theorem eq_reply {t : MessageType} (h : 3 = t.toByte.toNat) : t = .reply := by
  have hbyte : t.toByte = 3 := UInt8.toNat_inj.mp h.symm
  rw [← MessageType.ofByte_toByte t, hbyte]
  rfl

theorem directed_handed (h : Origins S.world) (hc : Consistent S.world) (ho : HandOver i j S.world s c) :
    Directed c.msg (S.world.sessions s).name := by
  intro ht
  cases hsource : c.source with
  | none => rw [ho.name hsource]
  | some id =>
    rcases ho.addressed id hsource with heq | hreply
    · exact heq
    · obtain ⟨row, hrow, hid, hcar⟩ := ho.authentic.row id hsource
      obtain ⟨row', hrow', hid', htype⟩ := h.replies i _ hreply
      obtain rfl := id_inj hc.store hrow hrow' (hid.trans hid'.symm)
      exact absurd (eq_reply (htype.symm.trans hcar.records.type)) ht

theorem genuine_handed (hp : Performs cfg ok S i j o ch r w') (h : Origins S.world)
    (hmay : (copyProtocol j).may (front i S.world) o) (ho : hands o = some (s, c)) : Genuine w' c.msg := by
  have hand := allowed_hands hp.allowed ho
  have may : Onward j c ∨ front i S.world = some c := by
    cases o with
    | pushQueue s' c' | pushPendingSend s' c' data =>
      obtain ⟨rfl, rfl⟩ := Prod.mk.inj (Option.some.inj ho)
      exact hmay
    | _ => cases ho
  rcases may with (hsource | ⟨m, hm, -, hfirst⟩) | hfront
  · obtain ⟨id, hid⟩ := Option.ne_none_iff_exists'.mp hsource
    obtain ⟨row, hrow, -, hcar⟩ := hand.authentic.row id hid
    exact ((genuine_records hcar.records).mp (h.rows row hrow)).step hp.exec
  · exact genuine_of_first hp.exec hm hfirst
  · exact (h.front hfront).step hp.exec

theorem origins_rows (hp : Performs cfg ok S i j o ch r w') (h : Origins S.world)
    (hmay : (copyProtocol j).may (front i S.world) o) : ∀ row ∈ w'.db.messages, Genuine w' row.message := by
  intro row hrow
  rcases rowStep hp.exec hrow with hrow | hrow
  · exact (h.rows row hrow).step hp.exec
  · cases hrow with
    | delivered r₀ hr₀ heq | sent r₀ hr₀ heq | pending r₀ hr₀ heq =>
      rw [heq]
      exact (h.rows r₀ hr₀).step hp.exec
    | saved c hop heq =>
      subst hop heq
      exact (genuine_records (records_newRow _ c)).mpr (genuine_saved hp h hmay)

theorem origins_sessions (hp : Performs cfg ok S i j o ch r w') (h : Origins S.world)
    (hmay : (copyProtocol j).may (front i S.world) o) :
    ∀ s < w'.nextSession, Claimed w' (w'.sessions s).identity (w'.sessions s).name := by
  intro s hs
  by_cases hlt : s < S.world.nextSession
  · rw [hp.grows.identity s hlt, hp.grows.name s hlt]
    exact (h.sessions s hlt).step hp.exec
  · cases o with
    | newSession identity n =>
      obtain ⟨-, hnext, -, hnew⟩ := exec_newSession hp.exec
      obtain rfl : s = S.world.nextSession := by omega
      obtain ⟨e, he, hej⟩ := event_mem hp.exec
      rw [hnew]
      exact ⟨e, he, hej ▸ hmay⟩
    | _ =>
      rw [(exec_frame hp.exec).nextSession (by simp [writes])] at hs
      exact absurd hs hlt

theorem origins_queues (hp : Performs cfg ok S i j o ch r w') (h : Origins S.world)
    (hmay : (copyProtocol j).may (front i S.world) o) :
    ∀ s, ∀ c ∈ (w'.sessions s).outgoingQueue, Genuine w' c.msg := by
  intro s c hc
  have old (hc : c ∈ (S.world.sessions s).outgoingQueue) : Genuine w' c.msg := (h.queues s c hc).step hp.exec
  cases o with
  | pushQueue s' c' =>
    rw [exec_pushQueue hp.exec s] at hc
    split at hc
    · rcases List.mem_append.mp hc with hc | hc
      · exact old hc
      · rw [List.mem_singleton.mp hc]
        exact genuine_handed hp h hmay rfl
    · exact old hc
  | popQueue s' =>
    rw [exec_popQueue hp.exec s] at hc
    split at hc
    · exact old (List.mem_of_mem_tail hc)
    · exact old hc
  | newSession identity n =>
    obtain ⟨-, -, hne, hnew⟩ := exec_newSession hp.exec
    by_cases hs : s = S.world.nextSession
    · rw [hs, hnew] at hc
      cases hc
    · rw [hne s hs] at hc
      exact old hc
  | _ => exact old ((exec_frame hp.exec).queues (by simp [writes]) s ▸ hc)

theorem origins_directed (hp : Performs cfg ok S i j o ch r w') (h : Origins S.world) :
    ∀ s, ∀ c ∈ (w'.sessions s).outgoingQueue, Directed c.msg (w'.sessions s).name := by
  intro s c hc
  have old (hc : c ∈ (S.world.sessions s).outgoingQueue) : Directed c.msg (w'.sessions s).name := by
    have hs : s < S.world.nextSession := by
      by_contra hs
      rw [(hp.inv.unused s (not_lt.mp hs)).2.1] at hc
      cases hc
    rw [hp.grows.name s hs]
    exact h.directed s c hc
  cases o with
  | pushQueue s' c' =>
    rw [exec_pushQueue hp.exec s] at hc
    split at hc
    · next hs =>
      rcases List.mem_append.mp hc with hc | hc
      · exact old hc
      · obtain ⟨-, -, hand⟩ := hp.allowed
        rw [List.mem_singleton.mp hc, hs, hp.grows.name s' (hp.inv.lt_of_pointer hand.pointer)]
        exact directed_handed h hp.inv hand
    · exact old hc
  | popQueue s' =>
    rw [exec_popQueue hp.exec s] at hc
    split at hc
    · exact old (List.mem_of_mem_tail hc)
    · exact old hc
  | newSession identity n =>
    obtain ⟨-, -, hne, hnew⟩ := exec_newSession hp.exec
    by_cases hs : s = S.world.nextSession
    · rw [hs, hnew] at hc
      cases hc
    · rw [hne s hs] at hc
      exact old hc
  | _ => exact old ((exec_frame hp.exec).queues (by simp [writes]) s ▸ hc)

theorem origins_replies (hp : Performs cfg ok S i j o ch r w') (h : Origins S.world) :
    Replies (fun _ row ↦ row.type = 3) w' :=
  replies_step h.replies hp.grows.db hp.exec (fun _ _ _ ht ↦ ht) fun _ _ _ _ hsel ↦ hsel.2.1

theorem origins_taken (hp : Performs cfg ok S i j o ch r w') (h : Origins S.world) :
    Always (fun e w ↦ ∀ c, takes e.op e.res = some c → Genuine w c.msg) w' := by
  refine always_step h.taken hp.exec (fun e he c hc ↦ (he c hc).step hp.exec) fun c hc ↦ ?_
  cases o with
  | queueFront s =>
    have hr : some (S.world.sessions s).outgoingQueue.head? = some r := exec_reads hp.exec
    obtain rfl : (S.world.sessions s).outgoingQueue.head? = r := Option.some.inj hr
    exact (h.queues s c (List.mem_of_mem_head? hc)).step hp.exec
  | _ => cases hc

theorem origins_handed (hp : Performs cfg ok S i j o ch r w') (h : Origins S.world)
    (hmay : (copyProtocol j).may (front i S.world) o) :
    Always (fun e w ↦ ∀ s c, hands e.op = some (s, c) → Genuine w c.msg) w' :=
  always_step h.handed hp.exec (fun _ he s c hc ↦ (he s c hc).step hp.exec) fun _ _ hc ↦
    genuine_handed hp h hmay hc

/-- What holds of every waiting send, and of one that is pushed, holds of those
that wait afterwards: the queue and the batches only change hands. -/
theorem waiting_exec {P : PendingSend → Prop} (hcalled : ∀ p, P p → P { p with called := true })
    (hold : ∀ p, Waiting w p → P p)
    (hnew : ∀ s c data, o = .pushPendingSend s c data →
      P { identity := (w.sessions s).identity, data, session := s, copy := c })
    (he : exec i j o ch w = some (r, w')) {p : PendingSend} (hw : Waiting w' p) : P p := by
  have batch {i' : ℕ} {l : List PendingSend} (hl : ∀ p ∈ l, P p) (hp : p ∈ Function.update w.batches i l i') :
    P p := by
    rw [Function.update_apply] at hp
    split at hp
    · exact hl p hp
    · exact hold p (.inr ⟨i', hp⟩)
  cases o with
  | pushPendingSend s c data =>
    rw [Waiting, exec_pushPendingSend he, (exec_frame he).batches (by simp [writes])] at hw
    rcases hw with hw | hw
    · rcases List.mem_append.mp hw with hw | hw
      · exact hold p (.inl hw)
      · rw [List.mem_singleton.mp hw]
        exact hnew s c data rfl
    · exact hold p (.inr hw)
  | takePendingSends =>
    obtain ⟨-, hp, hb⟩ := exec_takePendingSends he
    rw [Waiting, hp, hb] at hw
    obtain ⟨i', hi'⟩ := hw.resolve_left List.not_mem_nil
    split at hi'
    · exact hold p (.inr ⟨i', hi'⟩)
    · exact batch (fun q hq ↦ hold q (.inl hq)) hi'
  | callback send success =>
    rw [Waiting, (exec_callback he).1, (exec_frame he).pendingSends (by simp [writes])] at hw
    rcases hw with hw | ⟨i', hi'⟩
    · exact hold p (.inl hw)
    · refine batch (fun q hq ↦ ?_) hi'
      rcases List.mem_append.mp hq with hq | hq
      · obtain ⟨q', hq', rfl⟩ := Option.map_eq_some_iff.mp (Option.mem_toList.mp hq)
        exact hcalled q' (hold q' (.inr ⟨i, List.mem_of_mem_head? hq'⟩))
      · exact hold q (.inr ⟨i, List.mem_of_mem_tail hq⟩)
  | popSend =>
    rw [Waiting, exec_popSend he, (exec_frame he).pendingSends (by simp [writes])] at hw
    rcases hw with hw | ⟨i', hi'⟩
    · exact hold p (.inl hw)
    · exact batch (fun q hq ↦ hold q (.inr ⟨i, List.mem_of_mem_tail hq⟩)) hi'
  | _ =>
    rw [Waiting, (exec_frame he).pendingSends (by simp [writes]),
      (exec_frame he).batches (by simp [writes])] at hw
    exact hold p hw

theorem origins_waiting (hp : Performs cfg ok S i j o ch r w') (h : Origins S.world)
    (hmay : (copyProtocol j).may (front i S.world) o) : ∀ p, Waiting w' p → Honest w' p := by
  intro p hw
  refine waiting_exec (P := Honest w') (fun p h ↦ ⟨h.identity, h.genuine, h.data⟩)
    (fun p hw ↦ (h.waiting p hw).step hp.exec) ?_ hp.exec hw
  intro s c data ho
  subst ho
  obtain ⟨hand, hdata⟩ := hp.allowed
  have hs := hp.inv.lt_of_pointer hand.pointer
  exact ⟨⟨_, (h.sessions s hs).step hp.exec, directed_handed h hp.inv hand⟩, genuine_handed hp h hmay rfl, hdata⟩

theorem origins_current (hp : Performs cfg ok S i j o ch r w') (h : Origins S.world) :
    ∀ i', ∀ d ∈ (pass i' w').current, Honest w' d.send := by
  intro i' d hd
  by_cases hi : i' = i
  · subst hi
    rw [SendPasses.pass_exec hp.exec] at hd
    have after (hd : d ∈ (pass i' S.world).current.map (·.after o r)) : Honest w' d.send := by
      obtain ⟨d₀, hd₀, rfl⟩ := Option.map_eq_some_iff.mp hd
      rw [SendPasses.Handling.after_send]
      exact (h.current i' d₀ hd₀).step hp.exec
    cases o with
    | frontSend =>
      have hr : some (S.world.batches i').head? = some r := exec_reads hp.exec
      obtain rfl : (S.world.batches i').head? = r := Option.some.inj hr
      cases hhead : (S.world.batches i').head? with
      | none =>
        rw [hhead] at hd
        exact after hd
      | some send =>
        rw [hhead] at hd
        obtain rfl := Option.some.inj hd
        exact (h.waiting send (.inr ⟨i', List.mem_of_mem_head? hhead⟩)).step hp.exec
    | takePendingSends => exact (h.current i' d hd).step hp.exec
    | popSend => cases hd
    | _ => exact after hd
  · rw [SendPasses.pass_exec_ne hp.exec hi] at hd
    exact (h.current i' d hd).step hp.exec

theorem origins_wire (hp : Performs cfg ok S i j o ch r w') (h : Origins S.world)
    (hmay : (SendPasses.sendPassProtocol j).may (pass i S.world) o) : ∀ f ∈ w'.wire, Honest w' f.1 := by
  intro f hf
  rw [FrameTriples.wire_exec hp.exec] at hf
  rcases List.mem_append.mp hf with hf | hf
  · exact (h.wire f hf).step hp.exec
  · cases o with
    | sendFrame send part =>
      obtain ⟨d, hd, rfl⟩ := hmay
      rw [FrameTriples.sentFrame] at hf
      split at hf
      · rw [List.mem_singleton.mp hf]
        exact (h.current i d hd).step hp.exec
      · cases hf
    | _ => cases hf

theorem origins_initial : Origins (initial metrics) := by
  refine ⟨?_, ?_, ?_, ?_, ?_, ?_, ?_, ?_, ?_, ?_⟩
  · exact fun row hrow ↦ absurd hrow List.not_mem_nil
  · exact fun s hs ↦ absurd hs (Nat.not_lt_zero s)
  · exact fun s c hc ↦ absurd hc List.not_mem_nil
  · exact fun s c hc ↦ absurd hc List.not_mem_nil
  · exact fun i p hp ↦ absurd hp List.not_mem_nil
  · exact fun e he ↦ absurd he List.not_mem_nil
  · exact fun e he ↦ absurd he List.not_mem_nil
  · rintro p (hp | ⟨i, hp⟩) <;> exact absurd hp List.not_mem_nil
  · exact fun i d hd ↦ by cases hd
  · exact fun f hf ↦ absurd hf List.not_mem_nil

theorem origins_of_reachable (h : (broker cfg).Reachable ok (initial metrics) S) : Origins S.world := by
  refine reachable_invariant (P := Origins) origins_initial (fun w n now elapsed h ↦ ?_) (fun hr hp h ↦ ?_) h
  · have honest {p : PendingSend} (hp : Honest w p) :
        Honest { w with postedTasks := n, wallClock := now, steadyClock := elapsed } p :=
          ⟨hp.identity, hp.genuine, hp.data⟩
    exact ⟨h.rows, h.sessions, h.queues, h.directed, h.replies, h.taken, h.handed,
      fun p hp ↦ honest (h.waiting p hp),
      fun i d hd ↦ honest (h.current i d hd), fun f hf ↦ honest (h.wire f hf)⟩
  · have hmay := may_of_performs hr hp
    exact ⟨origins_rows hp h hmay, origins_sessions hp h hmay, origins_queues hp h hmay, origins_directed hp h,
      origins_replies hp h, origins_taken hp h, origins_handed hp h hmay, origins_waiting hp h hmay,
        origins_current hp h,
      origins_wire hp h (SendPasses.may_of_performs hr hp)⟩

end MessageBroker.MessageOrigins
