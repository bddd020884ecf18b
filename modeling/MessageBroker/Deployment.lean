import MessageBroker.ClientCodec
import MessageBroker.ClientOutlines
import MessageBroker.MessageOrigins
import MessageBroker.TransitionSystems

namespace MessageBroker.Deployment

open ByteStrings WireMessages ProgramTrees ThreadPools TransitionSystems BrokerState ServerJobs
  OperationEffects SharedInvariant ServerOutlines RunInvariants
open MessageOrigins (Claimed Comes Directed Genuine Honest Received)
open ClientOutlines (Occasion Read Reported Sent Typed shown reported_of_mem_shown)
open UniversalClient (Report client)

/-- A name that the socket takes for its routing id. It comes from the command line. -/
structure ClientName where
  text : Bytes
  nonempty : text ≠ []
  short : text.length ≤ 255
  nulFree : NulFree text

abbrev ClientState := Pool UniversalClient.Op UniversalClient.Op.Res UniversalClient.World UniversalClient.Job

abbrev ClientStep := Label UniversalClient.Job UniversalClient.Choice Unit

structure State where
  broker : ServerOutlines.State
  clients : ℕ → ClientState

inductive Label
  | broker (l : Step)
  | client (k : ℕ) (l : ClientStep)

def next (cfg : Config) (names : ℕ → ClientName) (d : State) : Label → Option State
  | .broker l => ((broker cfg).next d.broker l).map fun b ↦ { d with broker := b }
  | .client k l => ((client (names k).text).next (d.clients k) l).map fun c ↦
    { d with clients := Function.update d.clients k c }

def deployment (cfg : Config) (names : ℕ → ClientName) : System State Label where
  next := next cfg names

def initial (metrics : Option Metrics) : State where
  broker := ⟨ServerJobs.initial metrics, []⟩
  clients _ := ⟨{}, []⟩

def frameBytes (f : PendingSend × SendPart) : Bytes :=
  match f.2 with
  | .identity => f.1.identity
  | .delimiter => []
  | .data => f.1.data

/-- The broker has sent a frame that may reach client `k`. -/
def Offered (route : ℕ → Bytes → Prop) (d : State) (k : ℕ) (data : Bytes) : Prop :=
  ∃ f ∈ d.broker.world.wire, route k f.1.identity ∧ frameBytes f = data

def SentBy (d : State) (k : ℕ) (data : Bytes) : Prop := ⟨.send data, .ok ()⟩ ∈ (d.clients k).world.log

/-- The network may lose, delay, repeat and reorder frames, and take them wherever
`route` allows, but it makes none up; to the broker it names the client that a
frame comes from. -/
def network (names : ℕ → ClientName) (route : ℕ → Bytes → Prop) (d : State) : Label → Prop
  | .broker (.start (.receive identity data)) => ∃ k, (names k).text = identity ∧ SentBy d k data
  | .client k (.step _ ch) => ∀ data, ch.frame = some data → Offered route d k data
  | _ => True

/-- Each client gets what is sent to its own routing id. -/
def toAddressee (names : ℕ → ClientName) (k : ℕ) (identity : Bytes) : Prop := identity = (names k).text

variable {cfg : Config} {names : ℕ → ClientName} {route : ℕ → Bytes → Prop} {metrics : Option Metrics}
  {d d' : State} {l : Label} {k : ℕ} {data : Bytes} {m : Message} {id : UInt64}

theorem broker_cases (h : (deployment cfg names).next d l = some d') :
    d'.broker = d.broker ∨ ∃ lb, l = .broker lb ∧ (broker cfg).next d.broker lb = some d'.broker := by
  cases l with
  | broker lb =>
    obtain ⟨b, hb, rfl⟩ := Option.map_eq_some_iff.mp h
    exact .inr ⟨lb, rfl, hb⟩
  | client k lc =>
    obtain ⟨c, -, rfl⟩ := Option.map_eq_some_iff.mp h
    exact .inl rfl

theorem client_cases (h : (deployment cfg names).next d l = some d') (k : ℕ) :
    d'.clients k = d.clients k ∨
      ∃ lc, l = .client k lc ∧ (client (names k).text).next (d.clients k) lc = some (d'.clients k) := by
  cases l with
  | broker lb =>
    obtain ⟨b, -, rfl⟩ := Option.map_eq_some_iff.mp h
    exact .inl rfl
  | client k' lc =>
    obtain ⟨c, hc, rfl⟩ := Option.map_eq_some_iff.mp h
    by_cases hk : k = k'
    · subst hk
      refine .inr ⟨lc, rfl, ?_⟩
      dsimp only
      rw [Function.update_self]
      exact hc
    · exact .inl (Function.update_of_ne hk c d.clients)

theorem broker_reachable (h : (deployment cfg names).Leads (network names route) (initial metrics) d) :
    (broker cfg).Reachable (fun _ _ ↦ True) (ServerJobs.initial metrics) d.broker := by
  refine h.invariant (P := fun d ↦ (broker cfg).Reachable (fun _ _ ↦ True) (ServerJobs.initial metrics)
    d.broker) .init fun _ hr _ hs ↦ ?_
  obtain heq | ⟨lb, -, hb⟩ := broker_cases hs
  · exact heq ▸ hr
  · exact .next lb hr trivial hb

theorem client_reachable (h : (deployment cfg names).Leads (network names route) (initial metrics) d) (k : ℕ) :
    (client (names k).text).Reachable (fun _ _ ↦ True) {} (d.clients k) := by
  refine h.invariant (P := fun d ↦ (client (names k).text).Reachable (fun _ _ ↦ True) {} (d.clients k)) .init
    fun _ hr _ hs ↦ ?_
  obtain heq | ⟨lc, -, hc⟩ := client_cases hs k
  · exact heq ▸ hr
  · exact .next lc hr trivial hc

theorem client_log {n : Bytes} {c c' : ClientState} {l : ClientStep} (h : (client n).next c l = some c') :
    c'.world.log = c.world.log ∨
      ∃ i ch o, ∃ r : o.Res, l = .step i ch ∧ UniversalClient.exec o ch c.world = some (r, c'.world) := by
  cases l with
  | start j =>
    obtain ⟨w, hw, rfl⟩ := Machine.start_cases h
    obtain ⟨input, started, receiver, rfl⟩ := ClientOutlines.start_eq hw
    exact .inl rfl
  | step i ch =>
    obtain ⟨j, o, p, r, w, -, he, rfl⟩ := Machine.step_cases h
    exact .inr ⟨i, ch, o, r, rfl, he⟩
  | tick t => exact .inl (Option.some.inj h ▸ rfl)

theorem client_grows {n : Bytes} {c c' : ClientState} {l : ClientStep} (h : (client n).next c l = some c') :
    ClientOutlines.Grows c.world c'.world := by
  rcases client_log h with hlog | ⟨i, ch, o, r, rfl, he⟩
  · exact fun e he ↦ hlog ▸ he
  · exact ClientOutlines.exec_grows he

theorem sentBy_next (h : (deployment cfg names).next d l = some d') (hs : SentBy d k data) :
    SentBy d' k data := by
  obtain heq | ⟨lc, -, hc⟩ := client_cases h k
  · rw [SentBy, heq]
    exact hs
  · exact client_grows hc _ hs

theorem offered_next (h : (deployment cfg names).next d l = some d') (hw : Offered route d k data) :
    Offered route d' k data := by
  obtain ⟨f, hf, hfd⟩ := hw
  refine ⟨f, ?_, hfd⟩
  obtain heq | ⟨lb, -, hb⟩ := broker_cases h
  · exact heq ▸ hf
  · rcases RunInvariants.next_cases hb with ⟨i, ch, j, o, p, r, rfl, -, he⟩ | ⟨n, now, elapsed, hworld⟩
    · rw [FrameTriples.wire_exec he]
      exact List.mem_append_left _ hf
    · rw [hworld]
      exact hf

/-- What the broker receives has been sent, and what the clients receive too. -/
structure Linked (names : ℕ → ClientName) (route : ℕ → Bytes → Prop) (d : State) : Prop where
  arrivals : ∀ t ∈ d.broker.threads, ∀ identity data, t.job = .receive identity data →
    ∃ k, (names k).text = identity ∧ SentBy d k data
  frames : ∀ k data, ⟨.receive, some data⟩ ∈ (d.clients k).world.log → Offered route d k data

theorem linked_arrivals (h : Linked names route d) (hok : network names route d l)
    (hs : (deployment cfg names).next d l = some d') :
    ∀ t ∈ d'.broker.threads, ∀ identity data, t.job = .receive identity data →
      ∃ k, (names k).text = identity ∧ SentBy d' k data := by
  intro t ht identity data hj
  have old (ht : ∃ t' ∈ d.broker.threads, t'.job = t.job) :
      ∃ k, (names k).text = identity ∧ SentBy d' k data := by
    obtain ⟨t', ht', hjob⟩ := ht
    obtain ⟨k, hk, hsent⟩ := h.arrivals t' ht' identity data (hjob.trans hj)
    exact ⟨k, hk, sentBy_next hs hsent⟩
  obtain heq | ⟨lb, rfl, hb⟩ := broker_cases hs
  · exact old ⟨t, heq ▸ ht, rfl⟩
  · cases lb with
    | start j =>
      obtain ⟨w, -, hbroker⟩ := Machine.start_cases hb
      rw [hbroker] at ht
      rcases List.mem_append.mp ht with ht | ht
      · exact old ⟨t, ht, rfl⟩
      · rw [List.mem_singleton.mp ht] at hj
        obtain rfl : j = .receive identity data := hj
        obtain ⟨k, hk, hsent⟩ := hok
        exact ⟨k, hk, sentBy_next hs hsent⟩
    | step i ch =>
      obtain ⟨j, o, p, r, w, hi, -, hbroker⟩ := Machine.step_cases hb
      rw [hbroker] at ht
      rcases List.mem_or_eq_of_mem_set ht with ht | rfl
      · exact old ⟨t, ht, rfl⟩
      · exact old ⟨_, List.mem_of_getElem? hi, rfl⟩
    | tick t' =>
      rw [← Option.some.inj hb] at ht
      exact old ⟨t, ht, rfl⟩

theorem linked_frames (h : Linked names route d) (hok : network names route d l)
    (hs : (deployment cfg names).next d l = some d') :
    ∀ k data, ⟨.receive, some data⟩ ∈ (d'.clients k).world.log → Offered route d' k data := by
  intro k data he
  have old (he : ⟨.receive, some data⟩ ∈ (d.clients k).world.log) : Offered route d' k data :=
    offered_next hs (h.frames k data he)
  obtain heq | ⟨lc, rfl, hc⟩ := client_cases hs k
  · exact old (heq ▸ he)
  · rcases client_log hc with hlog | ⟨i, ch, o, r, rfl, hexec⟩
    · exact old (hlog ▸ he)
    · rw [ClientOutlines.exec_log hexec] at he
      rcases List.mem_cons.mp he with heq | he
      · cases heq
        have hframe : ch.frame = some data := (Prod.mk.inj (Option.some.inj hexec)).1
        exact offered_next hs (hok data hframe)
      · exact old he

theorem linked_of_leads (h : (deployment cfg names).Leads (network names route) (initial metrics) d) :
    Linked names route d := by
  refine h.invariant ⟨fun t ht ↦ absurd ht List.not_mem_nil, fun k data he ↦ absurd he List.not_mem_nil⟩ ?_
  exact fun _ h hok hs ↦ ⟨linked_arrivals h hok hs, linked_frames h hok hs⟩

theorem sentBy_of_event (h : (deployment cfg names).Leads (network names route) (initial metrics) d) {e : Event}
    (he : e ∈ d.broker.world.log) {identity : Bytes} (hj : e.job = .receive identity data) :
    ∃ k, (names k).text = identity ∧ SentBy d k data := by
  obtain ⟨t, ht, hjob⟩ := Option.map_eq_some_iff.mp (ThreadPhases.job_of_event (broker_reachable h) e he)
  exact (linked_of_leads h).arrivals t (List.mem_of_getElem? ht) identity data (hjob.trans hj)

theorem justified (h : (deployment cfg names).Leads (network names route) (initial metrics) d)
    {e : UniversalClient.Event}
    (he : e ∈ (d.clients k).world.log) : ClientOutlines.Justified (names k).text (d.clients k).world e.op :=
  ClientOutlines.justified_of_reachable (client_reachable h k) e he

/-- A message that the broker has begun to route was sent by the client that it names. -/
theorem sent_of_received (h : (deployment cfg names).Leads (network names route) (initial metrics) d)
    (hr : Received d.broker.world m) : ∃ k, (names k).text = m.sender ∧ Sent (d.clients k).world m ∧
      Occasion (names k).text (d.clients k).world m := by
  obtain ⟨e, he, identity, data, hj, hd⟩ := hr
  obtain ⟨k, -, hsent⟩ := sentBy_of_event h he hj
  obtain ⟨m', hocc, hs⟩ := justified h hsent
  obtain rfl := ClientCodec.eq_of_written hs hd
  exact ⟨k, hocc.sender.symm, ⟨data, hsent, hs⟩, hocc⟩

theorem name_of_claimed (h : (deployment cfg names).Leads (network names route) (initial metrics) d)
    {identity n : Bytes}
    (hc : Claimed d.broker.world identity n) : ∃ k, (names k).text = identity ∧ n = identity := by
  obtain ⟨e, he, data, m, hj, hd, -, rfl⟩ := hc
  obtain ⟨k, hk, hsent⟩ := sentBy_of_event h he hj
  obtain ⟨m', hocc, hs⟩ := justified h hsent
  obtain rfl := ClientCodec.eq_of_written hs hd
  exact ⟨k, hk, hocc.sender.trans hk⟩

theorem not_message (n : ClientName) : deserialize n.text ≠ .ok m := by
  intro h
  obtain ⟨hlen, -, heq⟩ := (WireCodec.deserialize_accepts n.text).mp ⟨m, h⟩
  have hne (i : ℕ) (hi : i < n.text.length) : (n.text.getD i 0).toNat ≠ 0 := by
    rw [List.getD_eq_getElem?_getD, List.getElem?_eq_getElem hi, Option.getD_some]
    intro h0
    have hzero : n.text[i] = 0 := UInt8.toNat_inj.mp h0
    exact n.nulFree (hzero ▸ List.getElem_mem hi)
  have h13 := hne 13 (by omega)
  have hshort := n.short
  omega

/-- The message `m` is what client `k` sent as `m₀`, but for what follows a NUL in
the names; a reply or an acknowledgement may be redirected. -/
structure Conveys (names : ℕ → ClientName) (d : State) (k : ℕ) (m₀ m : Message) : Prop where
  name : (names k).text = cString m.sender
  sent : Sent (d.clients k).world m₀
  occasion : Occasion (names k).text (d.clients k).world m₀
  type : m.type = m₀.type
  correlationId : m.correlationId = m₀.correlationId
  flags : m.flags = m₀.flags
  payload : m.payload = m₀.payload
  destination : m₀.type = .message → cString m.destination = cString m₀.destination

theorem conveys_of_comes {m₀ : Message} (hk : (names k).text = m₀.sender) (hsent : Sent (d.clients k).world m₀)
    (hocc : Occasion (names k).text (d.clients k).world m₀) (hcomes : Comes m₀ m) : Conveys names d k m₀ m := by
  have hname : (names k).text = cString m.sender := by
    have hcut : cString m.sender = cString m₀.sender := congrArg Subtype.val hcomes.sender
    rw [hcut, ← hk, cString_eq (names k).nulFree]
  have hcontent : m.flags = m₀.flags ∧ m.payload = m₀.payload := by
    rcases hcomes.content with ⟨-, hflags, hpayload⟩ | ⟨htype, hflags, hpayload⟩
    · exact ⟨hflags, hpayload⟩
    · cases hocc with
      | ack => exact ⟨hflags, hpayload⟩
      | _ => cases htype
  exact ⟨hname, hsent, hocc, hcomes.type, hcomes.correlationId, hcontent.1, hcontent.2,
    fun ht ↦ congrArg Subtype.val (hcomes.destination ht)⟩

/-- Every message that the socket of a client yields was sent by the client that
it names. It is addressed to a client from whom it may be taken here. -/
theorem conveys_of_read (h : (deployment cfg names).Leads (network names route) (initial metrics) d)
    (hr : Read (d.clients k).world m) : ∃ k' m₀, Conveys names d k' m₀ m ∧
      ∃ k₁, route k (names k₁).text ∧ (m.type ≠ .reply → cString m.destination = (names k₁).text) := by
  obtain ⟨data, he, hd⟩ := hr
  obtain ⟨⟨p, part⟩, hf, hroute, hbytes⟩ := (linked_of_leads h).frames k data he
  have hread : deserialize (frameBytes (p, part)) = .ok m := hbytes ▸ ClientCodec.deserialize_eq_ok.mp hd
  have hhonest := (MessageOrigins.origins_of_reachable (broker_reachable h)).wire _ hf
  obtain ⟨n, hclaimed, hdirected⟩ := hhonest.identity
  obtain ⟨k₁, hk₁, rfl⟩ := name_of_claimed h hclaimed
  cases part with
  | identity => exact absurd (hk₁ ▸ hread : deserialize (names k₁).text = .ok m) (not_message _)
  | delimiter => cases hread
  | data =>
    obtain ⟨m₀, hrecv, hcomes⟩ := hhonest.genuine
    obtain ⟨k', hk', hsent, hocc⟩ := sent_of_received h hrecv
    obtain rfl := Except.ok.inj ((ClientCodec.written_by_broker hhonest.data).2.symm.trans hread)
    refine ⟨k', m₀, conveys_of_comes hk' hsent hocc hcomes, k₁, hk₁ ▸ hroute, fun ht ↦ ?_⟩
    have hdest : cString p.copy.msg.destination = cString p.identity := congrArg Subtype.val (hdirected ht)
    rw [hdest, ← hk₁, cString_eq (names k₁).nulFree]

theorem read_of_reported (h : (deployment cfg names).Leads (network names route) (initial metrics) d)
    (hr : Reported (d.clients k).world (.message m)) : m.type = .message ∧ Read (d.clients k).world m :=
  justified h hr

theorem conveys_of_reported (h : (deployment cfg names).Leads (network names route) (initial metrics) d)
    (hr : Reported (d.clients k).world (.message m)) : ∃ k' m₀, Conveys names d k' m₀ m := by
  obtain ⟨k', m₀, hconv, -⟩ := conveys_of_read h (read_of_reported h hr).2
  exact ⟨k', m₀, hconv⟩

def sends (data : Bytes) : UniversalClient.Event → Bool
  | ⟨.send data', .ok ()⟩ => data' = data
  | _ => false

theorem mem_of_sends {log : List UniversalClient.Event} (h : log.any (sends data) = true) :
    ⟨.send data, .ok ()⟩ ∈ log := by
  obtain ⟨⟨o, r⟩, he, hsends⟩ := List.any_eq_true.mp h
  cases o with
  | send data' =>
    cases r with
    | error e => cases hsends
    | ok u =>
      obtain rfl : data' = data := of_decide_eq_true hsends
      exact he
  | _ => cases hsends

/-- Whether the network of the first `n` clients may take a step, when it takes each frame to its addressee. -/
def permits (names : ℕ → ClientName) (n : ℕ) (d : State) : Label → Bool
  | .broker (.start (.receive identity data)) =>
    (List.range n).any fun k ↦ (names k).text = identity && (d.clients k).world.log.any (sends data)
  | .client k (.step _ ch) =>
    ch.frame.all fun data ↦ d.broker.world.wire.any fun f ↦ f.1.identity = (names k).text && frameBytes f = data
  | _ => true

theorem network_of_permits {n : ℕ} (h : permits names n d l = true) : network names (toAddressee names) d l := by
  cases l with
  | broker lb =>
    cases lb with
    | start j =>
      cases j with
      | receive identity data =>
        obtain ⟨k, -, hk⟩ := List.any_eq_true.mp h
        obtain ⟨hname, hsent⟩ := Bool.and_eq_true_iff.mp hk
        exact ⟨k, of_decide_eq_true hname, mem_of_sends hsent⟩
      | _ => trivial
    | _ => trivial
  | client k lc =>
    cases lc with
    | step i ch =>
      intro data hdata
      rw [permits, hdata] at h
      obtain ⟨f, hf, hframe⟩ := List.any_eq_true.mp h
      obtain ⟨hid, hbytes⟩ := Bool.and_eq_true_iff.mp hframe
      have hid' : f.1.identity = (names k).text := of_decide_eq_true hid
      exact ⟨f, hf, hid', of_decide_eq_true hbytes⟩
    | _ => trivial

def pair (k : ℕ) : ClientName :=
  if k = 0 then ⟨[97], by simp, by simp, by simp [NulFree]⟩ else ⟨[98], by simp, by simp, by simp [NulFree]⟩

def frameOf (m : Message) : Bytes := (serialize m).toOption.getD []

def stepsOf (k i n : ℕ) (ch : UniversalClient.Choice) : List Label := .replicate n (.client k (.step i ch))

def request : Message := UniversalClient.newMessage [97] [98] [104, 105] true false 7

def question : Message := UniversalClient.newMessage [97] [98] [111, 107] false true 8

def answer : Message := UniversalClient.replyTo [98] request (UniversalClient.autoReply request)

def receipt : Message := UniversalClient.ackOf [98] 8 [97]

/-- Alice makes a request of bob and sends him a message that he has to acknowledge. -/
def conversation : List Label :=
  [.client 1 (.start (.main []))] ++ stepsOf 1 0 4 {} ++
  [.client 0 (.start (.main [NumberTexts.ascii "request b hi", NumberTexts.ascii "send_ack b ok"]))] ++
  stepsOf 0 0 7 { random := 7 } ++ stepsOf 0 0 8 { random := 8 } ++
  (inTurn 0 [(arrival { type := .register, sender := [98] }, 31),
    (arrival { type := .register, sender := [97] }, 34),
    (arrival request, 20), (arrival question, 20), (.processPendingSends, 17)]).map .broker ++
  [.client 1 (.start (.receiver 2))] ++ stepsOf 1 1 5 { frame := frameOf request } ++
  stepsOf 1 1 5 { frame := frameOf question } ++
  (inTurn 5 [(arrival answer, 20), (arrival receipt, 22), (.processPendingSends, 17)]).map .broker ++
  [.client 0 (.start (.receiver 2))] ++ stepsOf 0 1 4 { frame := frameOf answer } ++
    stepsOf 0 1 3 { frame := frameOf receipt }

theorem exists_conversation : ∃ d, (deployment {} pair).Leads (network pair (toAddressee pair))
    (initial none) d ∧
    Reported (d.clients 1).world (.message question) ∧ Reported (d.clients 0).world (.ack receipt) ∧
      Reported (d.clients 0).world (.reply answer) ∧ Sent (d.clients 0).world request ∧
        request.correlationId ∉ (d.clients 0).world.pendingRequests := by
  have hrun : ((deployment {} pair).runs (fun d l ↦ permits pair 2 d l = true) conversation
    (initial none)).map (fun d ↦
      decide (.message question ∈ shown (d.clients 1).world ∧ .ack receipt ∈ shown (d.clients 0).world ∧
        .reply answer ∈ shown (d.clients 0).world ∧ (d.clients 0).world.log.any
          (sends (frameOf request)) = true ∧
          request.correlationId ∉ (d.clients 0).world.pendingRequests)) = some true := by decide +kernel
  obtain ⟨d, hd, hv⟩ := System.exists_leads hrun
  obtain ⟨hm, ha, hr, hs, hp⟩ := of_decide_eq_true hv
  exact ⟨d, hd.mono fun _ _ ↦ network_of_permits, reported_of_mem_shown hm, reported_of_mem_shown ha,
    reported_of_mem_shown hr, ⟨frameOf request, mem_of_sends hs, rfl⟩, hp⟩

/-- No acknowledgement is false: the client that it names has shown a message
with its correlation id that asks for one, and that some client has sent. -/
theorem acks_earned (h : (deployment cfg names).Leads (network names route) (initial metrics) d)
    (hr : Reported (d.clients k).world (.ack m)) :
    ∃ k' m', (names k').text = cString m.sender ∧ Reported (d.clients k').world (.message m') ∧
      m'.needsAck = true ∧ m'.correlationId = m.correlationId ∧ ∃ k₀ m₀, Conveys names d k₀ m₀ m' := by
  have hjust : m.type = .ack ∧ Read (d.clients k).world m := justified h hr
  obtain ⟨k', m₁, hconv, -⟩ := conveys_of_read h hjust.2
  have htype : m₁.type = .ack := hconv.type.symm.trans hjust.1
  have hid := hconv.correlationId
  cases hconv.occasion with
  | ack hreported hack =>
    exact ⟨k', _, hconv.name, hreported, hack, hid.symm, conveys_of_reported h hreported⟩
  | _ => cases htype

theorem acks_earned_alice : ∃ d k' m', (deployment {} pair).Leads (network pair (toAddressee pair))
    (initial none) d ∧
    (pair k').text = [98] ∧ Reported (d.clients k').world (.message m') ∧ m'.needsAck = true ∧
    m'.correlationId = 8 := by
  obtain ⟨d, hd, -, ha, -⟩ := exists_conversation
  obtain ⟨k', m', hname, hreported, hack, hid, -⟩ := acks_earned hd ha
  exact ⟨d, k', m', hd, hname, hreported, hack, hid⟩

/-- A reply that a client shows was typed by the user of the client that it
names, on a line that this client has read, or is that client's automatic reply
to a message that it has shown. -/
theorem replies_earned (h : (deployment cfg names).Leads (network names route) (initial metrics) d)
    (hr : Reported (d.clients k).world (.reply m)) :
    ∃ k' m₀, Conveys names d k' m₀ m ∧
      ((∃ corrIdStr, Typed (d.clients k').world "reply" corrIdStr m.payload ∧
          UniversalClient.stoull corrIdStr = .ok m.correlationId ∧
          m₀ = UniversalClient.manualReply (names k').text m.correlationId m.payload) ∨
        ∃ m', Reported (d.clients k').world (.message m') ∧ m'.needsReply = true ∧
          m'.correlationId = m.correlationId ∧
          m.payload = UniversalClient.autoReply m' ∧ ∃ k₀ m₁, Conveys names d k₀ m₁ m') := by
  have hjust : m.type = .reply ∧ Read (d.clients k).world m := justified h hr
  obtain ⟨k', m₀, hconv, -⟩ := conveys_of_read h hjust.2
  have htype : m₀.type = .reply := hconv.type.symm.trans hjust.1
  refine ⟨k', m₀, hconv, ?_⟩
  have hid := hconv.correlationId
  have hpayload := hconv.payload
  cases hconv.occasion with
  | manualReply htyped hstoull =>
    rw [hid, hpayload]
    exact .inl ⟨_, htyped, hstoull, rfl⟩
  | reply hreported hreply =>
    exact .inr ⟨_, hreported, hreply, hid.symm, hpayload, conveys_of_reported h hreported⟩
  | _ => cases htype

theorem replies_earned_alice : ∃ d k' m₀, (deployment {} pair).Leads (network pair (toAddressee pair))
    (initial none) d ∧ Conveys pair d k' m₀ answer := by
  obtain ⟨d, hd, -, -, hr, -⟩ := exists_conversation
  obtain ⟨k', m₀, hconv, -⟩ := replies_earned hd hr
  exact ⟨d, k', m₀, hd, hconv⟩

/-- A request that a client has sent stays pending until a client has sent a
reply with its correlation id. -/
theorem requests_answered (h : (deployment cfg names).Leads (network names route) (initial metrics) d)
    (hs : Sent (d.clients k).world m) (hreply : m.needsReply = true)
    (hdone : m.correlationId ∉ (d.clients k).world.pendingRequests) :
    ∃ m', Reported (d.clients k).world (.reply m') ∧ m'.correlationId = m.correlationId ∧
      ∃ k' m₀, Conveys names d k' m₀ m' ∧ m₀.type = .reply := by
  obtain ⟨data, hsend, hdata⟩ := hs
  obtain ⟨m₁, hocc, hdata₁⟩ := justified h hsend
  obtain rfl := ClientCodec.written_injective hdata hdata₁
  have hrequested := hocc.requested hreply
  have herased := (ClientOutlines.tracked_of_reachable (client_reachable h k) _ hrequested).resolve_left hdone
  obtain ⟨m', hreported, hid⟩ : ∃ m', Reported (d.clients k).world (.reply m') ∧
      m'.correlationId = m.correlationId := justified h herased
  have hjust : m'.type = .reply ∧ Read (d.clients k).world m' := justified h hreported
  obtain ⟨k', m₀, hconv, -⟩ := conveys_of_read h hjust.2
  exact ⟨m', hreported, hid, k', m₀, hconv, hconv.type.symm.trans hjust.1⟩

theorem requests_answered_alice : ∃ d m', (deployment {} pair).Leads (network pair (toAddressee pair))
    (initial none) d ∧ Reported (d.clients 0).world (.reply m') ∧ m'.correlationId = 7 := by
  obtain ⟨d, hd, -, -, -, hs, hp⟩ := exists_conversation
  obtain ⟨m', hreported, hid, -⟩ := requests_answered hd hs (by decide) hp
  exact ⟨d, m', hd, hreported, hid⟩

end MessageBroker.Deployment
