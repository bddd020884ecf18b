import MessageBroker.PairedReading
import MessageBroker.SharedInvariant

namespace MessageBroker.ReceiveLoop

open ByteStrings WireMessages PairedReading ProgramTrees BrokerState SessionQueues MessageHandlers ServerJobs
  ClientRegistry SharedInvariant

/-- A frame of the socket, with the place of its multipart message in the order
of arrival and its own place in that message. -/
structure Frame where
  content : Bytes
  message : ℕ
  part : ℕ
deriving DecidableEq

/-- What the ROUTER socket delivers at once. -/
structure Multipart where
  identity : Bytes
  bodies : List Bytes
  nonempty : bodies ≠ []

def bodyFrames (n : ℕ) : ℕ → List Bytes → List Frame
  | _, [] => []
  | part, body :: bodies => ⟨body, n, part⟩ :: bodyFrames n (part + 1) bodies

def Multipart.frames (n : ℕ) (m : Multipart) : List Frame :=
  ⟨m.identity, n, 0⟩ :: bodyFrames n 1 m.bodies

/-- The frames of the messages, the first of which is the `n`th. -/
def frames : ℕ → List Multipart → List Frame
  | _, [] => []
  | n, m :: ms => m.frames n ++ frames (n + 1) ms

/-- What one round of the loop has received. -/
structure Round where
  identity : Frame
  data : Frame
deriving DecidableEq

def Round.job (r : Round) : Job := .receive r.identity.content r.data.content

/-- The loop of `OnZmqEvent` over the frames that are there until `recv` finds
none, while the server is running. An identity without data ends it. -/
def onZmqEvent : List Frame → List Round
  | [] => []
  | [_] => []
  | identity :: data :: rest => ⟨identity, data⟩ :: onZmqEvent rest

/-- A call of `RouteMessage`, with the frames it comes from. -/
structure Call where
  round : Round
  msg : Message
deriving DecidableEq

def Round.call? (r : Round) : Option Call :=
  (deserialize r.data.content).toOption.map (Call.mk r)

def calls (fs : List Frame) : List Call := (onZmqEvent fs).filterMap Round.call?

/-- The calls of all events; each event reads the messages that have arrived
until it finds no further frame. -/
def serve : ℕ → List (List Multipart) → List Call
  | _, [] => []
  | n, batch :: batches => calls (frames n batch) ++ serve (n + batch.length) batches

/-- The call that a message with one body frame stands for. -/
def intended (n : ℕ) (m : Multipart) : Option Call :=
  match m.bodies with
  | [body] => Round.call? ⟨⟨m.identity, n, 0⟩, ⟨body, n, 1⟩⟩
  | _ => none

def intendedCalls : ℕ → List Multipart → List Call
  | _, [] => []
  | n, m :: ms => (intended n m).toList ++ intendedCalls (n + 1) ms

def Rejected (data : Bytes) : Prop := (deserialize data).toOption = none

/-- Whether a message is read as intended: when the loop is in step with the
frames, and when it takes the identity for the data of a round. -/
def Multipart.Framed (inStep : Prop) (m : Multipart) : Prop :=
  (inStep → m.bodies.length = 1 ∨ ∀ body ∈ everyOther m.bodies, Rejected body) ∧
    (¬ inStep → Rejected m.identity ∧ (∀ body ∈ everyOther m.bodies.tail, Rejected body) ∧
      ∀ body, m.bodies = [body] → Rejected body)

def evenBodies (m : Multipart) : Bool := m.bodies.length % 2 = 0

variable {fs fs' : List Frame} {r : Round} {c : Call} {m : Multipart} {n : ℕ} {ms : List Multipart}

theorem onZmqEvent_eq (fs : List Frame) : onZmqEvent fs = (pairs fs).map fun p ↦ ⟨p.1, p.2⟩ := by
  induction fs using onZmqEvent.induct with
  | case1 => rfl
  | case2 f => rfl
  | case3 f f' fs ih => exact congrArg (_ :: ·) ih

theorem calls_eq (fs : List Frame) : calls fs = (pairs fs).filterMap fun p ↦ Round.call? ⟨p.1, p.2⟩ := by
  rw [calls, onZmqEvent_eq, List.filterMap_map]
  rfl

theorem calls_append (fs fs' : List Frame) : calls (fs ++ fs') = calls fs ++ calls (leftover fs ++ fs') := by
  rw [calls_eq, pairs_append, List.filterMap_append, calls_eq, calls_eq]

theorem round_of_call? (h : r.call? = some c) : c.round = r := by
  obtain ⟨msg, -, rfl⟩ := Option.map_eq_some_iff.mp h
  rfl

theorem call?_eq_none : r.call? = none ↔ Rejected r.data.content := Option.map_eq_none_iff

theorem call?_iff_receives {msg : Message} : r.call? = some ⟨r, msg⟩ ↔ Receives r.job msg := by
  constructor
  · intro h
    obtain ⟨msg', hmsg, heq⟩ := Option.map_eq_some_iff.mp h
    cases heq
    cases hd : deserialize r.data.content with
    | ok msg'' =>
      rw [hd] at hmsg
      cases hmsg
      exact ⟨_, _, rfl, hd⟩
    | error e =>
      rw [hd] at hmsg
      cases hmsg
  · rintro ⟨identity, data, hjob, hmsg⟩
    cases hjob
    rw [Round.call?, hmsg]
    rfl

theorem code_of_call? {cfg : Config} {msg : Message} (h : r.call? = some ⟨r, msg⟩) :
    code cfg r.job = Prog.recover (do
      perform (.increment .messagesReceived)
      routeMessage msg r.identity.content) fun _ ↦ perform (.increment .messagesFailed) := by
  obtain ⟨identity, data, hjob, hmsg⟩ := call?_iff_receives.mp h
  cases hjob
  rw [Round.job, code, receive, hmsg]
  rfl

theorem mem_calls (h : c ∈ calls fs) : c.round.identity ∈ fs ∧ c.round.data ∈ fs.tail := by
  rw [calls_eq] at h
  obtain ⟨p, hp, hc⟩ := List.mem_filterMap.mp h
  rw [round_of_call? hc]
  exact mem_of_mem_pairs hp

theorem calls_eq_nil (f : Frame) : calls (f :: fs) = [] ↔ ∀ f' ∈ everyOther fs, Rejected f'.content := by
  rw [calls_eq, List.filterMap_eq_nil_iff, ← map_snd_pairs f, List.forall_mem_map]
  exact forall₂_congr fun p _ ↦ call?_eq_none

theorem bodyFrames_content (n part : ℕ) (bodies : List Bytes) :
    (bodyFrames n part bodies).map Frame.content = bodies := by
  induction bodies generalizing part with
  | nil => rfl
  | cons body bodies ih => exact congrArg (body :: ·) (ih _)

theorem bodyFrames_message {part : ℕ} {bodies : List Bytes} {f : Frame} (h : f ∈ bodyFrames n part bodies) :
    f.message = n := by
  induction bodies generalizing part with
  | nil => cases h
  | cons body bodies ih =>
    rcases List.mem_cons.mp h with rfl | h
    · rfl
    · exact ih h

theorem frames_message {f : Frame} (h : f ∈ m.frames n) : f.message = n := by
  rcases List.mem_cons.mp h with rfl | h
  · rfl
  · exact bodyFrames_message h

theorem le_message {f : Frame} (h : f ∈ frames n ms) : n ≤ f.message := by
  induction ms generalizing n with
  | nil => cases h
  | cons m ms ih =>
    rcases List.mem_append.mp h with h | h
    · exact (frames_message h).ge
    · exact (Nat.le_succ n).trans (ih h)

theorem rejected_bodyFrames {part : ℕ} {bodies : List Bytes} :
    (∀ f ∈ everyOther (bodyFrames n part bodies), Rejected f.content) ↔
      ∀ body ∈ everyOther bodies, Rejected body := by
  conv_rhs => rw [← bodyFrames_content n part bodies, everyOther_map, List.forall_mem_map]

theorem intended_of_length (h : m.bodies.length ≠ 1) : intended n m = none := by
  unfold intended
  split
  · next hm => exact absurd (by rw [hm]; rfl) h
  · rfl

theorem framed_true : m.Framed True ↔ m.bodies.length = 1 ∨ ∀ body ∈ everyOther m.bodies, Rejected body := by
  simp [Multipart.Framed]

theorem framed_false : m.Framed False ↔ Rejected m.identity ∧
    (∀ body ∈ everyOther m.bodies.tail, Rejected body) ∧ ∀ body, m.bodies = [body] → Rejected body := by
  simp [Multipart.Framed]

theorem calls_inStep : calls (m.frames n) = (intended n m).toList ↔ m.Framed True := by
  rw [framed_true]
  by_cases hone : m.bodies.length = 1
  · obtain ⟨body, hbody⟩ := List.length_eq_one_iff.mp hone
    refine iff_of_true ?_ (.inl hone)
    rw [Multipart.frames, hbody, calls_eq, intended, hbody]
    change List.filterMap _ [_] = _
    rw [List.filterMap_cons, List.filterMap_nil]
    split <;> simp_all
  · rw [intended_of_length hone, Option.toList_none, Multipart.frames, calls_eq_nil, rejected_bodyFrames]
    exact ⟨.inr, fun h ↦ h.resolve_left hone⟩

theorem calls_outOfStep {f : Frame} (hf : f.message < n) :
    calls (f :: m.frames n) = (intended n m).toList ↔ m.Framed False := by
  have hnil : calls (f :: m.frames n) = [] ↔
      Rejected m.identity ∧ ∀ body ∈ everyOther m.bodies.tail, Rejected body := by
    rw [calls_eq_nil, Multipart.frames]
    cases hb : m.bodies with
    | nil => exact absurd hb m.nonempty
    | cons body bodies =>
      rw [bodyFrames, everyOther, List.forall_mem_cons, rejected_bodyFrames]
      rfl
  rw [framed_false, ← and_assoc, ← hnil]
  by_cases hone : m.bodies.length = 1
  · obtain ⟨body, hbody⟩ := List.length_eq_one_iff.mp hone
    have hrejected : intended n m = none ↔ ∀ body, m.bodies = [body] → Rejected body := by
      rw [intended, hbody]
      simp only [List.cons.injEq, and_true, forall_eq']
      exact call?_eq_none
    rw [← hrejected]
    refine ⟨fun h ↦ ?_, fun h ↦ by rw [h.1, h.2]; rfl⟩
    have hnone : intended n m = none := by
      refine Option.eq_none_iff_forall_not_mem.mpr fun c hc ↦ ?_
      have hmem : c ∈ calls (f :: m.frames n) := by
        rw [h]
        exact Option.mem_toList.mpr hc
      have hround : c.round.identity.message = n := by
        rw [intended, hbody] at hc
        rw [round_of_call? hc]
      rw [Multipart.frames, hbody, calls_eq] at hmem
      obtain ⟨p, hp, hc⟩ := List.mem_filterMap.mp hmem
      obtain rfl := List.mem_singleton.mp hp
      rw [round_of_call? hc] at hround
      exact hf.ne hround
    exact ⟨by rw [h, hnone]; rfl, hnone⟩
  · rw [intended_of_length hone, Option.toList_none]
    refine (and_iff_left fun body hbody ↦ absurd ?_ hone).symm
    rw [hbody]
    rfl

theorem intended_message (h : intended n m = some c) : c.round.data.message = n := by
  unfold intended at h
  split at h
  · rw [round_of_call? h]
  · cases h

theorem le_of_mem_intendedCalls (h : c ∈ intendedCalls n ms) : n ≤ c.round.data.message := by
  induction ms generalizing n with
  | nil => cases h
  | cons m ms ih =>
    rcases List.mem_append.mp h with h | h
    · exact (intended_message (Option.mem_toList.mp h)).ge
    · exact (Nat.le_succ n).trans (ih h)

/-- The frame that the loop has taken for an identity when it comes to the `n`th
message, after `k` messages with an even number of body frames. -/
def Pending (n k : ℕ) (p : List Frame) : Prop :=
  p = [] ∧ Even k ∨ (∃ f, p = [f] ∧ f.message < n) ∧ ¬ Even k

theorem Pending.calls_iff {k : ℕ} {p : List Frame} (h : Pending n k p) :
    calls (p ++ m.frames n) = (intended n m).toList ↔ m.Framed (Even k) := by
  rcases h with ⟨rfl, hk⟩ | ⟨⟨f, rfl, hf⟩, hk⟩
  · rw [eq_true hk]
    exact calls_inStep
  · rw [eq_false hk]
    exact calls_outOfStep hf

theorem bodyFrames_length (n part : ℕ) (bodies : List Bytes) :
    (bodyFrames n part bodies).length = bodies.length := by
  rw [← List.length_map Frame.content, bodyFrames_content]

theorem Pending.next {k : ℕ} {p : List Frame} (h : Pending n k p) :
    Pending (n + 1) (k + if evenBodies m then 1 else 0) (leftover (p ++ m.frames n)) := by
  have heven : Even (p ++ m.frames n).length ↔ Even (k + if evenBodies m then 1 else 0) := by
    have hlen : (p ++ m.frames n).length = p.length + (m.bodies.length + 1) := by
      rw [List.length_append, Multipart.frames, List.length_cons, bodyFrames_length]
    have hp : Even p.length ↔ Even k := by
      rcases h with ⟨rfl, hk⟩ | ⟨⟨f, rfl, -⟩, hk⟩
      · simp [hk]
      · simp [hk]
    rw [hlen, Nat.even_add, hp, Nat.even_add_one, Nat.even_add]
    by_cases hb : Even m.bodies.length
    · have heq : evenBodies m = true := decide_eq_true (Nat.even_iff.mp hb)
      simp [hb, heq]
    · have heq : evenBodies m = false := decide_eq_false fun h ↦ hb (Nat.even_iff.mpr h)
      simp [hb, heq]
  rcases leftover_cases (p ++ m.frames n) with hnil | ⟨f, hf, heq⟩
  · exact .inl ⟨hnil, heven.mp (leftover_eq_nil.mp hnil)⟩
  · refine .inr ⟨⟨f, heq, ?_⟩, fun hk ↦ ?_⟩
    · rcases List.mem_append.mp hf with hf | hf
      · rcases h with ⟨rfl, -⟩ | ⟨⟨f', rfl, hlt⟩, -⟩
        · cases hf
        · rw [List.mem_singleton.mp hf]
          exact hlt.trans (Nat.lt_succ_self n)
      · rw [frames_message hf]
        exact Nat.lt_succ_self n
    · rw [leftover_eq_nil.mpr (heven.mpr hk)] at heq
      cases heq

theorem forall_split_cons {P : ℕ → Multipart → Prop} (m : Multipart) (ms : List Multipart) (k : ℕ) :
    (∀ l m' l', m :: ms = l ++ m' :: l' → P (k + l.countP evenBodies) m') ↔
      P k m ∧ ∀ l m' l', ms = l ++ m' :: l' →
        P (k + (if evenBodies m then 1 else 0) + l.countP evenBodies) m' := by
  constructor
  · refine fun h ↦ ⟨h [] m ms rfl, fun l m' l' hms ↦ ?_⟩
    have hP := h (m :: l) m' l' (by rw [hms]; rfl)
    rwa [List.countP_cons, ← Nat.add_assoc, Nat.add_right_comm] at hP
  · rintro ⟨hm, h⟩ l m' l' heq
    cases l with
    | nil =>
      cases heq
      exact hm
    | cons a l =>
      obtain ⟨rfl, hms⟩ := List.cons.inj heq
      have hP := h l m' l' hms
      rwa [Nat.add_right_comm, Nat.add_assoc, ← List.countP_cons] at hP

/-- One event: the loop calls `RouteMessage` as intended exactly when each of
its messages is read so. -/
theorem calls_iff {k : ℕ} {p : List Frame} (h : Pending n k p) :
    calls (p ++ frames n ms) = intendedCalls n ms ↔
      ∀ l m l', ms = l ++ m :: l' → m.Framed (Even (k + l.countP evenBodies)) := by
  induction ms generalizing n k p with
  | nil =>
    refine iff_of_true ?_ fun l m l' heq ↦ absurd heq.symm (by simp)
    rw [frames, List.append_nil]
    rcases h with ⟨rfl, -⟩ | ⟨⟨f, rfl, -⟩, -⟩ <;> rfl
  | cons m ms ih =>
    rw [forall_split_cons (P := fun k m ↦ m.Framed (Even k)), frames, intendedCalls, ← List.append_assoc,
      calls_append,
      append_eq_append_iff_of_separated (p := fun c ↦ c.round.data.message = n), h.calls_iff, ih h.next]
    · intro c hc
      have hdata := (mem_calls hc).2
      rcases h with ⟨rfl, -⟩ | ⟨⟨f, rfl, -⟩, -⟩
      · exact frames_message (List.mem_of_mem_tail hdata)
      · exact frames_message hdata
    · intro c hc
      exact intended_message (Option.mem_toList.mp hc)
    · intro c hc
      have hdata := (mem_calls hc).2
      have hle : n + 1 ≤ c.round.data.message := by
        rcases leftover_cases (p ++ m.frames n) with hnil | ⟨f, -, heq⟩
        · rw [hnil] at hdata
          exact le_message (List.mem_of_mem_tail hdata)
        · rw [heq] at hdata
          exact le_message hdata
      exact Nat.ne_of_gt hle
    · intro c hc
      exact Nat.ne_of_gt (le_of_mem_intendedCalls hc)

theorem message_lt {f : Frame} (h : f ∈ frames n ms) : f.message < n + ms.length := by
  induction ms generalizing n with
  | nil => cases h
  | cons m ms ih =>
    rw [List.length_cons]
    rcases List.mem_append.mp h with h | h
    · rw [frames_message h]
      omega
    · have hlt := ih h
      omega

theorem lt_of_mem_intendedCalls (h : c ∈ intendedCalls n ms) : c.round.data.message < n + ms.length := by
  induction ms generalizing n with
  | nil => cases h
  | cons m ms ih =>
    rw [List.length_cons]
    rcases List.mem_append.mp h with h | h
    · rw [intended_message (Option.mem_toList.mp h)]
      omega
    · have hlt := ih h
      omega

theorem intendedCalls_append (l ms : List Multipart) :
    intendedCalls n (l ++ ms) = intendedCalls n l ++ intendedCalls (n + l.length) ms := by
  induction l generalizing n with
  | nil => rfl
  | cons m l ih =>
    rw [List.cons_append, intendedCalls, intendedCalls, ih, List.append_assoc, List.length_cons, Nat.add_assoc,
      Nat.add_comm 1]

theorem le_of_mem_serve {batches : List (List Multipart)} (h : c ∈ serve n batches) :
    n ≤ c.round.data.message := by
  induction batches generalizing n with
  | nil => cases h
  | cons batch batches ih =>
    rcases List.mem_append.mp h with h | h
    · exact le_message (List.mem_of_mem_tail (mem_calls h).2)
    · exact (Nat.le_add_right ..).trans (ih h)

/-- In its order of arrival, each message with one accepted body frame is routed
under its own identity, and nothing else is, exactly when in each event a message
that comes after an even number of messages with an even number of body frames
has one body frame, or none that is read as data and accepted; and a message that
comes after an odd number has nothing that is accepted where data are read, and
is not to be routed itself. -/
theorem framing_iff (n : ℕ) (batches : List (List Multipart)) :
    serve n batches = intendedCalls n batches.flatten ↔
      ∀ batch ∈ batches, ∀ l m l', batch = l ++ m :: l' → m.Framed (Even (l.countP evenBodies)) := by
  induction batches generalizing n with
  | nil => simp [serve, intendedCalls]
  | cons batch batches ih =>
    have hbatch : calls (frames n batch) = intendedCalls n batch ↔
        ∀ l m l', batch = l ++ m :: l' → m.Framed (Even (l.countP evenBodies)) := by
      have hpending : Pending n 0 [] := .inl ⟨rfl, Even.zero⟩
      have hcalls : calls ([] ++ frames n batch) = intendedCalls n batch ↔ _ := calls_iff hpending
      simpa using hcalls
    rw [List.forall_mem_cons, serve, List.flatten_cons, intendedCalls_append,
      append_eq_append_iff_of_separated (p := fun c ↦ c.round.data.message < n + batch.length), hbatch, ih]
    · intro c hc
      exact message_lt (List.mem_of_mem_tail (mem_calls hc).2)
    · intro c hc
      exact lt_of_mem_intendedCalls hc
    · intro c hc
      exact (le_of_mem_serve hc).not_gt
    · intro c hc
      exact (le_of_mem_intendedCalls hc).not_gt

/-- Alice puts an empty delimiter before her registration, as the broker does
before its own messages; then bob registers with a single body frame. -/
def delimited : List Multipart :=
  [⟨[97], [[], (serialize { type := .register, sender := [97] }).toOption.getD []], List.cons_ne_nil _ _⟩,
    ⟨[98], [(serialize { type := .register, sender := [98] }).toOption.getD []], List.cons_ne_nil _ _⟩]

/-- Bob's registration is never routed: his identity is read as data, and his
data as an identity. -/
theorem delimiter_shifts : ¬ ∀ n batches, serve n batches = intendedCalls n batches.flatten := by
  intro h
  have hlen : (serve 0 [delimited]).length ≠ (intendedCalls 0 [delimited].flatten).length := by decide +kernel
  exact hlen (congrArg List.length (h 0 [delimited]))

end MessageBroker.ReceiveLoop
