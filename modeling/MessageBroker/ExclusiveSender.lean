import MessageBroker.ThreadPhases
import MessageBroker.SendLedger

namespace MessageBroker.ExclusiveSender

open WireMessages MessageStore ProgramTrees ThreadPools Protocols BrokerState SessionQueues
  ServerJobs OperationEffects ThreadViews SharedInvariant ProgramShapes ServerOutlines RunInvariants
  ThreadPhases SendLedger

def frames : List SendPart := [.identity, .delimiter, .data]

/-- Where a thread stands in the sending loop: how many sends are left, and
of the first one how many frames are out. -/
inductive FramePhase
  | outside
  | between (left : ℕ)
  | sending (left : ℕ) (send : PendingSend) (n : ℕ)
  | ended (left n : ℕ)

def frameProtocol : Protocol Op Op.Res FramePhase where
  may
    | .outside, o => o ≠ .frontSend ∧ (∀ p part, o ≠ .sendFrame p part) ∧ o ≠ .popSend ∧
      (∀ p b, o ≠ .callback p b) ∧ o ≠ .finishSends
    | .between left, o => o = .frontSend ∧ left ≠ 0 ∨ o = .finishSends ∧ left = 0
    | .sending _ p n, o => ∃ part, frames[n]? = some part ∧ o = .sendFrame p part
    | .ended _ _, o => (∃ p b, o = .callback p b) ∨ (∃ c, o = .increment c) ∨ o = .popSend
  next
    | .outside, .takePendingSends, n => if n = 0 then .outside else .between n
    | .between left, .frontSend, send =>
      match send with
      | none => .between 0
      | some p => .sending left p 0
    | .between _, .finishSends, _ => .outside
    | .sending left p n, .sendFrame _ _, r =>
      if r ≠ .accepted then .ended left n
      else if n + 1 < frames.length then .sending left p (n + 1) else .ended left (n + 1)
    | .ended left _, .popSend, _ => .between (left - 1)
    | x, _, _ => x

theorem keeps_perform {o : Op} (h : family o ≠ .sends) :
    Keeps frameProtocol .outside (perform o) := by
  cases o with
  | pushPendingSend | postSendTask | isSending | takePendingSends | frontSend | sendFrame
  | callback | popSend | finishSends | updateQueueMetrics => exact absurd rfl h
  | _ => exact .perform ⟨nofun, fun _ _ ↦ nofun, nofun, fun _ _ ↦ nofun, nofun⟩ fun _ ↦ rfl

theorem handling : Handling (Keeps frameProtocol .outside) where
  toRegistering := Sending.registering
    { toComposable := Keeps.composable frameProtocol .outside
      queue := fun o h ↦ keeps_perform (by rw [h]; nofun)
      session := fun o h ↦ keeps_perform (by rw [h]; nofun)
      sendToClient := fun s c data ↦
        ⟨⟨nofun, fun _ _ ↦ nofun, nofun, fun _ _ ↦ nofun, nofun⟩, fun _ ↦
          ⟨⟨nofun, fun _ _ ↦ nofun, nofun, fun _ _ ↦ nofun, nofun⟩, fun _ ↦ rfl⟩⟩ }
    (fun o h ↦ keeps_perform (by rw [h]; nofun)) fun s ↦ keeps_perform nofun
  receipt := fun s ↦ keeps_perform nofun
  storage := fun o h ↦ keeps_perform (by rw [h]; nofun)

/-- The program leads from one place of the sending loop to another, and does not throw. -/
def Moves (p : Program Unit) (Q : FramePhase → Prop) (x : FramePhase) : Prop :=
  Follows frameProtocol (fun _ ↦ Q) (fun _ _ ↦ False) p x

def Ended (left : ℕ) (x : FramePhase) : Prop := ∃ n, x = .ended left n

variable {left n : ℕ} {send : PendingSend}

theorem moves_failSend (counted : Bool) :
    Moves (failSend send counted) (Ended left) (.ended left n) := by
  refine ⟨.inl ⟨_, _, rfl⟩, fun _ ↦ ?_⟩
  cases counted with
  | true => exact ⟨.inr (.inl ⟨_, rfl⟩), fun _ ↦ ⟨n, rfl⟩⟩
  | false => exact ⟨n, rfl⟩

theorem moves_sendData : Moves (sendData send) (Ended left) (.sending left send 2) := by
  refine ⟨⟨.data, rfl, rfl⟩, fun r ↦ ?_⟩
  cases r with
  | accepted => exact ⟨.inl ⟨_, _, rfl⟩, fun _ ↦ ⟨.inr (.inl ⟨_, rfl⟩), fun _ ↦ ⟨3, rfl⟩⟩⟩
  | wouldBlock | error => exact moves_failSend true

theorem moves_sendDelimiter : Moves (sendDelimiter send) (Ended left) (.sending left send 1) := by
  refine ⟨⟨.delimiter, rfl, rfl⟩, fun r ↦ ?_⟩
  cases r with
  | accepted => exact moves_sendData
  | wouldBlock => exact moves_failSend false
  | error => exact moves_failSend true

theorem moves_sendIdentity : Moves (sendIdentity send) (Ended left) (.sending left send 0) := by
  refine ⟨⟨.identity, rfl, rfl⟩, fun r ↦ ?_⟩
  cases r with
  | accepted => exact moves_sendDelimiter
  | wouldBlock => exact moves_failSend false
  | error => exact moves_failSend true

theorem moves_sendLoop (left : ℕ) : Moves (sendLoop left) (· = .between 0) (.between left) := by
  induction left with
  | zero => exact rfl
  | succ left ih =>
    refine ⟨.inl ⟨rfl, nofun⟩, fun r ↦ ?_⟩
    match r with
    | none => exact rfl
    | some send =>
      refine Follows.bind (p := sendIdentity send) moves_sendIdentity fun _ x hx ↦ ?_
      obtain ⟨n, rfl⟩ := hx
      exact ⟨.inr (.inr rfl), fun _ ↦ ih⟩

theorem moves_processPendingSends :
    Moves processPendingSends (· = .outside) .outside := by
  refine ⟨⟨nofun, fun _ _ ↦ nofun, nofun, fun _ _ ↦ nofun, nofun⟩, fun n ↦ ?_⟩
  change Moves (if n ≠ 0 then _ else _) _ (if n = 0 then _ else _)
  by_cases h : n = 0
  · rw [if_neg (not_not_intro h), if_pos h]
    rfl
  · rw [if_pos h, if_neg h]
    refine Follows.bind (p := sendLoop n) (moves_sendLoop n) fun _ x hx ↦ ?_
    subst hx
    exact ⟨.inr ⟨rfl, rfl⟩, fun _ ↦
      ⟨⟨nofun, fun _ _ ↦ nofun, nofun, fun _ _ ↦ nofun, nofun⟩, fun _ ↦ rfl⟩⟩

theorem keeps_code (cfg : Config) (j : Job) : Keeps frameProtocol .outside (code cfg j) := by
  cases j with
  | receive identity data => exact handling.receive
  | cleanupInactiveSessions => exact handling.timer (handling.cleanupInactiveSessions cfg)
  | checkExpiredAcks => exact handling.timer handling.checkExpiredAcks
  | processPendingSends => exact moves_processPendingSends.mono (fun _ _ ↦ id) fun _ _ ↦ False.elim
  | sendTask =>
    refine ⟨⟨nofun, fun _ _ ↦ nofun, nofun, fun _ _ ↦ nofun, nofun⟩, fun sending ↦ ?_⟩
    cases sending with
    | true => exact rfl
    | false => exact moves_processPendingSends.mono (fun _ _ ↦ id) fun _ _ ↦ False.elim

variable {cfg : Config} {ok : State → Step → Prop} {metrics : Option Metrics} {S S' : State}
  {w w' : World} {i i' : ℕ} {j : Job} {o : Op} {ch : Choice} {r : o.Res}

def framePhase (i : ℕ) (w : World) : FramePhase := phase frameProtocol .outside i w.log

theorem framePhase_exec (he : exec i j o ch w = some (r, w')) :
    framePhase i w' = frameProtocol.next (framePhase i w) o r := phase_exec he

theorem framePhase_exec_ne (he : exec i j o ch w = some (r, w')) (hi : i' ≠ i) :
    framePhase i' w' = framePhase i' w := phase_exec_ne he hi

theorem may_of_performs (h : (broker cfg).Reachable ok (initial metrics) S)
    (hp : Performs cfg ok S i j o ch r w') : frameProtocol.may (framePhase i S.world) o :=
  may_of_follows (P := fun _ ↦ frameProtocol) (Q := fun _ x ↦ x = FramePhase.outside)
    (X := fun _ x ↦ x = FramePhase.outside) (keeps_code cfg) h hp

theorem batch_exec_ne (hp : Performs cfg ok S i j o ch r w') (hi : i' ≠ i) :
    w'.batches i' = S.world.batches i' :=
  congrArg Hold.batch (step_rely hi hp.allowed hp.exec hp.inv).owns

/-- The batch of a thread is what is left for its sending loop. -/
def Tracks (batch : List PendingSend) : FramePhase → Prop
  | .outside => batch = []
  | .between left => batch.length = left
  | .sending left send _ => batch.length = left ∧ batch.head? = some send
  | .ended left _ => batch.length = left ∧ batch ≠ []

theorem tracks_own (hp : Performs cfg ok S i j o ch r w')
    (hmay : frameProtocol.may (framePhase i S.world) o)
    (h : Tracks (S.world.batches i) (framePhase i S.world)) :
    Tracks (w'.batches i) (framePhase i w') := by
  have he := hp.exec
  rw [framePhase_exec he]
  cases hx : framePhase i S.world with
  | outside =>
    rw [hx] at hmay h
    obtain ⟨h₁, h₂, h₃, h₄, h₅⟩ := hmay
    have same (hb : .batches ∉ writes o) (hn : frameProtocol.next .outside o r = .outside) :
        Tracks (w'.batches i) (frameProtocol.next .outside o r) := by
      rw [hn, (exec_frame he).batches (by simp [hb])]
      exact h
    cases o with
    | takePendingSends =>
      obtain ⟨hn, -, hb⟩ := exec_takePendingSends he
      change Tracks _ (if r = 0 then .outside else .between r)
      rw [hb, hn]
      by_cases hq : S.world.pendingSends = []
      · rw [if_pos hq, if_pos (by rw [hq, List.length_nil])]
        exact h
      · rw [if_neg hq, if_neg (by simpa using hq), Function.update_self]
        rfl
    | callback send success => exact absurd rfl (h₄ send success)
    | popSend => exact absurd rfl h₃
    | _ => exact same (by simp [writes]) rfl
  | between left =>
    rw [hx] at hmay h
    rcases hmay with ⟨rfl, -⟩ | ⟨rfl, hl⟩
    · rw [(exec_frame he).batches (by simp [writes])]
      have hr : (S.world.batches i).head? = r := Option.some.inj (exec_reads he)
      cases r with
      | none =>
        rw [List.head?_eq_none_iff.mp hr]
        rfl
      | some send => exact ⟨h, hr⟩
    · rw [(exec_frame he).batches (by simp [writes])]
      subst hl
      exact List.eq_nil_of_length_eq_zero h
  | sending left send n =>
    rw [hx] at hmay h
    obtain ⟨part, -, rfl⟩ := hmay
    have hne : S.world.batches i ≠ [] := by
      intro hn
      rw [hn] at h
      cases h.2
    rw [(exec_frame he).batches (by simp [writes])]
    simp only [frameProtocol]
    split_ifs
    · exact ⟨h.1, hne⟩
    · exact h
    · exact ⟨h.1, hne⟩
  | ended left n =>
    rw [hx] at hmay h
    rcases hmay with ⟨p, b, rfl⟩ | ⟨c, rfl⟩ | rfl
    · obtain ⟨send, rest, hb⟩ := List.exists_cons_of_ne_nil h.2
      rw [(exec_callback he).1, Function.update_self, hb]
      rw [hb] at h
      exact ⟨h.1, List.cons_ne_nil _ _⟩
    · rw [(exec_frame he).batches (by simp [writes])]
      exact h
    · rw [exec_popSend he, Function.update_self]
      change (S.world.batches i).tail.length = left - 1
      rw [List.length_tail, h.1]

theorem tracks (h : (broker cfg).Reachable ok (initial metrics) S) (i : ℕ) :
    Tracks (S.world.batches i) (framePhase i S.world) := by
  refine thread_invariant (I := fun i w ↦ Tracks (w.batches i) (framePhase i w)) (fun _ ↦ rfl)
    (fun _ _ _ _ _ h ↦ h) (fun hr hp ht ↦ tracks_own hp (may_of_performs hr hp) ht) (fun _ hp hi ht ↦ ?_) h i
  rw [batch_exec_ne hp hi, framePhase_exec_ne hp.exec hi]
  exact ht

def frameView (f : PendingSend × SendPart) : Key × SendPart :=
  ((f.1.session, f.1.copy, f.1.data), f.2)

/-- The frames on the wire when the sends leave one after the other, of each as
many as `counts` says. -/
def leave : List Key → List ℕ → List (Key × SendPart)
  | k :: keys, n :: counts => (frames.take n).map (k, ·) ++ leave keys counts
  | _, _ => []

theorem leave_append {keys more : List Key} {counts : List ℕ} (h : counts.length ≤ keys.length) :
    leave (keys ++ more) counts = leave keys counts := by
  induction keys generalizing counts with
  | nil =>
    obtain rfl := List.eq_nil_of_length_eq_zero (Nat.le_zero.mp h)
    cases more <;> rfl
  | cons k keys ih =>
    cases counts with
    | nil => rfl
    | cons n counts =>
      rw [List.cons_append, leave, leave, ih (Nat.le_of_succ_le_succ h)]

theorem leave_concat {keys : List Key} {counts : List ℕ} {k : Key} (n : ℕ)
    (h : keys[counts.length]? = some k) :
    leave keys (counts ++ [n]) = leave keys counts ++ (frames.take n).map (k, ·) := by
  induction keys generalizing counts with
  | nil => cases h
  | cons k' keys ih =>
    cases counts with
    | nil =>
      obtain rfl := Option.some.inj h
      cases keys <;> simp [leave]
    | cons m counts =>
      rw [List.cons_append, leave, leave, ih (by simpa using h), List.append_assoc]

theorem frames_take {n : ℕ} {part : SendPart} (h : frames[n]? = some part) :
    frames.take (n + 1) = frames.take n ++ [part] := by
  rw [List.take_add_one, h]
  rfl

/-- How many frames of the first send of its batch a thread has put on the wire. -/
def FramePhase.out : FramePhase → List ℕ
  | .sending _ _ n | .ended _ n => [n]
  | _ => []

/-- The sends that are finished, those in the batch of thread `i` and those in
the queue follow each other in the order in which they were enqueued, and so
do their frames on the wire. -/
structure Ordered (i : ℕ) (out : List ℕ) (w : World) (sent mine queued : List Entry)
    (counts : List ℕ) : Prop where
  all : entries w.log = sent ++ mine ++ queued
  finished : ∀ e ∈ sent, e.place = .finished
  batch : ∀ e ∈ mine, e.place = .batch i
  queue : ∀ e ∈ queued, e.place = .queue
  counted : counts.length = sent.length
  started : out.length ≤ mine.length
  wire : w.wire.map frameView = leave ((entries w.log).map Entry.key) (counts ++ out)

/-- No thread but `i` is in the sending loop. -/
structure Sole (i : ℕ) (w : World) : Prop where
  others : ∀ i', i' ≠ i → framePhase i' w = .outside
  flag : framePhase i w ≠ .outside → w.sendingInProgress = true
  order : ∃ sent mine queued counts, Ordered i (framePhase i w).out w sent mine queued counts

variable {out : List ℕ} {F B Q : List Entry} {counts : List ℕ}

theorem filter_eq_self_of_place {l : List Entry} {x : Place} (h : ∀ e ∈ l, e.place = x) :
    l.filter (Entry.isAt x) = l :=
  List.filter_eq_self.mpr fun e he ↦ isAt_iff.mpr (h e he)

theorem filter_eq_nil_of_place {l : List Entry} {x y : Place} (h : ∀ e ∈ l, e.place = y)
    (hxy : y ≠ x) : l.filter (Entry.isAt x) = [] :=
  List.filter_eq_nil_iff.mpr fun e he hx ↦ hxy ((h e he).symm.trans (isAt_iff.mp hx))

theorem Ordered.batch_eq (h : Ordered i out w F B Q counts) (hc : Conserved w) :
    (w.batches i).map sendView = B.map Entry.view := by
  rw [hc.batch, h.all, List.filter_append, List.filter_append,
    filter_eq_nil_of_place (x := .batch i) h.finished nofun, filter_eq_self_of_place h.batch,
    filter_eq_nil_of_place (x := .batch i) h.queue nofun, List.nil_append, List.append_nil]

theorem Sole.switch (h : Sole i w) (hc : Conserved w)
    (ht : Tracks (w.batches i) (framePhase i w)) (hf : w.sendingInProgress = false) (i' : ℕ) :
    Sole i' w := by
  have hout : ∀ k, framePhase k w = .outside := fun k ↦ by
    by_cases hk : k = i
    · by_contra hne
      subst hk
      cases hf.symm.trans (h.flag hne)
    · exact h.others k hk
  obtain ⟨F, B, Q, counts, ho⟩ := h.order
  have hB : B = [] := by
    have hb := ho.batch_eq hc
    rw [hout i] at ht
    rw [show w.batches i = [] from ht] at hb
    exact List.map_eq_nil_iff.mp hb.symm
  subst hB
  refine ⟨fun k _ ↦ hout k, fun hne ↦ absurd (hout i') hne, F, [], Q, counts, ?_⟩
  rw [hout i']
  have hwire := ho.wire
  rw [hout i] at hwire
  exact ⟨ho.all, ho.finished, fun _ he ↦ absurd he List.not_mem_nil, ho.queue, ho.counted,
    Nat.le_refl _, hwire⟩

theorem Ordered.same (h : Ordered i out w F B Q counts) (hl : entries w'.log = entries w.log)
    (hw : w'.wire = w.wire) : Ordered i out w' F B Q counts :=
  ⟨hl ▸ h.all, h.finished, h.batch, h.queue, h.counted, h.started, by rw [hw, hl, h.wire]⟩

theorem Ordered.push (h : Ordered i out w F B Q counts) {e : Entry} (he : e.place = .queue)
    (hl : entries w'.log = entries w.log ++ [e]) (hw : w'.wire = w.wire) :
    Ordered i out w' F B (Q ++ [e]) counts := by
  refine ⟨by rw [hl, h.all, List.append_assoc], h.finished, h.batch, fun e' he' ↦ ?_, h.counted,
    h.started, ?_⟩
  · rcases List.mem_append.mp he' with he' | he'
    · exact h.queue e' he'
    · rw [List.mem_singleton.mp he', he]
  · rw [hw, hl, List.map_append, leave_append, h.wire]
    have h₁ := h.counted
    have h₂ := h.started
    rw [h.all]
    simp only [List.length_append, List.length_map]
    omega

theorem next_outside (ho : o ≠ .takePendingSends) : frameProtocol.next .outside o r = .outside := by
  cases o with
  | takePendingSends => exact absurd rfl ho
  | _ => rfl

theorem sole_outside {k : ℕ} (he : exec k j o ch w = some (r, w'))
    (hmay : frameProtocol.may (framePhase k w) o) (hk : framePhase k w = .outside)
    (ho : o ≠ .takePendingSends) (h : Sole i w) : Sole i w' := by
  rw [hk] at hmay
  obtain ⟨h₁, h₂, h₃, h₄, h₅⟩ := hmay
  have hphase (i' : ℕ) : framePhase i' w' = framePhase i' w := by
    by_cases hi : i' = k
    · rw [hi, framePhase_exec he, hk, next_outside ho]
    · exact framePhase_exec_ne he hi
  have hwire := (exec_aside he).wire h₂
  have hl := entries_exec he
  refine ⟨fun i' hi ↦ (hphase i').trans (h.others i' hi), fun hne ↦ ?_, ?_⟩
  · rw [(exec_aside he).sendingInProgress ho h₅]
    exact h.flag (hphase i ▸ hne)
  obtain ⟨F, B, Q, counts, hord⟩ := h.order
  rw [hphase i]
  cases o with
  | pushPendingSend s c data => exact ⟨F, B, _, counts, hord.push rfl hl hwire⟩
  | takePendingSends => exact absurd rfl ho
  | callback send success => exact absurd rfl (h₄ send success)
  | popSend => exact absurd rfl h₃
  | _ => exact ⟨F, B, Q, counts, hord.same hl hwire⟩

theorem sole_take {n : ℕ} (he : exec i j .takePendingSends ch w = some (n, w'))
    (hc : Conserved w) (hi : framePhase i w = .outside) (ht : w.batches i = []) (h : Sole i w) : Sole i w' := by
  have hphase : framePhase i w' = if n = 0 then .outside else .between n := by
    rw [framePhase_exec he, hi]
    rfl
  have hout : (framePhase i w').out = [] := by
    rw [hphase]
    split <;> rfl
  refine ⟨fun i' hne ↦ (framePhase_exec_ne he hne).trans (h.others i' hne), fun hne ↦ ?_, ?_⟩
  · rw [exec_takePendingSends_flag he]
    have hn : n ≠ 0 := fun hn ↦ hne (by rw [hphase, if_pos hn])
    rw [(exec_takePendingSends he).1] at hn
    simpa using hn
  obtain ⟨F, B, Q, counts, ho⟩ := h.order
  have hB : B = [] := by
    have hb := ho.batch_eq hc
    rw [ht] at hb
    exact List.map_eq_nil_iff.mp hb.symm
  have hl : entries w'.log = (entries w.log).map (Entry.take i) := entries_exec he
  have hF : F.map (Entry.take i) = F := by
    have hid : ∀ e ∈ F, e.take i = e := fun e he ↦ by
      rw [Entry.take, ho.finished e he, if_neg (by simp)]
    rw [List.map_congr_left hid, List.map_id']
  have hkey (e : Entry) : (e.take i).key = e.key := by
    unfold Entry.take
    split <;> rfl
  refine ⟨F, Q.map (Entry.take i), [], counts, ?_, ho.finished, ?_, ?_, ho.counted, ?_, ?_⟩
  · rw [hl, ho.all, hB, List.append_nil, List.map_append, hF, List.append_nil]
  · intro e he
    obtain ⟨e₀, he₀, rfl⟩ := List.mem_map.mp he
    rw [Entry.take, if_pos (ho.queue e₀ he₀)]
  · exact fun e he ↦ absurd he List.not_mem_nil
  · rw [hout]
    exact Nat.zero_le _
  · have hw := ho.wire
    rw [hi] at hw
    rw [hout, (exec_aside he).wire (by simp), hl, List.map_map]
    have : Entry.key ∘ Entry.take i = Entry.key := funext hkey
    rw [this]
    exact hw

theorem Ordered.front (h : Ordered i out w F B Q counts) (hc : Conserved w) {send : PendingSend}
    {sends : List PendingSend} (hb : w.batches i = send :: sends) :
    ∃ b rest, B = b :: rest ∧ b.key = (sendView send).1 := by
  have hv := h.batch_eq hc
  rw [hb, List.map_cons] at hv
  cases B with
  | nil => cases hv
  | cons b rest => exact ⟨b, rest, rfl, (congrArg Prod.fst (List.cons.inj hv).1).symm⟩

theorem Ordered.key {b : Entry} (h : Ordered i out w F (b :: B) Q counts) :
    ((entries w.log).map Entry.key)[counts.length]? = some b.key := by
  rw [h.all, h.counted, List.append_assoc, List.getElem?_map,
    List.getElem?_append_right (Nat.le_refl _), Nat.sub_self]
  rfl

theorem Ordered.not_batch (h : Ordered i out w F B Q counts) :
    ∀ e ∈ F, e.isAt (.batch i) = false := fun e he ↦
  isAt_ne (isAt_iff.mpr (h.finished e he)) nofun

variable {b : Entry}

theorem Ordered.begin (h : Ordered i [] w F (b :: B) Q counts)
    (hl : entries w'.log = entries w.log) (hw : w'.wire = w.wire) :
    Ordered i [0] w' F (b :: B) Q counts := by
  have hs := h.same hl hw
  refine ⟨hs.all, hs.finished, hs.batch, hs.queue, hs.counted, ?_, ?_⟩
  · exact Nat.succ_le_succ (Nat.zero_le _)
  · rw [leave_concat 0 hs.key, hs.wire, List.append_nil]
    exact (List.append_nil _).symm

theorem Ordered.frame {n : ℕ} {part : SendPart} (h : Ordered i [n] w F (b :: B) Q counts)
    (hkey : b.key = (sendView send).1) (hpart : frames[n]? = some part)
    (hl : entries w'.log = entries w.log) (hw : w'.wire = w.wire ++ [(send, part)]) :
    Ordered i [n + 1] w' F (b :: B) Q counts := by
  refine ⟨hl ▸ h.all, h.finished, h.batch, h.queue, h.counted, h.started, ?_⟩
  have hwire := h.wire
  rw [leave_concat n h.key] at hwire
  rw [hw, hl, leave_concat (n + 1) h.key, frames_take hpart, List.map_append, List.map_append, hwire,
    List.append_assoc, hkey]
  rfl

theorem Ordered.called {n : ℕ} (h : Ordered i [n] w F (b :: B) Q counts)
    (hl : entries w'.log = updateFirst (Entry.isAt (.batch i)) Entry.call (entries w.log))
    (hw : w'.wire = w.wire) : Ordered i [n] w' F (b.call :: B) Q counts := by
  have hb := h.batch b List.mem_cons_self
  have hall : entries w'.log = F ++ b.call :: (B ++ Q) := by
    rw [hl, h.all, List.append_assoc, List.cons_append,
      updateFirst_append h.not_batch (isAt_iff.mpr hb)]
  have hkeys : (entries w'.log).map Entry.key = (entries w.log).map Entry.key := by
    rw [hall, h.all, List.append_assoc, List.map_append, List.map_append]
    rfl
  refine ⟨by rw [hall, List.append_assoc]; rfl, h.finished, fun e he ↦ ?_, h.queue, h.counted,
    h.started, by rw [hw, hkeys, h.wire]⟩
  rcases List.mem_cons.mp he with rfl | he
  · exact hb
  · exact h.batch e (List.mem_cons_of_mem _ he)

theorem Ordered.popped {n : ℕ} (h : Ordered i [n] w F (b :: B) Q counts)
    (hl : entries w'.log = updateFirst (Entry.isAt (.batch i)) Entry.finish (entries w.log))
    (hw : w'.wire = w.wire) : Ordered i [] w' (F ++ [b.finish]) B Q (counts ++ [n]) := by
  have hb := h.batch b List.mem_cons_self
  have hall : entries w'.log = F ++ b.finish :: (B ++ Q) := by
    rw [hl, h.all, List.append_assoc, List.cons_append,
      updateFirst_append h.not_batch (isAt_iff.mpr hb)]
  have hkeys : (entries w'.log).map Entry.key = (entries w.log).map Entry.key := by
    rw [hall, h.all, List.append_assoc, List.map_append, List.map_append]
    rfl
  refine ⟨by simp [hall], fun e he ↦ ?_, fun e he ↦ h.batch e (List.mem_cons_of_mem _ he), h.queue,
    by simp [h.counted], Nat.zero_le _, by rw [hw, hkeys, h.wire, List.append_nil]⟩
  rcases List.mem_append.mp he with he | he
  · exact h.finished e he
  · rw [List.mem_singleton.mp he]
    rfl

theorem sole_inside (he : exec i j o ch w = some (r, w')) (hc : Conserved w)
    (hmay : frameProtocol.may (framePhase i w) o) (ht : Tracks (w.batches i) (framePhase i w))
    (hi : framePhase i w ≠ .outside) (h : Sole i w) : Sole i w' := by
  obtain ⟨F, B, Q, counts, ho⟩ := h.order
  have hl := entries_exec he
  have hflag := h.flag hi
  have kept (h₁ : o ≠ .takePendingSends) (h₂ : o ≠ .finishSends)
      (hord : ∃ F B Q counts, Ordered i (framePhase i w').out w' F B Q counts) : Sole i w' :=
    ⟨fun i' hne ↦ (framePhase_exec_ne he hne).trans (h.others i' hne),
      fun _ ↦ (exec_aside he).sendingInProgress h₁ h₂ ▸ hflag, hord⟩
  have hnext := framePhase_exec he
  cases hx : framePhase i w with
  | outside => exact absurd hx hi
  | between left =>
    rw [hx] at hmay ht ho hnext
    rcases hmay with ⟨rfl, hleft⟩ | ⟨rfl, -⟩
    · have hwire := (exec_aside he).wire (by simp)
      refine kept nofun nofun ?_
      rw [hnext]
      cases r with
      | none => exact ⟨F, B, Q, counts, ho.same hl hwire⟩
      | some send =>
        have hb : w.batches i ≠ [] := by
          intro hb
          rw [hb] at ht
          exact hleft ht.symm
        obtain ⟨p, rest, hp⟩ := List.exists_cons_of_ne_nil hb
        obtain ⟨b, B', rfl, -⟩ := ho.front hc hp
        exact ⟨F, _, Q, counts, ho.begin hl hwire⟩
    · refine ⟨fun i' hne ↦ (framePhase_exec_ne he hne).trans (h.others i' hne), fun hne ↦ ?_, ?_⟩
      · exact absurd hnext hne
      · rw [hnext]
        exact ⟨F, B, Q, counts, ho.same hl ((exec_aside he).wire (by simp))⟩
  | sending left send n =>
    rw [hx] at hmay ht ho hnext
    obtain ⟨part, hpart, rfl⟩ := hmay
    obtain ⟨rest, hrest⟩ := List.head?_eq_some_iff.mp ht.2
    obtain ⟨b, B', rfl, hkey⟩ := ho.front hc hrest
    have hwire := exec_sendFrame he
    refine kept nofun nofun ?_
    rw [hnext]
    simp only [frameProtocol]
    by_cases hr : r = .accepted
    · rw [if_pos hr] at hwire
      rw [if_neg (not_not_intro hr)]
      have hord := ho.frame hkey hpart hl hwire
      split <;> exact ⟨F, _, Q, counts, hord⟩
    · rw [if_neg hr] at hwire
      rw [if_pos hr]
      exact ⟨F, _, Q, counts, ho.same hl hwire⟩
  | ended left n =>
    rw [hx] at hmay ht ho hnext
    obtain ⟨p, rest, hp⟩ := List.exists_cons_of_ne_nil ht.2
    obtain ⟨b, B', rfl, -⟩ := ho.front hc hp
    rcases hmay with ⟨p, success, rfl⟩ | ⟨c, rfl⟩ | rfl
    · refine kept nofun nofun ?_
      rw [hnext]
      exact ⟨F, _, Q, counts, ho.called hl ((exec_aside he).wire (by simp))⟩
    · refine kept nofun nofun ?_
      rw [hnext]
      exact ⟨F, _, Q, counts, ho.same hl ((exec_aside he).wire (by simp))⟩
    · refine kept nofun nofun ?_
      rw [hnext]
      exact ⟨_, B', Q, _, ho.popped hl ((exec_aside he).wire (by simp))⟩

/-- At most one thread is in the sending loop, and the frames on the wire are
those of the sends in the order in which they were enqueued, of each send the
first few without a gap. -/
structure Exclusive (w : World) : Prop where
  alone : ∀ i i', framePhase i w ≠ .outside → framePhase i' w ≠ .outside → i = i'
  wire : ∃ counts, counts.length ≤ (entries w.log).length ∧
    w.wire.map frameView = leave ((entries w.log).map Entry.key) counts

def takes : Op → Bool
  | .takePendingSends => true
  | _ => false

/-- No pass over the queue of sends starts while `sendingInProgress` is set. -/
def Unannounced (S : State) : Step → Prop
  | .step i _ => (S.nextOp i).any takes = true → S.world.sendingInProgress = false
  | _ => True

instance (S : State) : (l : Step) → Decidable (Unannounced S l)
  | .step i _ => inferInstanceAs (Decidable ((S.nextOp i).any takes = true →
    S.world.sendingInProgress = false))
  | .start _ | .tick _ => instDecidableTrue

theorem sole_step (h : (broker cfg).Reachable Unannounced (initial metrics) S)
    (hp : Performs cfg Unannounced S i j o ch r w') (hs : ∃ k, Sole k S.world) :
    ∃ k, Sole k w' := by
  have he := hp.exec
  have hmay := may_of_performs h hp
  have hc := conserved h
  have ht := tracks h
  obtain ⟨k, hk⟩ := hs
  by_cases ho : o = .takePendingSends
  · subst ho
    have hflag : S.world.sendingInProgress = false := hp.ok (by rw [hp.nextOp]; rfl)
    have hi := hk.switch hc (ht k) hflag i
    have hout : framePhase i S.world = .outside := by
      by_contra hne
      cases hflag.symm.trans (hi.flag hne)
    exact ⟨i, sole_take he hc hout hp.allowed hi⟩
  · by_cases hx : framePhase i S.world = .outside
    · exact ⟨k, sole_outside he hmay hx ho hk⟩
    · obtain rfl : i = k := by
        by_contra hne
        exact hx (hk.others i hne)
      exact ⟨i, sole_inside he hc hmay (ht i) hx hk⟩

theorem exists_sole (h : (broker cfg).Reachable Unannounced (initial metrics) S) :
    ∃ i, Sole i S.world := by
  refine reachable_invariant (P := fun w ↦ ∃ i, Sole i w) ?_ (fun w _ _ _ h ↦ ?_) sole_step h
  · refine ⟨0, fun _ _ ↦ rfl, fun hne ↦ absurd rfl hne, [], [], [], [], ?_⟩
    exact ⟨rfl, fun _ h ↦ absurd h List.not_mem_nil, fun _ h ↦ absurd h List.not_mem_nil,
      fun _ h ↦ absurd h List.not_mem_nil, rfl, Nat.le_refl _, rfl⟩
  · obtain ⟨i, hs⟩ := h
    obtain ⟨F, B, Q, counts, ho⟩ := hs.order
    exact ⟨i, hs.others, hs.flag, F, B, Q, counts, ho.same rfl rfl⟩

/-- As long as no pass starts while another one has set the flag, one thread at
a time sends, and the frames leave in order. -/
theorem exclusive_sender (h : (broker cfg).Reachable Unannounced (initial metrics) S) :
    Exclusive S.world := by
  obtain ⟨i, hs⟩ := exists_sole h
  obtain ⟨F, B, Q, counts, ho⟩ := hs.order
  refine ⟨fun k k' hk hk' ↦ ?_, counts ++ (framePhase i S.world).out, ?_, ho.wire⟩
  · have sole {k : ℕ} (hk : framePhase k S.world ≠ .outside) : k = i := by
      by_contra hne
      exact hk (hs.others k hne)
    exact (sole hk).trans (sole hk').symm
  · have h₁ := ho.counted
    have h₂ := ho.started
    rw [ho.all]
    simp only [List.length_append]
    omega

/-- Bob is sent two messages, one after the other. -/
theorem exclusive_sender_two : ∃ S, (broker {}).Reachable Unannounced (initial none) S ∧
    S.world.wire.map (fun f ↦ (f.1.copy.msg.correlationId, f.2)) =
      [(1, .identity), (1, .delimiter), (1, .data), (2, .identity)] ∧ Exclusive S.world := by
  have hrun : ((broker {}).runs Unannounced (inTurn 0 [
      (arrival { type := .register, sender := [98] }, 31),
      (arrival { sender := [97], destination := [98], correlationId := 1 }, 16),
      (.processPendingSends, 10),
      (arrival { sender := [97], destination := [98], correlationId := 2 }, 16),
      (.sendTask, 4)]) ⟨initial none, []⟩).map (fun S ↦
        S.world.wire.map fun f ↦ (f.1.copy.msg.correlationId, f.2)) =
      some [(1, .identity), (1, .delimiter), (1, .data), (2, .identity)] := by
    decide +kernel
  obtain ⟨S, hS, hv⟩ := exists_run hrun
  exact ⟨S, hS, hv, exclusive_sender hS⟩

/-- A posted task is sending when another thread, having received a message,
takes the queue without looking at the flag. -/
theorem senders_interleave : ∃ S, (broker {}).Reachable (fun _ _ ↦ True) (initial none) S ∧
    S.world.wire.map (fun f ↦ (f.1.copy.msg.correlationId, f.2)) =
      [(1, .identity), (2, .identity), (1, .delimiter)] ∧ ¬ Exclusive S.world := by
  have hrun : ((broker {}).runs (fun _ _ ↦ True) (inTurn 0 [
      (arrival { type := .register, sender := [98] }, 31),
      (arrival { sender := [97], destination := [98], correlationId := 1 }, 16), (.sendTask, 4),
      (arrival { sender := [97], destination := [98], correlationId := 2 }, 16),
      (.processPendingSends, 3)] ++ [.step 2 {}]) ⟨initial none, []⟩).map (fun S ↦
        (S.world.wire.map (fun f ↦ (f.1.copy.msg.correlationId, f.2)),
          (framePhase 2 S.world).out, (framePhase 4 S.world).out)) =
      some ([(1, .identity), (2, .identity), (1, .delimiter)], [2], [1]) := by
    decide +kernel
  obtain ⟨S, hS, hv⟩ := exists_run hrun
  obtain ⟨hwire, hphases⟩ := Prod.mk.inj hv
  obtain ⟨h₂, h₄⟩ := Prod.mk.inj hphases
  refine ⟨S, hS, hwire, fun hx ↦ ?_⟩
  have hne {x : FramePhase} {n : ℕ} (hn : x.out = [n]) : x ≠ .outside := by
    rintro rfl
    cases hn
  exact absurd (hx.alone 2 4 (hne h₂) (hne h₄)) (by decide)

end MessageBroker.ExclusiveSender
