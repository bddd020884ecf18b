import MessageBroker.ThreadPhases

namespace MessageBroker.AckRace

open ByteStrings WireMessages MessageStore ProgramTrees ThreadPools Protocols BrokerState
  SessionQueues ClientRegistry MessageHandlers ServerJobs StoreInvariant OperationEffects
  ThreadViews SharedInvariant ProgramShapes ServerOutlines RunInvariants ThreadPhases

/-- Where a thread stands in the handling of an acknowledgement or in a retry pass. -/
inductive RacePhase
  | unread
  | accepted (id : ℕ)
  | acknowledged (id : ℕ)
  | ignored
  | retrying
  | other
deriving DecidableEq

def marks : Op → Bool
  | .markDelivered _ | .markSent _ | .markPending _ => true
  | _ => false

def raceProtocol : Protocol Op Op.Res RacePhase where
  may
    | .unread, o => marks o = false
    | .accepted id, o => o = .markDelivered id
    | .acknowledged _, o | .ignored, o => marks o = false ∧ ∀ id, o ≠ .needsAck id
    | .retrying, o => ∀ id, o ≠ .markDelivered id
    | .other, _ => True
  next
    | .unread, .needsAck id, r => if r then .accepted id else .ignored
    | .accepted id, .markDelivered _, .ok _ => .acknowledged id
    | .accepted _, .markDelivered _, .error _ => .ignored
    | x, _, _ => x

variable {x : RacePhase} {α : Type} {msg : Message} {id : ℕ} {n : Bytes} {o : Op} {r : o.Res}

/-- Every phase but the one between reading and marking a row. -/
def Resting (x : RacePhase) : Prop := ∀ id, x ≠ .accepted id

theorem next_resting (hx : Resting x) (ho : ∀ id, o ≠ .needsAck id) :
    raceProtocol.next x o r = x := by
  cases x with
  | accepted id => exact absurd rfl (hx id)
  | unread =>
    cases o with
    | needsAck id => exact absurd rfl (ho id)
    | _ => rfl
  | _ => rfl

theorem keeps_perform (hx : Resting x) (hm : marks o = false) (ho : ∀ id, o ≠ .needsAck id) :
    Keeps raceProtocol x (perform o) := by
  refine .perform ?_ fun _ ↦ next_resting hx ho
  have hd (id : ℕ) : o ≠ .markDelivered id := fun h ↦ by
    rw [h] at hm
    cases hm
  cases x with
  | accepted id => exact absurd rfl (hx id)
  | unread => exact hm
  | acknowledged | ignored => exact ⟨hm, ho⟩
  | retrying => exact hd
  | other => trivial

theorem registering (hx : Resting x) : Registering (Keeps raceProtocol x) := by
  refine registering_of_composable (Keeps.composable raceProtocol x) fun o ho ↦ ?_
  have h : marks o = false ∧ ∀ id, o ≠ .needsAck id := by
    cases o with
    | markDelivered | markSent | markPending | needsAck => exact absurd rfl ho
    | _ => exact ⟨rfl, fun _ ↦ by simp⟩
  exact keeps_perform hx h.1 h.2

def Rests (p : Program α) (x : RacePhase) : Prop :=
  Follows raceProtocol (fun _ ↦ Resting) (fun _ ↦ Resting) p x

theorem rests_of_keeps {p : Program α} (h : Keeps raceProtocol x p) (hx : Resting x) : Rests p x :=
  Follows.mono h (fun _ _ hy ↦ hy ▸ hx) fun _ _ hy ↦ hy ▸ hx

theorem Rests.after {β : Type} {p : Program α} {f : α → Program β} (h : Keeps raceProtocol x p)
    (hx : Resting x) (hf : ∀ a, Rests (f a) x) : Rests (p.bind f) x :=
  Follows.bind (Follows.mono h (fun _ _ ↦ id) fun _ _ hy ↦ hy ▸ hx) fun a y hy ↦ by
    subst hy
    exact hf a

theorem Rests.holding {session : Option ℕ} {p : Program α} (h : Rests p x) :
    Rests (holding session p) x := by
  cases session with
  | none => exact h
  | some s =>
    exact Follows.ensuring h (fun _ y hy ↦ rests_of_keeps (registering hy).dropSession hy)
      fun _ y hy ↦ rests_of_keeps (registering hy).dropSession hy

theorem follows_markDelivered : Follows raceProtocol (fun _ y ↦ y = .acknowledged id)
    (fun _ ↦ Resting) (markDelivered id) (.accepted id) := by
  refine ⟨rfl, fun r ↦ ?_⟩
  cases r with
  | error e => exact fun _ ↦ by simp [raceProtocol]
  | ok u => exact rfl

theorem rests_acknowledge {owner : Bytes} : Rests (acknowledge msg owner id) (.accepted id) := by
  have hx : Resting (.acknowledged id) := fun _ ↦ by simp
  have h := registering hx
  refine Follows.bind follows_markDelivered fun _ y hy ↦ ?_
  subst hy
  refine Rests.after (keeps_perform hx rfl (by simp)) hx fun _ ↦
    Rests.after (h.increment _) hx fun _ ↦ ?_
  split
  · exact Rests.after (h.findSession owner) hx fun _ ↦ rests_of_keeps (h.holding h.notifySender) hx
  · exact hx

theorem rests_ackHandler : Rests (ackHandler msg) .unread := by
  have hx : Resting .unread := fun _ ↦ by simp
  unfold MessageHandlers.ackHandler
  split
  · refine Rests.after (keeps_perform hx rfl (by simp)) hx fun owner ↦ ?_
    refine Rests.after (p := findAcknowledged msg) ?_ hx fun id ↦ ?_
    · refine (Keeps.composable raceProtocol .unread).bind (keeps_perform hx rfl (by simp)) fun id ↦ ?_
      split
      · exact keeps_perform hx rfl (by simp)
      · exact rfl
    · split
      · refine ⟨rfl, fun r ↦ ?_⟩
        cases r with
        | true => exact rests_acknowledge
        | false => exact fun _ ↦ by simp [raceProtocol]
      · exact hx
  · exact hx

theorem rests_receive {identity data : Bytes} (hd : deserialize data = .ok msg)
    (ht : msg.type = .ack) : Rests (receive identity data) .unread := by
  have hx : Resting .unread := fun _ ↦ by simp
  have h := registering hx
  have hroute : Rests (routeMessage msg identity) .unread := by
    refine Rests.after (h.touchSession identity) hx fun session ↦ Rests.holding ?_
    rw [handle, ht]
    exact rests_ackHandler
  have hbody : Rests (do
      perform (.increment .messagesReceived)
      let msg ← Prog.lift (deserialize data)
      routeMessage msg identity) .unread := by
    rw [hd]
    exact Rests.after (h.increment _) hx fun _ ↦ hroute
  exact Follows.recover hbody fun _ y hy ↦ rests_of_keeps ((registering hy).increment _) hy

theorem rests_checkExpiredAcks (cfg : Config) : Rests (timer (checkExpiredAcks cfg)) .retrying := by
  have hx : Resting .retrying := fun _ ↦ by simp
  have h := registering hx
  have may {o : Op} (ho : ∀ id, o ≠ .markDelivered id) : Keeps raceProtocol .retrying (perform o) :=
    .perform ho fun _ ↦ rfl
  refine rests_of_keeps (h.timer (h.checkExpiredAcks (fun id ↦ ?_) (fun id ↦ ?_) ?_ ?_)) hx
  · exact may (by simp)
  · exact may (by simp)
  · exact may (by simp)
  · exact may (by simp)

def startPhase : Job → RacePhase
  | .receive _ data =>
    match deserialize data with
    | .ok msg => if msg.type = .ack then .unread else .other
    | .error _ => .other
  | .checkExpiredAcks => .retrying
  | _ => .other

theorem rests_code (cfg : Config) (j : Job) : Rests (code cfg j) (startPhase j) := by
  have other : Rests (code cfg j) .other :=
    Follows.absorbed (fun o ↦ ⟨trivial, fun _ ↦ rfl⟩) (fun _ _ ↦ by simp) fun _ _ ↦ by simp
  cases j with
  | receive identity data =>
    cases hd : deserialize data with
    | error e =>
      simp only [startPhase, hd]
      exact other
    | ok msg =>
      simp only [startPhase, hd]
      split
      · next ht => exact rests_receive hd ht
      · exact other
  | checkExpiredAcks => exact rests_checkExpiredAcks cfg
  | cleanupInactiveSessions | processPendingSends | sendTask => exact other

variable {cfg : Config} {ok : State → Step → Prop} {metrics : Option Metrics} {S S' : State}
  {w w' : World} {a b i : ℕ} {j j' : Job} {ch : Choice} {row : Row} {e : Event}

def racePhase (i : ℕ) (j : Job) (w : World) : RacePhase :=
  phase raceProtocol (startPhase j) i w.log

theorem racePhase_checkExpiredAcks : racePhase i .checkExpiredAcks w = .retrying := by
  rw [racePhase]
  induction w.log with
  | nil => rfl
  | cons e log ih =>
    rw [phase, ih]
    split <;> rfl

theorem rests_of_reachable (h : (broker cfg).Reachable ok (initial metrics) S)
    {t : Thread Op Op.Res Job} (ht : S.threads[i]? = some t) :
    Rests t.code (racePhase i t.job S.world) :=
  follows_of_reachable (P := fun _ ↦ raceProtocol) (Q := fun _ ↦ Resting) (X := fun _ ↦ Resting)
    (rests_code cfg) h i t ht

/-- What a thread's operation makes of a row: put back to be sent again, or sent. -/
def putsBack (id : ℕ) : (o : Op) → o.Res → Option Bool
  | .markPending id', .ok _ => if id' = id then some true else none
  | .markSent id', .ok _ => if id' = id then some false else none
  | _, _ => none

/-- Whether thread `b` has put row `id` back and not marked it as sent again. -/
def putBack (b id : ℕ) : List Event → Bool
  | [] => false
  | e :: log =>
    if e.thread = b then (putsBack id e.op e.res).getD (putBack b id log) else putBack b id log

theorem putBack_exec (he : exec i j o ch w = some (r, w')) :
    putBack i id w'.log = (putsBack id o r).getD (putBack i id w.log) := by
  rw [exec_log he, putBack, if_pos rfl]

theorem putBack_exec_ne (he : exec i j o ch w = some (r, w')) (hi : b ≠ i) :
    putBack b id w'.log = putBack b id w.log := by
  rw [exec_log he, putBack, if_neg (Ne.symm hi)]

theorem putBack_eq_false {log : List Event} (h : ∀ e ∈ log, e.thread ≠ b) :
    putBack b id log = false := by
  induction log with
  | nil => rfl
  | cons e log ih =>
    rw [putBack, if_neg (h e List.mem_cons_self)]
    exact ih fun e he ↦ h e (List.mem_cons_of_mem _ he)

/-- The status of row `id` while it is acknowledged and sent again. -/
def raceStatus (id : ℕ) (x : RacePhase) (back : Bool) : MessageStatus :=
  if x = .acknowledged id then .delivered else if back then .pending else .sent

theorem statusAfter_of_marks {st : MessageStatus} (hm : marks o = false) :
    statusAfter id st o r = st := by
  cases o with
  | markDelivered | markSent | markPending => cases hm
  | _ => rfl

/-- A retry pass takes the row back and sends it again, as long as it is not acknowledged. -/
theorem raceStatus_retry {back : Bool} (ho : ∀ id, o ≠ .markDelivered id) :
    statusAfter id (raceStatus id x back) o r =
      raceStatus id x ((putsBack id o r).getD back) := by
  cases o with
  | markDelivered id' => exact absurd rfl (ho id')
  | markSent id' | markPending id' =>
    cases r with
    | error e => rfl
    | ok u =>
      simp only [statusAfter, putsBack, raceStatus]
      by_cases hid : id' = id <;> by_cases hx : x = .acknowledged id <;> cases back <;>
        simp [hid, hx]
  | _ => rfl

/-- What one operation of the handler of an acknowledgement does, when no
storage call fails. -/
inductive AckStep (x : RacePhase) : (o : Op) → o.Res → RacePhase → Prop
  | read (id : ℕ) (r : Bool) : x = .unread →
      AckStep x (.needsAck id) r (if r then .accepted id else .ignored)
  | mark (id : ℕ) : x = .accepted id → AckStep x (.markDelivered id) (.ok ()) (.acknowledged id)
  | other (o : Op) (r : o.Res) : marks o = false → (∀ id, o ≠ .needsAck id) → Resting x →
      AckStep x o r x

/-- The phases of the handler of an acknowledgement. -/
def Acking (x : RacePhase) : Prop := x ≠ .retrying ∧ x ≠ .other

theorem ackStep (hx : Acking x) (hmay : raceProtocol.may x o) (hch : ch.dbError = false)
    (he : exec i j o ch w = some (r, w')) : AckStep x o r (raceProtocol.next x o r) := by
  have other (hx : Resting x) (hm : marks o = false) (ho : ∀ id, o ≠ .needsAck id) :
      AckStep x o r (raceProtocol.next x o r) := by
    rw [next_resting hx ho]
    exact .other o r hm ho hx
  cases x with
  | unread =>
    by_cases ho : ∃ id, o = .needsAck id
    · obtain ⟨id, rfl⟩ := ho
      exact .read id r rfl
    · exact other (by simp [Resting]) hmay fun id h ↦ ho ⟨id, h⟩
  | accepted id =>
    obtain rfl : o = .markDelivered id := hmay
    obtain ⟨hd, -⟩ | ⟨⟨rfl, -⟩, -⟩ := exec_markDelivered he
    · cases hch.symm.trans hd
    · exact .mark id rfl
  | acknowledged | ignored => exact other (by simp [Resting]) hmay.1 hmay.2
  | retrying => exact absurd rfl hx.1
  | other => exact absurd rfl hx.2

/-- The handler of an acknowledgement has read row `id` when it was put back or not. -/
def Answered (id : ℕ) (x : RacePhase) : Bool → Prop
  | true => x = .ignored
  | false => x = .accepted id ∨ x = .acknowledged id

/-- The row of a race between thread `a`, which handles an acknowledgement, and
thread `b`, which sends expired messages again. -/
structure Raced (a b : ℕ) (j : Job) (row : Row) (w : World) : Prop where
  acking : Acking (racePhase a j w)
  status : { row with status := raceStatus row.id (racePhase a j w) (putBack b row.id w.log) } ∈
    w.db.messages
  answered : ∀ l₂ e l₁, w.log = l₂ ++ e :: l₁ → e.thread = a → e.op = .needsAck row.id →
    Answered row.id (racePhase a j w) (putBack b row.id l₁)

theorem needsAck_eq {db : Database} (hdb : Sound db) (hrow : row ∈ db.messages) :
    db.needsAck row.id = decide (row.status = .sent) := by
  rw [Database.needsAck, row?_eq hdb hrow, Option.any_some]
  by_cases hst : row.status = .sent
  · rw [hdb.sent row hrow hst, hst]
    rfl
  · simp [hst]

variable {x' : RacePhase} {back : Bool}

theorem AckStep.acking (h : AckStep x o r x') (hx : Acking x) : Acking x' := by
  cases h with
  | read id r _ => cases r <;> exact ⟨by simp, by simp⟩
  | mark id _ => exact ⟨by simp, by simp⟩
  | other => exact hx

theorem AckStep.status (h : AckStep x o r x') :
    statusAfter id (raceStatus id x back) o r = raceStatus id x' back := by
  cases h with
  | read id' r hx =>
    subst hx
    cases r <;> rfl
  | mark id' hx =>
    subst hx
    by_cases hid : id' = id <;> simp [statusAfter, raceStatus, hid]
  | other _ _ hm => exact statusAfter_of_marks hm

theorem AckStep.answered (h : AckStep x o r x') (hx : Answered id x back) : Answered id x' back := by
  cases h with
  | read id' r hu =>
    subst hu
    cases back <;> simp [Answered] at hx
  | mark id' hu =>
    subst hu
    cases back with
    | true => cases hx
    | false =>
      rcases hx with hx | hx
      · cases hx
        exact .inr rfl
      · cases hx
  | other => exact hx

theorem raced_read {r : Bool} (hp : Performs cfg ok S a j (.needsAck row.id) ch r w')
    (hch : ch.dbError = false)
    (hrow : { row with status := raceStatus row.id .unread back } ∈ S.world.db.messages) :
    r = !back := by
  have hr : some (!ch.dbError && S.world.db.needsAck row.id) = some r := exec_reads hp.exec
  have hneeds := needsAck_eq hp.inv.store hrow
  rw [hch, hneeds] at hr
  rw [← Option.some.inj hr]
  cases back <;> rfl

theorem raced_ack (hp : Performs cfg ok S a j o ch r w') (hab : a ≠ b) (hch : ch.dbError = false)
    (hmay : raceProtocol.may (racePhase a j S.world) o) (h : Raced a b j row S.world) :
    Raced a b j row w' := by
  have he := hp.exec
  have hx : raceProtocol.next (racePhase a j S.world) o r = racePhase a j w' := (phase_exec he).symm
  have hstep := ackStep h.acking hmay hch he
  rw [hx] at hstep
  refine ⟨hstep.acking h.acking, ?_, fun l₂ e l₁ hl hthread hop ↦ ?_⟩
  · rw [putBack_exec_ne he hab.symm, ← hstep.status]
    exact status_exec he h.status
  · rw [exec_log he] at hl
    cases l₂ with
    | cons e' l₂ => exact hstep.answered (h.answered l₂ e l₁ (List.cons.inj hl).2 hthread hop)
    | nil =>
      obtain ⟨rfl, rfl⟩ := List.cons.inj hl
      obtain rfl : o = .needsAck row.id := hop
      have hstatus := h.status
      generalize racePhase a j w' = x' at hstep
      generalize racePhase a j S.world = x at hstep hstatus
      cases hstep with
      | read id r hu =>
        subst hu
        rw [raced_read hp hch hstatus]
        cases putBack b row.id S.world.log with
        | true => exact rfl
        | false => exact .inl rfl
      | other o r _ ho _ => exact absurd rfl (ho row.id)

theorem raced_retry (he : exec b j' o ch w = some (r, w')) (hab : a ≠ b)
    (ho : ∀ id, o ≠ .markDelivered id) (h : Raced a b j row w) : Raced a b j row w' := by
  have hx : racePhase a j w' = racePhase a j w := phase_exec_ne he hab
  have hstatus := status_exec he h.status
  obtain ⟨hacking, -, hanswered⟩ := h
  rw [← hx] at hacking hanswered hstatus
  refine ⟨hacking, ?_, fun l₂ e l₁ hl hthread hop ↦ ?_⟩
  · rw [putBack_exec he, ← raceStatus_retry ho]
    exact hstatus
  · rw [exec_log he] at hl
    cases l₂ with
    | nil =>
      obtain ⟨rfl, -⟩ := List.cons.inj hl
      exact absurd hthread.symm hab
    | cons e' l₂ => exact hanswered l₂ e l₁ (List.cons.inj hl).2 hthread hop

/-- The steps of two threads; no storage call of the first one fails. -/
def Racing (a b : ℕ) (_ : State) : Step → Prop
  | .start _ => False
  | .step i ch => i = a ∧ ch.dbError = false ∨ i = b
  | .tick _ => True

/-- A row is sent, and two threads are about to begin: one that handles an
acknowledgement, and a retry pass. -/
structure Race (S : State) (a b : ℕ) (j : Job) (row : Row) : Prop where
  mem : row ∈ S.world.db.messages
  sent : row.status = .sent
  ack : (S.threads[a]?).map (·.job) = some j ∧ ∃ msg, Receives j msg ∧ msg.type = .ack
  retry : (S.threads[b]?).map (·.job) = some .checkExpiredAcks
  fresh : ∀ e ∈ S.world.log, e.thread ≠ a ∧ e.thread ≠ b

theorem Race.startPhase (h : Race S a b j row) : AckRace.startPhase j = .unread := by
  obtain ⟨msg, ⟨identity, data, rfl, hd⟩, ht⟩ := h.ack.2
  simp [AckRace.startPhase, hd, ht]

theorem Race.ne (h : Race S a b j row) : a ≠ b := by
  rintro rfl
  have hj := h.ack.1.symm.trans h.retry
  cases hj
  obtain ⟨msg, ⟨identity, data, hj, -⟩, -⟩ := h.ack.2
  cases hj

theorem Race.raced (h : Race S a b j row) : Raced a b j row S.world := by
  have hx : racePhase a j S.world = .unread :=
    (phase_eq_start fun e he ↦ (h.fresh e he).1).trans h.startPhase
  have hback : putBack b row.id S.world.log = false := putBack_eq_false fun e he ↦ (h.fresh e he).2
  refine ⟨?_, ?_, fun l₂ e l₁ hl hthread _ ↦ ?_⟩
  · rw [hx]
    exact ⟨by simp, by simp⟩
  · rw [hx, hback, show raceStatus row.id .unread false = row.status from h.sent.symm]
    exact h.mem
  · exact absurd hthread (h.fresh e (hl ▸ List.mem_append_right _ List.mem_cons_self)).1

theorem raced_of_leads (h : (broker cfg).Reachable ok (initial metrics) S) (hrace : Race S a b j row)
    (hl : (broker cfg).Leads (Racing a b) S S') : Raced a b j row S'.world ∧
      (S'.threads[a]?).map (·.job) = some j ∧
      (S'.threads[b]?).map (·.job) = some .checkExpiredAcks := by
  have hr : (broker cfg).Reachable (fun _ _ ↦ True) (initial metrics) S :=
    h.mono fun _ _ _ ↦ trivial
  induction hl with
  | refl => exact ⟨hrace.raced, hrace.ack.1, hrace.retry⟩
  | @next S₁ S₂ l hl hok hs ih =>
    obtain ⟨hraced, hja, hjb⟩ := ih
    have hr₁ := hr.leads (hl.mono fun _ _ _ ↦ trivial)
    cases l with
    | start => exact hok.elim
    | tick t =>
      obtain rfl := Option.some.inj hs
      exact ⟨⟨hraced.acking, hraced.status, hraced.answered⟩, hja, hjb⟩
    | step i ch =>
      have hjobs := Machine.job_step hs
      refine ⟨?_, (hjobs a).trans hja, (hjobs b).trans hjb⟩
      obtain ⟨j₁, o, k, r, w', ht, he, rfl⟩ := Machine.step_cases hs
      have hp : Performs cfg (Racing a b) S₁ i j₁ o ch r w' :=
        ⟨holds_of_reachable hr₁, ⟨k, ht⟩, hok, he⟩
      have hmay := (rests_of_reachable hr₁ ht).1
      rcases hok with ⟨rfl, hch⟩ | rfl
      · rw [ht] at hja
        obtain rfl : j₁ = j := Option.some.inj hja
        exact raced_ack hp hrace.ne hch hmay hraced
      · rw [ht] at hjb
        obtain rfl : j₁ = .checkExpiredAcks := Option.some.inj hjb
        refine raced_retry he hrace.ne ?_ hraced
        rwa [racePhase_checkExpiredAcks] at hmay

theorem resting_of_ended (h : (broker cfg).Reachable ok (initial metrics) S)
    {t : Thread Op Op.Res Job} (ht : S.threads[a]? = some t) (hend : t.ended) :
    Resting (racePhase a t.job S.world) :=
  of_ended_follows (rests_of_reachable h ht) hend

theorem raceStatus_eq_delivered (ha : Answered id x back) (hx : Resting x) {back' : Bool} :
    raceStatus id x back' = .delivered ↔ back = false := by
  cases back with
  | true =>
    obtain rfl : x = .ignored := ha
    cases back' <;> simp [raceStatus]
  | false =>
    rcases ha with rfl | rfl
    · exact absurd rfl (hx id)
    · simp [raceStatus]

/-- The row ends up delivered exactly when the handler did not read it while the
retry pass had put it back and not yet marked it as sent again. -/
theorem ack_kept_iff (h : (broker cfg).Reachable ok (initial metrics) S)
    (hrace : Race S a b j row) (hl : (broker cfg).Leads (Racing a b) S S')
    (hend : ∀ t, S'.threads[a]? = some t → t.ended) {l₂ l₁ : List Event}
    (hlog : S'.world.log = l₂ ++ e :: l₁) (hthread : e.thread = a)
    (hop : e.op = .needsAck row.id) :
    (∃ r ∈ S'.world.db.messages, r.id = row.id ∧ r.status = .delivered) ↔
      putBack b row.id l₁ = false := by
  have hr : (broker cfg).Reachable (fun _ _ ↦ True) (initial metrics) S' :=
    (h.mono fun _ _ _ ↦ trivial).leads (hl.mono fun _ _ _ ↦ trivial)
  obtain ⟨hraced, hja, -⟩ := raced_of_leads h hrace hl
  obtain ⟨t, ht, rfl⟩ := Option.map_eq_some_iff.mp hja
  have hiff : raceStatus row.id (racePhase a t.job S'.world) (putBack b row.id S'.world.log) =
      .delivered ↔ putBack b row.id l₁ = false :=
    raceStatus_eq_delivered (hraced.answered l₂ e l₁ hlog hthread hop)
      (resting_of_ended hr ht (hend t ht))
  rw [← hiff]
  constructor
  · rintro ⟨r, hr', hid, hst⟩
    have hrow := id_inj (holds_of_reachable hr).inv.store hr' hraced.status hid
    rw [hrow] at hst
    exact hst
  · exact fun hst ↦ ⟨_, hraced.status, rfl, hst⟩

def reads (a id : ℕ) (e : Event) : Bool :=
  e.thread = a && match e.op with
    | .needsAck id' => id' = id
    | _ => false

theorem op_of_reads {id : ℕ} (h : reads a id e = true) : e.thread = a ∧ e.op = .needsAck id := by
  rw [reads, Bool.and_eq_true] at h
  refine ⟨of_decide_eq_true h.1, ?_⟩
  have hop := h.2
  split at hop
  · next id' he =>
    rw [he, of_decide_eq_true hop]
  · cases hop

def loads (b id : ℕ) (e : Event) : Bool :=
  e.thread = b && match e.op, e.res with
    | .loadExpiredSent _, rows => rows.any (·.id = id)
    | _, _ => false

/-- No storage call fails, and a client is registered and online. -/
def Undisturbed (n : Bytes) (S : State) : Step → Prop
  | .start _ | .tick _ => True
  | .step _ ch => ch.dbError = false ∧
    (S.world.activeClients.lookup n).any (fun s ↦ (S.world.sessions s).isOnline) = true

instance (a b : ℕ) (S : State) : (l : Step) → Decidable (Racing a b S l)
  | .start _ => instDecidableFalse
  | .step i ch => inferInstanceAs (Decidable (i = a ∧ ch.dbError = false ∨ i = b))
  | .tick _ => instDecidableTrue

instance (n : Bytes) (S : State) : (l : Step) → Decidable (Undisturbed n S l)
  | .start _ | .tick _ => instDecidableTrue
  | .step _ ch => inferInstanceAs (Decidable (ch.dbError = false ∧
    (S.world.activeClients.lookup n).any (fun s ↦ (S.world.sessions s).isOnline) = true))

/-- Bob registers, and a message to him that needs an acknowledgement expires. He
acknowledges it when the retry pass begins. -/
def expiredTest : List Step :=
  inTurn 0 [
    (arrival { type := .register, sender := [98] }, 31),
    (arrival { flags := flagNeedsAck, correlationId := 7, sender := [97], destination := [98] }, 17)] ++
  [.tick ⟨100, 0⟩, .start (arrival { type := .ack, correlationId := 7, sender := [98] }),
    .start .checkExpiredAcks]

def begins (S : State) : Bool :=
  decide (S.world.db.messages.map (fun r ↦ (r.id, r.status, r.destination.val)) =
      [(1, .sent, [98])]) &&
    decide (S.threads.map (·.job) = [arrival { type := .register, sender := [98] },
      arrival { flags := flagNeedsAck, correlationId := 7, sender := [97], destination := [98] },
      arrival { type := .ack, correlationId := 7, sender := [98] }, .checkExpiredAcks]) &&
    S.world.log.all fun e ↦ e.thread < 2

theorem race_of_begins (h : begins S = true) : ∃ row, row.id = 1 ∧ row.destination.val = [98] ∧
    Race S 2 3 (arrival { type := .ack, correlationId := 7, sender := [98] }) row := by
  rw [begins, Bool.and_eq_true, Bool.and_eq_true, decide_eq_true_iff, decide_eq_true_iff] at h
  obtain ⟨⟨hrows, hjobs⟩, hlog⟩ := h
  obtain ⟨row, hrow, hview⟩ := List.mem_map.mp
    (show (1, .sent, [98]) ∈ S.world.db.messages.map fun r ↦ (r.id, r.status, r.destination.val) by
      rw [hrows]
      exact List.mem_singleton_self _)
  simp only [Prod.mk.injEq] at hview
  obtain ⟨hid, hst, hdest⟩ := hview
  have job (i : ℕ) : (S.threads[i]?).map (·.job) = (S.threads.map (·.job))[i]? :=
    (List.getElem?_map ..).symm
  refine ⟨row, hid, hdest, hrow, hst, ⟨?_, { type := .ack, correlationId := 7, sender := [98] }, ?_, rfl⟩,
    ?_, fun e he ↦ ?_⟩
  · rw [job, hjobs]
    rfl
  · exact ⟨[98], _, rfl, by decide⟩
  · rw [job, hjobs]
    rfl
  · have := of_decide_eq_true (List.all_eq_true.mp hlog e he)
    omega

/-- The history before the last time that thread `a` read row `id`. -/
def beforeRead (a id : ℕ) (log : List Event) : List Event :=
  (log.dropWhile fun e ↦ !reads a id e).tail

theorem exists_read {id : ℕ} {log : List Event} (h : log.any (reads a id) = true) :
    ∃ l₂ e, log = l₂ ++ e :: beforeRead a id log ∧ reads a id e = true := by
  obtain ⟨e, he, hreads⟩ := List.any_eq_true.mp h
  have hne : log.dropWhile (fun e ↦ !reads a id e) ≠ [] := fun hnil ↦ by
    have := List.dropWhile_eq_nil_iff.mp hnil e he
    rw [hreads] at this
    cases this
  refine ⟨log.takeWhile fun e ↦ !reads a id e, (log.dropWhile fun e ↦ !reads a id e).head hne, ?_, ?_⟩
  · rw [beforeRead, List.cons_head_tail, List.takeWhile_append_dropWhile]
  · simpa using List.head_dropWhile_not (fun e ↦ !reads a id e) hne

theorem all_ended {t : Thread Op Op.Res Job} (h : S.threads.all hasEnded = true)
    (ht : S.threads[a]? = some t) : t.ended :=
  ended_of_hasEnded (List.all_eq_true.mp h t (List.mem_of_getElem? ht))

/-- The handler reads the row first, and marks it between the two updates of the retry pass. -/
theorem ack_kept_between : ∃ S S' row, (broker {}).Reachable (fun _ _ ↦ True) (initial none) S ∧
    Race S 2 3 (arrival { type := .ack, correlationId := 7, sender := [98] }) row ∧
    (broker {}).Leads (Racing 2 3) S S' ∧
    ∃ r ∈ S'.world.db.messages, r.id = row.id ∧ r.status = .delivered := by
  have hrun : ((broker {}).runs (fun _ _ ↦ True) expiredTest ⟨initial none, []⟩).bind (fun S ↦
      ((broker {}).runs (Racing 2 3) (List.replicate 9 (.step 2 {}) ++
        List.replicate 3 (.step 3 {}) ++ List.replicate 8 (.step 2 {}) ++
        List.replicate 11 (.step 3 {})) S).map fun S' ↦
        (begins S, S'.threads.all hasEnded, S'.world.log.any (reads 2 1),
          putBack 3 1 (beforeRead 2 1 S'.world.log))) = some (true, true, true, false) := by
    decide +kernel
  obtain ⟨S, S', hS, hS', hv⟩ := exists_runs hrun
  obtain ⟨hbegins, hv⟩ := Prod.mk.inj hv
  obtain ⟨hended, hv⟩ := Prod.mk.inj hv
  obtain ⟨hread, hback⟩ := Prod.mk.inj hv
  obtain ⟨row, hid, -, hrace⟩ := race_of_begins hbegins
  rw [← hid] at hread hback
  obtain ⟨l₂, e, hlog, he⟩ := exists_read hread
  obtain ⟨hthread, hop⟩ := op_of_reads he
  exact ⟨S, S', row, hS, hrace, hS',
    (ack_kept_iff hS hrace hS' (fun t ht ↦ all_ended hended ht) hlog hthread hop).mpr hback⟩

/-- The handler reads the row between the two updates of the retry pass, and the
acknowledgement is lost. -/
theorem ack_lost : ¬ ∀ cfg metrics S S' a b j row,
    (broker cfg).Reachable (fun _ _ ↦ True) (initial metrics) S → Race S a b j row →
      (broker cfg).Leads (fun S l ↦ Racing a b S l ∧ Undisturbed row.destination.val S l) S S' →
      (∀ (i : ℕ) t, S'.threads[i]? = some t → t.ended) → S'.world.log.any (reads a row.id) = true →
      S'.world.log.any (loads b row.id) = true →
        ∃ r ∈ S'.world.db.messages, r.id = row.id ∧ r.status = .delivered := by
  intro h
  have hrun : ((broker {}).runs (fun _ _ ↦ True) expiredTest ⟨initial none, []⟩).bind (fun S ↦
      ((broker {}).runs (fun S l ↦ Racing 2 3 S l ∧ Undisturbed [98] S l) (List.replicate 3 (.step 3 {}) ++
        List.replicate 10 (.step 2 {}) ++ List.replicate 11 (.step 3 {})) S).map fun S' ↦
        ((begins S, S'.threads.all hasEnded), (S'.world.log.any (reads 2 1), S'.world.log.any (loads 3 1)),
          S'.world.db.messages.map (·.status))) = some ((true, true), (true, true), [.sent]) := by
    decide +kernel
  obtain ⟨S, S', hS, hS', hv⟩ := exists_runs hrun
  obtain ⟨hends, hv⟩ := Prod.mk.inj hv
  obtain ⟨hbegins, hended⟩ := Prod.mk.inj hends
  obtain ⟨hevents, hrows⟩ := Prod.mk.inj hv
  obtain ⟨hread, hload⟩ := Prod.mk.inj hevents
  obtain ⟨row, hid, hdest, hrace⟩ := race_of_begins hbegins
  rw [← hid] at hread hload
  rw [← hdest] at hS'
  obtain ⟨r, hr, -, hst⟩ :=
    h {} none S S' 2 3 _ row hS hrace hS' (fun i t ht ↦ all_ended hended ht) hread hload
  have hsent : r.status ∈ S'.world.db.messages.map (·.status) := List.mem_map_of_mem hr
  rw [hrows, hst] at hsent
  cases List.mem_singleton.mp hsent

end MessageBroker.AckRace
