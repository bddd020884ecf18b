import MessageBroker.ThreadPhases

namespace MessageBroker.AckTimeout

open ByteStrings WireMessages MessageStore ProgramTrees ThreadPools Protocols BrokerState SessionQueues
  ClientRegistry MessageHandlers ServerJobs OperationEffects StoreInvariant SharedInvariant ProgramShapes
  ServerOutlines RunInvariants ThreadPhases

/-- Where a retry pass stands: the row it is about to send again, and the rows
that it has loaded and not come to. -/
inductive RetryPhase
  | other
  | loading
  | working (current : Option ℕ) (rest : List ℕ)

/-- The rows that the pass is not done with. -/
def RetryPhase.ids : RetryPhase → List ℕ
  | .working current rest => current.toList ++ rest
  | _ => []

def marks : Op → Bool
  | .markDelivered _ | .markSent _ | .markPending _ => true
  | _ => false

def retryProtocol (cfg : Config) : Protocol Op Op.Res RetryPhase where
  may
    | .other, _ => True
    | .loading, o => marks o = false ∧ ∀ timeout, o = .loadExpiredSent timeout → timeout = cfg.ackTimeout
    | .working _ rest, .markPending id => ∃ rest', rest = id :: rest'
    | .working current _, .markSent id => current = some id
    | .working _ _, .loadExpiredSent _ => False
    | .working _ _, _ => True
  next
    | .loading, .loadExpiredSent _, rows => .working none (rows.map (·.id))
    | .working _ rest, .markPending id, _ => .working (some id) rest.tail
    | .working _ rest, .markSent _, _ => .working none rest
    | .working _ rest, .peekClient _, none => .working none rest
    | .working _ rest, .findClient _, none => .working none rest
    | .working _ rest, .isOnline _, false => .working none rest
    | x, _, _ => x

variable {cfg : Config} {x : RetryPhase} {α : Type} {n : Bytes} {s : ℕ} {c : Copy} {id : ℕ} {o : Op} {r : o.Res}
  {rest : List ℕ}

theorem registering : Registering (Keeps (retryProtocol cfg) (.working none rest)) := by
  refine registering_of_composable (Keeps.composable _ _) fun o ho ↦ ?_
  cases o with
  | markDelivered | markSent | markPending | loadExpiredSent => exact absurd rfl ho
  | peekClient | findClient => exact .perform trivial fun r ↦ by cases r <;> rfl
  | isOnline => exact .perform trivial fun r ↦ by cases r <;> rfl
  | _ => exact .perform trivial fun _ ↦ rfl

/-- The program ends a turn of the loop, unless it throws. -/
def Turns (cfg : Config) (p : Program α) (x : RetryPhase) (rest : List ℕ) : Prop :=
  Follows (retryProtocol cfg) (fun _ y ↦ y = .working none rest) (fun _ _ ↦ True) p x

theorem turns_of_keeps {p : Program α} (h : Keeps (retryProtocol cfg) (.working none rest) p) :
    Turns cfg p (.working none rest) rest :=
  Follows.mono h (fun _ _ hy ↦ hy) fun _ _ _ ↦ trivial

theorem follows_findOnlineSession : Follows (retryProtocol cfg)
    (fun session y ↦ y = .working (session.bind fun _ ↦ some id) rest) (fun _ _ ↦ True) (findOnlineSession n)
    (.working (some id) rest) := by
  have hunlock (session : Option ℕ) (y : RetryPhase)
      (hy : y = .working (session.bind fun _ ↦ some id) rest) :
      Follows (retryProtocol cfg) (fun _ y ↦ y = .working (session.bind fun _ ↦ some id) rest)
        (fun _ _ ↦ True) (perform .unlockRegistry) y := by
    subst hy
    exact ⟨trivial, fun _ ↦ rfl⟩
  refine ⟨trivial, fun _ ↦ Follows.ensuring (?_ : Follows (retryProtocol cfg)
    (fun session y ↦ y = .working (session.bind fun _ ↦ some id) rest) (fun _ _ ↦ False) _ _) hunlock
    fun _ _ hx ↦ hx.elim⟩
  refine ⟨trivial, fun r ↦ ?_⟩
  cases r with
  | none => exact rfl
  | some s =>
    refine ⟨trivial, fun online ↦ ?_⟩
    cases online with
    | false => exact rfl
    | true => exact ⟨trivial, fun r ↦ by cases r <;> exact rfl⟩

theorem follows_sendMessage : Follows (retryProtocol cfg) (fun sent y ↦ sent = true ∧ y = .working none rest)
    (fun _ _ ↦ True) (sendMessage s c) (.working none rest) := by
  have h : Registering (Keeps (retryProtocol cfg) (.working none rest)) := registering
  refine ⟨trivial, fun _ ↦ ⟨trivial, fun online ↦ ?_⟩⟩
  cases online with
  | true =>
    change Follows _ _ _ ((sendZmqMessage s c).bind fun _ ↦ .ret true) _
    exact Follows.bind (turns_of_keeps h.sendZmqMessage) fun _ y hy ↦ ⟨rfl, hy⟩
  | false =>
    change Follows _ _ _ ((enqueueMessage s c).bind fun _ ↦ .ret true) _
    exact Follows.bind (turns_of_keeps h.enqueueMessage) fun _ y hy ↦ ⟨rfl, hy⟩

theorem turns_markSent : Turns cfg (markSent id) (.working (some id) rest) rest := by
  refine ⟨rfl, fun r ↦ ?_⟩
  cases r with
  | error e => trivial
  | ok u => exact rfl

theorem turns_retrySend {p : PendingMessage} {session : Option ℕ} :
    Turns cfg (retrySend p session) (.working (session.bind fun _ ↦ some p.id) rest) rest := by
  cases session with
  | none => exact rfl
  | some s =>
    refine Follows.bind turns_markSent fun _ y hy ↦ ?_
    subst hy
    refine Follows.bind follows_sendMessage fun sent y hy ↦ ?_
    obtain ⟨rfl, rfl⟩ := hy
    exact rfl

theorem persisting_anywhere : Persisting (Within (retryProtocol cfg) fun _ ↦ True) where
  toComposable := Within.composable _ _
  queue o ho := Within.perform fun x _ ↦ by
    refine ⟨?_, fun _ ↦ trivial⟩
    cases x with
    | other => trivial
    | loading =>
      cases o with
      | markDelivered | markSent | markPending | loadExpiredSent => cases ho
      | _ => exact ⟨rfl, by simp⟩
    | working current rest => cases o <;> first | exact trivial | cases ho

theorem turns_holding {session : Option ℕ} {p : Program Unit} (h : Turns cfg p x rest) :
    Turns cfg (holding session p) x rest := by
  cases session with
  | none => exact h
  | some s =>
    refine Follows.ensuring h (fun _ y hy ↦ ?_) fun _ y _ ↦ ?_
    · subst hy
      exact turns_of_keeps registering.dropSession
    · exact persisting_anywhere.dropSession y trivial

theorem turns_retryLoop (rows : List PendingMessage) :
    Turns cfg (retryLoop rows) (.working none (rows.map (·.id))) [] := by
  induction rows with
  | nil => exact rfl
  | cons p rows ih =>
    have hmark : Follows (retryProtocol cfg) (fun _ y ↦ y = .working (some p.id) (rows.map (·.id)))
        (fun _ _ ↦ True) (markPending p.id) (.working none ((p :: rows).map (·.id))) := by
      refine ⟨⟨_, rfl⟩, fun r ↦ ?_⟩
      cases r with
      | error e => trivial
      | ok u => exact rfl
    refine Follows.bind hmark fun _ y hy ↦ ?_
    subst hy
    refine Follows.bind follows_findOnlineSession fun session y hy ↦ ?_
    subst hy
    refine Follows.bind (turns_holding turns_retrySend) fun _ y hy ↦ ?_
    subst hy
    exact ih

theorem follows_checkExpiredAcks : Follows (retryProtocol cfg) (fun _ _ ↦ True) (fun _ _ ↦ True)
    (timer (checkExpiredAcks cfg)) .loading := by
  have hpass : Follows (retryProtocol cfg) (fun _ _ ↦ True) (fun _ _ ↦ True)
    (checkExpiredAcks cfg) .loading := by
    unfold checkExpiredAcks
    split
    · refine ⟨⟨rfl, fun timeout ho ↦ by cases ho; rfl⟩, fun rows ↦ ?_⟩
      have hcount : Keeps (retryProtocol cfg) (.working none (rows.map (·.id)))
          (perform (.increment .messagesExpired)) := ⟨trivial, fun _ ↦ rfl⟩
      refine Follows.bind (p := Prog.when (rows ≠ []) (perform (.increment .messagesExpired)))
        (turns_of_keeps (registering.when hcount)) fun _ y hy ↦ ?_
      subst hy
      exact Follows.mono (turns_retryLoop rows) (fun _ _ _ ↦ trivial) fun _ _ _ ↦ trivial
    · exact trivial
  exact Follows.recover hpass fun _ y _ ↦ persisting_anywhere.queue .terminate rfl y trivial

def startPhase : Job → RetryPhase
  | .checkExpiredAcks => .loading
  | _ => .other

theorem follows_code (cfg : Config) (j : Job) :
    Follows (retryProtocol cfg) (fun _ _ ↦ True) (fun _ _ ↦ True) (code cfg j) (startPhase j) := by
  have other : Follows (retryProtocol cfg) (fun _ _ ↦ True) (fun _ _ ↦ True) (code cfg j) .other :=
    Follows.absorbed (fun o ↦ ⟨trivial, fun _ ↦ rfl⟩) (fun _ ↦ trivial) fun _ ↦ trivial
  cases j with
  | checkExpiredAcks => exact follows_checkExpiredAcks
  | receive | cleanupInactiveSessions | processPendingSends | sendTask => exact other

variable {ok : State → Step → Prop} {metrics : Option Metrics} {S S' : State} {i i' : ℕ} {j : Job} {ch : Choice}
  {w w' : World}

section

variable (cfg)

def retryPhase (i : ℕ) (S : State) : RetryPhase := (phaseOf (retryProtocol cfg) startPhase i S).getD .other

/-- The pass of thread `i` has loaded the row and is not done with it. -/
def Awaits (i id : ℕ) (S : State) : Prop := id ∈ (retryPhase cfg i S).ids

instance (i id : ℕ) (S : State) : Decidable (Awaits cfg i id S) := by
  unfold Awaits
  infer_instance

def statusOf (db : Database) (id : ℕ) : Option MessageStatus := (db.row? id).map (·.status)

/-- When the rows were last handed over, after a step from `S` to `S'`. -/
def handOvers (S S' : State) (sentAt : ℕ → ℤ) (id : ℕ) : ℤ :=
  if statusOf S.world.db id = some .pending ∧ statusOf S'.world.db id = some .sent then S.world.wallClock
  else sentAt id

/-- The runs of the broker, with the times at which the rows were last handed over. -/
inductive Traced (ok : State → (ℕ → ℤ) → Step → Prop) (metrics : Option Metrics) : State → (ℕ → ℤ) → Prop
  | init : Traced ok metrics ⟨initial metrics, []⟩ fun _ ↦ 0
  | next {S S' : State} {sentAt : ℕ → ℤ} (l : Step) : Traced ok metrics S sentAt → ok S sentAt l →
      (broker cfg).next S l = some S' → Traced ok metrics S' (handOvers S S' sentAt)

def loadsExpired : Op → Option ℤ
  | .loadExpiredSent timeout => some timeout
  | _ => none

def marksSent : Op → Option ℕ
  | .markSent id => some id
  | _ => none

/-- No pass loads while a row that was saved longer ago than the timeout has
been handed over since; no row is handed over by others while a pass has loaded
it; and the clock is not set back during a pass. -/
def Timely (S : State) (sentAt : ℕ → ℤ) : Step → Prop
  | .start _ => True
  | .tick t => (∃ i < S.threads.length, (retryPhase cfg i S).ids ≠ []) → S.world.wallClock ≤ t.wallClock
  | .step i ch =>
    S.OnNext loadsExpired (fun _ _ timeout ↦
      ∀ r ∈ S.world.db.messages, r.status = .sent → timeout < S.world.wallClock - r.createdAt →
        timeout < S.world.wallClock - sentAt r.id) (.step i ch : Step) ∧
    S.OnNext marksSent (fun i _ id ↦ statusOf S.world.db id = some .pending →
      ∀ i' < S.threads.length, i' ≠ i → ¬ Awaits cfg i' id S) (.step i ch : Step)

instance (S : State) (sentAt : ℕ → ℤ) (l : Step) : Decidable (Timely cfg S sentAt l) := by
  unfold Timely
  split <;> infer_instance

def traces (ok : State → (ℕ → ℤ) → Step → Prop) [∀ S f l, Decidable (ok S f l)] :
    List Step → State → (ℕ → ℤ) → Option (State × (ℕ → ℤ))
  | [], S, sentAt => some (S, sentAt)
  | l :: ls, S, sentAt =>
    if ok S sentAt l then ((broker cfg).next S l).bind fun S' ↦ traces ok ls S' (handOvers S S' sentAt) else none

end

variable {okt : State → (ℕ → ℤ) → Step → Prop} {sentAt : ℕ → ℤ}

theorem Traced.reachable (h : Traced cfg okt metrics S sentAt) :
    (broker cfg).Reachable (fun _ _ ↦ True) (initial metrics) S := by
  induction h with
  | init => exact .init
  | next l _ _ hs ih => exact .next l ih trivial hs

theorem exists_traced (h : (broker cfg).Reachable ok (initial metrics) S) :
    ∃ sentAt, Traced cfg (fun S _ ↦ ok S) metrics S sentAt := by
  induction h with
  | init => exact ⟨_, .init⟩
  | next l _ hl hs ih =>
    obtain ⟨sentAt, ht⟩ := ih
    exact ⟨_, .next l ht hl hs⟩

theorem Traced.traces [∀ S f l, Decidable (okt S f l)] {ls : List Step} {sentAt' : ℕ → ℤ}
    (h : Traced cfg okt metrics S sentAt) (hls : traces cfg okt ls S sentAt = some (S', sentAt')) :
    Traced cfg okt metrics S' sentAt' := by
  induction ls generalizing S sentAt with
  | nil =>
    cases hls
    exact h
  | cons l ls ih =>
    rw [AckTimeout.traces] at hls
    split at hls
    · next hl =>
      obtain ⟨S₁, hs, hls⟩ := Option.bind_eq_some_iff.mp hls
      exact ih (.next l h hl hs) hls
    · cases hls

theorem retryPhase_of {t : Thread Op Op.Res Job} (h : S.threads[i]? = some t) :
    retryPhase cfg i S = phase (retryProtocol cfg) (startPhase t.job) i S.world.log := by
  rw [retryPhase, phaseOf_eq h]
  rfl

theorem retryPhase_step {k : o.Res → Program Unit} (hi : S.threads[i]? = some ⟨j, .op o k⟩)
    (he : exec i j o ch S.world = some (r, w')) (i' : ℕ) :
    retryPhase cfg i' ⟨w', S.threads.set i ⟨j, k r⟩⟩ =
      if i' = i then (retryProtocol cfg).next (retryPhase cfg i S) o r else retryPhase cfg i' S := by
  rw [retryPhase, phaseOf_step hi he]
  split
  · rw [retryPhase, phaseOf_eq hi]
    rfl
  · rfl

theorem retryPhase_start (h : (broker cfg).Reachable ok (initial metrics) S) (hw : start j S.world = some w')
    (i : ℕ) :
    (retryPhase cfg i ⟨w', S.threads ++ [⟨j, (broker cfg).code j⟩]⟩).ids = (retryPhase cfg i S).ids := by
  rw [retryPhase, phaseOf_start h hw]
  split
  · next hi =>
    rw [retryPhase, phaseOf, hi, List.getElem?_eq_none (Nat.le_refl _)]
    cases j <;> rfl
  · rfl

theorem may_of_thread (h : (broker cfg).Reachable ok (initial metrics) S) {k : o.Res → Program Unit}
    (hi : S.threads[i]? = some ⟨j, .op o k⟩) : (retryProtocol cfg).may (retryPhase cfg i S) o := by
  rw [retryPhase_of hi]
  exact (follows_of_reachable (P := fun _ ↦ retryProtocol cfg) (Q := fun _ _ ↦ True) (X := fun _ _ ↦ True)
    (follows_code cfg) h i _ hi).1

theorem status_of_mem {db : Database} (hdb : Sound db) {row : Row} (hrow : row ∈ db.messages) :
    statusOf db row.id = some row.status := by
  rw [statusOf, row?_eq hdb hrow]
  rfl

theorem handOvers_step {l : Step} (h : (broker cfg).Reachable ok (initial metrics) S) (hok : ok S l)
    (hs : (broker cfg).next S l = some S') (id : ℕ) :
    handOvers S S' sentAt id = sentAt id ∨ statusOf S.world.db id = some .pending ∧
      ∃ i ch j k, l = .step i ch ∧ S.threads[i]? = some ⟨j, .op (.markSent id) k⟩ := by
  by_cases hif : statusOf S.world.db id = some .pending ∧ statusOf S'.world.db id = some .sent
  · refine .inr ⟨hif.1, ?_⟩
    have same (hdb : S'.world.db = S.world.db) : False := by
      rw [hdb, hif.1] at hif
      cases hif.2
    obtain ⟨i, ch, j, o, k, r, rfl, ht, he⟩ | ⟨n, now, elapsed, hw⟩ := next_cases hs
    · have hp : Performs cfg ok S i j o ch r S'.world := ⟨holds_of_reachable h, ⟨k, ht⟩, hok, he⟩
      obtain ⟨row, hfound, hst⟩ := Option.map_eq_some_iff.mp hif.1
      obtain ⟨hrow, rfl⟩ := mem_of_row? hfound
      have hrow' := status_exec he hrow
      have hafter := status_of_mem (step_store hp.inv hp.allowed he).1 hrow'
      have hsent : statusAfter row.id row.status o r = .sent := Option.some.inj (hafter.symm.trans hif.2)
      rw [hst] at hsent
      cases o with
      | markSent id =>
        cases r with
        | error e => cases hsent
        | ok u =>
          simp only [statusAfter] at hsent
          split at hsent
          · next hid => exact ⟨i, ch, j, k, rfl, hid.1 ▸ ht⟩
          · cases hsent
      | markDelivered id | markPending id =>
        cases r with
        | error e => cases hsent
        | ok u =>
          simp only [statusAfter] at hsent
          split at hsent <;> cases hsent
      | _ => cases hsent
    · exact (same (by rw [hw])).elim
  · exact .inl (if_neg hif)

theorem start_wallClock (hw : start j w = some w') : w'.wallClock = w.wallClock := by
  obtain ⟨n, rfl⟩ := start_eq hw
  rfl

/-- Every row that a pass is not done with was handed over longer ago than the timeout. -/
structure Due (cfg : Config) (S : State) (sentAt : ℕ → ℤ) : Prop where
  nodup : ∀ i, (retryPhase cfg i S).ids.Nodup
  late : ∀ i id, Awaits cfg i id S → cfg.ackTimeout < S.world.wallClock - sentAt id

theorem lt_of_awaits (h : Awaits cfg i id S) : i < S.threads.length := by
  by_contra hi
  rw [Awaits, retryPhase, phaseOf, List.getElem?_eq_none (Nat.le_of_not_lt hi)] at h
  exact absurd h List.not_mem_nil

theorem ids_next (hmay : (retryProtocol cfg).may x o) (hl : ∀ t, o ≠ .loadExpiredSent t) :
    ((retryProtocol cfg).next x o r).ids.Sublist x.ids := by
  cases x with
  | other => exact .refl _
  | loading =>
    cases o with
    | loadExpiredSent t => exact absurd rfl (hl t)
    | _ => exact .refl _
  | working current rest =>
    have hnone : (RetryPhase.working none rest).ids.Sublist (RetryPhase.working current rest).ids :=
      List.sublist_append_right ..
    cases o with
    | loadExpiredSent t => exact absurd rfl (hl t)
    | markPending id =>
      obtain ⟨rest', rfl⟩ := hmay
      exact hnone
    | markSent id => exact hnone
    | peekClient | findClient =>
      cases r with
      | none => exact hnone
      | some s => exact .refl _
    | isOnline =>
      cases r with
      | false => exact hnone
      | true => exact .refl _
    | _ => exact .refl _

theorem due_own (hp : Performs cfg ok S i j o ch r w') (hmay : (retryProtocol cfg).may (retryPhase cfg i S) o)
    (h : Due cfg S sentAt) (hok : Timely cfg S sentAt (.step i ch)) :
    ((retryProtocol cfg).next (retryPhase cfg i S) o r).ids.Nodup ∧
      ∀ id ∈ ((retryProtocol cfg).next (retryPhase cfg i S) o r).ids,
        cfg.ackTimeout < S.world.wallClock - sentAt id := by
  by_cases hl : ∃ t, o = .loadExpiredSent t
  · obtain ⟨t, rfl⟩ := hl
    cases hx : retryPhase cfg i S with
    | other => exact ⟨List.nodup_nil, fun id hid ↦ absurd hid List.not_mem_nil⟩
    | working current rest =>
      rw [hx] at hmay
      exact hmay.elim
    | loading =>
      rw [hx] at hmay
      obtain rfl := hmay.2 t rfl
      have hrows : some (dbSelect ch (S.world.db.loadExpiredSent ch.tie S.world.wallClock cfg.ackTimeout)) =
          some r := exec_reads hp.exec
      have hsub : r.Sublist (S.world.db.loadExpiredSent ch.tie S.world.wallClock cfg.ackTimeout) :=
        Option.some.inj hrows ▸ dbSelect_sublist _ _
      have hok := hok.1.meets hp.nextOp rfl
      refine ⟨(loaded_ids_nodup hp.inv.store.ids _ _ _).sublist (hsub.map _), fun id hid ↦ ?_⟩
      obtain ⟨p, hmem, rfl⟩ := List.mem_map.mp hid
      obtain ⟨row, hrow, rfl, hsent, hage⟩ := mem_loadExpiredSent (hsub.subset hmem)
      exact hok row hrow hsent hage
  · have hsub := ids_next (r := r) hmay fun t ht ↦ hl ⟨t, ht⟩
    exact ⟨(h.nodup i).sublist hsub, fun id hid ↦ h.late i id (hsub.subset hid)⟩

theorem not_mem_ids_next {r : (Op.markSent id).Res} (hmay : (retryProtocol cfg).may x (.markSent id))
    (hd : x.ids.Nodup) : id ∉ ((retryProtocol cfg).next x (.markSent id) r).ids := by
  cases x with
  | other => exact List.not_mem_nil
  | loading => cases hmay.1
  | working current rest =>
    obtain rfl : current = some id := hmay
    exact (List.nodup_cons.mp hd).1

theorem due_step {l : Step} (hr : (broker cfg).Reachable ok (initial metrics) S) (hok : ok S l)
    (htimely : Timely cfg S sentAt l) (hs : (broker cfg).next S l = some S') (h : Due cfg S sentAt) :
    Due cfg S' (handOvers S S' sentAt) := by
  cases l with
  | start j =>
    have hsent (id : ℕ) : handOvers S S' sentAt id = sentAt id := by
      refine (handOvers_step hr hok hs id).resolve_right ?_
      rintro ⟨-, i, ch, j, k, hl, -⟩
      cases hl
    obtain ⟨w', hw, rfl⟩ := Machine.start_cases hs
    have hclock : w'.wallClock = S.world.wallClock := start_wallClock hw
    refine ⟨fun i ↦ ?_, fun i id hid ↦ ?_⟩
    · rw [retryPhase_start hr hw]
      exact h.nodup i
    · rw [Awaits, retryPhase_start hr hw] at hid
      rw [hsent, hclock]
      exact h.late i id hid
  | tick t =>
    have hsent (id : ℕ) : handOvers S S' sentAt id = sentAt id := by
      refine (handOvers_step hr hok hs id).resolve_right ?_
      rintro ⟨-, i, ch, j, k, hl, -⟩
      cases hl
    obtain rfl := Option.some.inj hs
    refine ⟨h.nodup, fun i id hid ↦ ?_⟩
    rw [hsent]
    have hle : S.world.wallClock ≤ t.wallClock := htimely ⟨i, lt_of_awaits hid, List.ne_nil_of_mem hid⟩
    have hlate := h.late i id hid
    change cfg.ackTimeout < t.wallClock - sentAt id
    omega
  | step i ch =>
    have hcases := fun id ↦ @handOvers_step _ _ _ _ _ sentAt _ hr hok hs id
    obtain ⟨j, o, k, r, w', ht, he, rfl⟩ := Machine.step_cases hs
    have hp : Performs cfg ok S i j o ch r w' := ⟨holds_of_reachable hr, ⟨k, ht⟩, hok, he⟩
    have hclock : w'.wallClock = S.world.wallClock := (exec_timed he).wallClock
    have hmay := may_of_thread hr ht
    have hown := due_own hp hmay h htimely
    refine ⟨fun i' ↦ ?_, fun i' id hid ↦ ?_⟩
    · rw [retryPhase_step ht he]
      split
      · exact hown.1
      · exact h.nodup i'
    · have hlt : i' < S.threads.length := by
        have hlt := lt_of_awaits hid
        rwa [List.length_set] at hlt
      rw [Awaits, retryPhase_step ht he] at hid
      have hsame : handOvers S ⟨w', S.threads.set i ⟨j, k r⟩⟩ sentAt id = sentAt id := by
        refine (hcases id).resolve_right ?_
        rintro ⟨hpending, i₁, ch₁, j₁, k₁, hl, ht₁⟩
        cases hl
        obtain ⟨rfl, hcode⟩ := Thread.mk.inj (Option.some.inj (ht.symm.trans ht₁))
        cases hcode
        split at hid
        · exact not_mem_ids_next hmay (h.nodup i) hid
        · next hne =>
          exact htimely.2.meets hp.nextOp rfl hpending i' hlt hne hid
      rw [hsame, hclock]
      split at hid
      · exact hown.2 id hid
      · exact h.late i' id hid

theorem due_of_traced (h : Traced cfg (Timely cfg) metrics S sentAt) : Due cfg S sentAt := by
  induction h with
  | init => exact ⟨fun _ ↦ List.nodup_nil, fun _ _ hid ↦ absurd hid List.not_mem_nil⟩
  | next l ht htimely hs ih => exact due_step ht.reachable trivial htimely hs ih

def remarks : Op → Option ℕ
  | .markPending id | .markSent id => some id
  | _ => none

theorem next_ne_other (hx : x ≠ .other) : (retryProtocol cfg).next x o r ≠ .other := by
  cases x with
  | other => exact absurd rfl hx
  | loading => cases o <;> rintro ⟨⟩
  | working current rest =>
    cases o with
    | peekClient | findClient | isOnline => cases r <;> rintro ⟨⟩
    | _ => rintro ⟨⟩

theorem phase_ne_other (log : List Event) : phase (retryProtocol cfg) .loading i log ≠ .other := by
  induction log with
  | nil => rintro ⟨⟩
  | cons e log ih =>
    rw [phase]
    split
    · exact next_ne_other ih
    · exact ih

theorem awaits_of_remarks (h : (broker cfg).Reachable ok (initial metrics) S) {t : Thread Op Op.Res Job}
    (ht : S.threads[i]? = some t) (hj : t.job = .checkExpiredAcks) (ho : S.nextOp i = some o)
    (hid : remarks o = some id) : Awaits cfg i id S := by
  obtain ⟨j, code⟩ := t
  obtain rfl : j = .checkExpiredAcks := hj
  rw [Pool.nextOp, ht] at ho
  cases code with
  | ret | fail => cases ho
  | op o' k =>
    obtain rfl := Option.some.inj ho
    have hmay := may_of_thread h ht
    have hne : retryPhase cfg i S ≠ .other := retryPhase_of ht ▸ phase_ne_other _
    rw [Awaits]
    cases hx : retryPhase cfg i S with
    | other => exact absurd hx hne
    | loading =>
      rw [hx] at hmay
      cases o' with
      | markPending | markSent => cases hmay.1
      | _ => cases hid
    | working current rest =>
      rw [hx] at hmay
      cases o' with
      | markPending id' =>
        obtain rfl := Option.some.inj hid
        obtain ⟨rest', rfl⟩ := hmay
        exact List.mem_append_right _ (List.mem_cons_self ..)
      | markSent id' =>
        obtain rfl := Option.some.inj hid
        obtain rfl : current = some id' := hmay
        exact List.mem_cons_self ..
      | _ => cases hid

/-- In a timely run a retry pass resets or retransmits a row only if it was handed
over longer ago than the timeout. -/
theorem ack_timeout (h : Traced cfg (Timely cfg) metrics S sentAt) {t : Thread Op Op.Res Job}
    (ht : S.threads[i]? = some t) (hj : t.job = .checkExpiredAcks) (ho : S.nextOp i = some o)
    (hid : remarks o = some id) : cfg.ackTimeout < S.world.wallClock - sentAt id :=
  (due_of_traced h).late i id (awaits_of_remarks h.reachable ht hj ho hid)

def toBob : Message := { flags := flagNeedsAck, sender := [97], destination := [98] }

def bobJoins : Job := arrival { type := .register, sender := [98] }

def resetting (S : State) : Option ℕ :=
  match (S.threads[2]? : Option (Thread Op Op.Res Job)) with
  | some ⟨.checkExpiredAcks, .op (.markPending id) _⟩ => some id
  | _ => none

theorem resets (h : resetting S = some id) : ∃ t, S.threads[2]? = some t ∧ t.job = .checkExpiredAcks ∧
    S.nextOp 2 = some (.markPending id) := by
  unfold resetting at h
  split at h
  · next ht =>
    obtain rfl := Option.some.inj h
    exact ⟨_, ht, rfl, by rw [Pool.nextOp, ht]⟩
  · cases h

theorem exists_trace [∀ S f l, Decidable (okt S f l)] {v : Option ℕ × ℤ} {ls : List Step}
    (h : (traces cfg okt ls ⟨initial metrics, []⟩ fun _ ↦ 0).map
      (fun x ↦ (resetting x.1, x.1.world.wallClock - x.2 1)) = some v) :
    ∃ S sentAt, Traced cfg okt metrics S sentAt ∧ resetting S = v.1 ∧ S.world.wallClock - sentAt 1 = v.2 := by
  obtain ⟨⟨S, sentAt⟩, hls, rfl⟩ := Option.map_eq_some_iff.mp h
  exact ⟨S, sentAt, Traced.init.traces hls, rfl, rfl⟩

def passStarts : List Step := [.start .checkExpiredAcks, .step 2 {}, .step 2 {}]

/-- Bob is online when the message is saved, and does not acknowledge it for 31 seconds. -/
theorem ack_timeout_bob : ∃ S sentAt, Traced {} (Timely {}) none S sentAt ∧ S.nextOp 2 = some (.markPending 1) ∧
    30 < S.world.wallClock - sentAt 1 := by
  have hrun : (traces {} (Timely {}) (inTurn 0 [(bobJoins, 31), (arrival toBob, 17)] ++
      .tick ⟨31, 0⟩ :: passStarts) ⟨initial none, []⟩ fun _ ↦ 0).map
      (fun x ↦ (resetting x.1, x.1.world.wallClock - x.2 1)) = some (some 1, 31) := by decide +kernel
  obtain ⟨S, sentAt, h, hr, -⟩ := exists_trace hrun
  obtain ⟨t, ht, hj, ho⟩ := resets hr
  exact ⟨S, sentAt, h, ho, ack_timeout h ht hj ho rfl⟩

/-- The message waits for bob for 100 seconds, and is reset at once when he has joined. -/
theorem reset_at_once : ¬ ∀ cfg metrics S sentAt, Traced cfg (fun _ _ _ ↦ True) metrics S sentAt →
    ∀ i t o id, S.threads[i]? = some t → t.job = .checkExpiredAcks → S.nextOp i = some o → remarks o = some id →
      cfg.ackTimeout < S.world.wallClock - sentAt id := by
  intro h
  have hrun : (traces {} (fun _ _ _ ↦ True) (inTurn 0 [(arrival toBob, 9)] ++
      .tick ⟨100, 0⟩ :: (inTurn 1 [(bobJoins, 43)] ++ passStarts)) ⟨initial none, []⟩ fun _ ↦ 0).map
      (fun x ↦ (resetting x.1, x.1.world.wallClock - x.2 1)) = some (some 1, 0) := by decide +kernel
  obtain ⟨S, sentAt, hS, hr, hnow⟩ := exists_trace hrun
  obtain ⟨t, ht, hj, ho⟩ := resets hr
  have hlate := h {} none S sentAt hS 2 t _ 1 ht hj ho rfl
  rw [hnow] at hlate
  exact absurd hlate (by decide)

end MessageBroker.AckTimeout
