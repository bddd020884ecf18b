import MessageBroker.ThreadPhases

namespace MessageBroker.BacklogDelivery

open ByteStrings WireMessages MessageStore ProgramTrees ThreadPools Protocols BrokerState SessionQueues
  ClientRegistry MessageHandlers ServerJobs OperationEffects ProgramShapes ServerOutlines RunInvariants
  ThreadPhases

/-- A pass of `deliverOfflineMessages` over the rows that it has loaded: those it
has called `sendMessage` for, those that are left, and what has come from the
calls to the queue of the session or of the server. -/
structure Delivery where
  session : ℕ := 0
  rows : List PendingMessage
  handed : List PendingMessage := []
  left : List PendingMessage
  pushed : List (ℕ × Copy) := []

/-- Where a thread stands in the passes over pending and over expired rows. -/
inductive Stage
  | resting
  | loaded (d : Delivery)
  | counted (d : Delivery)
  | head (d : Delivery)
  | body (d : Delivery)
  | called (d : Delivery) (p : PendingMessage)
  | pushed (d : Delivery)
  | expired (rows : ℕ)

/-- `sweeps` has the number of rows of each pass that has found rows expired and counted itself. -/
structure Progress where
  stage : Stage := .resting
  finished : List Delivery := []
  sweeps : List ℕ := []

namespace Progress

variable (x : Progress) (d : Delivery)

def finish : Progress := { x with stage := .resting, finished := x.finished ++ [d] }

def turn : Progress :=
  match d.left with
  | [] => x.finish d
  | _ :: _ => { x with stage := .head d }

end Progress

def deliveryProtocol : Protocol Op Op.Res Progress where
  may x o :=
    match x.stage, o with
    | .resting, .increment .offlineDelivered | .resting, .increment .messagesExpired => False
    | .resting, _ => True
    | .loaded _, .increment .offlineDelivered => True
    | .counted _, .updateLastActivity _ | .counted _, .updateLastReceive _ => True
    | .head d, .isOnline s => s = d.session
    | .head d, .markDelivered _ => d.handed ≠ []
    | .body _, .markSent _ => True
    | .body d, .updateLastActivity s => s = d.session
    | .called _ _, .isOnline _ | .called _ _, .lockQueue _ | .called _ _, .markOffline _ => True
    | .called d p, .pushQueue s c | .called d p, .pushPendingSend s c _ => (s, c) = (d.session, p.copy)
    | .pushed _, .postSendTask => True
    | .pushed _, o => persists o = true
    | .expired _, .increment .messagesExpired => True
    | _, _ => False
  next x o r :=
    match x.stage, o, r with
    | .resting, .loadPendingMessagesOnly _, p :: rest =>
      { x with stage := .loaded { rows := p :: rest, left := p :: rest } }
    | .resting, .loadExpiredSent _, _ :: rest => { x with stage := .expired (rest.length + 1) }
    | .loaded d, .increment _, _ => { x with stage := .counted d }
    | .counted d, .updateLastReceive s, _ => { x with stage := .head { d with session := s } }
    | .head d, .isOnline _, true => { x with stage := .body d }
    | .head d, .isOnline _, false => x.finish d
    | .head d, .markDelivered _, .error _ => x.finish d
    | .body d, .markSent _, .error _ => x.finish d
    | .body d, .updateLastActivity _, _ =>
      match d.left with
      | [] => x
      | p :: rest => { x with stage := .called { d with handed := d.handed ++ [p], left := rest } p }
    | .called d _, .markOffline _, _ => x.turn d
    | .called d _, .pushQueue s c, _ | .called d _, .pushPendingSend s c _, _ =>
      { x with stage := .pushed { d with pushed := d.pushed ++ [(s, c)] } }
    | .pushed d, .postSendTask, _ | .pushed d, .unlockQueue _, _ => x.turn d
    | .pushed d, .saveMessage _, .error _ => x.finish d
    | .expired n, .increment _, _ => { x with stage := .resting, sweeps := x.sweeps ++ [n] }
    | _, _, _ => x

def Resting (x : Progress) : Prop := x.stage = .resting

def tallies : Op → Bool
  | .increment .offlineDelivered | .increment .messagesExpired => true
  | _ => false

/-- What an operation makes of the progress of its thread. -/
inductive Advance : (o : Op) → o.Res → Progress → Progress → Prop
  | stays {o r x} : tallies o = false → Advance o r x x
  | load {n p rest x} : x.stage = .resting → Advance (.loadPendingMessagesOnly n) (p :: rest) x
      { x with stage := .loaded { rows := p :: rest, left := p :: rest } }
  | sweep {t p rest x} : x.stage = .resting → Advance (.loadExpiredSent t) (p :: rest) x
      { x with stage := .expired (rest.length + 1) }
  | count {d x} : x.stage = .loaded d →
      Advance (.increment .offlineDelivered) () x { x with stage := .counted d }
  | countExpired {n x} : x.stage = .expired n →
      Advance (.increment .messagesExpired) () x { x with stage := .resting, sweeps := x.sweeps ++ [n] }
  | start {s d x} : x.stage = .counted d →
      Advance (.updateLastReceive s) () x { x with stage := .head { d with session := s } }
  | online {d x} : x.stage = .head d → Advance (.isOnline d.session) true x { x with stage := .body d }
  | offline {d x} : x.stage = .head d → Advance (.isOnline d.session) false x (x.finish d)
  | unmarked {id e d x} : x.stage = .head d → d.handed ≠ [] →
      Advance (.markDelivered id) (.error e) x (x.finish d)
  | unsent {id e d x} : x.stage = .body d → Advance (.markSent id) (.error e) x (x.finish d)
  | call {p rest d x} : x.stage = .body d → d.left = p :: rest → Advance (.updateLastActivity d.session) () x
      { x with stage := .called { d with handed := d.handed ++ [p], left := rest } p }
  | refuse {s d p x} : x.stage = .called d p → Advance (.markOffline s) () x (x.turn d)
  | push {o r d p x} : x.stage = .called d p → hands o = some (d.session, p.copy) → Advance o r x
      { x with stage := .pushed { d with pushed := d.pushed ++ [(d.session, p.copy)] } }
  | back {o r d x} : x.stage = .pushed d → tallies o = false → Advance o r x (x.turn d)
  | unsaved {c e d x} : x.stage = .pushed d → Advance (.saveMessage c) (.error e) x (x.finish d)

variable {x : Progress} {d : Delivery} {α : Type} {n : Bytes} {s id : ℕ} {c : Copy} {p : PendingMessage}
  {rest : List PendingMessage} {msg : Message} {o : Op} {r : o.Res}

def opens : Op → Bool
  | .loadPendingMessagesOnly _ | .loadExpiredSent _ | .increment .offlineDelivered
  | .increment .messagesExpired => true
  | _ => false

theorem family_of_opens (h : opens o = true) : family o = .storage := by
  cases o with
  | increment counter => cases counter <;> first | rfl | cases h
  | _ => first | rfl | cases h

theorem not_opens (h : family o ≠ .storage) : opens o = false := by
  cases ho : opens o with
  | false => rfl
  | true => exact absurd (family_of_opens ho) h

theorem rests_perform (ho : opens o = false) : Within deliveryProtocol Resting (perform o) := by
  refine Within.perform fun x hx ↦ ?_
  obtain ⟨stage, finished, sweeps⟩ := x
  obtain rfl : stage = .resting := hx
  cases o with
  | increment counter => cases counter <;> first | exact ⟨trivial, fun _ ↦ rfl⟩ | cases ho
  | _ => first | exact ⟨trivial, fun _ ↦ rfl⟩ | cases ho

theorem registering : Registering (Within deliveryProtocol Resting) :=
  registering_of_composable (Within.composable _ _) fun _ ho ↦ rests_perform (not_opens ho)

/-- The program leads from one place of a pass to another; where it throws, the pass is over. -/
def Moves (p : Program α) (x : Progress) (Q : α → Progress → Prop) : Prop :=
  Follows deliveryProtocol Q (fun _ ↦ Resting) p x

theorem moves_markSent (id : ℕ) :
    Moves (markSent id) { x with stage := .body d } fun _ y ↦ y = { x with stage := .body d } := by
  refine ⟨trivial, fun r ↦ ?_⟩
  cases r with
  | error e => exact rfl
  | ok u => exact rfl

theorem moves_markDelivered (id : ℕ) (hd : d.handed ≠ []) :
    Moves (markDelivered id) (x.turn d) fun _ y ↦ y = x.turn d := by
  obtain ⟨session, rows, handed, left, pushed⟩ := d
  cases left with
  | nil =>
    refine ⟨trivial, fun r ↦ ?_⟩
    cases r <;> exact rfl
  | cons p rest =>
    refine ⟨hd, fun r ↦ ?_⟩
    cases r <;> exact rfl

theorem moves_when {b : Bool} {p : Program Unit} (h : Moves p x fun _ y ↦ y = x) :
    Moves (Prog.when b p) x fun _ y ↦ y = x := by
  unfold Prog.when
  split
  · exact h
  · exact rfl

theorem moves_persistLoop (m : ℕ) : Moves (persistLoop s m) { x with stage := .pushed d }
    fun _ y ↦ y = { x with stage := .pushed d } := by
  induction m with
  | zero => exact rfl
  | succ m ih =>
    refine ⟨rfl, fun r ↦ ?_⟩
    cases r with
    | none => exact rfl
    | some c =>
      refine ⟨rfl, fun n ↦ ⟨rfl, fun r ↦ ?_⟩⟩
      cases r with
      | error e => exact rfl
      | ok id => exact ⟨rfl, fun _ ↦ ih⟩

/-- What a call of `sendMessage` leaves of a delivery. -/
def Sent (x : Progress) (d : Delivery) (y : Progress) : Prop := ∃ pushed, y = x.turn { d with pushed }

theorem moves_enqueueMessage : Moves (enqueueMessage d.session p.copy) { x with stage := .called d p }
    fun _ ↦ Sent x d := by
  refine ⟨trivial, fun _ ↦ ?_⟩
  have hpush : Moves (do
      perform (.pushQueue d.session p.copy)
      let size ← perform (.queueSize d.session)
      Prog.when (queuePersistThreshold < size) (persistLoop d.session (size / 2)))
        { x with stage := .called d p }
      fun _ y ↦ y = { x with stage := .pushed { d with pushed := d.pushed ++ [(d.session, p.copy)] } } :=
    ⟨rfl, fun _ ↦ ⟨rfl, fun m ↦ moves_when (moves_persistLoop (m / 2))⟩⟩
  refine Follows.ensuring hpush (fun _ y hy ↦ ?_) fun _ y hy ↦ rests_perform rfl y hy
  subst hy
  exact ⟨rfl, fun _ ↦ ⟨_, rfl⟩⟩

theorem moves_sendZmqMessage : Moves (sendZmqMessage d.session p.copy) { x with stage := .called d p }
    fun _ ↦ Sent x d := by
  unfold sendZmqMessage
  change Moves (((Prog.lift (serialize p.copy.msg)).bind fun data ↦ sendToClient d.session p.copy data).recover
    fun _ ↦ perform (.markOffline d.session)) _ _
  cases serialize p.copy.msg with
  | error e => exact ⟨trivial, fun _ ↦ ⟨_, rfl⟩⟩
  | ok data => exact ⟨rfl, fun _ ↦ ⟨trivial, fun _ ↦ ⟨_, rfl⟩⟩⟩

theorem moves_sendMessage : Moves (sendMessage d.session p.copy)
    { x with stage := .body { d with left := p :: rest } }
    fun sent y ↦ sent = true ∧ Sent x { d with handed := d.handed ++ [p], left := rest } y := by
  refine ⟨rfl, fun _ ↦ ⟨trivial, fun online ↦ ?_⟩⟩
  cases online with
  | true =>
    refine Follows.bind (p := sendZmqMessage d.session p.copy) ?_ fun _ y hy ↦ ⟨rfl, hy⟩
    exact moves_sendZmqMessage (d := { d with handed := d.handed ++ [p], left := rest })
  | false =>
    refine Follows.bind (p := enqueueMessage d.session p.copy) ?_ fun _ y hy ↦ ⟨rfl, hy⟩
    exact moves_enqueueMessage (d := { d with handed := d.handed ++ [p], left := rest })

theorem moves_offlineLoop (ps : List PendingMessage) :
    Moves (offlineLoop d.session ps) (x.turn { d with left := ps }) fun _ ↦ Resting := by
  induction ps generalizing d with
  | nil => exact rfl
  | cons p rest ih =>
    refine ⟨rfl, fun online ↦ ?_⟩
    cases online with
    | false => exact rfl
    | true =>
      refine Follows.bind (p := Prog.when p.msg.needsAck (markSent p.id))
        (moves_when (moves_markSent p.id)) fun _ y hy ↦ ?_
      subst hy
      refine Follows.bind moves_sendMessage fun sent y hy ↦ ?_
      obtain ⟨rfl, pushed, rfl⟩ := hy
      refine Follows.bind (moves_when (moves_markDelivered p.id (by simp))) fun _ y hy ↦ ?_
      subst hy
      exact ih (d := { d with handed := d.handed ++ [p], left := rest, pushed })

theorem moves_deliverOffline {session : Option ℕ} (hx : Resting x) :
    Moves (deliverOffline n session) x fun _ ↦ Resting := by
  obtain ⟨stage, finished, sweeps⟩ := x
  obtain rfl : stage = .resting := hx
  cases session with
  | none => exact rfl
  | some s =>
    refine ⟨trivial, fun rows ↦ ?_⟩
    cases rows with
    | nil => exact rfl
    | cons p rest =>
      refine ⟨trivial, fun _ ↦ ⟨trivial, fun _ ↦ ⟨trivial, fun _ ↦ ?_⟩⟩⟩
      refine Follows.bind (p := offlineLoop s (p :: rest)) ?_ fun _ y hy ↦ registering.flushQueue y hy
      exact moves_offlineLoop (d := { session := s, rows := p :: rest, left := [] }) (p :: rest)

theorem rests_deliverOfflineMessages (n : Bytes) : Within deliveryProtocol Resting (deliverOfflineMessages n) :=
  registering.bind (registering.findSession n) fun _ ↦ registering.holding fun _ hx ↦ moves_deliverOffline hx

theorem rests_checkExpiredAcks (cfg : Config) : Within deliveryProtocol Resting (checkExpiredAcks cfg) := by
  unfold checkExpiredAcks
  split
  · intro x hx
    obtain ⟨stage, finished, sweeps⟩ := x
    obtain rfl : stage = .resting := hx
    refine ⟨trivial, fun rows ↦ ?_⟩
    have retry : Within deliveryProtocol Resting (retryLoop rows) :=
      registering.retryLoop (fun id ↦ rests_perform rfl) (fun id ↦ rests_perform rfl) rows
    cases rows with
    | nil => exact retry _ rfl
    | cons p rest => exact ⟨trivial, fun _ ↦ retry _ rfl⟩
  · exact registering.ret ()

theorem marking : Marking (Within deliveryProtocol Resting) where
  toRegistering := registering
  receipt s := rests_perform rfl
  rows o ho := rests_perform (by cases o <;> first | rfl | cases ho)
  deliverOfflineMessages := rests_deliverOfflineMessages
  checkExpiredAcks := rests_checkExpiredAcks

theorem answering : Answering (Within deliveryProtocol Resting) :=
  marking.answering (fun o ho ↦ rests_perform (by cases o <;> first | rfl | cases ho))
    fun id corr n ↦ rests_perform rfl

theorem follows_code (cfg : Config) (j : Job) :
    Follows deliveryProtocol (fun _ ↦ Resting) (fun _ ↦ Resting) (code cfg j) {} :=
  answering.code (fun o ho ↦ rests_perform (not_opens (by rw [ho]; simp))) cfg j {} rfl

theorem advance (h : deliveryProtocol.may x o) : Advance o r x (deliveryProtocol.next x o r) := by
  obtain ⟨stage, finished, sweeps⟩ := x
  cases stage with
  | resting =>
    cases o with
    | loadPendingMessagesOnly n =>
      cases r with
      | nil => exact .stays rfl
      | cons p rest => exact .load rfl
    | loadExpiredSent t =>
      cases r with
      | nil => exact .stays rfl
      | cons p rest => exact .sweep rfl
    | increment counter => cases counter <;> first | exact .stays rfl | exact h.elim
    | _ => exact .stays rfl
  | loaded d =>
    cases o with
    | increment counter => cases counter <;> first | exact .count rfl | exact h.elim
    | _ => exact h.elim
  | counted d =>
    cases o with
    | updateLastActivity s => exact .stays rfl
    | updateLastReceive s => exact .start rfl
    | _ => exact h.elim
  | head d =>
    cases o with
    | isOnline s =>
      obtain rfl : s = d.session := h
      cases r with
      | false => exact .offline rfl
      | true => exact .online rfl
    | markDelivered id =>
      cases r with
      | error e => exact .unmarked rfl h
      | ok u => exact .stays rfl
    | _ => exact h.elim
  | body d =>
    cases o with
    | markSent id =>
      cases r with
      | error e => exact .unsent rfl
      | ok u => exact .stays rfl
    | updateLastActivity s =>
      obtain rfl : s = d.session := h
      obtain ⟨session, rows, handed, left, pushed⟩ := d
      cases left with
      | nil => exact .stays rfl
      | cons p rest => exact .call rfl rfl
    | _ => exact h.elim
  | called d p =>
    cases o with
    | pushQueue s c | pushPendingSend s c data =>
      obtain ⟨rfl, rfl⟩ := Prod.mk.inj h
      exact .push rfl rfl
    | markOffline s => exact .refuse rfl
    | isOnline | lockQueue => exact .stays rfl
    | _ => exact h.elim
  | pushed d =>
    cases o with
    | postSendTask | unlockQueue => exact .back rfl rfl
    | saveMessage c =>
      cases r with
      | error e => exact .unsaved rfl
      | ok id => exact .stays rfl
    | increment counter => cases counter <;> cases h
    | _ => exact .stays rfl
  | expired n =>
    cases o with
    | increment counter => cases counter <;> first | exact .countExpired rfl | exact h.elim
    | _ => exact h.elim

variable {cfg : Config} {ok : State → Step → Prop} {metrics : Option Metrics} {S : State} {w w' : World}
  {i i' : ℕ} {j : Job} {ch : Choice}

/-- How far thread `i` has come with the rows that it has loaded. -/
def progress (i : ℕ) (w : World) : Progress := phase deliveryProtocol {} i w.log

theorem follows_thread (h : (broker cfg).Reachable ok (initial metrics) S) {t : Thread Op Op.Res Job}
    (ht : S.threads[i]? = some t) :
    Follows deliveryProtocol (fun _ ↦ Resting) (fun _ ↦ Resting) t.code (progress i S.world) :=
  follows_of_reachable (P := fun _ ↦ deliveryProtocol) (s := fun _ ↦ {}) (Q := fun _ ↦ Resting)
    (X := fun _ ↦ Resting) (follows_code cfg) h i t ht

theorem progress_exec (h : (broker cfg).Reachable ok (initial metrics) S)
    (hp : Performs cfg ok S i j o ch r w') :
    Advance o r (progress i S.world) (progress i w') := by
  rw [progress, progress, phase_exec hp.exec]
  exact advance (may_of_follows (P := fun _ ↦ deliveryProtocol) (s := fun _ ↦ {}) (Q := fun _ ↦ Resting)
    (X := fun _ ↦ Resting) (follows_code cfg) h hp)

theorem progress_exec_ne (he : exec i j o ch w = some (r, w')) (hi : i' ≠ i) : progress i' w' = progress i' w :=
  phase_exec_ne he hi

theorem progress_of_le (h : (broker cfg).Reachable ok (initial metrics) S) (hi : S.threads.length ≤ i) :
    progress i S.world = {} :=
  phase_eq_start fun e he ↦ Nat.ne_of_lt ((thread_lt h e he).trans_le hi)

theorem resting_of_ended (h : (broker cfg).Reachable ok (initial metrics) S)
    (hended : ∀ t ∈ S.threads, t.ended) :
    ∀ i, Resting (progress i S.world) := by
  intro i
  by_cases hi : i < S.threads.length
  · exact of_ended_follows (follows_thread h (List.getElem?_eq_getElem hi)) (hended _ (List.getElem_mem hi))
  · rw [progress_of_le h (Nat.le_of_not_lt hi)]
    rfl

theorem progress_invariant {G : Progress → Prop} (hinit : G {})
    (hstep : ∀ {S i j o ch r w' x y}, (broker cfg).Reachable ok (initial metrics) S →
      Performs cfg ok S i j o ch r w' → progress i S.world = x → Advance o r x y → G x → G y)
    (h : (broker cfg).Reachable ok (initial metrics) S) : ∀ i, G (progress i S.world) := by
  refine thread_invariant (I := fun i w ↦ G (progress i w)) (fun _ ↦ hinit) (fun _ _ _ _ _ h ↦ h)
    (fun hr hp hw ↦ hstep hr hp rfl (progress_exec hr hp) hw) (fun _ hp hi hw ↦ ?_) h
  rw [progress_exec_ne hp.exec hi]
  exact hw

def Stage.deliveries : Stage → List Delivery
  | .resting | .expired _ => []
  | .loaded d | .counted d | .head d | .body d | .called d _ | .pushed d => [d]

def Progress.deliveries (x : Progress) : List Delivery := x.finished ++ x.stage.deliveries

/-- The rows go to the session one after the other, as they were loaded, and each copy
that has reached a queue is that of its row. -/
structure Delivery.Faithful (d : Delivery) : Prop where
  rows : d.handed ++ d.left = d.rows
  pushed : d.pushed.Sublist (d.handed.map fun p ↦ (d.session, p.copy))

/-- While a row is being sent, the copies are those of the rows before it. -/
def Stage.Faithful : Stage → Prop
  | .resting | .expired _ => True
  | .loaded d | .counted d => d.handed = [] ∧ d.pushed = [] ∧ d.left = d.rows
  | .head d | .body d | .pushed d => d.Faithful
  | .called d p => ∃ h, d.handed = h ++ [p] ∧ d.handed ++ d.left = d.rows ∧
      d.pushed.Sublist (h.map fun p ↦ (d.session, p.copy))

def Progress.Faithful (x : Progress) : Prop := x.stage.Faithful ∧ ∀ d ∈ x.finished, d.Faithful

theorem Progress.Faithful.finish (h : x.Faithful) (hd : d.Faithful) : (x.finish d).Faithful :=
  ⟨trivial, List.forall_mem_append.mpr ⟨h.2, List.forall_mem_singleton.mpr hd⟩⟩

theorem Progress.Faithful.turn (h : x.Faithful) (hd : d.Faithful) : (x.turn d).Faithful := by
  unfold Progress.turn
  split
  · exact h.finish hd
  · exact ⟨hd, h.2⟩

theorem faithful_called (h : (Stage.called d p).Faithful) : d.Faithful := by
  obtain ⟨hs, hhanded, hrows, hpushed⟩ := h
  refine ⟨hrows, hpushed.trans ?_⟩
  rw [hhanded, List.map_append]
  exact List.sublist_append_left _ _

theorem faithful_advance {y : Progress} (ha : Advance o r x y) (h : x.Faithful) : y.Faithful := by
  have hx := h
  obtain ⟨hstage, hfinished⟩ := hx
  cases ha with
  | stays => exact h
  | load => exact ⟨⟨rfl, rfl, rfl⟩, hfinished⟩
  | sweep | countExpired => exact ⟨trivial, hfinished⟩
  | count hd =>
    rw [hd] at hstage
    exact ⟨hstage, hfinished⟩
  | start hd =>
    rw [hd] at hstage
    obtain ⟨hhanded, hpushed, hleft⟩ := hstage
    refine ⟨⟨?_, ?_⟩, hfinished⟩
    · rw [hhanded, hleft, List.nil_append]
    · rw [hpushed]
      exact List.nil_sublist _
  | online hd =>
    rw [hd] at hstage
    exact ⟨hstage, hfinished⟩
  | offline hd | unmarked hd | unsent hd | unsaved hd =>
    rw [hd] at hstage
    exact h.finish hstage
  | call hd hleft =>
    rw [hd] at hstage
    refine ⟨⟨_, rfl, ?_, hstage.pushed⟩, hfinished⟩
    rw [List.append_assoc, List.singleton_append, ← hleft]
    exact hstage.rows
  | refuse hd =>
    rw [hd] at hstage
    exact h.turn (faithful_called hstage)
  | push hd =>
    rw [hd] at hstage
    obtain ⟨hs, hhanded, hrows, hpushed⟩ := hstage
    refine ⟨⟨hrows, ?_⟩, hfinished⟩
    rw [hhanded, List.map_append]
    exact hpushed.append (List.Sublist.refl _)
  | back hd =>
    rw [hd] at hstage
    exact h.turn hstage

theorem faithful_deliveries (h : x.Faithful) : ∀ d ∈ x.deliveries, d.Faithful := by
  have loaded {d : Delivery} (hd : d.handed = [] ∧ d.pushed = [] ∧ d.left = d.rows) : d.Faithful := by
    obtain ⟨hhanded, hpushed, hleft⟩ := hd
    refine ⟨?_, ?_⟩
    · rw [hhanded, hleft, List.nil_append]
    · rw [hpushed]
      exact List.nil_sublist _
  refine List.forall_mem_append.mpr ⟨h.2, ?_⟩
  have hstage := h.1
  cases hs : x.stage with
  | resting | expired => exact fun _ hd ↦ absurd hd List.not_mem_nil
  | loaded d | counted d =>
    rw [hs] at hstage
    exact List.forall_mem_singleton.mpr (loaded hstage)
  | head d | body d | pushed d =>
    rw [hs] at hstage
    exact List.forall_mem_singleton.mpr hstage
  | called d p =>
    rw [hs] at hstage
    exact List.forall_mem_singleton.mpr (faithful_called hstage)

theorem faithful_of_reachable (h : (broker cfg).Reachable ok (initial metrics) S) :
    ∀ i, (progress i S.world).Faithful :=
  progress_invariant ⟨trivial, fun _ hd ↦ absurd hd List.not_mem_nil⟩
    (fun _ _ _ ha hx ↦ faithful_advance ha hx) h

end MessageBroker.BacklogDelivery
