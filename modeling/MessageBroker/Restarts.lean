import MessageBroker.AcknowledgedDelivery
import MessageBroker.RowLifecycle
import MessageBroker.TransitionSystems

namespace MessageBroker.Restarts

open ByteStrings WireMessages MessageStore ThreadPools BrokerState ServerJobs StoreInvariant
  OperationEffects ThreadViews SharedInvariant ServerOutlines RunInvariants TransitionSystems
  AcknowledgedDelivery RowLifecycle

/-- A process of the broker. `past` is auxiliary: what the processes before it
have performed. -/
structure Process where
  cfg : Config
  pool : State
  past : List Event := []

def Process.db (P : Process) : Database := P.pool.world.db

def Process.history (P : Process) : List Event := P.pool.world.log ++ P.past

/-- A new process opens the database as it was left: the tables are created only
if they do not exist. Nothing else is left of the process before it. -/
def reopen (metrics : Option Metrics) (w : World) : World :=
  { initial metrics with db := w.db, wallClock := w.wallClock, steadyClock := w.steadyClock }

inductive Action
  | step (l : Step)
  | restart (cfg : Config) (metrics : Option Metrics)

def next (P : Process) : Action → Option Process
  | .step l => ((broker P.cfg).next P.pool l).map fun pool ↦ { P with pool }
  | .restart cfg metrics => some ⟨cfg, ⟨reopen metrics P.pool.world, []⟩, P.history⟩

/-- The broker may end at any moment, in the middle of any job, and be started again. -/
def processes : System Process Action where
  next := next

def first (cfg : Config) (metrics : Option Metrics) : Process := { cfg, pool := ⟨initial metrics, []⟩ }

/-- The steps of the broker satisfy `ok`; it may be started again at any moment. -/
def During (ok : State → Step → Prop) (P : Process) : Action → Prop
  | .step l => ok P.pool l
  | .restart _ _ => True

instance {ok : State → Step → Prop} [∀ S l, Decidable (ok S l)] (P : Process) :
    (a : Action) → Decidable (During ok P a)
  | .step l => inferInstanceAs (Decidable (ok P.pool l))
  | .restart _ _ => instDecidableTrue

variable {cfg : Config} {ok : State → Step → Prop} {metrics : Option Metrics} {S S' : State} {P P' : Process}
  {w w' : World} {i : ℕ} {j : Job} {o : Op} {ch : Choice} {r : o.Res} {past : List Event} {row : Row}

theorem consistent_reopen (h : Consistent w) (metrics : Option Metrics) : Consistent (reopen metrics w) := by
  have hinit := inv_initial metrics
  exact ⟨h.store, fun _ _ hc ↦ absurd hc List.not_mem_nil, fun _ hp ↦ absurd hp List.not_mem_nil,
    fun _ _ hp ↦ absurd hp List.not_mem_nil, hinit.uncalled, hinit.offline, hinit.names, hinit.unused,
      hinit.clients,
    hinit.destroyed⟩

theorem holds_reopen (h : Consistent w) (cfg : Config) (metrics : Option Metrics) :
    (outline cfg).Holds ⟨reopen metrics w, []⟩ := by
  refine ⟨consistent_reopen h metrics, (fun _ _ ht ↦ nomatch ht), fun i _ ↦ ?_⟩
  have hinit := atRest_initial i metrics
  exact ⟨hinit.owns, hinit.unpopped, hinit.settled⟩

theorem holds_next {l : Step} (h : (outline cfg).Holds S) (hs : (broker cfg).next S l = some S') :
    (outline cfg).Holds S' := by
  cases l with
  | start j => exact h.start (fun _ _ hrest ↦ safe_code hrest) hs
  | step i ch => exact h.step (fun _ _ _ _ ↦ trivial) hs
  | tick t => exact Option.some.inj hs ▸ h.tick t

theorem next_step {l : Step} (h : next P (.step l) = some P') :
    ∃ S, (broker P.cfg).next P.pool l = some S ∧ P' = { P with pool := S } := by
  obtain ⟨S, hS, rfl⟩ := Option.map_eq_some_iff.mp h
  exact ⟨S, hS, rfl⟩

theorem holds_of_leads (h : processes.Leads (During ok) (first cfg metrics) P) :
    (outline P.cfg).Holds P.pool := by
  refine h.invariant (P := fun P ↦ (outline P.cfg).Holds P.pool) ?_ fun {P P' a} _ ih _ hs ↦ ?_
  · have hinit : (broker cfg).Reachable ok (initial metrics) ⟨initial metrics, []⟩ := .init
    exact holds_of_reachable hinit
  · cases a with
    | step l =>
      obtain ⟨S, hS, rfl⟩ := next_step hs
      exact holds_next ih hS
    | restart cfg metrics =>
      obtain rfl := Option.some.inj hs
      exact holds_reopen ih.inv cfg metrics

/-- What every operation keeps, and what is still so when the broker is started
again, holds in every process. -/
theorem process_invariant {I : List Event → World → Prop}
    (hidle : ∀ past w n now elapsed, I past w →
      I past { w with postedTasks := n, wallClock := now, steadyClock := elapsed })
    (hstep : ∀ {cfg S i j o ch r w'} past, Performs cfg ok S i j o ch r w' → I past S.world → I past w')
    (hreopen : ∀ past w metrics, I past w → I (w.log ++ past) (reopen metrics w))
    (h : processes.Leads (During ok) (first cfg metrics) P) (h' : processes.Leads (During ok) P P')
    (hI : I P.past P.pool.world) : I P'.past P'.pool.world := by
  refine h'.invariant (P := fun P ↦ I P.past P.pool.world) hI fun {P₁ P₂ a} hl ih hok hs ↦ ?_
  cases a with
  | step l =>
    obtain ⟨S, hS, rfl⟩ := next_step hs
    obtain ⟨i, ch, j, o, k, r, rfl, ht, he⟩ | ⟨n, now, elapsed, hw⟩ := next_cases hS
    · exact hstep _ ⟨holds_of_leads (h.trans hl), ⟨k, ht⟩, hok, he⟩ ih
    · change I P₁.past S.world
      rw [hw]
      exact hidle _ _ _ _ _ ih
  | restart cfg metrics =>
    obtain rfl := Option.some.inj hs
    exact hreopen _ _ metrics ih

theorem kept_of_leads (h : processes.Leads (During ok) (first cfg metrics) P)
    (h' : processes.Leads (During ok) P P') : Kept P.db P'.db :=
  process_invariant (I := fun _ w ↦ Kept P.db w.db) (fun _ _ _ _ _ hw ↦ hw) (fun _ hp ↦ kept_step P.db hp)
    (fun _ _ _ hw ↦ hw) h h' fun row hrow ↦ ⟨row, hrow, .refl row⟩

def confirmed : (o : Op) → o.Res → Option (Copy × ℕ)
  | .saveMessage c, .ok id => some (c, id)
  | _, _ => none

def confirmations (log : List Event) : List (Copy × ℕ) := log.filterMap fun e ↦ confirmed e.op e.res

/-- The messages whose storing has been confirmed by any process, the latest first. -/
def Process.saved (P : Process) : List (Copy × ℕ) := confirmations P.history

theorem confirmations_exec (he : exec i j o ch w = some (r, w')) :
    confirmations (w'.log ++ past) = (confirmed o r).toList ++ confirmations (w.log ++ past) := by
  rw [exec_log he, List.cons_append, confirmations, List.filterMap_cons]
  cases confirmed o r <;> rfl

/-- Every message that was confirmed has its row, and the later the higher its id. -/
structure Recorded (past : List Event) (w : World) : Prop where
  rows : ∀ p ∈ confirmations (w.log ++ past), ∃ row ∈ w.db.messages, row.id = p.2 ∧ Records row p.1.msg
  decreasing : (confirmations (w.log ++ past)).Pairwise fun p q ↦ q.2 < p.2

theorem records_withStatus {m : Message} (h : Records row m) (st : MessageStatus) :
    Records { row with status := st } m :=
  ⟨h.type, h.flags, h.correlationId, h.sender, h.destination, h.payload⟩

theorem recorded_step (past : List Event) (hp : Performs cfg ok S i j o ch r w') (h : Recorded past S.world) :
    Recorded past w' := by
  have hconf : confirmations (w'.log ++ past) = (confirmed o r).toList ++ confirmations (S.world.log ++ past) :=
    confirmations_exec hp.exec
  have old : ∀ p ∈ confirmations (S.world.log ++ past), ∃ row ∈ w'.db.messages, row.id = p.2 ∧
    Records row p.1.msg := by
    intro p hmem
    obtain ⟨row, hrow, hid, hrec⟩ := h.rows p hmem
    obtain ⟨st, hst⟩ := hp.grows.db row hrow
    exact ⟨_, hst, hid, records_withStatus hrec st⟩
  cases hc : confirmed o r with
  | none =>
    rw [hc, Option.toList_none, List.nil_append] at hconf
    exact ⟨hconf ▸ old, hconf ▸ h.decreasing⟩
  | some p =>
    rw [hc, Option.toList_some, List.singleton_append] at hconf
    cases o with
    | saveMessage c =>
      obtain ⟨-, ⟨e, rfl⟩, -⟩ | ⟨rfl, hdb⟩ := exec_saveMessage hp.exec
      · cases hc
      obtain rfl := Option.some.inj hc
      have hnew : S.world.db.newRow S.world.wallClock c ∈ w'.db.messages := by
        rw [hdb]
        exact List.mem_append_right _ (List.mem_singleton_self _)
      constructor
      · rw [hconf, List.forall_mem_cons]
        exact ⟨⟨_, hnew, rfl, records_newRow _ c⟩, old⟩
      · rw [hconf, List.pairwise_cons]
        refine ⟨fun q hq ↦ ?_, h.decreasing⟩
        obtain ⟨row, hrow, hid, -⟩ := h.rows q hq
        have hbound := (hp.inv.store.bound row hrow).2
        exact hid ▸ Nat.lt_succ_of_le hbound
    | _ => cases hc

theorem recorded_of_leads (h : processes.Leads (During ok) (first cfg metrics) P) :
    Recorded P.past P.pool.world :=
  process_invariant (I := Recorded) (fun _ _ _ _ _ hw ↦ ⟨hw.rows, hw.decreasing⟩) recorded_step
    (fun _ _ _ hw ↦ ⟨hw.rows, hw.decreasing⟩) .refl h ⟨fun _ hp ↦ absurd hp List.not_mem_nil, .nil⟩

/-- The tables outlive the processes: whenever the broker is ended and started
again, every message whose storing was confirmed keeps its row and its id, a row
changes only in its status, of the columns that are modelled (not of them is
`delivered_at`, which `MarkDelivered` sets as well), and stays delivered once it
is, and only a row that is to be acknowledged is ever marked sent. -/
theorem rows_survive (h : processes.Leads (During ok) (first cfg metrics) P)
    (h' : processes.Leads (During ok) P P') :
    (∀ id row, P.db.row? id = some row → ∃ row', P'.db.row? id = some row' ∧ Evolves row row') ∧
      (∀ p ∈ P.saved, ∃ row, P.db.row? p.2 = some row ∧ Records row p.1.msg) ∧
      P.saved.Pairwise (fun p q ↦ q.2 < p.2) ∧ (∀ p ∈ P.saved, 0 < p.2) ∧
      ∀ row ∈ P.db.messages, row.status = .sent → row.needsAck = true := by
  have hstore : Sound P.db := (holds_of_leads h).inv.store
  have hrec := recorded_of_leads h
  refine ⟨fun id row hrow ↦ ?_, fun p hp ↦ ?_, hrec.decreasing, fun p hp ↦ ?_, hstore.sent⟩
  · obtain ⟨hmem, rfl⟩ := mem_of_row? hrow
    obtain ⟨row', hrow', hev⟩ := kept_of_leads h h' row hmem
    refine ⟨row', ?_, hev⟩
    rw [← hev.id_eq]
    exact row?_eq (holds_of_leads (h.trans h')).inv.store hrow'
  · obtain ⟨row, hrow, hid, hr⟩ := hrec.rows p hp
    exact ⟨row, hid ▸ row?_eq hstore hrow, hr⟩
  · obtain ⟨row, hrow, hid, -⟩ := hrec.rows p hp
    exact hid ▸ (hstore.bound row hrow).1

/-- Alice asks bob for an ACK. -/
def request : Message := { flags := flagNeedsAck, correlationId := 7, sender := [97], destination := [98] }

/-- The broker ends while it handles the request, which it has just stored. -/
def interrupted : List Action := (inTurn 0 [(arrival request, 8)]).map .step

/-- It is started again, and bob registers. -/
def resumed : List Action :=
  .restart {} none :: (inTurn 0 [(arrival { type := .register, sender := [98] }, 43)]).map .step

theorem rows_survive_request : ∃ P P' : Process, P.saved.map (·.2) = [1] ∧
    (P'.db.row? 1).map (·.status) = some .sent ∧
    (∀ id row, P.db.row? id = some row → ∃ row', P'.db.row? id = some row' ∧ Evolves row row') ∧
    (∀ p ∈ P.saved, ∃ row, P.db.row? p.2 = some row ∧ Records row p.1.msg) ∧
    P.saved.Pairwise (fun p q ↦ q.2 < p.2) ∧ (∀ p ∈ P.saved, 0 < p.2) ∧
    ∀ row ∈ P.db.messages, row.status = .sent → row.needsAck = true := by
  have hrun : ((processes.runs (During fun _ _ ↦ True) interrupted (first {} none)).bind fun P ↦
      (processes.runs (During fun _ _ ↦ True) resumed P).map fun P' ↦
        (P.saved.map (·.2), (P'.db.row? 1).map (·.status))) = some ([1], some .sent) := by
    decide +kernel
  obtain ⟨P, P', h, h', hv⟩ := System.exists_leads_leads hrun
  obtain ⟨hsaved, hsent⟩ := Prod.mk.inj hv
  exact ⟨P, P', hsaved, hsent, rows_survive h h'⟩

def AckHandled (log : List Event) (row : Row) : Prop :=
  ∃ e ∈ log, e.op = .markDelivered row.id ∧ e.choice.dbError = false ∧ ∃ m, Receives e.job m ∧ m.type = .ack

/-- Whoever marked a row delivered that is to be acknowledged was entitled to. -/
structure Entitled (past : List Event) (w : World) : Prop where
  unacknowledged : Unacknowledged w
  handled : ∀ row ∈ w.db.messages, row.needsAck = true → row.status = .delivered → AckHandled (w.log ++ past) row

theorem entitled_step (past : List Event) (hp : Performs cfg LoadsPlainReplies S i j o ch r w')
    (h : Entitled past S.world) : Entitled past w' := by
  refine ⟨unacknowledged_step hp h.unacknowledged, fun row hrow hack hst ↦ ?_⟩
  have hlog : w'.log ++ past = ⟨i, j, o, ch, r, S.world.wallClock⟩ :: (S.world.log ++ past) := by
    rw [exec_log hp.exec, List.cons_append]
  rw [hlog]
  rcases rowStep hp.exec hrow with hrow | hrow
  · obtain ⟨e, he, hq⟩ := h.handled row hrow hack hst
    exact ⟨e, List.mem_cons_of_mem _ he, hq⟩
  · cases hrow with
    | saved c _ heq | sent r₀ _ heq | pending r₀ _ heq =>
      rw [heq] at hst
      cases hst
    | delivered r₀ hr₀ heq hop hok =>
      subst hop heq
      obtain hj | ⟨n, hreply⟩ := (hp.allowed r₀ hr₀ rfl).2 hack
      · exact ⟨_, List.mem_cons_self, rfl, hok, hj⟩
      · -- the row was loaded as a reply, and those loaded are not to be acknowledged
        obtain ⟨r₁, hr₁, hid, hplain⟩ := h.unacknowledged i _ hreply
        obtain rfl := id_inj hp.inv.store hr₁ hr₀ hid
        cases hplain.symm.trans hack

theorem entitled_of_leads (h : processes.Leads (During LoadsPlainReplies) (first cfg metrics) P) :
    Entitled P.past P.pool.world := by
  refine process_invariant (I := Entitled) (fun _ _ _ _ _ hw ↦ ⟨hw.unacknowledged, hw.handled⟩) entitled_step
    (fun past w metrics hw ↦ ⟨fun _ _ hp ↦ absurd hp List.not_mem_nil, hw.handled⟩) .refl h
    ⟨fun _ _ hp ↦ absurd hp List.not_mem_nil, fun _ hrow ↦ absurd hrow List.not_mem_nil⟩

/-- A message that is to be acknowledged is not forgotten: until an ACK for it
has been handled, by whatever process, its row waits to be loaded again. -/
theorem unacknowledged_waits (h : processes.Leads (During LoadsPlainReplies) (first cfg metrics) P) {c : Copy}
    {id : ℕ} (hsaved : (c, id) ∈ P.saved) (hack : c.msg.needsAck = true) :
    ∃ row, P.db.row? id = some row ∧ Records row c.msg ∧
      (row.status = .pending ∨ row.status = .sent ∨ AckHandled P.history row) := by
  obtain ⟨row, hrow, rfl, hrec⟩ := (recorded_of_leads h).rows _ hsaved
  refine ⟨row, row?_eq (holds_of_leads h).inv.store hrow, hrec, ?_⟩
  cases hst : row.status with
  | pending => exact .inl rfl
  | sent => exact .inr (.inl rfl)
  | delivered => exact .inr (.inr ((entitled_of_leads h).handled row hrow (hrec.needsAck.trans hack) hst))

/-- The request waits when the broker has been started again. -/
theorem unacknowledged_waits_request : ∃ (P : Process) (c : Copy), c.msg.needsAck = true ∧ (c, 1) ∈ P.saved ∧
    ∃ row, P.db.row? 1 = some row ∧ Records row c.msg ∧
      (row.status = .pending ∨ row.status = .sent ∨ AckHandled P.history row) := by
  have hrun : (processes.runs (During LoadsPlainReplies) (interrupted ++ resumed) (first {} none)).map
      (fun P ↦ P.saved.map fun p ↦ (p.1.msg, p.2)) = some [(request, 1)] := by decide +kernel
  obtain ⟨P, h, hv⟩ := System.exists_leads hrun
  obtain ⟨⟨c, id⟩, hmem, heq⟩ := List.mem_map.mp (hv ▸ List.mem_singleton_self _)
  obtain ⟨hmsg, rfl⟩ := Prod.mk.inj heq
  have hack : c.msg.needsAck = true := by rw [hmsg]; decide
  exact ⟨P, c, hack, hmem, unacknowledged_waits h hmem hack⟩

end MessageBroker.Restarts
