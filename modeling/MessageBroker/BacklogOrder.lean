import MessageBroker.BacklogDelivery

namespace MessageBroker.BacklogOrder

open ByteStrings WireMessages OrderedSelection MessageStore ProgramTrees ThreadPools BrokerState
  SessionQueues ClientRegistry ServerJobs StoreInvariant OperationEffects SharedInvariant ServerOutlines
  RunInvariants BacklogDelivery

def backlog (n : Bytes) (db : Database) : List Row :=
  db.messages.filter fun r ↦
    r.destination = .of n ∧ r.status = .pending ∧ r.type ≠ MessageType.reply.toByte.toNat

/-- The rows come in the order in which the broker accepted them. -/
def InOrder (rows : List PendingMessage) : Prop := rows.Pairwise fun p q ↦ p.id < q.id

instance (rows : List PendingMessage) : Decidable (InOrder rows) :=
  inferInstanceAs (Decidable (rows.Pairwise _))

/-- The clock stood at a later second whenever one more of these rows was accepted. -/
def Spaced (n : Bytes) (db : Database) : Prop :=
  ∀ r ∈ backlog n db, ∀ r' ∈ backlog n db, r.id < r'.id → r.createdAt < r'.createdAt

instance (n : Bytes) (db : Database) : Decidable (Spaced n db) :=
  inferInstanceAs (Decidable (∀ r ∈ backlog n db, ∀ r' ∈ backlog n db, r.id < r'.id →
    r.createdAt < r'.createdAt))

def loadsPending : Op → Option Bytes
  | .loadPendingMessagesOnly n => some n
  | _ => none

/-- Whenever the pending rows of a client are loaded, they are spaced. -/
def SpacedLoads (S : State) (l : Step) : Prop := S.OnNext loadsPending (fun _ _ n ↦ Spaced n S.world.db) l

instance (S : State) (l : Step) : Decidable (SpacedLoads S l) := by
  unfold SpacedLoads
  infer_instance

variable {db : Database} {n : Bytes} {tie : ℕ → ℕ} {cfg : Config} {ok : State → Step → Prop}
  {metrics : Option Metrics} {S : State} {i : ℕ} {j : Job} {o : Op} {ch : Choice} {r : o.Res} {w' : World}
  {x y : Progress}

theorem load_perm : (db.loadPendingMessagesOnly tie n).Perm ((backlog n db).map Row.load) :=
  (orderBy_perm _).map _

theorem inOrder_load_iff (hdb : Sound db) :
    (∀ tie, InOrder (db.loadPendingMessagesOnly tie n)) ↔ Spaced n db := by
  have hnodup : ((backlog n db).map (·.id)).Nodup := hdb.ids.sublist (List.filter_sublist.map _)
  rw [Spaced, ← orderBy_increasing_iff hnodup]
  exact forall_congr' fun tie ↦ List.pairwise_map

theorem inOrder_loaded (hok : ∀ S l, ok S l → SpacedLoads S l) {rows : List PendingMessage}
    (hp : Performs cfg ok S i j (.loadPendingMessagesOnly n) ch rows w') : InOrder rows := by
  have hspaced : Spaced n S.world.db := Pool.OnNext.meets (hok S _ hp.ok) hp.nextOp rfl
  have hload := (inOrder_load_iff hp.inv.store).mpr hspaced ch.tie
  have hr : some (dbSelect ch (S.world.db.loadPendingMessagesOnly ch.tie n)) = some rows := exec_reads hp.exec
  exact Option.some.inj hr ▸ hload.sublist (dbSelect_sublist _ _)

theorem inOrder_advance (hok : ∀ S l, ok S l → SpacedLoads S l) (hp : Performs cfg ok S i j o ch r w')
    (ha : Advance o r x y) (h : ∀ d ∈ x.deliveries, InOrder d.rows) : ∀ d ∈ y.deliveries, InOrder d.rows := by
  cases ha with
  | stays => exact h
  | load hx =>
    refine List.forall_mem_append.mpr ⟨fun d hd ↦ h d (List.mem_append_left _ hd), ?_⟩
    exact List.forall_mem_singleton.mpr (inOrder_loaded hok hp)
  | sweep hx | countExpired hx => simpa [Progress.deliveries, Stage.deliveries, hx] using h
  | count hd | start hd | online hd | call hd | push hd =>
    simpa [Progress.deliveries, Stage.deliveries, hd, or_imp, forall_and] using h
  | offline hd | unmarked hd | unsent hd | unsaved hd =>
    simpa [Progress.deliveries, Stage.deliveries, Progress.finish, hd] using h
  | refuse hd | back hd =>
    unfold Progress.turn
    split <;> simpa [Progress.deliveries, Stage.deliveries, Progress.finish, hd] using h

theorem inOrder_of_reachable (hok : ∀ S l, ok S l → SpacedLoads S l)
    (h : (broker cfg).Reachable ok (initial metrics) S) :
    ∀ i, ∀ d ∈ (progress i S.world).deliveries, InOrder d.rows :=
  progress_invariant (G := fun x ↦ ∀ d ∈ x.deliveries, InOrder d.rows) (fun _ hd ↦ absurd hd List.not_mem_nil)
    (fun _ hp _ ha hx ↦ inOrder_advance hok hp ha hx) h

/-- The pending rows of a client are loaded in the order of their acceptance, whatever
the database chooses among equal timestamps, exactly when they are spaced. A session is
given the rows as they were loaded, so when all loads of the run find spaced rows, it is
given all messages in that order. -/
theorem backlog_order (h : (broker cfg).Reachable ok (initial metrics) S) :
    (∀ n tie, (S.world.db.loadPendingMessagesOnly tie n).Perm ((backlog n S.world.db).map Row.load)) ∧
    (∀ n, (∀ tie, InOrder (S.world.db.loadPendingMessagesOnly tie n)) ↔ Spaced n S.world.db) ∧
    (∀ i, ∀ d ∈ (progress i S.world).deliveries, d.handed <+: d.rows ∧
      d.pushed.Sublist (d.handed.map fun p ↦ (d.session, p.copy))) ∧
    ((∀ S l, ok S l → SpacedLoads S l) →
      ∀ i, ∀ d ∈ (progress i S.world).deliveries, InOrder d.rows ∧ InOrder d.handed) := by
  have hinv : Consistent S.world := (holds_of_reachable h).inv
  have hhanded (i : ℕ) (d : Delivery) (hd : d ∈ (progress i S.world).deliveries) : d.handed <+: d.rows :=
    ⟨d.left, (faithful_deliveries (faithful_of_reachable h i) d hd).rows⟩
  refine ⟨fun n tie ↦ load_perm, fun n ↦ inOrder_load_iff hinv.store, fun i d hd ↦ ⟨hhanded i d hd, ?_⟩,
    fun hok i d hd ↦ ?_⟩
  · exact (faithful_deliveries (faithful_of_reachable h i) d hd).pushed
  · have horder := inOrder_of_reachable hok h i d hd
    exact ⟨horder, horder.sublist (hhanded i d hd).sublist⟩

/-- Two messages wait for bob, accepted a second apart, when he registers. -/
theorem backlog_order_two : ∃ S, (broker {}).Reachable SpacedLoads (initial none) S ∧
    (progress 2 S.world).finished.map (·.handed.map (·.id)) = [[1, 2]] ∧
    (∀ n, (∀ tie, InOrder (S.world.db.loadPendingMessagesOnly tie n)) ↔ Spaced n S.world.db) ∧
    ∀ i, ∀ d ∈ (progress i S.world).deliveries, InOrder d.rows ∧ InOrder d.handed := by
  have hrun : ((broker {}).runs SpacedLoads (inTurn 0 [(arrival { sender := [97], destination := [98] }, 8)] ++
      .tick ⟨1, 0⟩ :: inTurn 1 [(arrival { sender := [97], destination := [98] }, 8),
        (arrival { type := .register, sender := [98] }, 49)]) ⟨initial none, []⟩).map (fun S ↦
      (progress 2 S.world).finished.map (·.handed.map (·.id))) = some [[1, 2]] := by
    decide +kernel
  obtain ⟨S, hS, hv⟩ := exists_run hrun
  exact ⟨S, hS, hv, (backlog_order hS).2.1, (backlog_order hS).2.2.2 fun _ _ h ↦ h⟩

/-- Both messages were accepted within one second, and the database returns the second one first. -/
theorem second_handed_first : ∃ S, (broker {}).Reachable (fun _ _ ↦ True) (initial none) S ∧
    (progress 2 S.world).finished.map (fun d ↦ (d.rows.map (·.id), d.pushed.map (·.2.source))) =
      [([2, 1], [some 2, some 1])] ∧
    ¬ ∀ i, ∀ d ∈ (progress i S.world).deliveries, InOrder d.rows := by
  have hrun : ((broker {}).runs (fun _ _ ↦ True) (inTurn 0 [(arrival { sender := [97], destination := [98] }, 8),
      (arrival { sender := [97], destination := [98] }, 8),
        (arrival { type := .register, sender := [98] }, 17)] ++
      .step 2 { tie := fun id ↦ 2 - id } :: List.replicate 31 (.step 2 {})) ⟨initial none, []⟩).map (fun S ↦
      ((progress 2 S.world).finished.map (fun d ↦ (d.rows.map (·.id), d.pushed.map (·.2.source))),
        (progress 2 S.world).finished.all fun d ↦ InOrder d.rows)) =
      some ([([2, 1], [some 2, some 1])], false) := by
    decide +kernel
  obtain ⟨S, hS, hv⟩ := exists_run hrun
  obtain ⟨hfinished, horder⟩ := Prod.mk.inj hv
  refine ⟨S, hS, hfinished, fun hall ↦ ?_⟩
  have htrue := List.all_eq_true.mpr fun d hd ↦ decide_eq_true (hall 2 d (List.mem_append_left _ hd))
  exact Bool.false_ne_true (horder.symm.trans htrue)

end MessageBroker.BacklogOrder
