import MessageBroker.RunInvariants
import Mathlib.Data.List.Dedup

namespace MessageBroker.AcknowledgedDelivery

open ByteStrings WireMessages MessageStore ThreadPools BrokerState ServerJobs StoreInvariant
  OperationEffects ThreadViews SharedInvariant ServerOutlines RunInvariants

variable {cfg : Config} {ok : State → Step → Prop} {metrics : Option Metrics} {S : State}
  {w w' : World} {i : ℕ} {j : Job} {o : Op} {ch : Choice} {r : o.Res} {row : Row}

/-- No load of pending replies selects a reply that is to be acknowledged. -/
def LoadsPlainReplies (S : State) (l : Step) : Prop :=
  S.OnNext loadsReplies (fun _ _ n ↦
    ∀ r ∈ S.world.db.messages, S.world.db.isPendingReplyFor n r → r.needsAck = false) l

instance (S : State) (l : Step) : Decidable (LoadsPlainReplies S l) := by
  unfold LoadsPlainReplies
  infer_instance

/-- A handler of an ACK has marked the row. -/
def Acknowledged (w : World) (row : Row) : Prop :=
  ∃ e ∈ w.log, e.op = .markDelivered row.id ∧ e.choice.dbError = false ∧
    ∃ m, Receives e.job m ∧ m.type = .ack

def DeliveredByAck (w : World) : Prop :=
  ∀ row ∈ w.db.messages, row.needsAck = true → row.status = .delivered → Acknowledged w row

def Unacknowledged (w : World) : Prop := Replies (fun _ row ↦ row.needsAck = false) w

theorem Acknowledged.step (h : Acknowledged w row) (he : exec i j o ch w = some (r, w')) :
    Acknowledged w' row := by
  obtain ⟨e, hm, hop, hok, hj⟩ := h
  exact ⟨e, by rw [exec_log he]; exact List.mem_cons_of_mem _ hm, hop, hok, hj⟩

theorem unacknowledged_step (hp : Performs cfg LoadsPlainReplies S i j o ch r w')
    (h : Unacknowledged S.world) : Unacknowledged w' := by
  refine replies_step h hp.grows.db hp.exec (fun _ _ _ hq ↦ hq) fun n hn ↦ ?_
  subst hn
  exact Pool.OnNext.meets hp.ok hp.nextOp rfl

theorem deliveredByAck_step (hp : Performs cfg ok S i j o ch r w')
    (hu : Unacknowledged S.world) (h : DeliveredByAck S.world) : DeliveredByAck w' := by
  intro row hrow hn hst
  rcases rowStep hp.exec hrow with hrow | hrow
  · exact (h row hrow hn hst).step hp.exec
  · cases hrow with
    | saved c _ heq | sent r₀ _ heq | pending r₀ _ heq => rw [heq] at hst; cases hst
    | delivered r₀ hr₀ heq hop hok =>
      subst hop heq
      obtain hj | ⟨n, hreply⟩ := (hp.allowed r₀ hr₀ rfl).2 hn
      · exact ⟨_, by rw [exec_log hp.exec]; exact List.mem_cons_self, rfl, hok, hj⟩
      · obtain ⟨r₁, hr₁, hid, hplain⟩ := hu i _ hreply
        obtain rfl := id_inj hp.inv.store hr₁ hr₀ hid
        cases hplain.symm.trans hn

/-- Only the handler of an ACK makes a row delivered that is to be acknowledged,
as long as no registration loads such a row as a pending reply. -/
theorem acknowledged_delivery
    (h : (broker cfg).Reachable LoadsPlainReplies (initial metrics) S)
    (hrow : row ∈ S.world.db.messages) (hack : row.needsAck = true)
    (hst : row.status = .delivered) : Acknowledged S.world row := by
  refine (run_invariant (P := fun w ↦ Unacknowledged w ∧ DeliveredByAck w) ?_
    (fun _ _ _ _ h ↦ h) (fun hp hP ↦ ?_) h).2 row hrow hack hst
  · exact ⟨fun i p hp ↦ (nomatch hp), fun row hr ↦ (nomatch hr)⟩
  · exact ⟨unacknowledged_step hp hP.1, deliveredByAck_step hp hP.1 hP.2⟩

/-- A message that bob acknowledges after an offline delivery. -/
theorem acknowledged_delivery_offline : ∃ S row,
    (broker {}).Reachable LoadsPlainReplies (initial none) S ∧ row ∈ S.world.db.messages ∧
      row.needsAck = true ∧ row.status = .delivered ∧ Acknowledged S.world row := by
  have hrun : ((broker {}).runs LoadsPlainReplies (inTurn 0 [
      (arrival { flags := flagNeedsAck, correlationId := 7, sender := [97], destination := [98] }, 9),
      (arrival { type := .register, sender := [98] }, 43),
      (arrival { type := .ack, correlationId := 7, sender := [98] }, 17)])
      ⟨initial none, []⟩).map
        (fun S ↦ S.world.db.messages.head?.map fun row ↦ (row.needsAck, row.status)) =
      some (some (true, .delivered)) := by decide +kernel
  obtain ⟨S, hS, hv⟩ := exists_run hrun
  obtain ⟨row, hrow, hrow'⟩ := Option.map_eq_some_iff.mp hv
  obtain ⟨hack, hst⟩ := Prod.mk.inj hrow'
  have hm := List.mem_of_mem_head? hrow
  exact ⟨S, row, hS, hm, hack, hst, acknowledged_delivery hS hm hack hst⟩

/-- Alice asks for a reply, bob's reply asks for an ACK, and alice registers. -/
def replyToAbsent : List Message := [
  { flags := flagNeedsReply, correlationId := 7, sender := [97], destination := [98] },
  { type := .reply, flags := flagNeedsAck, correlationId := 7, sender := [98],
    destination := [97] },
  { type := .register, sender := [97] }]

/-- The reply becomes delivered although no ACK has arrived. -/
theorem reply_delivered_without_ack : ¬ ∀ cfg metrics S row,
    (broker cfg).Reachable (fun _ _ ↦ True) (initial metrics) S → row ∈ S.world.db.messages →
      row.needsAck = true → row.status = .delivered → Acknowledged S.world row := by
  intro h
  have hrun : ((broker {}).runs (fun _ _ ↦ True)
      (inTurn 0 ((replyToAbsent.map arrival).zip [9, 10, 40])) ⟨initial none, []⟩).map
        (fun S ↦ (S.world.db.messages[1]?.map fun row ↦ (row.needsAck, row.status),
          (S.world.log.map (·.job)).dedup)) =
      some (some (true, .delivered), (replyToAbsent.map arrival).reverse) := by decide +kernel
  obtain ⟨S, hS, hv⟩ := exists_run hrun
  obtain ⟨hrow, hjobs⟩ := Prod.mk.inj hv
  obtain ⟨row, hrow, hrow'⟩ := Option.map_eq_some_iff.mp hrow
  obtain ⟨hack, hst⟩ := Prod.mk.inj hrow'
  obtain ⟨e, he, -, -, m, hm, ht⟩ := h {} none S row hS (List.mem_of_getElem? hrow) hack hst
  have hj := List.mem_dedup.mpr (List.mem_map_of_mem (f := fun e : Event ↦ e.job) he)
  rw [hjobs, List.mem_reverse] at hj
  obtain ⟨m', hm', hj⟩ := List.mem_map.mp hj
  have hknown : ∀ m' ∈ replyToAbsent, m'.Fits ∧ m'.type ≠ .ack := by decide
  rw [← hj] at hm
  rw [receives_arrival (hknown m' hm').1 hm] at ht
  exact (hknown m' hm').2 ht

end MessageBroker.AcknowledgedDelivery
