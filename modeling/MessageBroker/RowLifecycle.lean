import MessageBroker.RunInvariants

namespace MessageBroker.RowLifecycle

open ByteStrings WireMessages MessageStore ProgramTrees ThreadPools BrokerState ServerJobs
  StoreInvariant OperationEffects SharedInvariant ServerOutlines RunInvariants

variable {cfg : Config} {ok : State → Step → Prop} {metrics : Option Metrics} {S S' : State}
  {w w' : World} {i : ℕ} {j : Job} {o : Op} {ch : Choice} {r : o.Res} {row row' row'' : Row}

/-- Only the status has changed, and not from delivered. -/
structure Evolves (row row' : Row) : Prop where
  columns : row' = { row with status := row'.status }
  delivered : row.status = .delivered → row'.status = .delivered

theorem Evolves.refl (row : Row) : Evolves row row := ⟨rfl, id⟩

theorem Evolves.trans (h : Evolves row row') (h' : Evolves row' row'') : Evolves row row'' where
  columns := by
    rw [h'.columns, h.columns]
  delivered hst := h'.delivered (h.delivered hst)

theorem Evolves.id_eq (h : Evolves row row') : row'.id = row.id := by
  rw [h.columns]

/-- Every row of the first table is still in the second. -/
def Kept (db db' : Database) : Prop :=
  ∀ row ∈ db.messages, ∃ row' ∈ db'.messages, Evolves row row'

theorem kept_step (db : Database) (hp : Performs cfg ok S i j o ch r w')
    (h : Kept db S.world.db) : Kept db w'.db := by
  intro row hrow
  obtain ⟨row₁, hrow₁, hev⟩ := h row hrow
  by_cases hst : row₁.status = .delivered
  · exact ⟨row₁, delivered_step hp hrow₁ hst, hev⟩
  · obtain ⟨st, hrow₂⟩ := hp.grows.db row₁ hrow₁
    exact ⟨_, hrow₂, hev.trans ⟨rfl, fun h ↦ absurd h hst⟩⟩

/-- The id that a call of `saveMessage` returned. -/
def savedId : (o : Op) → o.Res → Option ℕ
  | .saveMessage _, .ok id => some id
  | _, _ => none

def savedIds (w : World) : List ℕ := w.log.filterMap fun e ↦ savedId e.op e.res

structure Numbered (w : World) : Prop where
  decreasing : (savedIds w).Pairwise (· > ·)
  positive : 0 ∉ savedIds w
  bound : ∀ id ∈ savedIds w, id ≤ w.db.lastMessageId

theorem lastMessageId_le (he : exec i j o ch w = some (r, w')) :
    w.db.lastMessageId ≤ w'.db.lastMessageId := by
  by_cases hm : .messages ∈ writes o
  · cases o with
    | saveMessage c =>
      obtain ⟨-, -, hdb⟩ | ⟨-, hdb⟩ := exec_saveMessage he <;> rw [hdb]
      exact Nat.le_succ _
    | markDelivered id =>
      obtain ⟨-, -, hdb⟩ | ⟨-, hdb⟩ := exec_markDelivered he <;> rw [hdb]
      exact Nat.le_refl _
    | markSent id =>
      obtain ⟨-, -, hdb⟩ | ⟨-, hdb⟩ := exec_markSent he <;> rw [hdb]
      exact Nat.le_refl _
    | markPending id =>
      obtain ⟨-, -, hdb⟩ | ⟨-, hdb⟩ := exec_markPending he <;> rw [hdb]
      exact Nat.le_refl _
    | _ => simp [writes] at hm
  · exact ((exec_frame he).messages (by simp [hm])).2.ge

theorem numbered_step (hp : Performs cfg ok S i j o ch r w') (h : Numbered S.world) :
    Numbered w' := by
  have hle := lastMessageId_le hp.exec
  have hids : savedIds w' = (savedId o r).toList ++ savedIds S.world := by
    rw [savedIds, exec_log hp.exec, List.filterMap_cons]
    cases savedId o r <;> rfl
  cases hid : savedId o r with
  | none =>
    rw [hid] at hids
    rw [Option.toList_none, List.nil_append] at hids
    exact ⟨hids ▸ h.decreasing, hids ▸ h.positive, fun id hm ↦ (h.bound id (hids ▸ hm)).trans hle⟩
  | some id =>
    cases o with
    | saveMessage c =>
      obtain ⟨-, ⟨e, rfl⟩, -⟩ | ⟨rfl, hdb⟩ := exec_saveMessage hp.exec
      · cases hid
      · obtain rfl := Option.some.inj hid
        rw [hid, Option.toList_some, List.singleton_append] at hids
        have hlast : w'.db.lastMessageId = S.world.db.lastMessageId + 1 := by rw [hdb]; rfl
        refine ⟨?_, ?_, fun id hm ↦ ?_⟩
        · rw [hids]
          exact List.pairwise_cons.mpr
            ⟨fun id hm ↦ Nat.lt_succ_of_le (h.bound id hm), h.decreasing⟩
        · rw [hids, List.mem_cons, not_or]
          exact ⟨(Nat.succ_ne_zero _).symm, h.positive⟩
        · rw [hids] at hm
          rw [hlast]
          rcases List.mem_cons.mp hm with rfl | hm
          · exact Nat.le_refl _
          · exact Nat.le_succ_of_le (h.bound id hm)
    | _ => cases hid

theorem numbered (h : (broker cfg).Reachable ok (initial metrics) S) : Numbered S.world :=
  run_invariant ⟨List.Pairwise.nil, List.not_mem_nil, fun _ hm ↦ absurd hm List.not_mem_nil⟩
    (fun _ _ _ _ h ↦ ⟨h.decreasing, h.positive, h.bound⟩) numbered_step h

/-- An expiry pass hands over only messages that ask for an acknowledgement. -/
def Retries (e : Event) (_ : World) : Prop :=
  e.job = .checkExpiredAcks → ∀ s c, hands e.op = some (s, c) → c.msg.needsAck = true

theorem retries_step (hp : Performs cfg ok S i j o ch r w') (h : Always Retries S.world) :
    Always Retries w' := by
  refine always_step h hp.exec (fun _ h ↦ h) ?_
  rintro rfl s c ho
  rcases (allowed_hands hp.allowed ho).resent with ⟨m, identity, data, hj, -⟩ | hack
  · cases hj
  · exact hack

theorem row_lifecycle (h : (broker cfg).Reachable ok (initial metrics) S)
    (hl : (broker cfg).Leads ok S S') :
    (∀ id row, S.world.db.row? id = some row →
      ∃ row', S'.world.db.row? id = some row' ∧ Evolves row row') ∧
    (savedIds S.world).Pairwise (· > ·) ∧ 0 ∉ savedIds S.world ∧
    (∀ row ∈ S.world.db.messages, row.status = .sent → row.needsAck = true) ∧
    Always Retries S.world := by
  have hn := numbered h
  refine ⟨fun id row hrow ↦ ?_, hn.decreasing, hn.positive, (holds_of_reachable h).inv.store.sent,
    run_invariant (fun _ he ↦ absurd he List.not_mem_nil) (fun _ _ _ _ h ↦ h) retries_step h⟩
  obtain ⟨hm, rfl⟩ := mem_of_row? hrow
  obtain ⟨row', hrow', hev⟩ := leads_invariant (P := fun w ↦ Kept S.world.db w.db)
    (fun _ _ _ _ h ↦ h) (kept_step _) h hl (fun row hrow ↦ ⟨row, hrow, .refl row⟩) row hm
  refine ⟨row', ?_, hev⟩
  rw [← hev.id_eq]
  exact row?_eq (holds_of_reachable (h.leads hl)).inv.store hrow'

/-- The message that waits for bob becomes delivered when he registers. -/
theorem row_lifecycle_offline : ∃ S S' : State,
    (broker {}).Reachable (fun _ _ ↦ True) (initial none) S ∧
      (broker {}).Leads (fun _ _ ↦ True) S S' ∧ ∃ row row', S.world.db.row? 1 = some row ∧
        row.status = .pending ∧ S'.world.db.row? 1 = some row' ∧ row'.status = .delivered ∧
          Evolves row row' := by
  have hrun : ((broker {}).runs (fun _ _ ↦ True) (inTurn 0 [
      (arrival { sender := [97], destination := [98] }, 8)]) ⟨initial none, []⟩).bind (fun S ↦
        ((broker {}).runs (fun _ _ ↦ True) (inTurn 1 [
          (arrival { type := .register, sender := [98] }, 43)]) S).map fun S' ↦
            ((S.world.db.row? 1).map (·.status), (S'.world.db.row? 1).map (·.status))) =
      some (some .pending, some .delivered) := by decide +kernel
  obtain ⟨S, S', hS, hS', hv⟩ := exists_runs hrun
  obtain ⟨h₁, h₂⟩ := Prod.mk.inj hv
  obtain ⟨row, hrow, hst⟩ := Option.map_eq_some_iff.mp h₁
  obtain ⟨row₂, hrow₂, hst₂⟩ := Option.map_eq_some_iff.mp h₂
  obtain ⟨row', hrow', hev⟩ := (row_lifecycle hS hS').1 1 row hrow
  obtain rfl := Option.some.inj (hrow₂.symm.trans hrow')
  exact ⟨S, S', hS, hS', row, row₂, hrow, hst, hrow₂, hst₂, hev⟩

end MessageBroker.RowLifecycle
