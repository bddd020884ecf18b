import MessageBroker.HandOverOnce
import MessageBroker.Restarts

namespace MessageBroker.SettledRows

open ByteStrings WireMessages MessageStore ThreadPools BrokerState ServerJobs StoreInvariant OperationEffects
  ThreadViews SharedInvariant ServerOutlines RunInvariants TransitionSystems HandOverOnce RowLifecycle Restarts

variable {cfg : Config} {ok : State → Step → Prop} {metrics : Option Metrics} {S : State} {P P' : Process}
  {w w' : World} {i : ℕ} {j : Job} {o : Op} {ch : Choice} {r : o.Res} {past start : List Event} {row : Row}
  {id : ℕ}

/-- A copy of the row, which is not to be acknowledged, has been handed over. -/
def HandedIn (log : List Event) (id : ℕ) : Prop := ∃ e ∈ log, handsPlain id e.op = true

theorem handedIn_of_handed (h : Handed w id) : HandedIn w.log id := by
  obtain ⟨e, he, hh⟩ := h
  exact ⟨e, he, handsPlain_iff.mpr hh⟩

theorem HandedIn.mono {log log' : List Event} (h : HandedIn log id) (hsub : log ⊆ log') : HandedIn log' id := by
  obtain ⟨e, he, hh⟩ := h
  exact ⟨e, hsub he, hh⟩

/-- Who is to mark a row that is not to be acknowledged has handed it over, and
so has whoever marked it, in this process or in one before it. -/
structure Earned (past : List Event) (w : World) : Prop where
  debts : ∀ i, ∀ id ∈ (account i w.log).debt, Handed w id
  rows : ∀ row ∈ w.db.messages, plain row.message = true → row.status = .pending ∨
    HandedIn (w.log ++ past) row.id

theorem debts_step (hp : Performs cfg ok S i j o ch r w')
    (h : ∀ i, ∀ id ∈ (account i S.world.log).debt, Handed S.world id) :
    ∀ i, ∀ id ∈ (account i w'.log).debt, Handed w' id := by
  intro i' id hid
  by_cases hi : i' = i
  · subst hi
    rw [account_exec hp.exec] at hid
    rcases mem_note_debt hid with hid | hh
    · exact (h _ id hid).step hp.exec
    · exact ⟨_, by rw [exec_log hp.exec]; exact List.mem_cons_self, hh⟩
  · rw [account_exec_ne hp.exec hi] at hid
    exact (h i' id hid).step hp.exec

theorem needsAck_of_plain (h : plain row.message = true) : row.needsAck = false := by
  have hack : (!row.message.needsAck) = true := ((Bool.and_eq_true _ _).mp h).2
  exact (Bool.not_eq_true' _).mp hack

theorem earned_step (past : List Event) (hp : Performs cfg ok S i j o ch r w') (h : Earned past S.world) :
    Earned past w' := by
  refine ⟨debts_step hp h.debts, fun row hrow hplain ↦ ?_⟩
  have hsub : S.world.log ++ past ⊆ w'.log ++ past := by
    rw [exec_log hp.exec, List.cons_append]
    exact List.subset_cons_self ..
  rcases rowStep hp.exec hrow with hold | hnew
  · exact (h.rows row hold hplain).imp_right (·.mono hsub)
  · cases hnew with
    | saved c _ heq | pending r₀ _ heq =>
      exact .inl (heq ▸ rfl)
    | sent r₀ hr₀ heq hop =>
      -- only a row that is to be acknowledged is marked sent
      subst hop heq
      cases (hp.allowed r₀ hr₀ rfl).symm.trans (needsAck_of_plain hplain)
    | delivered r₀ hr₀ heq hop =>
      subst hop heq
      have howed := (hp.allowed r₀ hr₀ rfl).1 hplain
      exact .inr ((handedIn_of_handed (h.debts i _ howed)).mono fun e he ↦ hsub (List.mem_append_left _ he))

/-- No thread may hand over the delivered row, and none has since the process was started. -/
structure Settled (row : Row) (start past : List Event) (w : World) : Prop where
  delivered : row.status = .delivered
  mem : row ∈ w.db.messages
  credit : ∀ i, row.id ∉ (account i w.log).credit
  since : ∃ new, w.log ++ past = new ++ start ∧ ∀ e ∈ new, handsPlain row.id e.op = false

theorem credit_step (hp : Performs cfg ok S i j o ch r w') (hrow : row ∈ S.world.db.messages)
    (hst : row.status = .delivered) (h : row.id ∉ (account i S.world.log).credit) :
    row.id ∉ ((account i S.world.log).note j o r).credit := by
  have spent {c : Copy} : row.id ∉ ((account i S.world.log).spend c).credit := by
    rw [Account.spend_credit]
    split
    · exact fun hid ↦ h (List.mem_filter.mp hid).1
    · exact h
  have kept (hk : ((account i S.world.log).note j o r).credit = (account i S.world.log).credit) :
      row.id ∉ ((account i S.world.log).note j o r).credit := hk ▸ h
  cases o with
  | pushQueue | pushPendingSend => exact spent
  | saveMessage c =>
    obtain ⟨-, ⟨e, rfl⟩, -⟩ | ⟨rfl, -⟩ := exec_saveMessage hp.exec
    · exact h
    · simp only [Account.note]
      split_ifs
      · exact h
      · have hbound := (hp.inv.store.bound row hrow).2
        rw [List.mem_cons, not_or]
        exact ⟨by omega, h⟩
      · exact h
  | loadPendingMessagesOnly n =>
    intro hid
    have hrows : some (dbSelect ch (S.world.db.loadPendingMessagesOnly ch.tie n)) = some r := exec_reads hp.exec
    obtain ⟨p, hmem, hid⟩ := List.mem_map.mp hid
    rw [← Option.some.inj hrows] at hmem
    obtain ⟨row', hrow', rfl, -, hst'⟩ := mem_loadPendingMessagesOnly (mem_dbSelect hmem)
    obtain rfl := id_inj hp.inv.store hrow' hrow hid
    cases hst.symm.trans hst'
  | loadPendingRepliesForSenderOnly n =>
    intro hid
    have hrows : some (dbSelect ch (S.world.db.loadPendingRepliesForSenderOnly ch.tie n)) = some r :=
      exec_reads hp.exec
    obtain ⟨p, hmem, hid⟩ := List.mem_map.mp hid
    rw [← Option.some.inj hrows] at hmem
    obtain ⟨row', hrow', rfl, hst', -⟩ := mem_loadPendingRepliesForSenderOnly (mem_dbSelect hmem)
    obtain rfl := id_inj hp.inv.store hrow' hrow hid
    rw [hst] at hst'
    rcases hst' with hst' | hst' <;> cases hst'
  | markDelivered id' => cases r <;> exact h
  | popQueue => exact h
  | _ => exact kept (note_keeps rfl).credit

theorem settled_step (past : List Event) (hp : Performs cfg ok S i j o ch r w')
    (h : Settled row start past S.world) :
    Settled row start past w' := by
  refine ⟨h.delivered, delivered_step hp h.mem h.delivered, fun i' ↦ ?_, ?_⟩
  · by_cases hi : i' = i
    · subst hi
      rw [account_exec hp.exec]
      exact credit_step hp h.mem h.delivered (h.credit _)
    · rw [account_exec_ne hp.exec hi]
      exact h.credit i'
  · obtain ⟨new, hlog, hnew⟩ := h.since
    refine ⟨_ :: new, by rw [exec_log hp.exec, List.cons_append, hlog, List.cons_append], ?_⟩
    rw [List.forall_mem_cons]
    refine ⟨?_, hnew⟩
    by_contra hh
    obtain ⟨s, c, ho, hplain, hid⟩ := handsPlain_iff.mp (Bool.not_eq_false _ ▸ hh)
    obtain ⟨-, id', hcredit, hid'⟩ := (allowed_hands hp.allowed ho).credit hplain
    obtain rfl : row.id = id' := Option.some.inj (hid.symm.trans hid')
    exact h.credit i hcredit

theorem earned_of_leads (h : processes.Leads (During ok) (first cfg metrics) P) :
    Earned P.past P.pool.world := by
  refine process_invariant (I := Earned) (fun _ _ _ _ _ hw ↦ ⟨hw.debts, hw.rows⟩) earned_step
    (fun past w metrics hw ↦ ?_) .refl h ?_
  · exact ⟨fun _ _ hid ↦ absurd hid List.not_mem_nil, hw.rows⟩
  · exact ⟨fun _ _ hid ↦ absurd hid List.not_mem_nil, fun _ hrow ↦ absurd hrow List.not_mem_nil⟩

variable {cfg' : Config} {metrics' : Option Metrics} {P₁ : Process}

theorem leads_restart (h : processes.Leads (During ok) (first cfg metrics) P)
    (hr : processes.next P (.restart cfg' metrics') = some P₁) :
    processes.Leads (During ok) (first cfg metrics) P₁ :=
  h.next (.restart cfg' metrics') trivial hr

theorem settled_of_leads (h : processes.Leads (During ok) (first cfg metrics) P) (hrow : row ∈ P.db.messages)
    (hst : row.status = .delivered) (hr : processes.next P (.restart cfg' metrics') = some P₁)
    (h' : processes.Leads (During ok) P₁ P') :
    Settled row P.history P'.past P'.pool.world := by
  refine process_invariant (I := Settled row P.history)
    (fun _ _ _ _ _ hw ↦ ⟨hw.delivered, hw.mem, hw.credit, hw.since⟩)
    settled_step (fun past w metrics hw ↦ ?_) (leads_restart h hr) h' ?_
  · exact ⟨hw.delivered, hw.mem, fun _ hid ↦ absurd hid List.not_mem_nil, hw.since⟩
  · obtain rfl := Option.some.inj hr
    exact ⟨hst, hrow, fun _ hid ↦ absurd hid List.not_mem_nil, [], rfl, fun _ he ↦ absurd he List.not_mem_nil⟩

/-- A message that is not to be acknowledged waits or has been handed over, in
this process or in one before it; and once it is marked when the broker is
started again, no later process hands its row over. -/
theorem plain_settled (h : processes.Leads (During ok) (first cfg metrics) P) {c : Copy}
    (hsaved : (c, id) ∈ P.saved)
    (hplain : plain c.msg = true) : ∃ row, P.db.row? id = some row ∧ Records row c.msg ∧
      (row.status = .pending ∨ row.status = .delivered ∧ HandedIn P.history id ∧
        ∀ cfg metrics P₁ P', processes.next P (.restart cfg metrics) = some P₁ →
          processes.Leads (During ok) P₁ P' →
          P'.db.row? id = some row ∧ ∃ new, P'.history = new ++ P.history ∧ ¬ HandedIn new id) := by
  have hstore : Sound P.db := (holds_of_leads h).inv.store
  obtain ⟨row, hrow, rfl, hrec⟩ := (recorded_of_leads h).rows _ hsaved
  have hplain : plain row.message = true := hrec.plain.trans hplain
  refine ⟨row, row?_eq hstore hrow, hrec, ?_⟩
  cases hst : row.status with
  | pending => exact .inl rfl
  | sent => cases (hstore.sent row hrow hst).symm.trans (needsAck_of_plain hplain)
  | delivered =>
    refine .inr ⟨rfl, ?_, fun cfg metrics P₁ P' hr h' ↦ ?_⟩
    · refine ((earned_of_leads h).rows row hrow hplain).resolve_left fun hp ↦ ?_
      cases hst.symm.trans hp
    · have hsettled := settled_of_leads h hrow hst hr h'
      obtain ⟨new, hnew, hnot⟩ := hsettled.since
      have hstore' : Sound P'.db := (holds_of_leads ((leads_restart h hr).trans h')).inv.store
      refine ⟨row?_eq hstore' hsettled.mem, new, hnew, ?_⟩
      rintro ⟨e, he, hh⟩
      cases (hnot e he).symm.trans hh

/-- The message that bob has been sent is marked. -/
theorem plain_settled_bob : ∃ (P : Process) (c : Copy), (P.db.row? 1).map (·.status) = some .delivered ∧
    ∃ row, P.db.row? 1 = some row ∧ Records row c.msg ∧
      (row.status = .pending ∨ row.status = .delivered ∧ HandedIn P.history 1 ∧
        ∀ cfg metrics P₁ P', processes.next P (.restart cfg metrics) = some P₁ →
          processes.Leads (During fun _ _ ↦ True) P₁ P' →
            P'.db.row? 1 = some row ∧ ∃ new, P'.history = new ++ P.history ∧ ¬ HandedIn new 1) := by
  have hrun : ((processes.runs (During fun _ _ ↦ True)
    ((inTurn 0 [(arrival { type := .register, sender := [98] }, 31),
      (arrival { sender := [97], destination := [98] }, 16)]).map .step) (first {} none)).map fun P ↦
        (P.saved.map fun p ↦ (plain p.1.msg, p.2), (P.db.row? 1).map (·.status))) =
      some ([(true, 1)], some .delivered) := by decide +kernel
  obtain ⟨P, h, hv⟩ := System.exists_leads hrun
  obtain ⟨hsaved, hst⟩ := Prod.mk.inj hv
  obtain ⟨⟨c, id⟩, hmem, heq⟩ := List.mem_map.mp (hsaved ▸ List.mem_singleton_self _)
  obtain ⟨hplain, rfl⟩ := Prod.mk.inj heq
  exact ⟨P, c, hst, plain_settled h hmem hplain⟩

end MessageBroker.SettledRows
