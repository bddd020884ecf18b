import MessageBroker.RunInvariants

namespace MessageBroker.HandOverOnce

open ByteStrings WireMessages MessageStore ProgramTrees ThreadPools BrokerState ServerJobs
  StoreInvariant OperationEffects ThreadViews SharedInvariant ServerOutlines RunInvariants

variable {cfg : Config} {ok : State → Step → Prop} {metrics : Option Metrics} {S : State}
  {w w' : World} {i i' : ℕ} {j : Job} {o : Op} {ch : Choice} {r : o.Res} {s id : ℕ} {c : Copy}
  {k : o.Res → Prog Op Op.Res Unit} {row : Row}

def isReceive : Job → Bool
  | .receive _ _ => true
  | _ => false

/-- No database error occurs, and a message is received only when the handling
of the one before is done. -/
def Serialised (S : State) : Step → Prop
  | .start j => isReceive j = true →
    ∀ t ∈ S.threads, isReceive t.job = true → hasEnded t = true
  | .step _ ch => ch.dbError = false
  | .tick _ => True

instance (S : State) : (l : Step) → Decidable (Serialised S l)
  | .start j => inferInstanceAs (Decidable (isReceive j = true →
    ∀ t ∈ S.threads, isReceive t.job = true → hasEnded t = true))
  | .step _ ch => inferInstanceAs (Decidable (ch.dbError = false))
  | .tick _ => instDecidableTrue

def Active (S : State) (i : ℕ) : Prop :=
  ∃ t, S.threads[i]? = some t ∧ isReceive t.job = true ∧ ¬ t.ended

/-- How often a copy of row `id` that is not acknowledged has been handed over. -/
def handsPlain (id : ℕ) (o : Op) : Bool :=
  match hands o with
  | some (_, c) => plain c.msg && decide (c.source = some id)
  | none => false

def times (p : Op → Bool) (w : World) : ℕ := w.log.countP fun e ↦ p e.op

def Indebted (w : World) (id : ℕ) : Prop := ∃ i, id ∈ (account i w.log).debt

/-- The part of the invariant that speaks of the threads. -/
structure Scheduled (S : State) : Prop where
  jobs : ∀ e ∈ S.world.log, (S.threads[e.thread]?).map (·.job) = some e.job
  single : ∀ i i', Active S i → Active S i' → i = i'
  fresh : ∀ i, Active S i → ∀ id ∈ (account i S.world.log).credit, ¬ Handed S.world id

/-- The part of the invariant that speaks of the shared state. -/
structure HandedOnce (w : World) : Prop where
  clean : ∀ i, (account i w.log).failed = false
  copies : Always (fun e w ↦ ∀ s c, hands e.op = some (s, c) → Authentic w.db c) w
  debtors : ∀ i, ∀ id ∈ (account i w.log).debt,
    ∃ e ∈ w.log, e.thread = i ∧ ∃ m, Receives e.job m
  consumed : ∀ id, Handed w id → Indebted w id ∨
    ∃ row ∈ w.db.messages, row.id = id ∧ row.status = .delivered
  once : ∀ id, times (handsPlain id) w ≤ 1

theorem isReceive_of_receives {m : Message} (h : Receives j m) : isReceive j = true := by
  obtain ⟨identity, data, rfl, -⟩ := h
  rfl

theorem handsPlain_iff : handsPlain id o = true ↔
    ∃ s c, hands o = some (s, c) ∧ plain c.msg = true ∧ c.source = some id := by
  unfold handsPlain
  cases h : hands o with
  | none => simp
  | some p => simp [Prod.ext_iff]

theorem times_exec {p : Op → Bool} (he : exec i j o ch w = some (r, w')) :
    times p w' = times p w + if p o = true then 1 else 0 := by
  rw [times, exec_log he, List.countP_cons]
  rfl

theorem handed_iff : Handed w id ↔ 0 < times (handsPlain id) w := by
  simp only [Handed, times, List.countP_pos_iff, handsPlain_iff]

theorem note_failed {a : Account} (h : (a.note j o r).failed = true) : a.failed = true ∨
    (∃ c, o = .saveMessage c) ∨ (∃ id corr n, o = .saveCorrelation id corr n) ∨
      (∃ id, o = .markDelivered id) ∨ (∃ id, o = .markSent id) ∨ ∃ id, o = .markPending id := by
  cases o with
  | saveMessage | saveCorrelation | markDelivered | markSent | markPending => simp
  | isOnline | isExpired =>
    simp only [Account.note] at h
    split at h <;> exact .inl h
  | pushQueue | pushPendingSend => exact .inl (Account.spend_failed ▸ h)
  | _ => exact .inl h

theorem noError (hp : Performs cfg Serialised S i j o ch r w') : ¬ ch.dbError = true := by
  have hok : ch.dbError = false := hp.ok
  simp [hok]

theorem clean_step (hp : Performs cfg Serialised S i j o ch r w')
    (h : ∀ i, (account i S.world.log).failed = false) :
    ∀ i, (account i w'.log).failed = false := by
  intro i'
  by_cases hi : i' = i
  · subst hi
    rw [account_exec hp.exec]
    by_contra hf
    rw [Bool.not_eq_false] at hf
    rcases note_failed hf with hf' | ⟨c, rfl⟩ | ⟨id, corr, n, rfl⟩ | ⟨id, rfl⟩ | ⟨id, rfl⟩ | ⟨id, rfl⟩
    · cases (h _).symm.trans hf'
    · obtain ⟨hd, -⟩ | ⟨rfl, -⟩ := exec_saveMessage hp.exec
      · exact noError hp hd
      · simp only [Account.note] at hf
        split_ifs at hf <;> cases (h _).symm.trans hf
    · obtain ⟨hd | hnone, -⟩ | ⟨rfl, -⟩ := exec_saveCorrelation hp.exec
      · exact noError hp hd
      · obtain ⟨-, row, hrow, rfl, -⟩ := hp.allowed
        cases hnone.symm.trans (row?_eq hp.inv.store hrow)
      · cases (h _).symm.trans hf
    · obtain ⟨hd, -⟩ | ⟨⟨rfl, -⟩, -⟩ := exec_markDelivered hp.exec
      · exact noError hp hd
      · cases (h _).symm.trans hf
    · obtain ⟨hd, -⟩ | ⟨rfl, -⟩ := exec_markSent hp.exec
      · exact noError hp hd
      · cases (h _).symm.trans hf
    · obtain ⟨hd, -⟩ | ⟨rfl, -⟩ := exec_markPending hp.exec
      · exact noError hp hd
      · cases (h _).symm.trans hf
  · rw [account_exec_ne hp.exec hi]
    exact h i'

theorem copies_step (hp : Performs cfg ok S i j o ch r w')
    (h : Always (fun e w ↦ ∀ s c, hands e.op = some (s, c) → Authentic w.db c) S.world) :
    Always (fun e w ↦ ∀ s c, hands e.op = some (s, c) → Authentic w.db c) w' := by
  refine always_step h hp.exec (fun e hq s c he ↦ (hq s c he).mono hp.grows.db) fun s c ho ↦ ?_
  exact (allowed_hands hp.allowed ho).authentic.mono hp.grows.db

theorem debtors_step (hp : Performs cfg ok S i j o ch r w')
    (h : ∀ i, ∀ id ∈ (account i S.world.log).debt,
      ∃ e ∈ S.world.log, e.thread = i ∧ ∃ m, Receives e.job m) :
    ∀ i, ∀ id ∈ (account i w'.log).debt,
      ∃ e ∈ w'.log, e.thread = i ∧ ∃ m, Receives e.job m := by
  intro i' id hid
  have old (hid : id ∈ (account i' S.world.log).debt) :
      ∃ e ∈ w'.log, e.thread = i' ∧ ∃ m, Receives e.job m := by
    obtain ⟨e, he, hh⟩ := h i' id hid
    exact ⟨e, mem_log hp.exec he, hh⟩
  by_cases hi : i' = i
  · subst hi
    rw [account_exec hp.exec] at hid
    rcases mem_note_debt hid with hid | ⟨s, c, ho, hplain, -⟩
    · exact old hid
    · refine ⟨_, by rw [exec_log hp.exec]; exact List.mem_cons_self, rfl, ?_⟩
      exact ((allowed_hands hp.allowed ho).credit hplain).1
  · rw [account_exec_ne hp.exec hi] at hid
    exact old hid

theorem note_debt {a : Account} (hid : id ∈ a.debt) :
    id ∈ (a.note j o r).debt ∨ o = .markDelivered id := by
  have spent {c : Copy} : id ∈ (a.spend c).debt := by
    rw [Account.spend_debt]
    split
    · exact List.mem_append_right _ hid
    · exact hid
  have kept (hk : (a.note j o r).debt = a.debt) :
      id ∈ (a.note j o r).debt ∨ o = .markDelivered id := .inl (hk ▸ hid)
  cases o with
  | pushQueue | pushPendingSend => exact .inl spent
  | markDelivered id' =>
    by_cases h : id' = id
    · exact .inr (by rw [h])
    · left
      cases r with
      | ok u => exact List.mem_filter.mpr ⟨hid, by simpa using Ne.symm h⟩
      | error e => exact hid
  | saveMessage c =>
    left
    cases r with
    | ok id' =>
      simp only [Account.note]
      split_ifs <;> exact hid
    | error e => exact hid
  | loadPendingMessagesOnly | loadPendingRepliesForSenderOnly | popQueue => exact .inl hid
  | _ => exact kept (note_keeps rfl).debt

theorem indebted_step (hp : Performs cfg ok S i j o ch r w') (h : Indebted S.world id) :
    Indebted w' id ∨ o = .markDelivered id := by
  obtain ⟨i', hid⟩ := h
  by_cases hi : i' = i
  · subst hi
    refine (note_debt (j := j) (r := r) hid).imp_left fun hid ↦ ⟨i', ?_⟩
    rw [account_exec hp.exec]
    exact hid
  · exact .inl ⟨i', by rw [account_exec_ne hp.exec hi]; exact hid⟩

theorem consumed_step (hp : Performs cfg Serialised S i j o ch r w') (h : HandedOnce S.world) :
    ∀ id, Handed w' id → Indebted w' id ∨
      ∃ row ∈ w'.db.messages, row.id = id ∧ row.status = .delivered := by
  intro id hh
  rcases handed_cases hp.exec hh with hh | ⟨s, c, ho, hplain, hid⟩
  · rcases h.consumed id hh with hdebt | ⟨row, hrow, hid, hst⟩
    · refine (indebted_step hp hdebt).imp_right fun hop ↦ ?_
      subst hop
      obtain ⟨e, he, s, c, ho, -, hid⟩ := hh
      obtain ⟨row, hrow, hid, -⟩ := (h.copies e he s c ho).row id hid
      obtain ⟨hd, -⟩ | ⟨-, hdb⟩ := exec_markDelivered hp.exec
      · exact absurd hd (noError hp)
      · refine ⟨{ row with status := .delivered }, ?_, hid, rfl⟩
        rw [hdb]
        exact List.mem_map.mpr ⟨row, hrow, if_pos ⟨hid, rfl⟩⟩
    · exact .inr ⟨row, delivered_step hp hrow hst, hid, hst⟩
  · refine .inl ⟨i, ?_⟩
    rw [account_exec hp.exec]
    have hspend : ((account i S.world.log).note j o r) = (account i S.world.log).spend c := by
      cases o with
      | pushQueue | pushPendingSend =>
        cases ho
        rfl
      | _ => cases ho
    rw [hspend, Account.spend_debt, if_pos hplain, hid]
    exact List.mem_cons_self

/-- The pool after a step of thread `i`. -/
abbrev stepped (S : State) (i : ℕ) (j : Job) (w' : World) (code : Prog Op Op.Res Unit) : State :=
  ⟨w', S.threads.set i ⟨j, code⟩⟩

section Stepped

variable {code : Prog Op Op.Res Unit} (hp : Performs cfg ok S i j o ch r w')
include hp

theorem active_of_performs (hj : isReceive j = true) : Active S i := by
  obtain ⟨k, hk⟩ := hp.thread
  exact ⟨_, hk, hj, nofun⟩

theorem job_stepped (i' : ℕ) :
    ((stepped S i j w' code).threads[i']?).map (·.job) = (S.threads[i']?).map (·.job) := by
  obtain ⟨k, hk⟩ := hp.thread
  by_cases hi : i' = i
  · subst hi
    rw [List.getElem?_set_self (List.getElem?_eq_some_iff.mp hk).1, hk]
    rfl
  · rw [List.getElem?_set_ne (Ne.symm hi)]

theorem active_stepped (h : Active (stepped S i j w' code) i') : Active S i' := by
  obtain ⟨t, ht, hj, hended⟩ := h
  by_cases hi : i' = i
  · subst hi
    have hjob : ((stepped S i' j w' code).threads[i']?).map (·.job) = (S.threads[i']?).map (·.job) :=
      job_stepped hp i'
    obtain ⟨k, hk⟩ := hp.thread
    rw [ht, hk] at hjob
    have hjob : t.job = j := Option.some.inj hjob
    exact ⟨_, hk, by rw [← hjob]; exact hj, nofun⟩
  · rw [List.getElem?_set_ne (Ne.symm hi)] at ht
    exact ⟨t, ht, hj, hended⟩

theorem jobs_stepped (h : Scheduled S) : ∀ e ∈ w'.log,
    ((stepped S i j w' code).threads[e.thread]?).map (·.job) = some e.job := by
  intro e he
  rw [job_stepped hp]
  rw [exec_log hp.exec] at he
  rcases List.mem_cons.mp he with rfl | he
  · obtain ⟨k, hk⟩ := hp.thread
    rw [hk]
    rfl
  · exact h.jobs e he

omit hp in
/-- While a message is handled, no thread owes anything when rows are loaded. -/
theorem not_indebted (hh : (outline cfg).Holds S) (h : HandedOnce S.world) (hs : Scheduled S)
    (hact : Active S i) (howe : (account i S.world.log).debt = []) :
    ¬ Indebted S.world id := by
  rintro ⟨i', hid⟩
  obtain ⟨e, he, rfl, m, hm⟩ := h.debtors i' id hid
  have hjob := hs.jobs e he
  obtain ⟨t, ht, htj⟩ := Option.map_eq_some_iff.mp hjob
  by_cases hended : t.ended
  · have hrest : AtRest e.thread S.world := hh.fresh_of_ended ht hended
    rcases hrest.settled with hd | hf
    · rw [hd] at hid
      cases hid
    · cases (h.clean _).symm.trans hf
  · have hact' : Active S e.thread := ⟨t, ht, htj ▸ isReceive_of_receives hm, hended⟩
    rw [hs.single _ _ hact' hact, howe] at hid
    cases hid

theorem loaded_fresh (h : HandedOnce S.world) (hs : Scheduled S) (hact : Active S i)
    (hal : (account i S.world.log).debt = [] ∨ (account i S.world.log).failed = true)
    (hrow : row ∈ S.world.db.messages) (hst : row.status ≠ .delivered) :
    ¬ Handed S.world row.id := by
  intro hh
  have howe : (account i S.world.log).debt = [] :=
    hal.resolve_right fun hf ↦ nomatch (h.clean i).symm.trans hf
  rcases h.consumed _ hh with hdebt | ⟨row', hrow', hid, hst'⟩
  · exact not_indebted hp.holds h hs hact howe hdebt
  · obtain rfl := id_inj hp.inv.store hrow' hrow hid
    exact hst hst'

theorem not_handed_exec (ho : hands o = none) (h : ¬ Handed S.world id) : ¬ Handed w' id := by
  intro hh
  rcases handed_cases hp.exec hh with hh | ⟨s, c, ho', -⟩
  · exact h hh
  · cases ho.symm.trans ho'

theorem not_handed_spend (ho : hands o = some (s, c)) (h : ¬ Handed S.world id)
    (hne : plain c.msg = true → c.source ≠ some id) : ¬ Handed w' id := by
  intro hh
  rcases handed_cases hp.exec hh with hh | ⟨s', c', ho', hplain, hid⟩
  · exact h hh
  · cases ho.symm.trans ho'
    exact hne hplain hid

theorem fresh_own (h : HandedOnce S.world) (hs : Scheduled S) (hact : Active S i)
    (hid : id ∈ (account i w'.log).credit) : ¬ Handed w' id := by
  have old (ho : hands o = none) (hid : id ∈ (account i S.world.log).credit) : ¬ Handed w' id :=
    not_handed_exec hp ho (hs.fresh i hact id hid)
  have spent {s : ℕ} {c : Copy} (ho : hands o = some (s, c))
      (hid : id ∈ ((account i S.world.log).spend c).credit) : ¬ Handed w' id := by
    rw [Account.spend_credit] at hid
    split at hid
    · obtain ⟨hid, hne⟩ := List.mem_filter.mp hid
      refine not_handed_spend hp ho (hs.fresh i hact id hid) fun _ heq ↦ ?_
      simp [heq] at hne
    · next hplain => exact not_handed_spend hp ho (hs.fresh i hact id hid) fun hp' ↦ absurd hp' hplain
  have kept (ho : hands o = none)
      (hk : ((account i S.world.log).note j o r).credit = (account i S.world.log).credit)
      (hid : id ∈ ((account i S.world.log).note j o r).credit) : ¬ Handed w' id :=
    old ho (hk ▸ hid)
  rw [account_exec hp.exec] at hid
  cases o with
  | pushQueue | pushPendingSend => exact spent rfl hid
  | saveMessage c =>
    obtain ⟨-, ⟨e, rfl⟩, -⟩ | ⟨rfl, -⟩ := exec_saveMessage hp.exec
    · exact old rfl hid
    · simp only [Account.note] at hid
      split_ifs at hid
      · exact old rfl hid
      · rcases List.mem_cons.mp hid with rfl | hid
        · refine not_handed_exec hp rfl ?_
          rintro ⟨e, he, s, c, ho, -, hsource⟩
          obtain ⟨row, hrow, hid, -⟩ := (h.copies e he s c ho).row _ hsource
          have := (hp.inv.store.bound row hrow).2
          omega
        · exact old rfl hid
      · exact old rfl hid
  | loadPendingMessagesOnly n =>
    have hrows : some (dbSelect ch (S.world.db.loadPendingMessagesOnly ch.tie n)) = some r :=
      exec_reads hp.exec
    obtain ⟨p, hmem, rfl⟩ := List.mem_map.mp hid
    rw [← Option.some.inj hrows] at hmem
    obtain ⟨row, hrow, rfl, -, hst⟩ := mem_loadPendingMessagesOnly (mem_dbSelect hmem)
    refine not_handed_exec hp rfl (loaded_fresh hp h hs hact hp.allowed.1 hrow ?_)
    rw [hst]
    simp
  | loadPendingRepliesForSenderOnly n =>
    have hrows : some (dbSelect ch (S.world.db.loadPendingRepliesForSenderOnly ch.tie n)) =
      some r := exec_reads hp.exec
    obtain ⟨p, hmem, rfl⟩ := List.mem_map.mp hid
    rw [← Option.some.inj hrows] at hmem
    obtain ⟨row, hrow, rfl, hst, -⟩ := mem_loadPendingRepliesForSenderOnly
      (mem_dbSelect hmem)
    refine not_handed_exec hp rfl (loaded_fresh hp h hs hact hp.allowed.1 hrow fun hd ↦ ?_)
    rw [hd] at hst
    rcases hst with hst | hst <;> cases hst
  | markDelivered id' => cases r <;> exact old rfl hid
  | popQueue => exact old rfl hid
  | _ => exact kept rfl (note_keeps rfl).credit hid

theorem fresh_stepped (h : HandedOnce S.world) (hs : Scheduled S) :
    ∀ i', Active (stepped S i j w' code) i' →
      ∀ id ∈ (account i' w'.log).credit, ¬ Handed w' id := by
  intro i' hact' id hid
  have hact := active_stepped hp hact'
  by_cases hi : i' = i
  · subst hi
    exact fresh_own hp h hs hact hid
  · rw [account_exec_ne hp.exec hi] at hid
    intro hh
    rcases handed_cases hp.exec hh with hh | ⟨s, c, ho, hplain, -⟩
    · exact hs.fresh i' hact id hid hh
    · obtain ⟨⟨m, hm⟩, -⟩ := (allowed_hands hp.allowed ho).credit hplain
      exact hi (hs.single i' i hact (active_of_performs hp (isReceive_of_receives hm)))

theorem scheduled_stepped (h : HandedOnce S.world) (hs : Scheduled S) :
    Scheduled (stepped S i j w' code) where
  jobs := jobs_stepped hp hs
  single i₁ i₂ h₁ h₂ := hs.single i₁ i₂ (active_stepped hp h₁) (active_stepped hp h₂)
  fresh := fresh_stepped hp h hs

/-- A copy of a row that is not acknowledged is handed over only by the thread
that is handling a message, and only when no copy has been handed over before. -/
theorem not_handed_before (hs : Scheduled S) (ho : hands o = some (s, c))
    (hplain : plain c.msg = true) (hid : c.source = some id) : ¬ Handed S.world id := by
  obtain ⟨⟨m, hm⟩, id', hcredit, hid'⟩ := (allowed_hands hp.allowed ho).credit hplain
  obtain rfl : id = id' := Option.some.inj (hid.symm.trans hid')
  exact hs.fresh i (active_of_performs hp (isReceive_of_receives hm)) id hcredit

theorem once_step (h : HandedOnce S.world) (hs : Scheduled S) :
    ∀ id, times (handsPlain id) w' ≤ 1 := by
  intro id
  rw [times_exec hp.exec]
  split
  · next hh =>
    obtain ⟨s, c, ho, hplain, hid⟩ := handsPlain_iff.mp hh
    have hnot := not_handed_before hp hs ho hplain hid
    rw [handed_iff] at hnot
    omega
  · exact h.once id

end Stepped

theorem handedOnce_step (hp : Performs cfg Serialised S i j o ch r w') (h : HandedOnce S.world)
    (hs : Scheduled S) : HandedOnce w' where
  clean := clean_step hp h.clean
  copies := copies_step hp h.copies
  debtors := debtors_step hp h.debtors
  consumed := consumed_step hp h
  once := once_step hp h hs

theorem account_eq_default {log : List Event} (h : ∀ e ∈ log, e.thread ≠ i) :
    account i log = {} := by
  induction log with
  | nil => rfl
  | cons e log ih =>
    rw [account, if_neg (h e List.mem_cons_self)]
    exact ih fun e he ↦ h e (List.mem_cons_of_mem _ he)

theorem scheduled_start (h : Scheduled S) (hok : Serialised S (.start j))
    (hlog : w'.log = S.world.log) (code : Prog Op Op.Res Unit) :
    Scheduled ⟨w', S.threads ++ [⟨j, code⟩]⟩ := by
  have hbound (e : Event) (he : e ∈ S.world.log) : e.thread < S.threads.length := by
    obtain ⟨t, ht, -⟩ := Option.map_eq_some_iff.mp (h.jobs e he)
    exact (List.getElem?_eq_some_iff.mp ht).1
  have hactive (i' : ℕ) (hact : Active ⟨w', S.threads ++ [⟨j, code⟩]⟩ i') :
      Active S i' ∨ i' = S.threads.length ∧ ∀ i, ¬ Active S i := by
    obtain ⟨t, ht, hj, hended⟩ := hact
    rcases getElem?_concat_cases ht with ht | ⟨rfl, rfl⟩
    · exact .inl ⟨t, ht, hj, hended⟩
    · refine .inr ⟨rfl, fun i ⟨t, ht, htj, htended⟩ ↦ htended ?_⟩
      exact ended_of_hasEnded (hok hj t (List.mem_of_getElem? ht) htj)
  refine ⟨fun e he ↦ ?_, fun i₁ i₂ h₁ h₂ ↦ ?_, fun i' hact id hid ↦ ?_⟩
  · rw [hlog] at he
    rw [List.getElem?_append_left (hbound e he)]
    exact h.jobs e he
  · rcases hactive i₁ h₁ with h₁ | ⟨rfl, hnone⟩ <;> rcases hactive i₂ h₂ with h₂ | ⟨rfl, hnone'⟩
    · exact h.single i₁ i₂ h₁ h₂
    · exact absurd h₁ (hnone' i₁)
    · exact absurd h₂ (hnone i₂)
    · rfl
  · simp only [Handed, hlog] at hid ⊢
    rcases hactive i' hact with hact | ⟨rfl, -⟩
    · exact h.fresh i' hact id hid
    · rw [account_eq_default fun e he ↦ Nat.ne_of_lt (hbound e he)] at hid
      cases hid

end MessageBroker.HandOverOnce
