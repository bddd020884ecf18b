import MessageBroker.ServerOutlines

namespace MessageBroker.RunInvariants

open ByteStrings WireMessages MessageStore ProgramTrees ThreadPools BrokerState ServerJobs StoreInvariant
  OperationEffects ThreadViews SharedInvariant ServerOutlines

variable {cfg : Config} {ok : State → Step → Prop} {metrics : Option Metrics} {S : State}

/-- Thread `i` performs an allowed operation in a run of the broker. -/
structure Performs (cfg : Config) (ok : State → Step → Prop) (S : State) (i : ℕ) (j : Job)
    (o : Op) (ch : Choice) (r : o.Res) (w' : World) : Prop where
  holds : (outline cfg).Holds S
  thread : ∃ k, S.threads[i]? = some ⟨j, .op o k⟩
  ok : ok S (.step i ch)
  exec : exec i j o ch S.world = some (r, w')

variable {i : ℕ} {j : Job} {o : Op} {ch : Choice} {r : o.Res} {w w' : World}

theorem Performs.inv (h : Performs cfg ok S i j o ch r w') : Consistent S.world :=
  h.holds.inv

theorem Performs.allowed (h : Performs cfg ok S i j o ch r w') :
    Allowed i j S.world o := by
  obtain ⟨k, hk⟩ := h.thread
  exact h.holds.allowed hk (exec_cases h.exec).1

theorem Performs.grows (h : Performs cfg ok S i j o ch r w') : Grows S.world w' :=
  step_grows h.inv h.allowed h.exec

theorem Performs.nextOp (h : Performs cfg ok S i j o ch r w') : S.nextOp i = some o := by
  obtain ⟨k, hk⟩ := h.thread
  rw [Pool.nextOp, hk]

theorem start_eq (h : ServerJobs.start j w = some w') : ∃ n, w' = { w with postedTasks := n } := by
  unfold ServerJobs.start at h
  split at h
  · split at h <;> cases h
    exact ⟨_, rfl⟩
  · cases h
    exact ⟨w.postedTasks, rfl⟩

theorem next_cases {S' : State} {l : Step} (hs : (broker cfg).next S l = some S') :
    (∃ i ch j o k, ∃ r : o.Res, l = .step i ch ∧ S.threads[i]? = some ⟨j, .op o k⟩ ∧
      exec i j o ch S.world = some (r, S'.world)) ∨
    ∃ n now elapsed, S'.world =
      { S.world with postedTasks := n, wallClock := now, steadyClock := S.world.steadyClock + elapsed } := by
  cases l with
  | start j =>
    right
    obtain ⟨w', hw, rfl⟩ := Machine.start_cases hs
    obtain ⟨n, rfl⟩ := start_eq hw
    exact ⟨n, S.world.wallClock, 0, rfl⟩
  | step i ch =>
    obtain ⟨j, o, k, r, w', ht, he, rfl⟩ := Machine.step_cases hs
    exact .inl ⟨i, ch, j, o, k, r, rfl, ht, he⟩
  | tick t => exact .inr ⟨S.world.postedTasks, t.wallClock, t.elapsed, (Option.some.inj hs) ▸ rfl⟩

theorem next_invariant {P : World → Prop} {S' : State} {l : Step}
    (hidle : ∀ w n now elapsed, P w →
      P { w with postedTasks := n, wallClock := now, steadyClock := elapsed })
    (hstep : ∀ {i j o ch r w'}, Performs cfg ok S i j o ch r w' → P S.world → P w')
    (h : (broker cfg).Reachable ok (initial metrics) S) (hl : ok S l)
    (hs : (broker cfg).next S l = some S') (hp : P S.world) : P S'.world := by
  obtain ⟨i, ch, j, o, k, r, rfl, ht, he⟩ | ⟨n, now, elapsed, hw⟩ := next_cases hs
  · exact hstep ⟨holds_of_reachable h, ⟨k, ht⟩, hl, he⟩ hp
  · rw [hw]
    exact hidle _ _ _ _ hp

/-- An invariant of the shared state that every operation of a run keeps holds
in every run. -/
theorem reachable_invariant {P : World → Prop} (hinit : P (initial metrics))
    (hidle : ∀ w n now elapsed, P w →
      P { w with postedTasks := n, wallClock := now, steadyClock := elapsed })
    (hstep : ∀ {S i j o ch r w'}, (broker cfg).Reachable ok (initial metrics) S →
      Performs cfg ok S i j o ch r w' → P S.world → P w')
    (h : (broker cfg).Reachable ok (initial metrics) S) : P S.world := by
  induction h with
  | init => exact hinit
  | next l hr hl hs ih => exact next_invariant hidle (hstep hr) hr hl hs ih

theorem run_invariant {P : World → Prop} (hinit : P (initial metrics))
    (hidle : ∀ w n now elapsed, P w →
      P { w with postedTasks := n, wallClock := now, steadyClock := elapsed })
    (hstep : ∀ {S i j o ch r w'}, Performs cfg ok S i j o ch r w' → P S.world → P w')
    (h : (broker cfg).Reachable ok (initial metrics) S) : P S.world :=
  reachable_invariant hinit hidle (fun _ ↦ hstep) h

/-- What the operations of a thread keep for the thread, and those of the others leave it,
holds for every thread in every run. -/
theorem thread_invariant {I : ℕ → World → Prop} (hinit : ∀ i, I i (initial metrics))
    (hidle : ∀ i w n now elapsed, I i w →
      I i { w with postedTasks := n, wallClock := now, steadyClock := elapsed })
    (hown : ∀ {S i j o ch r w'}, (broker cfg).Reachable ok (initial metrics) S →
      Performs cfg ok S i j o ch r w' → I i S.world → I i w')
    (hother : ∀ {S i i' j o ch r w'}, (broker cfg).Reachable ok (initial metrics) S →
      Performs cfg ok S i j o ch r w' → i' ≠ i → I i' S.world → I i' w')
    (h : (broker cfg).Reachable ok (initial metrics) S) : ∀ i, I i S.world := by
  refine reachable_invariant (P := fun w ↦ ∀ i, I i w) hinit
    (fun w n now elapsed hw i ↦ hidle i w n now elapsed (hw i)) (fun {S k _ _ _ _ _} hr hp hw i ↦ ?_) h
  by_cases hi : i = k
  · subst hi
    exact hown hr hp (hw i)
  · exact hother hr hp hi (hw i)

theorem leads_invariant {P : World → Prop} {S' : State}
    (hidle : ∀ w n now elapsed, P w →
      P { w with postedTasks := n, wallClock := now, steadyClock := elapsed })
    (hstep : ∀ {S i j o ch r w'}, Performs cfg ok S i j o ch r w' → P S.world → P w')
    (h : (broker cfg).Reachable ok (initial metrics) S) (hl : (broker cfg).Leads ok S S')
    (hp : P S.world) : P S'.world := by
  induction hl with
  | refl => exact hp
  | next l hl hok hs ih => exact next_invariant hidle hstep (h.leads hl) hok hs ih

def hasEnded (t : Thread Op Op.Res Job) : Bool :=
  match t.code with
  | .ret _ => true
  | _ => false

theorem ended_of_hasEnded {t : Thread Op Op.Res Job} (h : hasEnded t = true) : t.ended := by
  unfold hasEnded at h
  split at h
  · exact ⟨_, ‹_›⟩
  · cases h

/-- The job that receives a message from a socket with the name of its sender. -/
def arrivalFrom (identity : Bytes) (m : Message) : Job := .receive identity ((serialize m).toOption.getD [])

def arrival (m : Message) : Job := arrivalFrom m.sender m

theorem receives_arrival {m m' : Message} (hm : m.Fits) (h : Receives (arrival m) m') :
    m' = m := by
  obtain ⟨identity, data, hj, hd⟩ := h
  obtain ⟨data', hs, hd'⟩ := WireCodec.deserialize_serialize hm
  cases hj
  rw [hs, show (Except.ok data' : Except String Bytes).toOption.getD [] = data' from rfl, hd'] at hd
  exact (Except.ok.inj hd).symm

/-- The schedule in which each job starts and takes the given number of steps
before the next one starts. -/
def inTurn : ℕ → List (Job × ℕ) → List Step
  | _, [] => []
  | i, (j, n) :: rest => .start j :: (List.replicate n (.step i {}) ++ inTurn (i + 1) rest)

theorem exists_run [∀ S l, Decidable (ok S l)] {α : Type} {f : State → α} {v : α}
    {ls : List Step} (h : ((broker cfg).runs ok ls ⟨initial metrics, []⟩).map f = some v) :
    ∃ S, (broker cfg).Reachable ok (initial metrics) S ∧ f S = v := by
  obtain ⟨S, hS, hv⟩ := Option.map_eq_some_iff.mp h
  exact ⟨S, Machine.Reachable.init.runs ls hS, hv⟩

theorem exists_runs {ok' : State → Step → Prop} [∀ S l, Decidable (ok S l)]
    [∀ S l, Decidable (ok' S l)] {α : Type} {f : State → State → α} {v : α}
    {ls ls' : List Step} (h : ((broker cfg).runs ok ls ⟨initial metrics, []⟩).bind (fun S ↦
      ((broker cfg).runs ok' ls' S).map (f S)) = some v) :
    ∃ S S', (broker cfg).Reachable ok (initial metrics) S ∧ (broker cfg).Leads ok' S S' ∧
      f S S' = v := by
  obtain ⟨S, hS, h⟩ := Option.bind_eq_some_iff.mp h
  obtain ⟨S', hS', hv⟩ := Option.map_eq_some_iff.mp h
  exact ⟨S, S', Machine.Reachable.init.runs ls hS, Machine.leads_of_runs ls' hS', hv⟩

def hands : Op → Option (ℕ × Copy)
  | .pushQueue s c => some (s, c)
  | .pushPendingSend s c _ => some (s, c)
  | _ => none

variable {s : ℕ} {c : Copy}

theorem allowed_hands (ha : Allowed i j w o) (h : hands o = some (s, c)) :
    HandOver i j w s c := by
  cases o with
  | pushQueue s' c' =>
    cases h
    exact ha.2.2
  | pushPendingSend s' c' data =>
    cases h
    exact ha.1
  | _ => cases h

variable {id : ℕ}

/-- A copy of row `id` that is not acknowledged has been handed over. -/
def Handed (w : World) (id : ℕ) : Prop :=
  ∃ e ∈ w.log, ∃ s c, hands e.op = some (s, c) ∧ plain c.msg = true ∧ c.source = some id

theorem mem_log (he : exec i j o ch w = some (r, w')) {e : Event} (hm : e ∈ w.log) :
    e ∈ w'.log := by
  rw [exec_log he]
  exact List.mem_cons_of_mem _ hm

theorem Handed.step (h : Handed w id) (he : exec i j o ch w = some (r, w')) : Handed w' id := by
  obtain ⟨e, hm, hh⟩ := h
  exact ⟨e, mem_log he hm, hh⟩

theorem handed_cases (he : exec i j o ch w = some (r, w')) (h : Handed w' id) : Handed w id ∨
    ∃ s c, hands o = some (s, c) ∧ plain c.msg = true ∧ c.source = some id := by
  obtain ⟨e, hm, hh⟩ := h
  rw [exec_log he] at hm
  rcases List.mem_cons.mp hm with rfl | hm
  · exact .inr hh
  · exact .inl ⟨e, hm, hh⟩

theorem mem_note_debt {a : Account} (h : id ∈ (a.note j o r).debt) : id ∈ a.debt ∨
    ∃ s c, hands o = some (s, c) ∧ plain c.msg = true ∧ c.source = some id := by
  have spent {c : Copy} {s : ℕ} (ho : hands o = some (s, c)) (h : id ∈ (a.spend c).debt) :
      id ∈ a.debt ∨ ∃ s c, hands o = some (s, c) ∧ plain c.msg = true ∧ c.source = some id := by
    rw [Account.spend_debt] at h
    split at h
    · next hp =>
      rcases List.mem_append.mp h with h | h
      · exact .inr ⟨s, c, ho, hp, by simpa using h⟩
      · exact .inl h
    · exact .inl h
  have kept (hk : (a.note j o r).debt = a.debt) : id ∈ a.debt ∨
      ∃ s c, hands o = some (s, c) ∧ plain c.msg = true ∧ c.source = some id := .inl (hk ▸ h)
  cases o with
  | pushQueue s c => exact spent rfl h
  | pushPendingSend s c data => exact spent rfl h
  | markDelivered id' =>
    cases r with
    | ok u => exact .inl (List.mem_filter.mp h).1
    | error e => exact .inl h
  | saveMessage c =>
    cases r with
    | ok id' =>
      refine kept ?_
      simp only [Account.note]
      split_ifs <;> rfl
    | error e => exact .inl h
  | loadPendingMessagesOnly | loadPendingRepliesForSenderOnly | popQueue => exact .inl h
  | _ => exact kept (note_keeps rfl).debt

/-- What holds of every operation performed, seen from the present state. -/
def Always (Q : Event → World → Prop) (w : World) : Prop := ∀ e ∈ w.log, Q e w

theorem always_step {Q : Event → World → Prop} (h : Always Q w)
    (he : exec i j o ch w = some (r, w')) (hold : ∀ e, Q e w → Q e w')
    (hnew : Q ⟨i, j, o, ch, r, w.wallClock⟩ w') : Always Q w' := by
  intro e hm
  rw [exec_log he] at hm
  rcases List.mem_cons.mp hm with rfl | hm
  · exact hnew
  · exact hold e (h e hm)

/-- Where a row of the table comes from that was not there before the step. -/
inductive RowStep (o : Op) (ch : Choice) (w : World) (r : Row) : Prop
  | saved (c : Copy) : o = .saveMessage c → r = w.db.newRow w.wallClock c → RowStep o ch w r
  | delivered (r₀ : Row) : r₀ ∈ w.db.messages → r = { r₀ with status := .delivered } →
      o = .markDelivered r₀.id → ch.dbError = false → RowStep o ch w r
  | sent (r₀ : Row) : r₀ ∈ w.db.messages → r = { r₀ with status := .sent } →
      o = .markSent r₀.id → r₀.status = .pending → RowStep o ch w r
  | pending (r₀ : Row) : r₀ ∈ w.db.messages → r = { r₀ with status := .pending } →
      o = .markPending r₀.id → r₀.status = .sent → RowStep o ch w r

theorem rowStep (he : exec i j o ch w = some (r, w')) {row : Row}
    (hr : row ∈ w'.db.messages) : row ∈ w.db.messages ∨ RowStep o ch w row := by
  have frame (h : .messages ∉ writes o) : row ∈ w.db.messages ∨ RowStep o ch w row :=
    .inl (((exec_frame he).messages (by simp [h])).1 ▸ hr)
  cases o with
  | saveMessage c =>
    obtain ⟨-, -, hdb⟩ | ⟨-, hdb⟩ := exec_saveMessage he <;> rw [hdb] at hr
    · exact .inl hr
    · rcases List.mem_append.mp hr with hr | hr
      · exact .inl hr
      · exact .inr (.saved c rfl (List.mem_singleton.mp hr))
  | markDelivered id =>
    obtain ⟨-, -, hdb⟩ | ⟨⟨-, hok⟩, hdb⟩ := exec_markDelivered he <;> rw [hdb] at hr
    · exact .inl hr
    · obtain ⟨r₀, hr₀, rfl | ⟨rfl, -, rfl⟩⟩ := mem_setStatus hr
      · exact .inl hr₀
      · exact .inr (.delivered r₀ hr₀ rfl rfl hok)
  | markSent id =>
    obtain ⟨-, -, hdb⟩ | ⟨-, hdb⟩ := exec_markSent he <;> rw [hdb] at hr
    · exact .inl hr
    · obtain ⟨r₀, hr₀, rfl | ⟨rfl, hg, rfl⟩⟩ := mem_setStatus hr
      · exact .inl hr₀
      · exact .inr (.sent r₀ hr₀ rfl rfl (of_decide_eq_true hg))
  | markPending id =>
    obtain ⟨-, -, hdb⟩ | ⟨-, hdb⟩ := exec_markPending he <;> rw [hdb] at hr
    · exact .inl hr
    · obtain ⟨r₀, hr₀, rfl | ⟨rfl, hg, rfl⟩⟩ := mem_setStatus hr
      · exact .inl hr₀
      · exact .inr (.pending r₀ hr₀ rfl rfl (of_decide_eq_true hg))
  | _ => exact frame (by simp [writes])

/-- The status of row `id` after an operation. -/
def statusAfter (id : ℕ) (st : MessageStatus) : (o : Op) → o.Res → MessageStatus
  | .markDelivered id', .ok _ => if id' = id then .delivered else st
  | .markSent id', .ok _ => if id' = id ∧ st = .pending then .sent else st
  | .markPending id', .ok _ => if id' = id ∧ st = .sent then .pending else st
  | _, _ => st

theorem status_exec (he : exec i j o ch w = some (r, w')) {row : Row}
    (hrow : row ∈ w.db.messages) :
    { row with status := statusAfter row.id row.status o r } ∈ w'.db.messages := by
  have frame (hst : statusAfter row.id row.status o r = row.status)
      (hm : w'.db.messages = w.db.messages) :
      { row with status := statusAfter row.id row.status o r } ∈ w'.db.messages := by
    rw [hst, hm]
    exact hrow
  have set {id : ℕ} {st : MessageStatus} {g : MessageStatus → Bool}
      (hst : statusAfter row.id row.status o r = if id = row.id ∧ g row.status = true then st else row.status)
      (hdb : w'.db = w.db.setStatus id st g) :
      { row with status := statusAfter row.id row.status o r } ∈ w'.db.messages := by
    rw [hdb, hst]
    refine List.mem_map.mpr ⟨row, hrow, ?_⟩
    by_cases hid : id = row.id ∧ g row.status = true
    · rw [if_pos hid, if_pos ⟨hid.1.symm, hid.2⟩]
    · rw [if_neg hid, if_neg fun h ↦ hid ⟨h.1.symm, h.2⟩]
  cases o with
  | saveMessage c =>
    obtain ⟨-, -, hdb⟩ | ⟨-, hdb⟩ := exec_saveMessage he
    · exact frame rfl (by rw [hdb])
    · rw [hdb]
      exact List.mem_append_left _ hrow
  | markDelivered id =>
    obtain ⟨-, ⟨e, rfl⟩, hdb⟩ | ⟨⟨rfl, -⟩, hdb⟩ := exec_markDelivered he
    · exact frame rfl (by rw [hdb])
    · exact set (by simp [statusAfter]) hdb
  | markSent id =>
    obtain ⟨-, ⟨e, rfl⟩, hdb⟩ | ⟨rfl, hdb⟩ := exec_markSent he
    · exact frame rfl (by rw [hdb])
    · exact set (by simp [statusAfter]) hdb
  | markPending id =>
    obtain ⟨-, ⟨e, rfl⟩, hdb⟩ | ⟨rfl, hdb⟩ := exec_markPending he
    · exact frame rfl (by rw [hdb])
    · exact set (by simp [statusAfter]) hdb
  | _ => exact frame rfl ((exec_frame he).messages (by simp [writes])).1

theorem statusAfter_delivered {id : ℕ} : statusAfter id .delivered o r = .delivered := by
  cases o with
  | markDelivered | markSent | markPending =>
    cases r with
    | ok u => simp [statusAfter]
    | error e => rfl
  | _ => rfl

theorem delivered_step (hp : Performs cfg ok S i j o ch r w') {row : Row}
    (hrow : row ∈ S.world.db.messages) (hst : row.status = .delivered) :
    row ∈ w'.db.messages := by
  have h := status_exec hp.exec hrow
  rwa [hst, statusAfter_delivered, ← hst] at h

def loadsReplies : Op → Option Bytes
  | .loadPendingRepliesForSenderOnly n => some n
  | _ => none

def saves : Op → Option Copy
  | .saveMessage c => some c
  | _ => none

/-- Every row that a thread has loaded as a pending reply satisfies `Q`, with
the name for which it was loaded. -/
def Replies (Q : Bytes → Row → Prop) (w : World) : Prop :=
  ∀ i, ∀ p ∈ (account i w.log).replies, ∃ r ∈ w.db.messages, r.id = p.1 ∧ Q p.2 r

theorem note_replies {a : Account} (h : ∀ n, o ≠ .loadPendingRepliesForSenderOnly n) :
    (a.note j o r).replies = a.replies := by
  cases o with
  | loadPendingRepliesForSenderOnly n => exact absurd rfl (h n)
  | saveMessage c =>
    cases r with
    | error e => rfl
    | ok id =>
      simp only [Account.note]
      split_ifs <;> rfl
  | saveCorrelation | markSent | markPending | markDelivered => cases r <;> rfl
  | isOnline | isExpired =>
    simp only [Account.note]
    split <;> rfl
  | pushQueue | pushPendingSend => exact Account.spend_replies
  | _ => rfl

theorem replies_step {Q : Bytes → Row → Prop} (h : Replies Q w)
    (hx : Extends w.db w'.db) (he : exec i j o ch w = some (r, w'))
    (hQ : ∀ n r st, Q n r → Q n { r with status := st })
    (hload : ∀ n, o = .loadPendingRepliesForSenderOnly n →
      ∀ r ∈ w.db.messages, w.db.isPendingReplyFor n r → Q n r) : Replies Q w' := by
  have old (i' : ℕ) (p : ℕ × Bytes) (hp : p ∈ (account i' w.log).replies) :
      ∃ r ∈ w'.db.messages, r.id = p.1 ∧ Q p.2 r := by
    obtain ⟨r, hr, hid, hq⟩ := h i' p hp
    obtain ⟨st, hst⟩ := hx r hr
    exact ⟨_, hst, hid, hQ _ _ _ hq⟩
  intro i' p hp
  by_cases hi : i' = i
  · subst hi
    rw [account_exec he] at hp
    by_cases hn : ∃ n, o = .loadPendingRepliesForSenderOnly n
    · obtain ⟨n, rfl⟩ := hn
      rcases List.mem_append.mp hp with hp | hp
      · obtain ⟨q, hq, rfl⟩ := List.mem_map.mp hp
        have hrows : some (dbSelect ch (w.db.loadPendingRepliesForSenderOnly ch.tie n)) = some r :=
          exec_reads he
        rw [← Option.some.inj hrows] at hq
        obtain ⟨row, hrow, rfl, hsel⟩ := mem_loadPendingRepliesForSenderOnly
          (mem_dbSelect hq)
        obtain ⟨st, hst⟩ := hx row hrow
        exact ⟨_, hst, rfl, hQ _ _ _ (hload n rfl row hrow hsel)⟩
      · exact old _ p hp
    · rw [note_replies fun n hn' ↦ hn ⟨n, hn'⟩] at hp
      exact old _ p hp
  · rw [account_exec_ne he hi] at hp
    exact old i' p hp

end MessageBroker.RunInvariants
