import MessageBroker.HandOverOnce

namespace MessageBroker.AtMostOnce

open ByteStrings WireMessages MessageStore ProgramTrees ThreadPools BrokerState ServerJobs
  StoreInvariant OperationEffects ThreadViews SharedInvariant ServerOutlines RunInvariants
  HandOverOnce

variable {cfg : Config} {ok : State → Step → Prop} {metrics : Option Metrics} {S : State}
  {w w' : World} {i : ℕ} {j : Job} {o : Op} {ch : Choice} {r : o.Res} {s s' id : ℕ} {c : Copy}
  {row row' : Row}

theorem eq_of_countP_le_one {α : Type} {p : α → Bool} {l : List α} (h : l.countP p ≤ 1)
    {a b : α} (ha : a ∈ l) (hb : b ∈ l) (hpa : p a = true) (hpb : p b = true) : a = b := by
  rw [List.countP_eq_length_filter] at h
  have ha' := List.mem_filter.mpr ⟨ha, hpa⟩
  have hb' := List.mem_filter.mpr ⟨hb, hpb⟩
  match hf : l.filter p with
  | [] =>
    rw [hf] at ha'
    cases ha'
  | [x] =>
    rw [hf] at ha' hb'
    rw [List.mem_singleton.mp ha', List.mem_singleton.mp hb']
  | _ :: _ :: _ =>
    rw [hf] at h
    simp at h

/-- A copy of row `id` that is not acknowledged. -/
def isOf (id : ℕ) (c : Copy) : Bool := plain c.msg && decide (c.source = some id)

theorem isOf_iff : isOf id c = true ↔ plain c.msg = true ∧ c.source = some id := by
  simp [isOf]

/-- A copy of row `id` has entered the queue of a session. -/
def Queued (w : World) (id : ℕ) : Prop :=
  ∃ e ∈ w.log, ∃ s c, e.op = .pushQueue s c ∧ isOf id c = true

/-- A row that was saved from a copy of row `id`. -/
structure Child (w : World) (id : ℕ) (row : Row) : Prop where
  mem : row ∈ w.db.messages
  plain : plain row.message = true
  source : row.source = some id

structure Entry (w : World) (id s : ℕ) (c : Copy) : Prop where
  mem : c ∈ (w.sessions s).outgoingQueue
  isOf : isOf id c = true

/-- A row has at most one child, which comes from its only entry in a queue. The
child and the entry exist at once only while a thread removes the entry. -/
structure Chained (w : World) : Prop where
  owners : ∀ i s s', (w.sessions s).queueOwner = some i → (w.sessions s').queueOwner = some i →
    s = s'
  children : ∀ id row, Child w id row → Queued w id
  entries : ∀ id s c, Entry w id s c → Queued w id
  single : ∀ id s, (w.sessions s).outgoingQueue.countP (isOf id) ≤ 1
  session : ∀ id s s' c c', Entry w id s c → Entry w id s' c' → s = s'
  onlyChild : ∀ id row row', Child w id row → Child w id row' → row = row'
  halfway : ∀ id row s c, Child w id row → Entry w id s c →
    (w.sessions s).outgoingQueue.head? = some c ∧
      ∃ i, (w.sessions s).queueOwner = some i ∧ (account i w.log).unpopped = true

theorem Queued.step (h : Queued w id) (he : exec i j o ch w = some (r, w')) : Queued w' id := by
  obtain ⟨e, hm, hh⟩ := h
  exact ⟨e, mem_log he hm, hh⟩

theorem Queued.handed (h : Queued w id) : Handed w id := by
  obtain ⟨e, hm, s, c, hop, hc⟩ := h
  exact ⟨e, hm, s, c, by rw [hop]; rfl, isOf_iff.mp hc⟩

theorem owners_step (hp : Performs cfg ok S i j o ch r w') (h : Chained S.world) :
    ∀ i s s', (w'.sessions s).queueOwner = some i → (w'.sessions s').queueOwner = some i →
      s = s' := by
  intro i' s s' hs hs'
  have frame (hq : .queueOwners ∉ writes o) : s = s' := by
    rw [(exec_frame hp.exec).queueOwners (by simp [hq])] at hs hs'
    exact h.owners i' s s' hs hs'
  cases o with
  | lockQueue s₀ =>
    have hfree (s : ℕ) : (S.world.sessions s).queueOwner ≠ some i := fun hs ↦
      nomatch (hp.allowed.2 s).symm.trans (decide_eq_true hs)
    rw [(exec_lockQueue hp.exec).2] at hs hs'
    split at hs <;> split at hs'
    · next h₁ h₂ => rw [h₁, h₂]
    · exact absurd (Option.some.inj hs ▸ hs') (hfree s')
    · exact absurd (Option.some.inj hs' ▸ hs) (hfree s)
    · exact h.owners i' s s' hs hs'
  | unlockQueue s₀ =>
    rw [exec_unlockQueue hp.exec] at hs hs'
    split at hs
    · cases hs
    · split at hs'
      · cases hs'
      · exact h.owners i' s s' hs hs'
  | newSession identity n =>
    obtain ⟨-, -, hne, hnew⟩ := exec_newSession hp.exec
    have old (s : ℕ) (hs : (w'.sessions s).queueOwner = some i') :
        (S.world.sessions s).queueOwner = some i' := by
      by_cases hn : s = S.world.nextSession
      · rw [hn, hnew] at hs
        cases hs
      · rwa [hne s hn] at hs
    exact h.owners i' s s' (old s hs) (old s' hs')
  | _ => exact frame (by simp [writes])

theorem child_cases (hp : Performs cfg ok S i j o ch r w') (h : Child w' id row) :
    (∃ r₀, Child S.world id r₀ ∧ r₀.id = row.id) ∨
      ∃ s c₀ c, o = .saveMessage c ∧ row = S.world.db.newRow S.world.wallClock c ∧
        c.source = some id ∧ Entry S.world id s c₀ ∧
        (S.world.sessions s).outgoingQueue.head? = some c₀ ∧
        (S.world.sessions s).queueOwner = some i ∧ (account i S.world.log).unpopped = false := by
  rcases rowStep hp.exec h.mem with hold | hnew
  · exact .inl ⟨row, ⟨hold, h.plain, h.source⟩, rfl⟩
  · cases hnew with
    | saved c hop heq =>
      subst hop heq
      have hsource : c.source = some id := h.source
      have hplain := h.plain
      rw [(records_newRow _ c).plain] at hplain
      obtain ⟨-, hin | ⟨s, c₀, -, hq, hhead, rfl, hu⟩⟩ := hp.allowed
      · cases hin.source.symm.trans hsource
      · refine .inr ⟨s, c₀, _, rfl, rfl, hsource, ⟨List.mem_of_mem_head? hhead, ?_⟩, hhead,
          of_decide_eq_true hq, hu⟩
        exact isOf_iff.mpr ⟨hplain, hsource⟩
    | delivered r₀ hr₀ heq | sent r₀ hr₀ heq | pending r₀ hr₀ heq =>
      subst heq
      exact .inl ⟨r₀, ⟨hr₀, h.plain, h.source⟩, rfl⟩

theorem entry_cases (hp : Performs cfg ok S i j o ch r w') (h : Entry w' id s c) :
    Entry S.world id s c ∨ o = .pushQueue s c := by
  have frame (hq : .queues ∉ writes o) : Entry S.world id s c ∨ o = .pushQueue s c :=
    .inl ⟨(exec_frame hp.exec).queues (by simp [hq]) s ▸ h.mem, h.isOf⟩
  have hm := h.mem
  cases o with
  | pushQueue s₀ c₀ =>
    rw [exec_pushQueue hp.exec] at hm
    split at hm
    · next hs =>
      rcases List.mem_append.mp hm with hm | hm
      · exact .inl ⟨hm, h.isOf⟩
      · rw [hs, List.mem_singleton.mp hm]
        exact .inr rfl
    · exact .inl ⟨hm, h.isOf⟩
  | popQueue s₀ =>
    rw [exec_popQueue hp.exec] at hm
    split at hm
    · exact .inl ⟨List.mem_of_mem_tail hm, h.isOf⟩
    · exact .inl ⟨hm, h.isOf⟩
  | newSession identity n =>
    obtain ⟨-, -, hne, hnew⟩ := exec_newSession hp.exec
    by_cases hn : s = S.world.nextSession
    · rw [hn, hnew] at hm
      cases hm
    · rw [hne s hn] at hm
      exact .inl ⟨hm, h.isOf⟩
  | _ => exact frame (by simp [writes])

theorem children_step (hp : Performs cfg ok S i j o ch r w') (h : Chained S.world) :
    ∀ id row, Child w' id row → Queued w' id := by
  intro id row hc
  rcases child_cases hp hc with ⟨r₀, hr₀, -⟩ | ⟨s, c₀, c, -, -, -, he, -⟩
  · exact (h.children id r₀ hr₀).step hp.exec
  · exact (h.entries id s c₀ he).step hp.exec

theorem entries_step (hp : Performs cfg ok S i j o ch r w') (h : Chained S.world) :
    ∀ id s c, Entry w' id s c → Queued w' id := by
  intro id s c he
  rcases entry_cases hp he with he' | rfl
  · exact (h.entries id s c he').step hp.exec
  · exact ⟨_, by rw [exec_log hp.exec]; exact List.mem_cons_self, s, c, rfl, he.isOf⟩

theorem onlyChild_step (hp : Performs cfg ok S i j o ch r w') (h : Chained S.world) :
    ∀ id row row', Child w' id row → Child w' id row' → row = row' := by
  have hinv := step_inv hp.inv hp.allowed hp.exec
  have one {id s : ℕ} {c₀ : Copy} {r₀ : Row} (hr : Child S.world id r₀)
      (he : Entry S.world id s c₀) (hown : (S.world.sessions s).queueOwner = some i)
      (hu : (account i S.world.log).unpopped = false) : False := by
    obtain ⟨-, i', hi', hu'⟩ := h.halfway id r₀ s c₀ hr he
    obtain rfl := Option.some.inj (hown.symm.trans hi')
    cases hu.symm.trans hu'
  intro id row row' hc hc'
  rcases child_cases hp hc with ⟨r₀, hr₀, hid⟩ | ⟨s, c₀, c, rfl, rfl, -, he, -, hown, hu⟩ <;>
    rcases child_cases hp hc' with ⟨r₁, hr₁, hid'⟩ | ⟨s', c₀', c', hop, rfl, -, he', -, hown', hu'⟩
  · refine id_inj hinv.store hc.mem hc'.mem ?_
    rw [← hid, ← hid', h.onlyChild id r₀ r₁ hr₀ hr₁]
  · exact (one hr₀ he' hown' hu').elim
  · exact (one hr₁ he hown hu).elim
  · cases hop
    rfl

theorem not_queued_before {u : Unit} (hp : Performs cfg ok S i j (.pushQueue s c) ch u w')
    (hs : Scheduled S) (hc : isOf id c = true) : ¬ Queued S.world id := fun hq ↦
  have ⟨hplain, hid⟩ := isOf_iff.mp hc
  not_handed_before hp hs rfl hplain hid hq.handed

theorem single_step (hp : Performs cfg ok S i j o ch r w') (hs : Scheduled S)
    (h : Chained S.world) : ∀ id s, (w'.sessions s).outgoingQueue.countP (isOf id) ≤ 1 := by
  intro id s
  have frame (hq : .queues ∉ writes o) : (w'.sessions s).outgoingQueue.countP (isOf id) ≤ 1 := by
    rw [(exec_frame hp.exec).queues (by simp [hq])]
    exact h.single id s
  cases o with
  | pushQueue s₀ c₀ =>
    rw [exec_pushQueue hp.exec]
    split
    · next heq =>
      rw [List.countP_append, List.countP_singleton]
      split
      · next hc =>
        have hnone : (S.world.sessions s).outgoingQueue.countP (isOf id) = 0 := by
          refine List.countP_eq_zero.mpr fun c hm hc' ↦ ?_
          exact not_queued_before hp hs hc (h.entries id s c ⟨hm, hc'⟩)
        rw [hnone]
      · exact h.single id s
    · exact h.single id s
  | popQueue s₀ =>
    rw [exec_popQueue hp.exec]
    split
    · exact (List.tail_sublist _).countP_le.trans (h.single id s)
    · exact h.single id s
  | newSession identity n =>
    obtain ⟨-, -, hne, hnew⟩ := exec_newSession hp.exec
    by_cases hn : s = S.world.nextSession
    · rw [hn, hnew]
      exact Nat.zero_le _
    · rw [hne s hn]
      exact h.single id s
  | _ => exact frame (by simp [writes])

theorem session_step (hp : Performs cfg ok S i j o ch r w') (hs : Scheduled S)
    (h : Chained S.world) : ∀ id s s' c c', Entry w' id s c → Entry w' id s' c' → s = s' := by
  intro id s s' c c' he he'
  rcases entry_cases hp he with hold | rfl <;> rcases entry_cases hp he' with hold' | hop
  · exact h.session id s s' c c' hold hold'
  · subst hop
    exact absurd (h.entries id s c hold) (not_queued_before hp hs he'.isOf)
  · exact absurd (h.entries id s' c' hold') (not_queued_before hp hs he.isOf)
  · cases hop
    rfl

theorem halfway_old (hp : Performs cfg ok S i j o ch r w') (h : Chained S.world)
    (hown : ∃ i', (S.world.sessions s).queueOwner = some i' ∧
      (account i' S.world.log).unpopped = true)
    (hhead : (S.world.sessions s).outgoingQueue.head? = some c)
    (he : Entry S.world id s c) (he' : Entry w' id s c) :
    (w'.sessions s).outgoingQueue.head? = some c ∧
      ∃ i', (w'.sessions s).queueOwner = some i' ∧ (account i' w'.log).unpopped = true := by
  obtain ⟨i', howner, hu⟩ := hown
  -- What the thread `i` does while it holds the mutex itself.
  have keep (hq : (w'.sessions s).outgoingQueue.head? = some c)
      (hl : (w'.sessions s).queueOwner = (S.world.sessions s).queueOwner)
      (hn : i' = i → ((account i S.world.log).note j o r).unpopped = true) :
      (w'.sessions s).outgoingQueue.head? = some c ∧
        ∃ i', (w'.sessions s).queueOwner = some i' ∧ (account i' w'.log).unpopped = true := by
    refine ⟨hq, i', hl.trans howner, ?_⟩
    by_cases hi : i' = i
    · rw [hi, account_exec hp.exec]
      exact hn hi
    · rw [account_exec_ne hp.exec hi]
      exact hu
  have frame (hq : .queues ∉ writes o) (hl : .queueOwners ∉ writes o)
      (hn : ((account i S.world.log).note j o r).unpopped = (account i S.world.log).unpopped) :
      (w'.sessions s).outgoingQueue.head? = some c ∧
        ∃ i', (w'.sessions s).queueOwner = some i' ∧ (account i' w'.log).unpopped = true := by
    refine keep ?_ ((exec_frame hp.exec).queueOwners (by simp [hl]) s) fun hi ↦ ?_
    · rw [(exec_frame hp.exec).queues (by simp [hq])]
      exact hhead
    · rw [hn, ← hi]
      exact hu
  cases o with
  | pushQueue s₀ c₀ =>
    refine keep ?_ ((exec_frame hp.exec).queueOwners (by simp [writes]) s) fun hi ↦ ?_
    · rw [exec_pushQueue hp.exec]
      split
      · rw [List.head?_append, hhead]
        rfl
      · exact hhead
    · rw [← hi]
      exact Account.spend_unpopped.trans hu
  | popQueue s₀ =>
    by_cases hs : s = s₀
    · subst hs
      obtain ⟨rest, hrest⟩ := List.head?_eq_some_iff.mp hhead
      have hm := he'.mem
      rw [exec_popQueue hp.exec, if_pos rfl, hrest, List.tail_cons] at hm
      have hone := h.single id s
      rw [hrest, List.countP_cons, if_pos he.isOf] at hone
      have hpos := List.countP_pos_iff.mpr ⟨c, hm, he.isOf⟩
      omega
    · refine keep ?_ ((exec_frame hp.exec).queueOwners (by simp [writes]) s) fun hi ↦ ?_
      · rw [exec_popQueue hp.exec, if_neg hs]
        exact hhead
      · exact absurd (h.owners i s s₀ (hi ▸ howner) (of_decide_eq_true hp.allowed.1)) hs
  | lockQueue s₀ =>
    obtain ⟨hnone, hl⟩ := exec_lockQueue hp.exec
    have hs : s ≠ s₀ := fun hs ↦ by cases (hs ▸ hnone).symm.trans howner
    refine keep ?_ (by rw [hl, if_neg hs]) fun hi ↦ hi ▸ hu
    rw [(exec_frame hp.exec).queues (by simp [writes])]
    exact hhead
  | unlockQueue s₀ =>
    have hs : s ≠ s₀ := fun hs ↦ by
      obtain ⟨hmine, hfalse⟩ := hp.allowed
      have hown : (S.world.sessions s₀).queueOwner = some i := of_decide_eq_true hmine
      rw [← hs, howner] at hown
      rw [← Option.some.inj hown, hu] at hfalse
      cases hfalse
    refine keep ?_ (by rw [exec_unlockQueue hp.exec, if_neg hs]) fun hi ↦ hi ▸ hu
    rw [(exec_frame hp.exec).queues (by simp [writes])]
    exact hhead
  | newSession identity n =>
    obtain ⟨-, -, hne, -⟩ := exec_newSession hp.exec
    have hs : s ≠ S.world.nextSession := fun hs ↦ by
      rw [(hp.inv.unused s hs.ge).2.1] at hhead
      cases hhead
    exact keep (by rw [hne s hs]; exact hhead) (by rw [hne s hs]) fun hi ↦ hi ▸ hu
  | saveMessage c₀ =>
    refine keep ?_ ((exec_frame hp.exec).queueOwners (by simp [writes]) s) fun hi ↦ ?_
    · rw [(exec_frame hp.exec).queues (by simp [writes])]
      exact hhead
    · cases r with
      | error e => exact hi ▸ hu
      | ok id' =>
        simp only [Account.note]
        split_ifs
        · rfl
        · exact hi ▸ hu
        · exact hi ▸ hu
  | markDelivered id' => cases r <;> exact frame (by simp [writes]) (by simp [writes]) rfl
  | loadPendingMessagesOnly n | loadPendingRepliesForSenderOnly n | pushPendingSend s₀ c₀ data =>
    refine frame (by simp [writes]) (by simp [writes]) ?_
    first | rfl | exact Account.spend_unpopped
  | _ => exact frame (by simp [writes]) (by simp [writes]) (note_keeps rfl).unpopped

theorem halfway_step (hp : Performs cfg ok S i j o ch r w') (hs : Scheduled S)
    (h : Chained S.world) : ∀ id row s c, Child w' id row → Entry w' id s c →
      (w'.sessions s).outgoingQueue.head? = some c ∧
        ∃ i, (w'.sessions s).queueOwner = some i ∧ (account i w'.log).unpopped = true := by
  intro id row s c hc he
  rcases child_cases hp hc with ⟨r₀, hr₀, -⟩ | ⟨s₀, c₀, c₁, rfl, rfl, hsource, he₀, hhead, hown, -⟩
  · rcases entry_cases hp he with hold | rfl
    · obtain ⟨hhead, hown⟩ := h.halfway id r₀ s c hr₀ hold
      exact halfway_old hp h hown hhead hold he
    · exact absurd (h.children id r₀ hr₀) (not_queued_before hp hs he.isOf)
  · rcases entry_cases hp he with hold | hop
    · obtain rfl := h.session id s s₀ c c₀ hold he₀
      obtain rfl := eq_of_countP_le_one (h.single id s) hold.mem he₀.mem hold.isOf he₀.isOf
      refine ⟨?_, i, ?_, ?_⟩
      · rw [(exec_frame hp.exec).queues (by simp [writes])]
        exact hhead
      · rw [(exec_frame hp.exec).queueOwners (by simp [writes])]
        exact hown
      · rw [account_exec hp.exec]
        obtain ⟨-, -, hdb⟩ | ⟨rfl, -⟩ := exec_saveMessage hp.exec
        · have hm := hc.mem
          rw [hdb] at hm
          have := (hp.inv.store.bound _ hm).2
          simp [Database.newRow] at this
        · simp [Account.note, hsource]
    · cases hop

theorem chained_step (hp : Performs cfg ok S i j o ch r w') (hs : Scheduled S)
    (h : Chained S.world) : Chained w' where
  owners := owners_step hp h
  children := children_step hp h
  entries := entries_step hp h
  single := single_step hp hs h
  session := session_step hp hs h
  onlyChild := onlyChild_step hp h
  halfway := halfway_step hp hs h

structure Unrepeated (S : State) : Prop where
  scheduled : Scheduled S
  handed : HandedOnce S.world
  chained : Chained S.world

theorem scheduled_initial : Scheduled ⟨initial metrics, []⟩ where
  jobs _ he := absurd he List.not_mem_nil
  single := by
    rintro i i' ⟨t, ht, -⟩
    cases ht
  fresh := by
    rintro i ⟨t, ht, -⟩
    cases ht

theorem handedOnce_initial : HandedOnce (initial metrics) where
  clean _ := rfl
  copies _ he := absurd he List.not_mem_nil
  debtors _ _ hid := absurd hid List.not_mem_nil
  consumed := by
    rintro id ⟨e, he, -⟩
    cases he
  once _ := Nat.zero_le _

theorem chained_initial : Chained (initial metrics) where
  owners := by
    intro i s s' hs
    cases hs
  children _ _ h := absurd h.mem List.not_mem_nil
  entries _ _ _ h := absurd h.mem List.not_mem_nil
  single _ _ := Nat.zero_le _
  session _ _ _ _ _ h := absurd h.mem List.not_mem_nil
  onlyChild _ _ _ h := absurd h.mem List.not_mem_nil
  halfway _ _ _ _ h := absurd h.mem List.not_mem_nil

theorem handedOnce_idle (n : ℕ) (now : ℤ) (elapsed : ℕ) (h : HandedOnce w) :
    HandedOnce { w with postedTasks := n, wallClock := now, steadyClock := elapsed } :=
  ⟨h.clean, h.copies, h.debtors, h.consumed, h.once⟩

theorem chained_idle (n : ℕ) (now : ℤ) (elapsed : ℕ) (h : Chained w) :
    Chained { w with postedTasks := n, wallClock := now, steadyClock := elapsed } where
  owners := h.owners
  children id row hc := h.children id row ⟨hc.mem, hc.plain, hc.source⟩
  entries id s c he := h.entries id s c ⟨he.mem, he.isOf⟩
  single := h.single
  session id s s' c c' he he' := h.session id s s' c c' ⟨he.mem, he.isOf⟩ ⟨he'.mem, he'.isOf⟩
  onlyChild id row row' hc hc' :=
    h.onlyChild id row row' ⟨hc.mem, hc.plain, hc.source⟩ ⟨hc'.mem, hc'.plain, hc'.source⟩
  halfway id row s c hc he :=
    h.halfway id row s c ⟨hc.mem, hc.plain, hc.source⟩ ⟨he.mem, he.isOf⟩

theorem unrepeated (h : (broker cfg).Reachable Serialised (initial metrics) S) : Unrepeated S := by
  induction h with
  | init => exact ⟨scheduled_initial, handedOnce_initial, chained_initial⟩
  | @next S S' l hr hl hs ih =>
    cases l with
    | start j =>
      obtain ⟨w', hw, rfl⟩ := Machine.start_cases hs
      obtain ⟨n, rfl⟩ := start_eq hw
      exact ⟨scheduled_start ih.scheduled hl (by rfl) _,
        handedOnce_idle n S.world.wallClock S.world.steadyClock ih.handed,
        chained_idle n S.world.wallClock S.world.steadyClock ih.chained⟩
    | step i ch =>
      obtain ⟨j, o, k, r, w', ht, he, rfl⟩ := Machine.step_cases hs
      have hp : Performs cfg Serialised S i j o ch r w' := ⟨holds_of_reachable hr, ⟨k, ht⟩, hl, he⟩
      exact ⟨scheduled_stepped hp ih.handed ih.scheduled, handedOnce_step hp ih.handed ih.scheduled,
        chained_step hp ih.scheduled ih.chained⟩
    | tick t =>
      obtain rfl := Option.some.inj hs
      exact ⟨⟨ih.scheduled.jobs, ih.scheduled.single, ih.scheduled.fresh⟩,
        handedOnce_idle S.world.postedTasks _ _ ih.handed,
        chained_idle S.world.postedTasks _ _ ih.chained⟩

theorem exists_origin {db : Database} (hdb : Sound db) (n : ℕ) : ∀ row ∈ db.messages, row.id = n →
    row.origin ≤ row.id ∧ ∃ r₀ ∈ db.messages, r₀.id = row.origin ∧ r₀.source = none ∧
      r₀.type = row.type ∧ r₀.flags = row.flags := by
  induction n using Nat.strong_induction_on with
  | _ n ih =>
    rintro row hrow rfl
    cases hs : row.source with
    | none =>
      have ho := hdb.origin row hrow hs
      exact ⟨ho.le, row, hrow, ho.symm, hs, rfl, rfl⟩
    | some id =>
      obtain ⟨r₁, hr₁, rfl, hd⟩ := hdb.source row hrow id hs
      obtain ⟨hle, r₀, hr₀, hid, hsource, htype, hflags⟩ := ih r₁.id hd.id_lt r₁ hr₁ rfl
      refine ⟨?_, r₀, hr₀, hid.trans hd.origin.symm, hsource, htype.trans hd.type.symm,
        hflags.trans hd.flags.symm⟩
      rw [hd.origin]
      exact hle.trans hd.id_lt.le

theorem plain_of_origin {db : Database} (hdb : Sound db) (hrow : row ∈ db.messages)
    (hrow' : row' ∈ db.messages) (h : row.origin = row'.origin) :
    plain row.message = plain row'.message := by
  obtain ⟨-, r₀, hr₀, hid, -, ht, hf⟩ := exists_origin hdb row.id row hrow rfl
  obtain ⟨-, r₀', hr₀', hid', -, ht', hf'⟩ := exists_origin hdb row'.id row' hrow' rfl
  obtain rfl := id_inj hdb hr₀ hr₀' (hid.trans (h.trans hid'.symm))
  exact plain_of_columns (ht.symm.trans ht') (hf.symm.trans hf')

theorem exists_child (hdb : Sound w.db) (hc : Chained w) (n : ℕ) : ∀ row ∈ w.db.messages,
    ∀ row' ∈ w.db.messages, row'.id = n → plain row'.message = true → row.origin = row'.origin →
      row.id < row'.id → ∃ r₁, Child w row.id r₁ ∧ r₁.id ≤ row'.id := by
  induction n using Nat.strong_induction_on with
  | _ n ih =>
    rintro row hrow row' hrow' rfl hplain horigin hlt
    cases hs : row'.source with
    | none =>
      have ho := hdb.origin row' hrow' hs
      have hle := (exists_origin hdb row.id row hrow rfl).1
      omega
    | some id =>
      obtain ⟨r₂, hr₂, rfl, hd⟩ := hdb.source row' hrow' id hs
      have hplain₂ : plain r₂.message = true := hd.plain ▸ hplain
      have hchild : Child w r₂.id row' := ⟨hrow', hplain, hs⟩
      rcases Nat.lt_trichotomy row.id r₂.id with hid | hid | hid
      · obtain ⟨r₁, hr₁, hle⟩ :=
          ih r₂.id hd.id_lt row hrow r₂ hr₂ rfl hplain₂ (horigin.trans hd.origin) hid
        exact ⟨r₁, hr₁, hle.trans hd.id_lt.le⟩
      · exact ⟨row', hid ▸ hchild, Nat.le_refl _⟩
      · have hrowplain : plain row.message = true :=
          (plain_of_origin hdb hrow hrow' horigin).trans hplain
        obtain ⟨r₁, hr₁, hle⟩ :=
          ih row.id hlt r₂ hr₂ row hrow rfl hrowplain (hd.origin.symm.trans horigin.symm) hid
        obtain rfl := hc.onlyChild r₂.id r₁ row' hr₁ hchild
        omega

/-- An operation hands a copy of a row that goes back to row `id` to the sender. -/
def sendsOf (db : Database) (id : ℕ) : Op → Bool
  | .pushPendingSend _ c _ => decide ((c.source.bind db.row?).map (·.origin) = some id)
  | _ => false

theorem sendsOf_iff {db : Database} : sendsOf db id o = true ↔ ∃ s c data row n,
    o = .pushPendingSend s c data ∧ c.source = some n ∧ db.row? n = some row ∧ row.origin = id := by
  cases o with
  | pushPendingSend s c data =>
    simp only [sendsOf, decide_eq_true_eq, Option.map_eq_some_iff, Option.bind_eq_some_iff,
      Op.pushPendingSend.injEq]
    constructor
    · rintro ⟨row, ⟨n, hn, hrow⟩, ho⟩
      exact ⟨s, c, data, row, n, ⟨rfl, rfl, rfl⟩, hn, hrow, ho⟩
    · rintro ⟨_, c', _, row, n, ⟨rfl, rfl, rfl⟩, hn, hrow, ho⟩
      exact ⟨row, ⟨n, hn, hrow⟩, ho⟩
  | _ => simp [sendsOf]

theorem no_child (hu : Unrepeated S) {e : Event} (he : e ∈ S.world.log) {data : Bytes}
    (hop : e.op = .pushPendingSend s c data) (hplain : plain c.msg = true)
    (hid : c.source = some id) : ¬ Child S.world id row := by
  intro hchild
  obtain ⟨e', he', s', c', hop', hc'⟩ := hu.chained.children id row hchild
  have heq : e = e' := by
    refine eq_of_countP_le_one (hu.handed.once id) he he' ?_ ?_
    · exact handsPlain_iff.mpr ⟨s, c, by rw [hop]; rfl, hplain, hid⟩
    · exact handsPlain_iff.mpr ⟨s', c', by rw [hop']; rfl, isOf_iff.mp hc'⟩
  rw [heq, hop'] at hop
  cases hop

theorem at_most_once (h : (broker cfg).Reachable Serialised (initial metrics) S)
    (hrow : row ∈ S.world.db.messages) (haccepted : row.source = none)
    (hplain : plain row.message = true) : times (sendsOf S.world.db row.id) S.world ≤ 1 := by
  have hdb := (holds_of_reachable h).inv.store
  have hu := unrepeated h
  -- What is known of a send of the chain.
  have key (e : Event) (he : e ∈ S.world.log) (hs : sendsOf S.world.db row.id e.op = true) :
      ∃ s c data, ∃ r₁ ∈ S.world.db.messages, e.op = .pushPendingSend s c data ∧
        plain c.msg = true ∧ c.source = some r₁.id ∧ r₁.origin = row.id ∧
          plain r₁.message = true := by
    obtain ⟨s, c, data, r₁, n, hop, hsource, hr₁, ho⟩ := sendsOf_iff.mp hs
    obtain ⟨hm₁, rfl⟩ := mem_of_row? hr₁
    have hp₁ : plain r₁.message = true :=
      (plain_of_origin hdb hm₁ hrow (ho.trans (hdb.origin row hrow haccepted).symm)).trans hplain
    obtain ⟨r₂, hr₂, hid₂, hcarries⟩ := (hu.handed.copies e he s c (by rw [hop]; rfl)).row _ hsource
    obtain rfl := id_inj hdb hr₂ hm₁ hid₂
    exact ⟨s, c, data, r₂, hr₂, hop, hcarries.records.plain ▸ hp₁, hsource, ho, hp₁⟩
  by_cases hex : ∃ e ∈ S.world.log, sendsOf S.world.db row.id e.op = true
  · obtain ⟨e, he, hs⟩ := hex
    obtain ⟨s, c, data, r₁, hr₁, hop, hpc, hsource, ho, hp₁⟩ := key e he hs
    refine (List.countP_mono_left fun e' he' hs' ↦ ?_).trans (hu.handed.once r₁.id)
    obtain ⟨s', c', data', r₂, hr₂, hop', hpc', hsource', ho', hp₂⟩ := key e' he' hs'
    refine handsPlain_iff.mpr ⟨s', c', by rw [hop']; rfl, hpc', hsource'.trans ?_⟩
    rcases Nat.lt_trichotomy r₁.id r₂.id with hid | hid | hid
    · obtain ⟨r₃, hr₃, -⟩ := exists_child hdb hu.chained r₂.id r₁ hr₁ r₂ hr₂ rfl hp₂
        (ho.trans ho'.symm) hid
      exact absurd hr₃ (no_child hu he hop hpc hsource)
    · rw [hid]
    · obtain ⟨r₃, hr₃, -⟩ := exists_child hdb hu.chained r₁.id r₂ hr₂ r₁ hr₁ rfl hp₁
        (ho'.trans ho.symm) hid
      exact absurd hr₃ (no_child hu he' hop' hpc' hsource')
  · have hzero : times (sendsOf S.world.db row.id) S.world = 0 :=
      List.countP_eq_zero.mpr fun e he hs ↦ hex ⟨e, he, hs⟩
    omega

/-- Alice's message waits for bob, and is sent when he registers. -/
theorem at_most_once_offline : ∃ S row,
    (broker {}).Reachable Serialised (initial none) S ∧ row ∈ S.world.db.messages ∧
      row.source = none ∧ plain row.message = true ∧
        times (sendsOf S.world.db row.id) S.world ≤ 1 := by
  have hrun : ((broker {}).runs Serialised (inTurn 0 [
      (arrival { sender := [97], destination := [98] }, 8),
      (arrival { type := .register, sender := [98] }, 43),
      (.processPendingSends, 10)]) ⟨initial none, []⟩).map (fun S ↦
        S.world.db.messages.head?.map fun row ↦ (row.source, plain row.message)) =
      some (some (none, true)) := by decide +kernel
  obtain ⟨S, hS, hv⟩ := exists_run hrun
  obtain ⟨row, hrow, hrow'⟩ := Option.map_eq_some_iff.mp hv
  obtain ⟨hsource, hplain⟩ := Prod.mk.inj hrow'
  have hm := List.mem_of_mem_head? hrow
  exact ⟨S, row, hS, hm, hsource, hplain, at_most_once hS hm hsource hplain⟩

end MessageBroker.AtMostOnce
