import MessageBroker.RunInvariants

namespace MessageBroker.NoLostMessages

open ByteStrings WireMessages MessageStore ThreadPools BrokerState ServerJobs StoreInvariant
  OperationEffects ThreadViews SharedInvariant ServerOutlines RunInvariants

variable {cfg : Config} {ok : State → Step → Prop} {metrics : Option Metrics} {S : State}
  {w w' : World} {i : ℕ} {j : Job} {o : Op} {ch : Choice} {r : o.Res} {s id : ℕ} {c : Copy}
  {row : Row}

def framed : Op → Option Message
  | .sendFrame send _ => some send.copy.msg
  | _ => none

/-- No socket send of a message that is not acknowledged fails. -/
def PlainFramesSent (S : State) (l : Step) : Prop :=
  S.OnNext framed (fun _ ch m ↦ plain m = true → ch.socket = .accepted) l

instance (S : State) (l : Step) : Decidable (PlainFramesSent S l) := by
  unfold PlainFramesSent
  infer_instance

def Uncalled (w : World) (p : PendingSend) : Prop :=
  (p ∈ w.pendingSends ∨ ∃ i, p ∈ w.batches i) ∧ p.called = false

/-- What has become of a row that was handed over. -/
inductive Onward (w : World) (id : ℕ) : Prop
  | queued (s : ℕ) (c : Copy) : c ∈ (w.sessions s).outgoingQueue → c.source = some id →
      Onward w id
  | waiting (p : PendingSend) : Uncalled w p → plain p.copy.msg = true →
      p.copy.source = some id → Onward w id
  | sent (e : Event) (p : PendingSend) : e ∈ w.log → e.op = .callback p true →
      p.copy.source = some id → Onward w id
  | savedAgain (row : Row) : row ∈ w.db.messages → row.source = some id → Onward w id

structure Safekept (w : World) : Prop where
  frames : ∀ i p result, (account i w.log).frame = some (p, result) → result ≠ .accepted →
    plain p.copy.msg = false
  debts : ∀ i, ∀ id ∈ (account i w.log).debt, Handed w id
  onward : ∀ id, Handed w id → Onward w id
  rows : ∀ row ∈ w.db.messages, plain row.message = true → row.status = .pending ∨
    Handed w row.id

theorem debts_step (hp : Performs cfg ok S i j o ch r w') (h : Safekept S.world) :
    ∀ i, ∀ id ∈ (account i w'.log).debt, Handed w' id := by
  intro i' id hid
  by_cases hi : i' = i
  · subst hi
    rw [account_exec hp.exec] at hid
    rcases mem_note_debt hid with hid | hh
    · exact (h.debts _ id hid).step hp.exec
    · exact ⟨_, by rw [exec_log hp.exec]; exact List.mem_cons_self, hh⟩
  · rw [account_exec_ne hp.exec hi] at hid
    exact (h.debts i' id hid).step hp.exec

theorem note_frame {a : Account} (h : ∀ p part, o ≠ .sendFrame p part) :
    (a.note j o r).frame = a.frame := by
  cases o with
  | sendFrame p part => exact absurd rfl (h p part)
  | saveMessage c =>
    cases r with
    | error e => rfl
    | ok id =>
      simp only [Account.note]
      split_ifs <;> rfl
  | saveCorrelation | markSent | markPending | markDelivered => cases r <;> rfl
  | isOnline | isExpired =>
    simp only [Account.note]
    split <;> rfl
  | pushQueue | pushPendingSend =>
    simp only [Account.note, Account.spend]
    split <;> rfl
  | _ => rfl

theorem frames_step (hp : Performs cfg PlainFramesSent S i j o ch r w')
    (h : Safekept S.world) : ∀ i p result, (account i w'.log).frame = some (p, result) →
      result ≠ .accepted → plain p.copy.msg = false := by
  intro i' p result hf hne
  by_cases hi : i' = i
  · subst hi
    rw [account_exec hp.exec] at hf
    by_cases ho : ∃ p part, o = .sendFrame p part
    · obtain ⟨p', part, rfl⟩ := ho
      obtain ⟨rfl, rfl⟩ := Prod.mk.inj (Option.some.inj hf)
      have hr : some ch.socket = some r := exec_reads hp.exec
      have hok := Pool.OnNext.meets hp.ok hp.nextOp rfl
      by_contra hplain
      exact hne ((Option.some.inj hr).symm.trans (hok (by simpa using hplain)))
    · rw [note_frame fun p part hop ↦ ho ⟨p, part, hop⟩] at hf
      exact h.frames _ p result hf hne
  · rw [account_exec_ne hp.exec hi] at hf
    exact h.frames i' p result hf hne

theorem queued_step (hp : Performs cfg ok S i j o ch r w')
    (hc : c ∈ (S.world.sessions s).outgoingQueue) (hid : c.source = some id) : Onward w' id := by
  have stays (hc' : c ∈ (w'.sessions s).outgoingQueue) : Onward w' id := .queued s c hc' hid
  have frame (hq : .queues ∉ writes o) : Onward w' id :=
    stays ((exec_frame hp.exec).queues (by simp [hq]) s ▸ hc)
  cases o with
  | pushQueue s' c' =>
    refine stays ?_
    rw [exec_pushQueue hp.exec s]
    split
    · exact List.mem_append_left _ hc
    · exact hc
  | popQueue s' =>
    by_cases hs : s = s'
    · subst hs
      cases hq : (S.world.sessions s).outgoingQueue with
      | nil =>
        rw [hq] at hc
        cases hc
      | cons front rest =>
        rw [hq] at hc
        rcases List.mem_cons.mp hc with rfl | hc
        · obtain ⟨row, hrow, hsource⟩ := hp.allowed.2 c id (by rw [hq]; rfl) hid
          obtain ⟨st, hst⟩ := hp.grows.db row hrow
          exact .savedAgain _ hst hsource
        · refine stays ?_
          rw [exec_popQueue hp.exec, if_pos rfl, hq, List.tail_cons]
          exact hc
    · refine stays ?_
      rw [exec_popQueue hp.exec, if_neg hs]
      exact hc
  | newSession identity n =>
    obtain ⟨-, -, hne, -⟩ := exec_newSession hp.exec
    have hs : s ≠ S.world.nextSession := fun hs ↦ by
      rw [(hp.inv.unused s hs.ge).2.1] at hc
      cases hc
    exact stays (by rw [hne s hs]; exact hc)
  | _ => exact frame (by simp [writes])

/-- A send leaves the batch only after its callback, which reports success
unless a socket send has failed. -/
theorem waiting_step (hp : Performs cfg ok S i j o ch r w') (hk : Safekept S.world)
    {p : PendingSend} (hu : Uncalled S.world p) (hplain : plain p.copy.msg = true)
    (hid : p.copy.source = some id) : Onward w' id := by
  obtain ⟨hm, hcalled⟩ := hu
  have stays (h : p ∈ w'.pendingSends ∨ ∃ i, p ∈ w'.batches i) : Onward w' id :=
    .waiting p ⟨h, hcalled⟩ hplain hid
  have frame (hs : .pendingSends ∉ writes o) (hb : .batches ∉ writes o) : Onward w' id := by
    refine stays ?_
    rw [(exec_frame hp.exec).pendingSends (by simp [hs]), (exec_frame hp.exec).batches
      (by simp [hb])]
    exact hm
  -- A batch of another thread is left alone.
  have other {batch : List PendingSend} (hs : w'.pendingSends = S.world.pendingSends)
      (hb : w'.batches = Function.update S.world.batches i batch)
      (hown : p ∈ S.world.batches i → Onward w' id) : Onward w' id := by
    rcases hm with hm | ⟨i', hm⟩
    · exact stays (.inl (hs ▸ hm))
    · by_cases hi : i' = i
      · exact hown (hi ▸ hm)
      · exact stays (.inr ⟨i', by rw [hb, Function.update_of_ne hi]; exact hm⟩)
  cases o with
  | pushPendingSend s' c' data =>
    refine stays (hm.imp (fun hm ↦ ?_) fun hm ↦ ?_)
    · rw [exec_pushPendingSend hp.exec]
      exact List.mem_append_left _ hm
    · rw [(exec_frame hp.exec).batches (by simp [writes])]
      exact hm
  | takePendingSends =>
    obtain ⟨-, -, hb⟩ := exec_takePendingSends hp.exec
    have hempty : S.world.batches i = [] := hp.allowed
    refine stays (.inr ?_)
    rcases hm with hm | ⟨i', hm⟩
    · rw [if_neg (List.ne_nil_of_mem hm)] at hb
      exact ⟨i, by rw [hb, Function.update_self]; exact hm⟩
    · have hi : i' ≠ i := fun hi ↦ by
        rw [hi, hempty] at hm
        cases hm
      refine ⟨i', ?_⟩
      rw [hb]
      split
      · exact hm
      · rw [Function.update_of_ne hi]
        exact hm
  | callback p' success =>
    have hb := (exec_callback hp.exec).1
    refine other ((exec_frame hp.exec).pendingSends (by simp [writes])) hb fun hm ↦ ?_
    obtain ⟨hhead, -, hframe⟩ := hp.allowed
    obtain ⟨rest, hrest⟩ := List.head?_eq_some_iff.mp hhead
    have hrest : S.world.batches i = p' :: rest := hrest
    rw [hrest] at hm
    rcases List.mem_cons.mp hm with rfl | hm
    · cases success with
      | true => exact .sent _ p (by rw [exec_log hp.exec]; exact List.mem_cons_self) rfl hid
      | false =>
        obtain ⟨result, hf, hne⟩ := hframe rfl
        cases (hk.frames i p result hf hne).symm.trans hplain
    · refine stays (.inr ⟨i, ?_⟩)
      rw [hb, Function.update_self, hrest, List.tail_cons]
      exact List.mem_append_right _ hm
  | popSend =>
    have hb := exec_popSend hp.exec
    refine other ((exec_frame hp.exec).pendingSends (by simp [writes])) hb fun hm ↦ ?_
    cases hbatch : S.world.batches i with
    | nil =>
      rw [hbatch] at hm
      cases hm
    | cons front rest =>
      rw [hbatch] at hm
      rcases List.mem_cons.mp hm with rfl | hm
      · have htrue := hp.allowed p (by rw [hold, hbatch]; rfl)
        cases htrue.symm.trans hcalled
      · refine stays (.inr ⟨i, ?_⟩)
        rw [hb, Function.update_self, hbatch, List.tail_cons]
        exact hm
  | _ => exact frame (by simp [writes]) (by simp [writes])

theorem handed_onward (hp : Performs cfg ok S i j o ch r w') (ho : hands o = some (s, c))
    (hplain : plain c.msg = true) (hid : c.source = some id) : Onward w' id := by
  cases o with
  | pushQueue s' c' =>
    cases ho
    refine .queued s c ?_ hid
    rw [exec_pushQueue hp.exec, if_pos rfl]
    exact List.mem_append_right _ (List.mem_singleton_self _)
  | pushPendingSend s' c' data =>
    cases ho
    refine .waiting ⟨(S.world.sessions s).identity, data, s, c, false⟩ ⟨.inl ?_, rfl⟩ hplain hid
    rw [exec_pushPendingSend hp.exec]
    exact List.mem_append_right _ (List.mem_singleton_self _)
  | _ => cases ho

theorem onward_step (hp : Performs cfg ok S i j o ch r w') (hk : Safekept S.world) :
    ∀ id, Handed w' id → Onward w' id := by
  intro id hh
  rcases handed_cases hp.exec hh with hh | ⟨s, c, ho, hplain, hid⟩
  · cases hk.onward id hh with
    | queued s c hc hid => exact queued_step hp hc hid
    | waiting p hu hplain hid => exact waiting_step hp hk hu hplain hid
    | sent e p he hop hid => exact .sent e p (mem_log hp.exec he) hop hid
    | savedAgain row hrow hid =>
      obtain ⟨st, hst⟩ := hp.grows.db row hrow
      exact .savedAgain _ hst hid
  · exact handed_onward hp ho hplain hid

theorem rows_step (hp : Performs cfg ok S i j o ch r w') (hk : Safekept S.world) :
    ∀ row ∈ w'.db.messages, plain row.message = true → row.status = .pending ∨
      Handed w' row.id := by
  intro row hrow hplain
  rcases rowStep hp.exec hrow with hrow | hrow
  · exact (hk.rows row hrow hplain).imp_right fun hh ↦ hh.step hp.exec
  · cases hrow with
    | saved c _ heq =>
      rw [heq]
      exact .inl rfl
    | pending r₀ _ heq =>
      rw [heq]
      exact .inl rfl
    | sent r₀ hr₀ heq hop =>
      subst hop heq
      have hneed := HandlerOutlines.needsAck_row hp.inv hr₀ (hp.allowed r₀ hr₀ rfl)
      exact nomatch hneed.symm.trans hplain
    | delivered r₀ hr₀ heq hop =>
      subst hop heq
      have hdebt := (hp.allowed r₀ hr₀ rfl).1 hplain
      exact .inr ((hk.debts i _ hdebt).step hp.exec)

theorem safekept (h : (broker cfg).Reachable PlainFramesSent (initial metrics) S) :
    Safekept S.world := by
  refine run_invariant ?_ (fun w _ _ _ h ↦ ⟨h.frames, h.debts, fun id hh ↦ ?_, h.rows⟩)
    (fun hp h ↦ ?_) h
  · constructor <;> simp [initial, account, Handed]
  · cases h.onward id hh with
    | queued s c hc hid => exact .queued s c hc hid
    | waiting p hu hplain hid => exact .waiting p hu hplain hid
    | sent e p he hop hid => exact .sent e p he hop hid
    | savedAgain row hrow hid => exact .savedAgain row hrow hid
  · exact ⟨frames_step hp h, debts_step hp h, onward_step hp h, rows_step hp h⟩

/-- The row from which a copy on its way stems. -/
def Stems (w : World) (c : Copy) (origin : ℕ) : Prop :=
  ∃ row ∈ w.db.messages, c.source = some row.id ∧ row.origin = origin

/-- Where an accepted message may be. -/
inductive Placed (w : World) (origin : ℕ) : Prop
  | pending (row : Row) : row ∈ w.db.messages → row.origin = origin → row.status = .pending →
      Placed w origin
  | queued (s : ℕ) (c : Copy) : c ∈ (w.sessions s).outgoingQueue → Stems w c origin →
      Placed w origin
  | waiting (p : PendingSend) : Uncalled w p → Stems w p.copy origin → Placed w origin
  | sent (e : Event) (p : PendingSend) : e ∈ w.log → e.op = .callback p true →
      Stems w p.copy origin → Placed w origin

theorem placed (hs : Sound w.db) (hk : Safekept w) (hrow : row ∈ w.db.messages)
    (hplain : plain row.message = true) : Placed w row.origin := by
  induction hn : w.db.lastMessageId - row.id using Nat.strong_induction_on generalizing row with
  | _ n ih =>
    rcases hk.rows row hrow hplain with hst | hh
    · exact .pending row hrow rfl hst
    · cases hk.onward row.id hh with
      | queued s c hc hid => exact .queued s c hc ⟨row, hrow, hid, rfl⟩
      | waiting p hu _ hid => exact .waiting p hu ⟨row, hrow, hid, rfl⟩
      | sent e p he hop hid => exact .sent e p he hop ⟨row, hrow, hid, rfl⟩
      | savedAgain row' hrow' hid =>
        obtain ⟨r₀, hr₀, hid₀, hd⟩ := hs.source row' hrow' row.id hid
        obtain rfl := id_inj hs hr₀ hrow hid₀
        have hplain' : plain row'.message = true := hd.plain.trans hplain
        have hlt := hd.id_lt
        have hbound := (hs.bound row' hrow').2
        exact hd.origin ▸ ih _ (by omega) hrow' hplain' rfl

/-- Every accepted message that is not acknowledged is in one of its places, as
long as no socket send of such a message fails. -/
theorem no_lost_message
    (h : (broker cfg).Reachable PlainFramesSent (initial metrics) S)
    (hrow : row ∈ S.world.db.messages) (haccepted : row.source = none)
    (hplain : plain row.message = true) : Placed S.world row.id := by
  have hs := (holds_of_reachable h).inv.store
  have hp := placed hs (safekept h) hrow hplain
  rwa [hs.origin row hrow haccepted] at hp

/-- Bob registers, alice's message reaches him, and its send succeeds. -/
theorem no_lost_message_sent : ∃ S row,
    (broker {}).Reachable PlainFramesSent (initial none) S ∧ row ∈ S.world.db.messages ∧
      row.source = none ∧ plain row.message = true ∧ Placed S.world row.id := by
  have hrun : ((broker {}).runs PlainFramesSent (inTurn 0 [
      (arrival { type := .register, sender := [98] }, 31),
      (arrival { sender := [97], destination := [98] }, 16),
      (.processPendingSends, 10)]) ⟨initial none, []⟩).map (fun S ↦
        S.world.db.messages.head?.map fun row ↦ (row.source, plain row.message)) =
      some (some (none, true)) := by decide +kernel
  obtain ⟨S, hS, hv⟩ := exists_run hrun
  obtain ⟨row, hrow, hrow'⟩ := Option.map_eq_some_iff.mp hv
  obtain ⟨hsource, hplain⟩ := Prod.mk.inj hrow'
  have hm := List.mem_of_mem_head? hrow
  exact ⟨S, row, hS, hm, hsource, hplain, no_lost_message hS hm hsource hplain⟩

def Event.reportsSuccess (e : Event) : Bool :=
  match e.op with
  | .callback _ success => success
  | _ => false

/-- When all jobs have ended, a message without a pending row, a queue entry, a
pending send and a successful send is in none of its places. -/
theorem not_placed (h : (broker cfg).Reachable ok (initial metrics) S)
    (hended : S.threads.all hasEnded = true) {origin : ℕ}
    (hrows : ∀ row ∈ S.world.db.messages, row.status ≠ .pending)
    (hqueues : ∀ s < S.world.nextSession, (S.world.sessions s).outgoingQueue = [])
    (hsends : S.world.pendingSends = [])
    (hlog : S.world.log.any Event.reportsSuccess = false) : ¬ Placed S.world origin := by
  have hh := holds_of_reachable h
  intro hplaced
  cases hplaced with
  | pending row hrow _ hst => exact hrows row hrow hst
  | queued s c hc =>
    by_cases hs : s < S.world.nextSession
    · rw [hqueues s hs] at hc
      cases hc
    · rw [(hh.inv.unused s (by omega)).2.1] at hc
      cases hc
  | waiting p hu =>
    obtain ⟨hp | ⟨i, hp⟩, -⟩ := hu
    · rw [hsends] at hp
      cases hp
    · have hrest : AtRest i S.world := hh.quiet
        (fun t ht ↦ ended_of_hasEnded (List.all_eq_true.mp hended t ht)) i
      have hbatch : S.world.batches i = [] := congrArg Hold.batch hrest.owns
      rw [hbatch] at hp
      cases hp
  | sent e p he hop =>
    have hfalse := List.any_eq_false.mp hlog e he
    rw [Event.reportsSuccess, hop] at hfalse
    exact hfalse rfl

/-- The message is marked as delivered when it is handed over, and then its
first frame is not sent. -/
theorem message_lost : ¬ ∀ cfg metrics S row,
    (broker cfg).Reachable (fun _ _ ↦ True) (initial metrics) S → row ∈ S.world.db.messages →
      row.source = none → plain row.message = true → Placed S.world row.id := by
  intro h
  have hrun : ((broker {}).runs (fun _ _ ↦ True) (inTurn 0 [
      (arrival { type := .register, sender := [98] }, 31),
      (arrival { sender := [97], destination := [98] }, 16),
      (.processPendingSends, 2)] ++ .step 2 { socket := .wouldBlock } ::
        List.replicate 4 (.step 2 {})) ⟨initial none, []⟩).map (fun S ↦
        (S.world.db.messages.map fun row ↦ (row.source, plain row.message, row.status),
          [S.world.nextSession, (S.world.sessions 0).outgoingQueue.length,
            S.world.pendingSends.length],
          [S.threads.all hasEnded, S.world.log.any Event.reportsSuccess])) =
      some ([(none, true, .delivered)], [1, 0, 0], [true, false]) := by decide +kernel
  obtain ⟨S, hS, hv⟩ := exists_run hrun
  simp only [Prod.mk.injEq, List.cons.injEq, and_true] at hv
  obtain ⟨hrows, ⟨hnext, hqueue, hsends⟩, hended, hlog⟩ := hv
  obtain ⟨row, hmessages, hrow⟩ := List.map_eq_singleton_iff.mp hrows
  simp only [Prod.mk.injEq] at hrow
  obtain ⟨hsource, hplain, hst⟩ := hrow
  refine not_placed hS hended (fun row' hrow' ↦ ?_) (fun s hs ↦ ?_)
    (List.length_eq_zero_iff.mp hsends) hlog
    (h {} none S row hS (by rw [hmessages]; exact List.mem_singleton_self _) hsource hplain)
  · rw [hmessages] at hrow'
    rw [List.mem_singleton.mp hrow', hst]
    exact nofun
  · obtain rfl : s = 0 := by omega
    exact List.length_eq_zero_iff.mp hqueue

end MessageBroker.NoLostMessages
