import MessageBroker.RunInvariants

namespace MessageBroker.Recipients

open ByteStrings WireMessages MessageStore ThreadPools BrokerState ServerJobs StoreInvariant
  OperationEffects ThreadViews SharedInvariant ServerOutlines RunInvariants

variable {names : Set Bytes} {cfg : Config} {metrics : Option Metrics} {S : State} {w w' : World}
  {i : ℕ} {j : Job} {o : Op} {ch : Choice} {r : o.Res} {s : ℕ} {c : Copy} {row : Row}

def registers : Op → Option Bytes
  | .newSession _ n => some n
  | _ => none

/-- The names that register or are addressed are among `names`, and a load of
pending replies for a name selects only rows stored for that name. -/
def LoadsOwnReplies (names : Set Bytes) (S : State) (l : Step) : Prop :=
  S.OnNext registers (fun _ _ n ↦ n ∈ names) l ∧
  S.OnNext saves (fun _ _ c ↦ c.source = none → c.accepted ∈ names) l ∧
  S.OnNext loadsReplies (fun _ _ n ↦
    ∀ r ∈ S.world.db.messages, S.world.db.isPendingReplyFor n r → r.destination = .of n) l

instance [DecidablePred (· ∈ names)] (S : State) (l : Step) : Decidable (LoadsOwnReplies names S l) := by
  unfold LoadsOwnReplies
  infer_instance

/-- Every row, queue entry and hand-over keeps to the destination under which
the message was accepted. -/
structure Addressed (names : Set Bytes) (w : World) : Prop where
  rows : ∀ row ∈ w.db.messages, row.accepted ∈ names ∧ row.destination = .of row.accepted
  sessions : ∀ s < w.nextSession, (w.sessions s).name ∈ names
  queues : ∀ s, ∀ c ∈ (w.sessions s).outgoingQueue, c.accepted = (w.sessions s).name
  replies : Replies (fun n row ↦ row.destination = .of n) w
  handed : Always (fun e w ↦ ∀ s c, hands e.op = some (s, c) →
    s < w.nextSession ∧ c.accepted = (w.sessions s).name) w

theorem Addressed.handOver (hnames : Set.InjOn CText.of names) (h : Addressed names w)
    (hc : Consistent w) (ho : HandOver i j w s c) : c.accepted = (w.sessions s).name := by
  cases hsource : c.source with
  | none => exact (ho.authentic.accepted hsource).trans (ho.name hsource)
  | some id =>
    obtain ⟨row, hrow, hid, hcar⟩ := ho.authentic.row id hsource
    obtain ⟨hmem, hdest⟩ := h.rows row hrow
    have hlt := hc.lt_of_pointer ho.pointer
    have hname : row.destination = .of (w.sessions s).name := by
      rcases ho.addressed id hsource with heq | hreply
      · exact hcar.records.destination.trans heq
      · obtain ⟨row', hrow', hid', hdest'⟩ := h.replies i _ hreply
        obtain rfl := id_inj hc.store hrow hrow' (hid.trans hid'.symm)
        exact hdest'
    rw [← hcar.accepted]
    exact hnames hmem (h.sessions s hlt) (hdest.symm.trans hname)

theorem addressed_rows (hp : Performs cfg (LoadsOwnReplies names) S i j o ch r w')
    (h : Addressed names S.world) :
    ∀ row ∈ w'.db.messages, row.accepted ∈ names ∧ row.destination = .of row.accepted := by
  intro row hrow
  rcases rowStep hp.exec hrow with hrow | hrow
  · exact h.rows row hrow
  · cases hrow with
    | delivered r₀ hr₀ heq | sent r₀ hr₀ heq | pending r₀ hr₀ heq =>
      rw [heq]
      exact h.rows r₀ hr₀
    | saved c hop heq =>
      subst hop heq
      obtain ⟨-, hin | ⟨s, c₀, hs, -, hhead, rfl, -⟩⟩ := hp.allowed
      · have hok := hp.ok.2.1.meets hp.nextOp rfl
        exact ⟨hok hin.source, congrArg CText.of hin.accepted.symm⟩
      · have hacc := h.queues s c₀ (List.mem_of_mem_head? hhead)
        exact ⟨hacc ▸ h.sessions s hs, congrArg CText.of hacc.symm⟩

theorem addressed_sessions (hp : Performs cfg (LoadsOwnReplies names) S i j o ch r w')
    (h : Addressed names S.world) : ∀ s < w'.nextSession, (w'.sessions s).name ∈ names := by
  intro s hs
  by_cases hlt : s < S.world.nextSession
  · rw [hp.grows.name s hlt]
    exact h.sessions s hlt
  · cases o with
    | newSession identity n =>
      obtain ⟨-, hnext, -, hnew⟩ := exec_newSession hp.exec
      obtain rfl : s = S.world.nextSession := by omega
      rw [hnew]
      exact hp.ok.1.meets hp.nextOp rfl
    | _ =>
      rw [(exec_frame hp.exec).nextSession (by simp [writes])] at hs
      exact absurd hs hlt

theorem addressed_queues (hnames : Set.InjOn CText.of names)
    (hp : Performs cfg (LoadsOwnReplies names) S i j o ch r w') (h : Addressed names S.world) :
    ∀ s, ∀ c ∈ (w'.sessions s).outgoingQueue, c.accepted = (w'.sessions s).name := by
  intro s c hc
  have frame (hq : .queues ∉ writes o) (ha : .allocation ∉ writes o) :
      c.accepted = (w'.sessions s).name := by
    rw [(exec_frame hp.exec).name (by simp [ha])]
    exact h.queues s c ((exec_frame hp.exec).queues (by simp [hq]) s ▸ hc)
  cases o with
  | pushQueue s' c' =>
    rw [(exec_frame hp.exec).name (by simp [writes])]
    rw [exec_pushQueue hp.exec s] at hc
    split at hc
    · next hs =>
      subst hs
      rcases List.mem_append.mp hc with hc | hc
      · exact h.queues s c hc
      · rw [List.mem_singleton.mp hc]
        exact h.handOver hnames hp.inv hp.allowed.2.2
    · exact h.queues s c hc
  | popQueue s' =>
    rw [(exec_frame hp.exec).name (by simp [writes])]
    rw [exec_popQueue hp.exec s] at hc
    split at hc
    · exact h.queues s c (List.mem_of_mem_tail hc)
    · exact h.queues s c hc
  | newSession identity n =>
    obtain ⟨-, -, hne, hnew⟩ := exec_newSession hp.exec
    by_cases hs : s = S.world.nextSession
    · rw [hs, hnew] at hc
      cases hc
    · rw [hne s hs] at hc ⊢
      exact h.queues s c hc
  | _ => exact frame (by simp [writes]) (by simp [writes])

theorem addressed_replies (hp : Performs cfg (LoadsOwnReplies names) S i j o ch r w')
    (h : Addressed names S.world) : Replies (fun n row ↦ row.destination = .of n) w' := by
  refine replies_step h.replies hp.grows.db hp.exec (fun _ _ _ hq ↦ hq) fun n hn ↦ ?_
  subst hn
  exact hp.ok.2.2.meets hp.nextOp rfl

theorem addressed_handed (hnames : Set.InjOn CText.of names)
    (hp : Performs cfg (LoadsOwnReplies names) S i j o ch r w') (h : Addressed names S.world) :
    Always (fun e w ↦ ∀ s c, hands e.op = some (s, c) →
      s < w.nextSession ∧ c.accepted = (w.sessions s).name) w' := by
  have later (s : ℕ) (c : Copy) (hs : s < S.world.nextSession ∧
      c.accepted = (S.world.sessions s).name) :
      s < w'.nextSession ∧ c.accepted = (w'.sessions s).name :=
    ⟨Nat.lt_of_lt_of_le hs.1 hp.grows.sessions, hs.2.trans (hp.grows.name s hs.1).symm⟩
  refine always_step h.handed hp.exec (fun e hq s c he ↦ later s c (hq s c he)) fun s c ho ↦ ?_
  have hover := allowed_hands hp.allowed ho
  exact later s c ⟨hp.inv.lt_of_pointer hover.pointer, h.handOver hnames hp.inv hover⟩

theorem addressed_initial : Addressed names (initial metrics) := by
  constructor <;> simp [initial, Replies, Always, account]

/-- Whatever is handed to a session was accepted for its name, as long as no two
names of the run agree up to their first NUL and no registration loads a reply
that is stored for another name. -/
theorem handed_to_destination (hnames : Set.InjOn CText.of names)
    (h : (broker cfg).Reachable (LoadsOwnReplies names) (initial metrics) S) {e : Event}
    (he : e ∈ S.world.log) (hh : hands e.op = some (s, c)) :
    c.accepted = (S.world.sessions s).name := by
  have hP : Addressed names S.world := by
    refine run_invariant addressed_initial (fun w _ _ _ h ↦ ?_) (fun hp h ↦ ?_) h
    · exact ⟨h.rows, h.sessions, h.queues, h.replies, h.handed⟩
    · exact ⟨addressed_rows hp h, addressed_sessions hp h, addressed_queues hnames hp h,
        addressed_replies hp h, addressed_handed hnames hp h⟩
  exact (hP.handed e he s c hh).2

def recipients (w : World) : List (Bytes × Bytes) :=
  (w.log.filterMap fun e ↦ hands e.op).map fun p ↦ ((w.sessions p.1).name, p.2.accepted)

theorem exists_handed {n d : Bytes} (h : (n, d) ∈ recipients w) : ∃ e ∈ w.log, ∃ s c,
    hands e.op = some (s, c) ∧ (w.sessions s).name = n ∧ c.accepted = d := by
  obtain ⟨⟨s, c⟩, hm, heq⟩ := List.mem_map.mp h
  obtain ⟨e, he, hh⟩ := List.mem_filterMap.mp hm
  obtain ⟨hn, hd⟩ := Prod.mk.inj heq
  exact ⟨e, he, s, c, hh, hn, hd⟩

/-- Bob registers and gets the message that alice sent before. -/
theorem handed_to_destination_offline : ∃ S s c, ∃ e ∈ S.world.log,
    (broker {}).Reachable (LoadsOwnReplies {[97], [98]}) (initial none) S ∧
      hands e.op = some (s, c) ∧ c.accepted = (S.world.sessions s).name := by
  have hrun : ((broker {}).runs (LoadsOwnReplies {[97], [98]}) (inTurn 0 [
      (arrival { sender := [97], destination := [98] }, 8),
      (arrival { type := .register, sender := [98] }, 43)]) ⟨initial none, []⟩).map
        (fun S ↦ recipients S.world) = some [([98], [98])] := by decide +kernel
  obtain ⟨S, hS, hv⟩ := exists_run hrun
  obtain ⟨e, he, s, c, hh, -, -⟩ := exists_handed (hv ▸ List.mem_singleton_self _)
  have hnames : Set.InjOn CText.of {[97], [98]} := Set.injOn_pair.mpr (by decide)
  exact ⟨S, s, c, e, he, hS, hh, handed_to_destination hnames hS he hh⟩

/-- Alice and carol use one correlation id, and the reply to alice is still
pending when carol registers. -/
theorem reply_handed_to_other_client : ¬ ∀ cfg metrics S s c, ∀ e ∈ S.world.log,
    (broker cfg).Reachable (fun _ _ ↦ True) (initial metrics) S → hands e.op = some (s, c) →
      c.accepted = (S.world.sessions s).name := by
  intro h
  have hrun : ((broker {}).runs (fun _ _ ↦ True) (inTurn 0 [
      (arrival { flags := flagNeedsReply, correlationId := 7, sender := [97],
                 destination := [98] }, 9),
      (arrival { flags := flagNeedsReply, correlationId := 7, sender := [99],
                 destination := [98] }, 9),
      (arrival { type := .reply, correlationId := 7, sender := [98], destination := [97] }, 10),
      (arrival { type := .register, sender := [99] }, 39)]) ⟨initial none, []⟩).map
        (fun S ↦ recipients S.world) = some [([99], [97])] := by decide +kernel
  obtain ⟨S, hS, hv⟩ := exists_run hrun
  obtain ⟨e, he, s, c, hh, hn, hd⟩ := exists_handed (hv ▸ List.mem_singleton_self _)
  have hsame := h {} none S s c e he hS hh
  rw [hn, hd] at hsame
  revert hsame
  decide

end MessageBroker.Recipients
