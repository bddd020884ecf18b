import MessageBroker.AckOutcomes

namespace MessageBroker.AckResolution

open ByteStrings WireMessages OrderedSelection MessageStore ProgramTrees SequentialRuns ThreadPools BrokerState
  MessageHandlers ServerJobs StoreInvariant ServerOutlines RunInvariants CorrelationTable IsolatedRuns
  AcceptBlocks AckOutcomes

variable {cfg : Config} {ok : State → Step → Prop} {metrics : Option Metrics} {S : State} {i : ℕ} {j : Job}
  {env : Op → Choice} {w w' : World} {msg : Message} {identity : Bytes} {id : ℕ} {row row' m : Row}
  {k : Correlation} {db : Database}

def candidates (db : Database) (corr : UInt64) : List Correlation :=
  db.correlations.filter (·.correlationId = corr.toInt64)

def addressedTo (db : Database) (corr : UInt64) (d : Bytes) : List Correlation :=
  db.correlations.filter fun k ↦ k.correlationId = corr.toInt64 ∧
    ∃ r ∈ db.messages, r.id = k.messageId ∧ r.destination = .of d

/-- One of the newest rows of `correlations` with an id. -/
def Newest (db : Database) (corr : UInt64) (k : Correlation) : Prop :=
  Greatest (·.createdAt) (candidates db corr) k

/-- A row of `correlations` that one of the two lookups for an acknowledgement may return. -/
def Answerable (db : Database) (msg : Message) (k : Correlation) : Prop :=
  msg.correlationId ≠ 0 ∧ (Newest db msg.correlationId k ∨
    Greatest (·.createdAt) (addressedTo db msg.correlationId msg.sender) k)

theorem messageId_pos (hdb : Sound db) (hk : k ∈ db.correlations) : k.messageId ≠ 0 := by
  obtain ⟨-, r, hr, hid, -⟩ := hdb.correlations k hk
  have hpos := (hdb.bound r hr).1
  omega

theorem find_cases {l : List Correlation} {tie : ℕ → ℕ} {failed : Bool} (hid : id ≠ 0)
    (h : (if failed then 0 else ((latest (·.createdAt) (fun k ↦ tie k.id) l).map (·.messageId)).getD 0) = id) :
    ∃ k, Greatest (·.createdAt) l k ∧ k.messageId = id := by
  cases failed with
  | true => exact absurd h.symm hid
  | false =>
    cases hl : latest (·.createdAt) (fun k ↦ tie k.id) l with
    | none =>
      rw [hl] at h
      exact absurd h.symm hid
    | some k =>
      rw [hl] at h
      exact ⟨k, greatest_of_latest hl, h⟩

theorem answerable_of_marks (h : Marks env db msg id) : ∃ k, Answerable db msg k ∧ k.messageId = id := by
  have hfound := h.found
  by_cases hfirst : (if (env (.findMessageIdByCorrelation msg.correlationId)).dbError then 0
    else db.findMessageIdByCorrelation
      (env (.findMessageIdByCorrelation msg.correlationId)).tie msg.correlationId) = 0
  · rw [lookedUp, if_pos hfirst] at hfound
    obtain ⟨k, hk, hid⟩ := find_cases h.exists_row hfound
    exact ⟨k, ⟨h.nonzero, .inr hk⟩, hid⟩
  · rw [lookedUp, if_neg hfirst] at hfound
    obtain ⟨k, hk, hid⟩ := find_cases h.exists_row hfound
    exact ⟨k, ⟨h.nonzero, .inl hk⟩, hid⟩

/-- The environment in which the lookups return certain rows, and in which the
first lookup of the message fails if `skip`. -/
def picking (owner message : ℕ → ℕ) (skip : Bool) : Op → Choice
  | .findOriginalSenderByCorrelation _ => { tie := owner }
  | .findMessageIdByCorrelation _ => { dbError := skip, tie := message }
  | .findMessageIdByCorrelationAndDestination _ _ => { tie := message }
  | _ => {}

theorem exists_pick (hn : Numbered db) {l : List Correlation} (hl : l.Sublist db.correlations)
    (hk : Greatest (·.createdAt) l k) :
    ∃ t : ℕ → ℕ, latest (·.createdAt) (fun k ↦ t k.id) l = some k :=
  exists_latest (fun _ hb h ↦ List.inj_on_of_nodup_map hn.ids (hl.subset hb) (hl.subset hk.1) h) hk

theorem exists_newest (hdb : Sound db) (hn : Numbered db) (hk : Newest db msg.correlationId k) (owner : ℕ → ℕ) :
    ∃ t, lookedUp (picking owner t false) db msg = k.messageId := by
  obtain ⟨t, ht⟩ := exists_pick hn List.filter_sublist hk
  refine ⟨t, ?_⟩
  have hfind : db.findMessageIdByCorrelation t msg.correlationId = k.messageId := by
    rw [Database.findMessageIdByCorrelation, Database.latestCorrelation]
    exact congrArg (fun x ↦ (x.map (·.messageId)).getD 0) ht
  have hne := messageId_pos hdb (List.mem_filter.mp hk.1).1
  simp only [lookedUp, picking, Bool.false_eq_true, if_false, hfind, if_neg hne]

theorem exists_lookedUp (hdb : Sound db) (hn : Numbered db) (hk : Answerable db msg k) (owner : ℕ → ℕ) :
    ∃ t skip, lookedUp (picking owner t skip) db msg = k.messageId := by
  rcases hk.2 with hk | hk
  · obtain ⟨t, ht⟩ := exists_newest hdb hn hk owner
    exact ⟨t, false, ht⟩
  · obtain ⟨t, ht⟩ := exists_pick hn List.filter_sublist hk
    refine ⟨t, true, ?_⟩
    have hfind : db.findMessageIdByCorrelationAndDestination t msg.correlationId msg.sender = k.messageId :=
      congrArg (fun x ↦ (x.map (·.messageId)).getD 0) ht
    simp only [lookedUp, picking, if_true, Bool.false_eq_true, if_false, hfind]

/-- A row that awaits its acknowledgement. -/
def Awaiting (row : Row) : Prop := row.needsAck = true ∧ row.status = .sent

theorem needsAck_iff (hdb : Sound db) (hrow : row ∈ db.messages) :
    db.needsAck row.id = true ↔ Awaiting row := by
  rw [Database.needsAck, row?_eq hdb hrow, Option.any_some, Bool.and_eq_true, decide_eq_true_iff]
  rfl

theorem marks_of_picking {owner t : ℕ → ℕ} {skip : Bool} (hdb : Sound db) (hk : Answerable db msg k)
    (ht : lookedUp (picking owner t skip) db msg = k.messageId) (hm : m ∈ db.messages) (hid : m.id = k.messageId)
    (hawait : Awaiting m) : Marks (picking owner t skip) db msg m.id := by
  have hpos := (hdb.bound m hm).1
  exact ⟨hk.1, ht.trans hid.symm, by omega, ⟨rfl, (needsAck_iff hdb hm).mpr hawait⟩, rfl⟩

section

variable (h : Outcome env msg w w') (hdb : Sound w.db)

include h

theorem messages_of_marks (hm : Marks env w.db msg id) : ∃ rows,
    w'.db.messages = (w.db.markDelivered id).messages ++ rows ∧ ∀ r ∈ rows, r.id = w.db.lastMessageId + 1 := by
  by_cases howner : originalSender env w msg = []
  · exact ⟨[], by rw [(h.unowned id hm howner).1, List.append_nil]; rfl, by simp⟩
  · obtain ⟨rows, sends, hn⟩ := h.owned id hm howner
    exact ⟨rows, hn.messages, fun r hr ↦ (hn.stored r hr).1⟩

include hdb

theorem row_of_outcome (hrow : row ∈ w.db.messages) (hrow' : row' ∈ w'.db.messages) (hid : row'.id = row.id) :
    (Marks env w.db msg row.id ∧ row'.status = .delivered) ∨ ¬ Marks env w.db msg row.id ∧ row' = row := by
  by_cases hmarks : ∃ id, Marks env w.db msg id
  · obtain ⟨id, hm⟩ := hmarks
    obtain ⟨rows, hmsg, hrows⟩ := messages_of_marks h hm
    rw [hmsg] at hrow'
    rcases List.mem_append.mp hrow' with hrow' | hrow'
    · obtain ⟨r, hr, rfl⟩ := List.mem_map.mp hrow'
      by_cases hr' : r.id = id
      · rw [if_pos ⟨hr', rfl⟩] at hid ⊢
        have hmarks : Marks env w.db msg row.id := by
          have heq : row.id = id := hid.symm.trans hr'
          exact heq ▸ hm
        exact .inl ⟨hmarks, rfl⟩
      · rw [if_neg fun h ↦ hr' h.1] at hid ⊢
        obtain rfl := id_inj hdb hr hrow hid
        exact .inr ⟨fun hm' ↦ hr' (hm'.found.symm.trans hm.found), rfl⟩
    · have hbound := (hdb.bound row hrow).2
      have hnew := hrows row' hrow'
      omega
  · have hno : ∀ id, ¬ Marks env w.db msg id := fun id hm ↦ hmarks ⟨id, hm⟩
    rw [(h.ignored hno).1] at hrow'
    exact .inr ⟨hno _, id_inj hdb hrow' hrow hid⟩

omit hdb in
theorem status_of_marks (hrow : row ∈ w.db.messages) (hm : Marks env w.db msg row.id) :
    ∃ row' ∈ w'.db.messages, row'.id = row.id ∧ row'.status = .delivered := by
  obtain ⟨rows, hmsg, -⟩ := messages_of_marks h hm
  rw [hmsg]
  exact ⟨_, List.mem_append_left _ (List.mem_map.mpr ⟨row, hrow, if_pos ⟨rfl, rfl⟩⟩), rfl, rfl⟩

end

def Delivered (w : World) (id : ℕ) : Prop := ∃ r ∈ w.db.messages, r.id = id ∧ r.status = .delivered

theorem handle_ack (hmsg : msg.type = .ack) : handle msg identity = ackHandler msg := by
  unfold handle
  rw [hmsg]

theorem candidates_of_newest {corr : UInt64} (h : candidates db corr ≠ []) (env : Op → Choice) :
    ∃ k, Newest db corr k ∧
      db.findMessageIdByCorrelation (env (.findMessageIdByCorrelation corr)).tie corr = k.messageId := by
  rw [Database.findMessageIdByCorrelation, Database.latestCorrelation]
  cases hl : latest (·.createdAt) (fun k ↦ (env (.findMessageIdByCorrelation corr)).tie k.id)
      (db.correlations.filter (·.correlationId = corr.toInt64)) with
  | none => exact absurd (latest_eq_none.mp hl) h
  | some k => exact ⟨k, greatest_of_latest hl, rfl⟩

theorem lookedUp_unfailing (msg : Message) (hdb : Sound db) (henv : Unfailing env) :
    (candidates db msg.correlationId = [] ∧ lookedUp env db msg = 0) ∨
      ∃ k, Newest db msg.correlationId k ∧ lookedUp env db msg = k.messageId := by
  by_cases hc : candidates db msg.correlationId = []
  · have haddr : addressedTo db msg.correlationId msg.sender = [] := by
      refine List.eq_nil_iff_forall_not_mem.mpr fun k hk ↦ ?_
      obtain ⟨hk, hsel⟩ := List.mem_filter.mp hk
      have hmem : k ∈ candidates db msg.correlationId :=
        List.mem_filter.mpr ⟨hk, decide_eq_true (of_decide_eq_true hsel).1⟩
      rw [hc] at hmem
      cases hmem
    refine .inl ⟨hc, ?_⟩
    unfold candidates at hc
    unfold addressedTo at haddr
    simp only [lookedUp, henv _, Bool.false_eq_true, if_false, Database.findMessageIdByCorrelation,
      Database.latestCorrelation, Database.findMessageIdByCorrelationAndDestination, hc, haddr]
    rfl
  · obtain ⟨k, hk, hfind⟩ := candidates_of_newest hc env
    have hne := messageId_pos hdb (List.mem_filter.mp hk.1).1
    refine .inr ⟨k, hk, ?_⟩
    simp only [lookedUp, henv _, Bool.false_eq_true, if_false, hfind, if_neg hne]

/-- The row that an acknowledgement is for is marked exactly when every newest row
of `correlations` for its id refers to it. -/
theorem ack_complete_iff (hS : (broker cfg).Reachable ok (initial metrics) S) (ht : S.world.terminated = false)
    (hfree : S.world.registryOwner = none) (hrow : row ∈ S.world.db.messages)
    (htype : row.message.type = .message) (hack : row.needsAck = true) (hsent : row.status = .sent)
    (hmsg : msg.type = .ack) (hc : msg.correlationId ≠ 0) (hcorr : row.correlationId = msg.correlationId.toInt64)
    (hdest : row.destination.val = msg.sender) :
    (∀ env, Unfailing env → Ends (alone i j env) (handle msg identity) S.world fun _ w' ↦ Delivered w' row.id) ↔
      candidates S.world.db msg.correlationId ≠ [] ∧
        ∀ k, Newest S.world.db msg.correlationId k → k.messageId = row.id := by
  have hdb := (holds_of_reachable hS).inv.store
  have hn := numbered_of_reachable hS
  rw [handle_ack hmsg]
  have delivered {env w'} (hout : Outcome env msg S.world w') (hd : Delivered w' row.id) :
      Marks env S.world.db msg row.id := by
    obtain ⟨row', hrow', hid, hst⟩ := hd
    obtain ⟨hm, -⟩ | ⟨-, rfl⟩ := row_of_outcome hout hdb hrow hrow' hid
    · exact hm
    · cases hsent.symm.trans hst
  have marks (env) (h : Ends (alone i j env) (ackHandler msg) S.world fun _ w' ↦ Delivered w' row.id) :
      Marks env S.world.db msg row.id := by
    obtain ⟨-, w', -, hd, hout⟩ := h.and (ends_ackHandler ht hfree)
    exact delivered hout hd
  refine ⟨fun h ↦ ⟨?_, fun k hk ↦ ?_⟩, fun ⟨hne, hall⟩ env henv ↦ ?_⟩
  · have hm := marks (fun _ ↦ {}) (h _ fun _ ↦ rfl)
    intro hnil
    obtain ⟨-, hzero⟩ | ⟨k, hk, -⟩ :=
      lookedUp_unfailing msg hdb (show Unfailing fun _ ↦ {} from fun _ ↦ rfl)
    · exact hm.exists_row (hm.found.symm.trans hzero)
    · have hmem := hk.1
      rw [hnil] at hmem
      cases hmem
  · obtain ⟨t, ht'⟩ := exists_newest hdb hn hk fun n ↦ n
    have hm := marks _ (h (picking (fun n ↦ n) t false) fun o ↦ by cases o <;> rfl)
    exact ht'.symm.trans hm.found
  · obtain ⟨hnil, -⟩ | ⟨k, hk, hfound⟩ := lookedUp_unfailing msg hdb henv
    · exact absurd hnil hne
    · have hm : Marks env S.world.db msg row.id := by
        have hpos := (hdb.bound row hrow).1
        exact ⟨hc, hfound.trans (hall k hk), by omega,
          ⟨henv _, (needsAck_iff hdb hrow).mpr ⟨hack, hsent⟩⟩, henv _⟩
      exact (ends_ackHandler ht hfree).mono fun _ w' hout ↦ status_of_marks hout hrow hm

def Changed (w w' : World) (row : Row) : Prop :=
  row ∈ w.db.messages ∧ ∃ row' ∈ w'.db.messages, row'.id = row.id ∧ row'.status ≠ row.status

theorem changed_iff (h : Outcome env msg w w') (hdb : Sound w.db) (hrow : row ∈ w.db.messages) :
    Changed w w' row ↔ Marks env w.db msg row.id := by
  refine ⟨fun hchanged ↦ ?_, fun hm ↦ ⟨hrow, ?_⟩⟩
  · obtain ⟨-, row', hrow', hid, hst⟩ := hchanged
    obtain ⟨hm, -⟩ | ⟨-, rfl⟩ := row_of_outcome h hdb hrow hrow' hid
    · exact hm
    · exact absurd rfl hst
  · obtain ⟨row', hrow', hid, hst⟩ := status_of_marks h hrow hm
    refine ⟨row', hrow', hid, ?_⟩
    rw [hst, ((needsAck_iff hdb hrow).mp hm.answer.2).2]
    simp

theorem correlationId_of_answerable (hdb : Sound db) (hk : Answerable db msg k) (hrow : row ∈ db.messages)
    (hid : k.messageId = row.id) : row.correlationId = msg.correlationId.toInt64 := by
  have hmem : k ∈ db.correlations ∧ k.correlationId = msg.correlationId.toInt64 := by
    rcases hk.2 with hk | hk
    · obtain ⟨hmem, hcorr⟩ := List.mem_filter.mp hk.1
      exact ⟨hmem, of_decide_eq_true hcorr⟩
    · obtain ⟨hmem, hcorr⟩ := List.mem_filter.mp hk.1
      exact ⟨hmem, (of_decide_eq_true hcorr).1⟩
  obtain ⟨-, r, hr, hid', hcorr⟩ := hdb.correlations k hmem.1
  rw [id_inj hdb hrow hr (hid.symm.trans hid'.symm), hcorr, hmem.2]

/-- An acknowledgement changes at most one row, one of its sender and its id,
exactly when no row of `correlations` that a lookup may return refers to a row
that awaits the acknowledgement of another client. -/
theorem ack_sound_iff (hS : (broker cfg).Reachable ok (initial metrics) S) (ht : S.world.terminated = false)
    (hfree : S.world.registryOwner = none) (hmsg : msg.type = .ack) :
    (∀ env, Ends (alone i j env) (handle msg identity) S.world fun _ w' ↦
      (∀ r₁ r₂, Changed S.world w' r₁ → Changed S.world w' r₂ → r₁ = r₂) ∧
      ∀ r, Changed S.world w' r → r.destination.val = msg.sender ∧ r.correlationId = msg.correlationId.toInt64) ↔
    ∀ k, Answerable S.world.db msg k → ∀ m ∈ S.world.db.messages, m.id = k.messageId → Awaiting m →
      m.destination.val = msg.sender := by
  have hdb := (holds_of_reachable hS).inv.store
  have hn := numbered_of_reachable hS
  rw [handle_ack hmsg]
  refine ⟨fun h k hk m hm hid hawait ↦ ?_, fun h env ↦ ?_⟩
  · obtain ⟨t, skip, hfound⟩ := exists_lookedUp hdb hn hk fun n ↦ n
    obtain ⟨-, w', -, ⟨-, hsound⟩, hout⟩ := (h (picking (fun n ↦ n) t skip)).and (ends_ackHandler ht hfree)
    exact (hsound m ((changed_iff hout hdb hm).mpr (marks_of_picking hdb hk hfound hm hid hawait))).1
  · refine (ends_ackHandler ht hfree).mono fun _ w' hout ↦ ⟨fun r₁ r₂ h₁ h₂ ↦ ?_, fun r hr ↦ ?_⟩
    · have hm₁ := (changed_iff hout hdb h₁.1).mp h₁
      have hm₂ := (changed_iff hout hdb h₂.1).mp h₂
      exact id_inj hdb h₁.1 h₂.1 (hm₁.found.symm.trans hm₂.found)
    · have hm := (changed_iff hout hdb hr.1).mp hr
      obtain ⟨k, hk, hid⟩ := answerable_of_marks hm
      exact ⟨h k hk r hr.1 hid.symm ((needsAck_iff hdb hr.1).mp hm.answer.2),
        correlationId_of_answerable hdb hk hr.1 hid⟩

/-- The notification that `acker` has acknowledged row `m`. -/
structure NotificationFor (m : Row) (acker : Bytes) (n : Message) : Prop where
  type : n.type = .ack
  sender : n.sender = acker
  destination : n.destination = m.sender.val
  correlationId : n.correlationId.toInt64 = m.correlationId

/-- Whatever has been stored or handed over is the notification for row `m`. -/
def Notifies (m : Row) (acker : Bytes) (w w' : World) : Prop :=
  (∀ r ∈ w'.db.messages, (∀ r₀ ∈ w.db.messages, r₀.id ≠ r.id) → ∃ n, NotificationFor m acker n ∧ Records r n) ∧
    ∃ sends, w'.pendingSends = w.pendingSends ++ sends ∧ ∀ x ∈ sends, NotificationFor m acker x.copy.msg

theorem notifies_of_marks (h : Outcome env msg w w') (hm : Marks env w.db msg m.id)
    (hcorr : m.correlationId = msg.correlationId.toInt64)
    (howner : originalSender env w msg = m.sender.val ∨ originalSender env w msg = []) :
    Notifies m msg.sender w w' := by
  have old {r : Row} (hr : r ∈ (w.db.markDelivered m.id).messages) (hnew : ∀ r₀ ∈ w.db.messages, r₀.id ≠ r.id) :
      False := by
    obtain ⟨r₀, hr₀, rfl | ⟨hid, -, rfl⟩⟩ := mem_setStatus hr
    · exact hnew _ hr₀ rfl
    · exact hnew _ hr₀ rfl
  by_cases hempty : originalSender env w msg = []
  · obtain ⟨hmsg, hsends⟩ := h.unowned _ hm hempty
    refine ⟨fun r hr hnew ↦ ?_, [], by rw [hsends, List.append_nil], by simp⟩
    rw [hmsg] at hr
    exact absurd (old hr hnew) not_false
  · obtain ⟨rows, sends, hn⟩ := h.owned _ hm hempty
    have hfor : NotificationFor m msg.sender
        (ackNotification msg.sender (originalSender env w msg) msg.correlationId) :=
      ⟨rfl, rfl, howner.resolve_right hempty, hcorr.symm⟩
    refine ⟨fun r hr hnew ↦ ?_, sends, hn.pendingSends, fun x hx ↦ by rwa [hn.sent x hx]⟩
    rw [hn.messages] at hr
    rcases List.mem_append.mp hr with hr | hr
    · exact absurd (old hr hnew) not_false
    · exact ⟨_, hfor, (hn.stored r hr).2⟩

theorem originalSender_cases (env : Op → Choice) (w : World) (msg : Message) :
    originalSender env w msg = [] ∨
      ∃ k, Newest w.db msg.correlationId k ∧ originalSender env w msg = k.originalSender.val := by
  rw [originalSender]
  split
  · exact .inl rfl
  · rw [Database.findOriginalSenderByCorrelation, Database.latestCorrelation]
    cases hl : latest (·.createdAt)
        (fun k ↦ (env (.findOriginalSenderByCorrelation msg.correlationId)).tie k.id)
        (w.db.correlations.filter (·.correlationId = msg.correlationId.toInt64)) with
    | none => exact .inl rfl
    | some k => exact .inr ⟨k, greatest_of_latest hl, rfl⟩

theorem exists_owner (hn : Numbered w.db) (hk : Newest w.db msg.correlationId k) :
    ∃ t, ∀ message skip, originalSender (picking t message skip) w msg = k.originalSender.val := by
  obtain ⟨t, ht⟩ := exists_pick hn List.filter_sublist hk
  exact ⟨t, fun _ _ ↦ congrArg (fun x ↦ (x.map (·.originalSender.val)).getD []) ht⟩

theorem destination_of_notifies {rows : List Row} {sends : List PendingSend} {owner : CText}
    (hdb : Sound w.db) (h : Notifies m msg.sender w w')
    (hn : Notice env (ackNotification msg.sender owner.val msg.correlationId) (marked id w) w' rows sends)
    (hone : rows.length + sends.length = 1) : owner = m.sender := by
  obtain ⟨hrows, sends', hsends, hfor⟩ := h
  cases rows with
  | cons r rows =>
    obtain ⟨hid, hrec⟩ := hn.stored r (List.mem_cons_self ..)
    have hr : r ∈ w'.db.messages := by
      rw [hn.messages]
      exact List.mem_append_right _ (List.mem_cons_self ..)
    have hnew : ∀ r₀ ∈ w.db.messages, r₀.id ≠ r.id := by
      intro r₀ hr₀ heq
      have hbound := (hdb.bound r₀ hr₀).2
      have hlast : r.id = w.db.lastMessageId + 1 := hid
      omega
    obtain ⟨n, hn', hrec'⟩ := hrows r hr hnew
    have hdest : CText.of n.destination = CText.of owner.val := hrec'.destination.symm.trans hrec.destination
    rw [hn'.destination, CText.of_val, CText.of_val] at hdest
    exact hdest.symm
  | nil =>
    cases sends with
    | nil => cases hone
    | cons x sends =>
      have heq : x :: sends = sends' := List.append_cancel_left (hn.pendingSends.symm.trans hsends)
      have hx := hfor x (heq ▸ List.mem_cons_self ..)
      rw [hn.sent x (List.mem_cons_self ..)] at hx
      exact Subtype.ext hx.destination

/-- The notification for a row goes to its stored sender exactly when the newest
row of `correlations` for the id names that sender, or nobody. -/
theorem notification_iff (hS : (broker cfg).Reachable ok (initial metrics) S) (ht : S.world.terminated = false)
    (hfree : S.world.registryOwner = none) (hmsg : msg.type = .ack) (hfits : msg.Fits) :
    (∀ env, Ends (alone i j env) (handle msg identity) S.world fun _ w' ↦
      ∀ m, Changed S.world w' m → Notifies m msg.sender S.world w') ↔
    ∀ k, Answerable S.world.db msg k → ∀ m ∈ S.world.db.messages, m.id = k.messageId → Awaiting m →
      ∀ k', Newest S.world.db msg.correlationId k' → k'.originalSender = m.sender ∨
        k'.originalSender.val = [] := by
  have hdb := (holds_of_reachable hS).inv.store
  have hn := numbered_of_reachable hS
  rw [handle_ack hmsg]
  refine ⟨fun h k hk m hm hid hawait k' hk' ↦ ?_, fun h env ↦ ?_⟩
  · refine or_iff_not_imp_right.mpr fun hne ↦ ?_
    obtain ⟨t', howner⟩ := exists_owner hn hk'
    obtain ⟨t, skip, hfound⟩ := exists_lookedUp hdb hn hk t'
    obtain ⟨-, w', -, hnotifies, hout⟩ := (h (picking t' t skip)).and (ends_ackHandler ht hfree)
    have hmarks := marks_of_picking hdb hk hfound hm hid hawait
    obtain ⟨rows, sends, hnotice⟩ := hout.owned m.id hmarks (by rwa [howner])
    rw [howner] at hnotice
    refine destination_of_notifies hdb (hnotifies m ((changed_iff hout hdb hm).mpr hmarks)) hnotice
      (hnotice.once ⟨hfits.1, ?_, by simp [ackNotification]⟩ fun c ↦ rfl)
    exact (hdb.correlations k' (List.mem_filter.mp hk'.1).1).1
  · refine (ends_ackHandler ht hfree).mono fun _ w' hout m hm ↦ ?_
    have hmarks := (changed_iff hout hdb hm.1).mp hm
    obtain ⟨k, hk, hid⟩ := answerable_of_marks hmarks
    have hawait := (needsAck_iff hdb hm.1).mp hmarks.answer.2
    refine notifies_of_marks hout hmarks (correlationId_of_answerable hdb hk hm.1 hid) ?_
    rcases originalSender_cases env S.world msg with hempty | ⟨k', hk', howner⟩
    · exact .inr hempty
    · rw [howner]
      exact (h k hk m hm.1 hid.symm hawait k' hk').imp (congrArg Subtype.val) fun he ↦ he

def request : Message :=
  { flags := flagNeedsAck, correlationId := 7, sender := [97], destination := [98] }

def answer : Message := { type := .reply, flags := flagNeedsAck, correlationId := 7, sender := [98] }

def receipt (acker : Bytes) : Message := { type := .ack, correlationId := 7, sender := acker }

def requestRow : Row where
  id := 1
  type := 2
  flags := 2
  correlationId := 7
  sender := .of [97]
  destination := .of [98]
  payload := none
  status := .sent
  createdAt := 0
  source := none
  origin := 1
  accepted := [98]

def answerRow : Row :=
  { requestRow with
    id := 2, type := 3, sender := .of [98], destination := .of [97], origin := 2, accepted := [97] }

/-- What an acknowledgement leaves of the two rows, and whom it has told. -/
def settled (acker : Bytes) (w : World) : Option (List Row × List Message) :=
  (interp (alone 4 (arrival (receipt acker)) fun _ ↦ {}) (handle (receipt acker) acker) w).map fun r ↦
    (r.2.db.messages, (r.2.pendingSends.drop w.pendingSends.length).map (·.copy.msg))

/-- Alice has asked bob, who was there, and he has answered; both ask for an
acknowledgement. Either of the two acknowledges. -/
def Conversed (S : State) : Prop :=
  S.world.terminated = false ∧ S.world.registryOwner = none ∧ S.world.db.messages = [requestRow, answerRow] ∧
    settled [98] S.world =
      some ([requestRow, { answerRow with status := .delivered }], [ackNotification [98] [97] 7]) ∧
    settled [97] S.world =
      some ([requestRow, { answerRow with status := .delivered }], [ackNotification [97] [97] 7])

instance (S : State) : Decidable (Conversed S) := by
  unfold Conversed
  infer_instance

theorem exists_conversation : ∃ S, (broker {}).Reachable (fun _ _ ↦ True) (initial none) S ∧ Conversed S := by
  have hrun : ((broker {}).runs (fun _ _ ↦ True) (inTurn 0 [
      (arrival { type := .register, sender := [97] }, 31), (arrival { type := .register, sender := [98] }, 34),
      (arrival request, 20), (arrival answer, 20)]) ⟨initial none, []⟩).map (fun S ↦ decide (Conversed S)) =
      some true := by decide +kernel
  obtain ⟨S, hS, hv⟩ := exists_run hrun
  exact ⟨S, hS, of_decide_eq_true hv⟩

theorem ack_complete_iff_answered : ∃ S, Conversed S ∧
    ((∀ env, Unfailing env → Ends (alone 4 (arrival (receipt [98])) env) (handle (receipt [98]) [98]) S.world
        fun _ w' ↦ Delivered w' requestRow.id) ↔
      candidates S.world.db 7 ≠ [] ∧ ∀ k, Newest S.world.db 7 k → k.messageId = requestRow.id) := by
  obtain ⟨S, hS, hv⟩ := exists_conversation
  have hrow : requestRow ∈ S.world.db.messages := by simp [hv.2.2.1]
  have hreceipt : (receipt [98]).type = .ack := rfl
  exact ⟨S, hv, ack_complete_iff hS hv.1 hv.2.1 hrow rfl rfl rfl hreceipt (by decide) rfl rfl⟩

theorem ends_settled {acker : Bytes} {rows : List Row} {sent : List Message} {P : World → Prop}
    (h : Ends (alone 4 (arrival (receipt acker)) fun _ ↦ {}) (handle (receipt acker) acker) w fun _ w' ↦ P w')
    (hsettled : settled acker w = some (rows, sent)) :
    ∃ w', P w' ∧ w'.db.messages = rows ∧
      (w'.pendingSends.drop w.pendingSends.length).map (·.copy.msg) = sent := by
  obtain ⟨r, w', hrun, hP⟩ := h
  rw [settled, hrun] at hsettled
  cases hsettled
  exact ⟨w', hP, rfl, rfl⟩

/-- The answer has replaced the request in `correlations`, so that bob's
acknowledgement never reaches the request. -/
theorem request_unacknowledged : ¬ ∀ cfg metrics S row msg i j identity,
    (broker cfg).Reachable (fun _ _ ↦ True) (initial metrics) S → S.world.terminated = false →
      S.world.registryOwner = none → row ∈ S.world.db.messages → row.message.type = .message →
      row.needsAck = true → row.status = .sent → msg.type = .ack → msg.correlationId ≠ 0 →
      row.correlationId = msg.correlationId.toInt64 → row.destination.val = msg.sender →
        ∀ env, Unfailing env → Ends (alone i j env) (handle msg identity) S.world fun _ w' ↦
          Delivered w' row.id := by
  intro h
  obtain ⟨S, hS, hv⟩ := exists_conversation
  have hrow : requestRow ∈ S.world.db.messages := by simp [hv.2.2.1]
  have hends := h {} none S requestRow (receipt [98]) 4 (arrival (receipt [98])) [98] hS hv.1 hv.2.1 hrow
    rfl rfl rfl rfl (by decide) rfl rfl (fun _ ↦ {}) fun _ ↦ rfl
  obtain ⟨w', ⟨r, hr, hid, hst⟩, hrows, -⟩ := ends_settled hends hv.2.2.2.1
  rw [hrows] at hr
  rcases List.mem_cons.mp hr with rfl | hr
  · cases hst
  · rw [List.mem_singleton.mp hr] at hid
    cases hid

theorem ack_sound_iff_conversed : ∃ S, Conversed S ∧
    ((∀ env, Ends (alone 4 (arrival (receipt [97])) env) (handle (receipt [97]) [97]) S.world fun _ w' ↦
      (∀ r₁ r₂, Changed S.world w' r₁ → Changed S.world w' r₂ → r₁ = r₂) ∧
      ∀ r, Changed S.world w' r → r.destination.val = [97] ∧ r.correlationId = 7) ↔
    ∀ k, Answerable S.world.db (receipt [97]) k → ∀ m ∈ S.world.db.messages, m.id = k.messageId → Awaiting m →
      m.destination.val = [97]) := by
  obtain ⟨S, hS, hv⟩ := exists_conversation
  have hreceipt : (receipt [97]).type = .ack := rfl
  exact ⟨S, hv, ack_sound_iff hS hv.1 hv.2.1 hreceipt⟩

/-- Bob's acknowledgement of the request marks the answer, which is for alice. -/
theorem answer_acknowledged_by_bob : ¬ ∀ cfg metrics S msg i j identity,
    (broker cfg).Reachable (fun _ _ ↦ True) (initial metrics) S → S.world.terminated = false →
      S.world.registryOwner = none → msg.type = .ack →
        ∀ env, Ends (alone i j env) (handle msg identity) S.world fun _ w' ↦
          (∀ r₁ r₂, Changed S.world w' r₁ → Changed S.world w' r₂ → r₁ = r₂) ∧
          ∀ r, Changed S.world w' r → r.destination.val = msg.sender ∧
            r.correlationId = msg.correlationId.toInt64 := by
  intro h
  obtain ⟨S, hS, hv⟩ := exists_conversation
  have hends := h {} none S (receipt [98]) 4 (arrival (receipt [98])) [98] hS hv.1 hv.2.1 rfl fun _ ↦ {}
  obtain ⟨w', ⟨-, hsound⟩, hrows, -⟩ := ends_settled hends hv.2.2.2.1
  have hchanged : Changed S.world w' answerRow := by
    refine ⟨by simp [hv.2.2.1], { answerRow with status := .delivered }, by simp [hrows], rfl, ?_⟩
    simp [answerRow, requestRow]
  have hdest : answerRow.destination.val = [98] := (hsound answerRow hchanged).1
  exact absurd hdest (by decide)

theorem notification_iff_conversed : ∃ S, Conversed S ∧
    ((∀ env, Ends (alone 4 (arrival (receipt [97])) env) (handle (receipt [97]) [97]) S.world fun _ w' ↦
      ∀ m, Changed S.world w' m → Notifies m [97] S.world w') ↔
    ∀ k, Answerable S.world.db (receipt [97]) k → ∀ m ∈ S.world.db.messages, m.id = k.messageId → Awaiting m →
      ∀ k', Newest S.world.db 7 k' → k'.originalSender = m.sender ∨ k'.originalSender.val = []) := by
  obtain ⟨S, hS, hv⟩ := exists_conversation
  have hreceipt : (receipt [97]).type = .ack := rfl
  exact ⟨S, hv, notification_iff hS hv.1 hv.2.1 hreceipt (by decide)⟩

/-- Alice acknowledges bob's answer, and is told so herself. -/
theorem acker_notified : ¬ ∀ cfg metrics S msg i j identity,
    (broker cfg).Reachable (fun _ _ ↦ True) (initial metrics) S → S.world.terminated = false →
      S.world.registryOwner = none → msg.type = .ack → msg.Fits →
        ∀ env, Ends (alone i j env) (handle msg identity) S.world fun _ w' ↦
          ∀ m, Changed S.world w' m → Notifies m msg.sender S.world w' := by
  intro h
  obtain ⟨S, hS, hv⟩ := exists_conversation
  have hends :=
    h {} none S (receipt [97]) 4 (arrival (receipt [97])) [97] hS hv.1 hv.2.1 rfl (by decide) fun _ ↦ {}
  obtain ⟨w', hnotifies, hrows, hsent⟩ := ends_settled hends hv.2.2.2.2
  have hchanged : Changed S.world w' answerRow := by
    refine ⟨by simp [hv.2.2.1], { answerRow with status := .delivered }, by simp [hrows], rfl, ?_⟩
    simp [answerRow, requestRow]
  obtain ⟨-, sends, hsends, hfor⟩ := hnotifies answerRow hchanged
  rw [hsends, List.drop_left] at hsent
  have hmem : ackNotification [97] [97] 7 ∈ sends.map (·.copy.msg) := by simp [hsent]
  obtain ⟨x, hx, hmsg⟩ := List.mem_map.mp hmem
  have hdest := (hfor x hx).destination
  rw [hmsg] at hdest
  exact absurd hdest (by decide)

end MessageBroker.AckResolution
