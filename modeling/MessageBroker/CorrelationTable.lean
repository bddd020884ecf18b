import MessageBroker.RoutePhases

namespace MessageBroker.CorrelationTable

open ByteStrings WireMessages MessageStore ProgramTrees ThreadPools Protocols BrokerState SessionQueues
  MessageHandlers ServerJobs StoreInvariant OperationEffects ThreadViews ServerOutlines ProgramShapes
  RunInvariants ThreadPhases RoutePhases

variable {cfg : Config} {ok : State → Step → Prop} {metrics : Option Metrics} {S : State}
  {w w' : World} {i : ℕ} {j : Job} {o : Op} {ch : Choice} {r : o.Res} {db db' : Database} {m : Message}
  {id : ℕ} {x : Option (Copy × ℕ)}

/-- The owner of the correlation of a message is its sender, that of a reply its
destination. -/
def Owner (m : Message) (n : Bytes) : Prop :=
  (m.type = .message → n = m.sender) ∧ (m.type = .reply → n = m.destination)

/-- A thread links the row that it has saved last. -/
def linkProtocol : Protocol Op Op.Res (Option (Copy × ℕ)) where
  may x o :=
    match o with
    | .saveCorrelation id corr n =>
      ∃ c, x = some (c, id) ∧ corr = c.msg.correlationId ∧ Owner c.msg n
    | _ => True
  next x o r :=
    match o, r with
    | .saveMessage c, .ok id => some (c, id)
    | _, _ => x

/-- The program links only rows that it has saved. -/
def Links {α : Type} (p : Program α) : Prop := Within linkProtocol (fun _ ↦ True) p

theorem links_perform (h : ∀ id corr n, o ≠ .saveCorrelation id corr n) : Links (perform o) := by
  refine .perform fun x _ ↦ ⟨?_, fun _ ↦ trivial⟩
  cases o with
  | saveCorrelation id corr n => exact absurd rfl (h id corr n)
  | _ => trivial

theorem composable : Composable Links := Within.composable linkProtocol _

theorem registering : Registering Links :=
  registering_of_composable composable fun o ho ↦ links_perform fun id corr n h ↦ by
    subst h
    exact ho rfl

theorem marking : Marking Links where
  toRegistering := registering
  receipt s := links_perform (by simp)
  rows o ho := links_perform fun id corr n h ↦ by
    subst h
    cases ho
  deliverOfflineMessages n := registering.deliverOfflineMessages (fun id ↦ links_perform (by simp))
    (fun id ↦ links_perform (by simp)) (links_perform (by simp)) (links_perform (by simp)) fun s ↦
    links_perform (by simp)
  checkExpiredAcks cfg := registering.checkExpiredAcks (fun id ↦ links_perform (by simp))
    (fun id ↦ links_perform (by simp)) (links_perform (by simp)) (links_perform (by simp))

theorem follows_saveCorrelation {c : Copy} {n : Bytes} (hn : Owner c.msg n) :
    Follows linkProtocol (fun _ _ ↦ True) (fun _ _ ↦ True)
      (saveCorrelation id c.msg.correlationId n) (some (c, id)) := by
  refine ⟨⟨c, rfl, rfl, hn⟩, fun r ↦ ?_⟩
  cases r with
  | error e => exact trivial
  | ok u => exact trivial

theorem follows_saveMessage {β : Type} {c : Copy} {f : ℕ → Program β}
    (hf : ∀ id, Follows linkProtocol (fun _ _ ↦ True) (fun _ _ ↦ True) (f id) (some (c, id))) :
    Follows linkProtocol (fun _ _ ↦ True) (fun _ _ ↦ True) ((saveMessage c).bind f) x := by
  have hsave : Follows linkProtocol (fun id y ↦ y = some (c, id)) (fun _ _ ↦ True)
      (saveMessage c) x := by
    refine ⟨trivial, fun r ↦ ?_⟩
    cases r with
    | error e => exact trivial
    | ok id => exact rfl
  refine hsave.bind fun id y hy ↦ ?_
  subst hy
  exact hf id

theorem links_acceptMessage (ht : m.type = .message) : Links (acceptMessage m) := by
  refine fun x _ ↦ follows_saveMessage fun id ↦ ?_
  have howner : Owner m m.sender := ⟨fun _ ↦ rfl, fun h ↦ by cases ht.symm.trans h⟩
  refine Follows.bind (Q := fun _ _ ↦ True) ?_ fun _ _ _ ↦ trivial
  unfold Prog.when
  split
  · exact follows_saveCorrelation (c := ⟨m, none, m.destination⟩) howner
  · exact trivial

theorem links_acceptReply (ht : m.type = .reply) : Links (acceptReply m) := by
  rw [acceptReply_eq]
  intro x _
  refine Follows.bind (Q := fun _ _ ↦ True) (.perform trivial fun _ ↦ trivial) fun owner y _ ↦ ?_
  refine follows_saveMessage fun id ↦ ?_
  have howner : Owner (redirect m (recipient m owner)) (recipient m owner) := by
    refine ⟨fun h ↦ ?_, fun _ ↦ rfl⟩
    cases ht.symm.trans h
  exact Follows.bind (Q := fun _ _ ↦ True) (follows_saveCorrelation howner) fun _ _ _ ↦ trivial

theorem answering : Answering Links where
  toMarking := marking
  lookups o ho := links_perform fun id corr n h ↦ by
    subst h
    cases ho
  acceptMessage _ ht := links_acceptMessage ht
  acceptReply _ ht := links_acceptReply ht

theorem links_code (cfg : Config) (j : Job) : Links (code cfg j) :=
  answering.code (fun o ho ↦ links_perform fun id corr n h ↦ by
    subst h
    cases ho) cfg j

def linkPhase (i : ℕ) (w : World) : Option (Copy × ℕ) := phase linkProtocol none i w.log

theorem may_of_performs (h : (broker cfg).Reachable ok (initial metrics) S)
    (hp : Performs cfg ok S i j o ch r w') : linkProtocol.may (linkPhase i S.world) o :=
  may_of_follows (P := fun _ ↦ linkProtocol) (Q := fun _ _ ↦ True) (X := fun _ _ ↦ True)
    (fun j ↦ links_code cfg j none trivial) h hp

def Saved (w : World) (x : Option (Copy × ℕ)) : Prop :=
  ∀ c id, x = some (c, id) → ∃ r ∈ w.db.messages, r.id = id ∧ Records r c.msg

theorem Saved.mono (h : Saved w x) (hx : Extends w.db w'.db) : Saved w' x := by
  intro c id hc
  obtain ⟨row, hrow, hid, hrec⟩ := h c id hc
  obtain ⟨st, hst⟩ := hx row hrow
  exact ⟨_, hst, hid, hrec.type, hrec.flags, hrec.correlationId, hrec.sender, hrec.destination,
    hrec.payload⟩

theorem Saved.next (h : Saved w x) (he : exec i j o ch w = some (r, w')) (hx : Extends w.db w'.db) :
    Saved w' (linkProtocol.next x o r) := by
  cases o with
  | saveMessage c =>
    obtain ⟨-, ⟨e, rfl⟩, -⟩ | ⟨rfl, hdb⟩ := exec_saveMessage he
    · exact h.mono hx
    · intro c' id hc
      obtain ⟨rfl, rfl⟩ := Prod.mk.inj (Option.some.inj hc)
      refine ⟨w.db.newRow w.wallClock c, ?_, rfl, records_newRow _ _⟩
      rw [hdb]
      exact List.mem_append_right _ (List.mem_singleton_self _)
  | _ => exact h.mono hx

theorem saved_of_reachable (h : (broker cfg).Reachable ok (initial metrics) S)
    (hp : Performs cfg ok S i j o ch r w') : Saved S.world (linkPhase i S.world) := by
  obtain ⟨k, hk⟩ := hp.thread
  refine knows_of_reachable (P := fun _ ↦ linkProtocol) (s := fun _ ↦ none)
    (I := fun _ _ x w ↦ Saved w x) (fun _ _ _ c id hc ↦ by cases hc) (fun _ _ _ _ _ _ _ hx ↦ hx)
    (fun _ hp _ _ hx ↦ hx.mono hp.grows.db) (fun _ hp hx ↦ ?_) h i _ hk
  rw [phase_exec hp.exec]
  exact hx.next hp.exec hp.grows.db

/-- What a row of `correlations` says of the row of `messages` that it refers to. -/
structure Describes (k : Correlation) (r : Row) : Prop where
  id : r.id = k.messageId
  correlationId : r.correlationId = k.correlationId
  message : r.type = MessageType.message.toByte.toNat → r.sender = k.originalSender
  reply : r.type = MessageType.reply.toByte.toNat → r.destination = k.originalSender

/-- The columns of the unique index. -/
def Correlation.key (k : Correlation) : Int64 × CText := (k.correlationId, k.originalSender)

/-- The invariant of `correlations`. -/
structure Linked (db : Database) : Prop where
  describes : ∀ k ∈ db.correlations, ∃ r ∈ db.messages, Describes k r
  unique : (db.correlations.map Correlation.key).Nodup

theorem Describes.withStatus {k : Correlation} {row : Row} (h : Describes k row) (st : MessageStatus) :
    Describes k { row with status := st } :=
  ⟨h.id, h.correlationId, h.message, h.reply⟩

theorem Linked.mono (h : Linked db) (hx : Extends db db')
    (hc : db'.correlations.Sublist db.correlations) : Linked db' := by
  refine ⟨fun k hk ↦ ?_, h.unique.sublist (hc.map _)⟩
  obtain ⟨row, hrow, hd⟩ := h.describes k (hc.subset hk)
  obtain ⟨st, hst⟩ := hx row hrow
  exact ⟨_, hst, hd.withStatus st⟩

theorem describes_of_records {row : Row} {n : Bytes} {now : ℤ} {id' : ℕ} (hrec : Records row m)
    (hid : row.id = id) (hn : Owner m n) :
    Describes ⟨id', id, m.correlationId.toInt64, .of n, now⟩ row := by
  have type {t : MessageType} (ht : row.type = t.toByte.toNat) : m.type = t := by
    have hbyte : m.type.toByte = t.toByte := UInt8.toNat_inj.mp (hrec.type.symm.trans ht)
    rw [← MessageType.ofByte_toByte m.type, hbyte, MessageType.ofByte_toByte]
  refine ⟨hid, hrec.correlationId, fun ht ↦ ?_, fun ht ↦ ?_⟩
  · rw [hrec.sender, ← hn.1 (type ht)]
  · rw [hrec.destination, ← hn.2 (type ht)]

theorem Linked.saveCorrelation {now : ℤ} {corr : UInt64} {n : Bytes} (h : Linked db)
    (hrow : ∃ r ∈ db.messages, Describes ⟨db.lastCorrelationId + 1, id, corr.toInt64, .of n, now⟩ r)
    (hdb : db.saveCorrelation now id corr n = some db') : Linked db' := by
  obtain ⟨hm, -, hc⟩ := saveCorrelation_eq_some hdb
  refine ⟨fun k hk ↦ ?_, ?_⟩
  · rw [hm]
    rw [hc] at hk
    rcases List.mem_append.mp hk with hk | hk
    · exact h.describes k (List.mem_filter.mp hk).1
    · exact List.mem_singleton.mp hk ▸ hrow
  · rw [hc, List.map_append, List.nodup_append]
    refine ⟨h.unique.sublist (List.filter_sublist.map _), List.nodup_singleton _, ?_⟩
    intro key hkey key' hkey' heq
    obtain ⟨k, hk, rfl⟩ := List.mem_map.mp hkey
    obtain rfl := List.mem_singleton.mp hkey'
    obtain ⟨hcorr, howner⟩ := Prod.mk.inj heq
    exact of_decide_eq_true (List.mem_filter.mp hk).2 ⟨hcorr, howner⟩

theorem linked_step (hr : (broker cfg).Reachable ok (initial metrics) S)
    (hp : Performs cfg ok S i j o ch r w') (h : Linked S.world.db) : Linked w'.db := by
  have he := hp.exec
  have hx := hp.grows.db
  have frame (ho : .correlations ∉ writes o) : Linked w'.db := by
    refine h.mono hx ?_
    rw [(exec_frame he).correlations (by simp [ho])]
  cases o with
  | saveCorrelation id corr n =>
    obtain ⟨-, -, hdb⟩ | ⟨-, hdb⟩ := exec_saveCorrelation he
    · rwa [hdb]
    · obtain ⟨c, hc, rfl, hn⟩ := may_of_performs hr hp
      obtain ⟨row, hrow, hid, hrec⟩ := saved_of_reachable hr hp c id hc
      exact h.saveCorrelation ⟨row, hrow, describes_of_records hrec hid hn⟩ hdb
  | markAckReceived id n =>
    rcases exec_markAckReceived he with hdb | hdb
    · rwa [hdb]
    · refine h.mono hx ?_
      rw [hdb]
      simp only [Database.markAckReceived]
      split
      · exact List.filter_sublist
      · exact List.Sublist.refl _
  | _ => exact frame (by simp [writes])

theorem linked_of_reachable (h : (broker cfg).Reachable ok (initial metrics) S) : Linked S.world.db :=
  reachable_invariant (P := fun w ↦ Linked w.db) ⟨by simp [initial], List.nodup_nil⟩
    (fun _ _ _ _ hw ↦ hw) linked_step h

structure Numbered (db : Database) : Prop where
  ids : (db.correlations.map (·.id)).Nodup
  bound : ∀ k ∈ db.correlations, k.id ≤ db.lastCorrelationId

theorem Numbered.sublist (h : Numbered db) (hc : db'.correlations.Sublist db.correlations)
    (hl : db'.lastCorrelationId = db.lastCorrelationId) : Numbered db' :=
  ⟨h.ids.sublist (hc.map _), fun k hk ↦ hl ▸ h.bound k (hc.subset hk)⟩

theorem lastCorrelationId_exec (h : exec i j o ch w = some (r, w'))
    (ho : ∀ id corr n, o ≠ .saveCorrelation id corr n) :
    w'.db.lastCorrelationId = w.db.lastCorrelationId := by
  obtain ⟨-, v, he, rfl⟩ := exec_cases h
  cases o with
  | saveCorrelation id corr n => exact absurd rfl (ho id corr n)
  | saveMessage | markDelivered | markSent | markPending =>
    obtain ⟨-, -, rfl⟩ | ⟨-, -, rfl⟩ := dbCall_cases he <;> rfl
  | markAckReceived =>
    cases he
    split
    · rfl
    · simp only [World.setDb, Database.markAckReceived]
      split <;> rfl
  | lockRegistry | findClient | removeClient | lockQueue | takePendingSends =>
    simp only [effect] at he
    split at he <;> cases he <;> rfl
  | callback | sendFrame =>
    cases he
    split <;> rfl
  | _ =>
    cases he
    rfl

theorem numbered_step (hp : Performs cfg ok S i j o ch r w') (h : Numbered S.world.db) : Numbered w'.db := by
  have he := hp.exec
  have keeps (ho : ∀ id corr n, o ≠ .saveCorrelation id corr n)
      (hc : w'.db.correlations.Sublist S.world.db.correlations) : Numbered w'.db :=
    h.sublist hc (lastCorrelationId_exec he ho)
  cases o with
  | saveCorrelation id corr n =>
    obtain ⟨-, -, hdb⟩ | ⟨-, hdb⟩ := exec_saveCorrelation he
    · rwa [hdb]
    · have hlast : w'.db.lastCorrelationId = S.world.db.lastCorrelationId + 1 := by
        unfold Database.saveCorrelation at hdb
        split at hdb
        · rw [← Option.some.inj hdb]
        · cases hdb
      obtain ⟨-, -, hc⟩ := saveCorrelation_eq_some hdb
      have hold {k : Correlation} (hk : k ∈ S.world.db.correlations.filter fun k ↦
          ¬ (k.correlationId = corr.toInt64 ∧ k.originalSender = .of n)) : k.id ≤ S.world.db.lastCorrelationId :=
        h.bound k (List.mem_filter.mp hk).1
      refine ⟨?_, fun k hk ↦ ?_⟩
      · rw [hc, List.map_append, List.nodup_append]
        refine ⟨h.ids.sublist (List.filter_sublist.map _), List.nodup_singleton _, fun a ha b hb hab ↦ ?_⟩
        obtain ⟨k, hk, rfl⟩ := List.mem_map.mp ha
        obtain rfl := List.mem_singleton.mp hb
        exact absurd (hold hk) (by simp only [hab]; omega)
      · rw [hc] at hk
        rcases List.mem_append.mp hk with hk | hk
        · exact (hold hk).trans (by omega)
        · obtain rfl := List.mem_singleton.mp hk
          exact hlast.ge
  | markAckReceived id n =>
    refine keeps (by simp) ?_
    rcases exec_markAckReceived he with hdb | hdb
    · rw [hdb]
    · rw [hdb]
      simp only [Database.markAckReceived]
      split
      · exact List.filter_sublist
      · exact List.Sublist.refl _
  | _ => exact keeps (by simp) (by rw [(exec_frame he).correlations (by simp [writes])])

theorem numbered_of_reachable (h : (broker cfg).Reachable ok (initial metrics) S) : Numbered S.world.db :=
  run_invariant (P := fun w ↦ Numbered w.db) ⟨List.nodup_nil, by simp [initial]⟩
    (fun _ _ _ _ hw ↦ hw) numbered_step h

theorem correlation_table (h : (broker cfg).Reachable ok (initial metrics) S) :
    (∀ k ∈ S.world.db.correlations, ∃ r ∈ S.world.db.messages, Describes k r) ∧
      (S.world.db.correlations.map Correlation.key).Nodup :=
  ⟨(linked_of_reachable h).describes, (linked_of_reachable h).unique⟩

/-- Alice asks bob, and his reply takes the place of her message in `correlations`. -/
theorem correlation_table_reply : ∃ S, (broker {}).Reachable (fun _ _ ↦ True) (initial none) S ∧
    S.world.db.correlations.map (·.messageId) = [2] ∧
    (∀ k ∈ S.world.db.correlations, ∃ r ∈ S.world.db.messages, Describes k r) ∧
      (S.world.db.correlations.map Correlation.key).Nodup := by
  have hrun : ((broker {}).runs (fun _ _ ↦ True) (inTurn 0 [
      (arrival { flags := flagNeedsReply, correlationId := 7, sender := [97], destination := [98] }, 9),
      (arrival { type := .reply, correlationId := 7, sender := [98] }, 10)])
      ⟨initial none, []⟩).map (fun S ↦ S.world.db.correlations.map (·.messageId)) =
      some [2] := by decide +kernel
  obtain ⟨S, hS, hv⟩ := exists_run hrun
  exact ⟨S, hS, hv, correlation_table hS⟩

end MessageBroker.CorrelationTable
