import MessageBroker.AtMostOnce

namespace MessageBroker.LiveRows

open ByteStrings WireMessages MessageStore ProgramTrees ThreadPools BrokerState ServerJobs
  StoreInvariant OperationEffects ThreadViews SharedInvariant DeliveryOutlines ServerOutlines
  RunInvariants HandOverOnce AtMostOnce

/-- A copy that is to be acknowledged is not saved again from the queue of a session. -/
def PersistsPlain (S : State) (l : Step) : Prop :=
  S.OnNext saves (fun _ _ c ↦ c.source ≠ none → c.msg.needsAck = false) l

instance (S : State) (l : Step) : Decidable (PersistsPlain S l) := by
  unfold PersistsPlain
  infer_instance

variable {cfg : Config} {ok : State → Step → Prop} {metrics : Option Metrics} {S : State}
  {w w' : World} {i : ℕ} {j : Job} {o : Op} {ch : Choice} {r : o.Res} {id : ℕ} {row row' : Row}

/-- A row of the chain that starts with row `id` is waiting or sent. -/
structure Live (w : World) (id : ℕ) (row : Row) : Prop where
  mem : row ∈ w.db.messages
  origin : row.origin = id
  undelivered : row.status ≠ .delivered

/-- A thread that has not ended has handed over a row of the chain and not marked it yet. -/
def Processing (S : State) (id : ℕ) : Prop :=
  ∃ i t, S.threads[i]? = some t ∧ ¬ t.ended ∧
    ∃ row ∈ S.world.db.messages, row.origin = id ∧ row.id ∈ (account i S.world.log).debt

/-- Only rows that are not to be acknowledged come from a queue. -/
def PlainChildren (w : World) : Prop :=
  ∀ row ∈ w.db.messages, row.source ≠ none → row.needsAck = false

theorem plainChildren_step (hp : Performs cfg (fun S l ↦ Serialised S l ∧ PersistsPlain S l) S i j o ch r w')
    (h : PlainChildren S.world) : PlainChildren w' := by
  intro row hrow hsource
  rcases rowStep hp.exec hrow with hold | hnew
  · exact h row hold hsource
  · cases hnew with
    | saved c hop heq =>
      subst hop heq
      have hok := Pool.OnNext.meets hp.ok.2 hp.nextOp rfl
      rw [(records_newRow _ c).needsAck]
      exact hok hsource
    | delivered r₀ hr₀ heq | sent r₀ hr₀ heq | pending r₀ hr₀ heq =>
      subst heq
      exact h r₀ hr₀ hsource

theorem plainChildren
    (h : (broker cfg).Reachable (fun S l ↦ Serialised S l ∧ PersistsPlain S l) (initial metrics) S) :
    PlainChildren S.world :=
  run_invariant (fun _ hr ↦ absurd hr List.not_mem_nil) (fun _ _ _ _ hw ↦ hw) plainChildren_step h

/-- A live row of a chain is the last one, unless a thread is processing the chain. -/
theorem not_child (h : (broker cfg).Reachable Serialised (initial metrics) S)
    (hidle : ¬ Processing S id) (hlive : Live S.world id row) : ¬ Child S.world row.id row' := by
  intro hchild
  have hu := unrepeated h
  rcases hu.handed.consumed _ (hu.chained.children _ _ hchild).handed with ⟨i, hi⟩ | ⟨r, hr, hid, hst⟩
  · have hclean := hu.handed.clean i
    have hrest (hr : AtRest i S.world) : False := by
      rcases hr.settled with hd | hf
      · rw [hd] at hi
        cases hi
      · cases hclean.symm.trans hf
    have hh := holds_of_reachable h
    by_cases hlt : i < S.threads.length
    · have ht := List.getElem?_eq_getElem hlt
      refine hidle ⟨i, _, ht, fun hended ↦ ?_, row, hlive.mem, hlive.origin, hi⟩
      exact hrest (hh.fresh_of_ended ht hended)
    · exact hrest (hh.fresh i (Nat.le_of_not_lt hlt))
  · obtain rfl := id_inj (holds_of_reachable h).inv.store hr hlive.mem hid
    exact hlive.undelivered hst

/-- At most one row that derives from an accepted message is undelivered when no
thread is processing it, if copies that are to be acknowledged stay out of the queues. -/
theorem one_live_row
    (h : (broker cfg).Reachable (fun S l ↦ Serialised S l ∧ PersistsPlain S l) (initial metrics) S)
    (hrow : row ∈ S.world.db.messages) (haccepted : row.source = none)
    (htype : row.message.type = .message ∨ row.message.type = .reply)
    (hidle : ¬ Processing S row.id) :
    ∀ r₁ r₂, Live S.world row.id r₁ → Live S.world row.id r₂ → r₁ = r₂ := by
  have hs : (broker cfg).Reachable Serialised (initial metrics) S := h.mono fun _ _ hok ↦ hok.1
  have hdb := (holds_of_reachable h).inv.store
  have horigin := hdb.origin row hrow haccepted
  cases hack : row.needsAck with
  | true =>
    -- Nothing is saved from a copy of such a row, so the chain ends with its first row.
    have only {r₁ : Row} (h₁ : Live S.world row.id r₁) : r₁ = row := by
      obtain ⟨-, r₀, hr₀, hid, -, -, hflags⟩ := exists_origin hdb r₁.id r₁ h₁.mem rfl
      obtain rfl := id_inj hdb hr₀ hrow (hid.trans h₁.origin)
      cases hsource : r₁.source with
      | none => exact id_inj hdb h₁.mem hrow ((hdb.origin r₁ h₁.mem hsource).symm.trans h₁.origin)
      | some n =>
        have hplain := plainChildren h r₁ h₁.mem (by rw [hsource]; simp)
        rw [Row.needsAck, ← hflags] at hplain
        cases hack.symm.trans hplain
    intro r₁ r₂ h₁ h₂
    rw [only h₁, only h₂]
  | false =>
    have hplain : plain row.message = true := by
      rw [plain, Bool.and_eq_true, Bool.or_eq_true]
      exact ⟨htype.imp decide_eq_true decide_eq_true,
        by rw [show row.message.needsAck = row.needsAck from rfl, hack]; rfl⟩
    have last {r₁ r₂ : Row} (h₁ : Live S.world row.id r₁) (h₂ : Live S.world row.id r₂) :
        ¬ r₁.id < r₂.id := by
      intro hlt
      have hp : plain r₂.message = true :=
        (plain_of_origin hdb h₂.mem hrow (h₂.origin.trans horigin.symm)).trans hplain
      obtain ⟨r, hr, -⟩ := exists_child hdb (unrepeated hs).chained r₂.id r₁ h₁.mem r₂ h₂.mem rfl hp
        (h₁.origin.trans h₂.origin.symm) hlt
      exact not_child hs hidle h₁ hr
    intro r₁ r₂ h₁ h₂
    exact id_inj hdb h₁.mem h₂.mem
      (Nat.le_antisymm (Nat.le_of_not_lt (last h₂ h₁)) (Nat.le_of_not_lt (last h₁ h₂)))

theorem not_processing (hended : S.threads.all hasEnded = true) : ¬ Processing S id := by
  rintro ⟨i, t, ht, hrun, -⟩
  exact hrun (ended_of_hasEnded (List.all_eq_true.mp hended t (List.mem_of_getElem? ht)))

/-- Alice sends bob a message without acknowledgement and then one with the given
flags. Between the latter's test that he is online and its sending the first one
fails to be sent, and he unregisters. -/
def staleTest (flags : UInt8) (steps : ℕ) : List Step :=
  inTurn 0 [
    (arrival { type := .register, sender := [98] }, 31),
    (arrival { sender := [97], destination := [98] }, 16),
    (arrival { flags, correlationId := 7, sender := [97], destination := [98] }, 8)] ++
  .start .processPendingSends :: .step 3 {} :: .step 3 {} :: .step 3 { socket := .wouldBlock } ::
    List.replicate 4 (.step 3 {}) ++ List.replicate steps (.step 2 {}) ++
  inTurn 4 [(arrival { type := .unregister, sender := [98] }, 32)]

/-- What a row tells of its chain. -/
def chainView (row : Row) : List ℕ × Option ℕ × MessageStatus :=
  ([row.id, row.origin, row.type], row.source, row.status)

theorem type_message (h : row.type = 2) : row.message.type = .message := by
  rw [Row.message, h]
  rfl

/-- The message that needs no acknowledgement waits in the row saved from the queue. -/
theorem one_live_row_queued : ∃ S row, (broker {}).Reachable
    (fun S l ↦ Serialised S l ∧ PersistsPlain S l) (initial none) S ∧
      S.world.db.messages.map chainView = [([1, 1, 2], none, .delivered),
        ([2, 2, 2], none, .delivered), ([3, 2, 2], some 2, .pending)] ∧
      row ∈ S.world.db.messages ∧ row.id = 2 ∧
        ∀ r₁ r₂, Live S.world row.id r₁ → Live S.world row.id r₂ → r₁ = r₂ := by
  have hrun : ((broker {}).runs (fun S l ↦ Serialised S l ∧ PersistsPlain S l) (staleTest flagNone 10)
      ⟨initial none, []⟩).map (fun S ↦
        (S.world.db.messages.map chainView, S.threads.all hasEnded)) =
      some ([([1, 1, 2], none, .delivered), ([2, 2, 2], none, .delivered),
        ([3, 2, 2], some 2, .pending)], true) := by decide +kernel
  obtain ⟨S, hS, hv⟩ := exists_run hrun
  obtain ⟨hrows, hended⟩ := Prod.mk.inj hv
  have hmem : ([2, 2, 2], none, .delivered) ∈ S.world.db.messages.map chainView := by
    rw [hrows]
    decide
  obtain ⟨row, hrow, hview⟩ := List.mem_map.mp hmem
  simp only [chainView, Prod.mk.injEq, List.cons.injEq, and_true] at hview
  obtain ⟨⟨hid, -, htype⟩, hsource, -⟩ := hview
  exact ⟨S, row, hS, hrows, hrow, hid,
    one_live_row hS hrow hsource (.inl (type_message htype)) (not_processing hended)⟩

/-- The message that needs an acknowledgement is live twice: sent, and saved again. -/
theorem two_live_rows : ¬ ∀ cfg metrics S row,
    (broker cfg).Reachable Serialised (initial metrics) S → row ∈ S.world.db.messages →
      row.source = none → row.message.type = .message ∨ row.message.type = .reply →
      ¬ Processing S row.id →
        ∀ r₁ r₂, Live S.world row.id r₁ → Live S.world row.id r₂ → r₁ = r₂ := by
  intro h
  have hrun : ((broker {}).runs Serialised (staleTest flagNeedsAck 11) ⟨initial none, []⟩).map
      (fun S ↦ (S.world.db.messages.map chainView, S.threads.all hasEnded)) =
      some ([([1, 1, 2], none, .delivered), ([2, 2, 2], none, .sent),
        ([3, 2, 2], some 2, .pending)], true) := by decide +kernel
  obtain ⟨S, hS, hv⟩ := exists_run hrun
  obtain ⟨hrows, hended⟩ := Prod.mk.inj hv
  have hmem {v : List ℕ × Option ℕ × MessageStatus}
      (hmem : v ∈ S.world.db.messages.map chainView) : ∃ r ∈ S.world.db.messages, chainView r = v :=
    List.mem_map.mp hmem
  obtain ⟨r₁, hr₁, hv₁⟩ := hmem (v := ([2, 2, 2], none, .sent)) (by rw [hrows]; decide)
  obtain ⟨r₂, hr₂, hv₂⟩ := hmem (v := ([3, 2, 2], some 2, .pending)) (by rw [hrows]; decide)
  simp only [chainView, Prod.mk.injEq, List.cons.injEq, and_true] at hv₁ hv₂
  obtain ⟨⟨hid₁, ho₁, ht₁⟩, hs₁, hst₁⟩ := hv₁
  obtain ⟨⟨hid₂, ho₂, -⟩, -, hst₂⟩ := hv₂
  have heq := h {} none S r₁ hS hr₁ hs₁ (.inl (type_message ht₁)) (not_processing hended) r₁ r₂
    ⟨hr₁, ho₁.trans hid₁.symm, by rw [hst₁]; decide⟩ ⟨hr₂, ho₂.trans hid₁.symm, by rw [hst₂]; decide⟩
  rw [heq, hid₂] at hid₁
  cases hid₁

end MessageBroker.LiveRows
