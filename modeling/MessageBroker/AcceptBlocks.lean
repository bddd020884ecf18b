import MessageBroker.IsolatedRuns
import MessageBroker.RoutePhases

namespace MessageBroker.AcceptBlocks

open ByteStrings WireMessages MessageStore ProgramTrees SequentialRuns BrokerState SessionQueues
  ClientRegistry MessageHandlers ServerJobs OperationEffects StoreInvariant SharedInvariant RunInvariants
  RoutePhases IsolatedRuns

variable {i : ℕ} {j : Job} {env : Op → Choice} {ch : Choice} {w w' : World} {m : Message} {c : Copy}
  {α : Type} {id : ℕ} {corr : UInt64} {n : Bytes}

def originalSender (env : Op → Choice) (w : World) (m : Message) : Bytes :=
  let ch := env (.findOriginalSenderByCorrelation m.correlationId)
  if ch.dbError then [] else w.db.findOriginalSenderByCorrelation ch.tie m.correlationId

/-- The copy that the accept block of the handler of `m` saves. -/
def acceptedCopy (env : Op → Choice) (w : World) (m : Message) : Copy :=
  if m.type = .reply then
    let d := recipient m (originalSender env w m)
    ⟨redirect m d, none, d⟩
  else ⟨m, none, m.destination⟩

def correlationOwner (env : Op → Choice) (w : World) (m : Message) : Bytes :=
  if m.type = .reply then recipient m (originalSender env w m) else m.sender

/-- The two storage calls of the accept block that may throw. -/
def saveCall (env : Op → Choice) (w : World) (m : Message) : Op :=
  .saveMessage (acceptedCopy env w m)

def linkCall (env : Op → Choice) (w : World) (m : Message) : Op :=
  .saveCorrelation (w.db.lastMessageId + 1) m.correlationId (correlationOwner env w m)

/-- Whether the handler of `m` saves the message with a correlation. -/
def Linking (m : Message) : Prop :=
  m.type = .message ∧ (m.needsReply || m.needsAck) = true ∨ m.type = .reply

/-- The accept block has thrown, and left the row behind that it had saved, if any. -/
structure Aborted (saved : Bool) (w w' : World) : Prop where
  running : w'.terminated = false
  messages : w'.db.messages = w.db.messages ∧ saved = false ∨
    ∃ r, w'.db.messages = w.db.messages ++ [r] ∧ saved = true
  correlations : w'.db.correlations = w.db.correlations
  clients : w'.activeClients = w.activeClients

/-- Parts that an accept block may find written, or leave to be written. -/
def Apart (parts : List Part) : Prop := .messages ∉ parts ∧ .correlations ∉ parts ∧ .clients ∉ parts

theorem Aborted.after {parts : List Part} {saved : Bool} {u : World} (h : Aborted saved w w')
    (hf : Frame parts u w) (hp : Apart parts) : Aborted saved u w' := by
  refine ⟨h.running, ?_, h.correlations.trans (hf.correlations hp.2.1), h.clients.trans (hf.clients hp.2.2)⟩
  rw [← (hf.messages hp.1).1]
  exact h.messages

theorem Aborted.kept {parts : List Part} {saved : Bool} {u : World} (h : Aborted saved u w)
    (hk : Kept parts w w') (hp : Apart parts) : Aborted saved u w' := by
  refine ⟨hk.running, ?_, (hk.frame.correlations hp.2.1).trans h.correlations,
    (hk.frame.clients hp.2.2).trans h.clients⟩
  rw [(hk.frame.messages hp.1).1]
  exact h.messages

theorem exec_saveMessage_error {r : Except String ℕ} (h : exec i j (.saveMessage c) ch w = some (r, w'))
    (hd : ch.dbError = true) : (∃ e, r = .error e) ∧ w'.db = w.db := by
  obtain ⟨-, v, he, rfl⟩ := exec_cases h
  obtain ⟨-, rfl, rfl⟩ | ⟨hok, -, -⟩ := dbCall_cases he
  · exact ⟨⟨_, rfl⟩, rfl⟩
  · cases hd.symm.trans hok

theorem exec_saveCorrelation_error {r : Except String Unit}
    (h : exec i j (.saveCorrelation id corr n) ch w = some (r, w')) (hd : ch.dbError = true) :
    (∃ e, r = .error e) ∧ w'.db = w.db := by
  obtain ⟨-, v, he, rfl⟩ := exec_cases h
  simp only [effect] at he
  split at he
  · cases he
    exact ⟨⟨_, rfl⟩, rfl⟩
  · obtain ⟨-, rfl, rfl⟩ | ⟨hok, -, -⟩ := dbCall_cases he
    · exact ⟨⟨_, rfl⟩, rfl⟩
    · cases hd.symm.trans hok

theorem ends_saveAndLink {f : ℕ → Program α} (ht : w.terminated = false)
    (hfail : (env (.saveMessage c)).dbError = true ∨
      (env (.saveCorrelation (w.db.lastMessageId + 1) corr n)).dbError = true) :
    Ends (alone i j env) ((saveMessage c).bind fun id ↦ (saveCorrelation id corr n).bind fun _ ↦ f id) w
      fun r w' ↦ (∃ e, r = .error e) ∧ Aborted (!(env (.saveMessage c)).dbError) w w' := by
  have hsave : Ends (alone i j env) (saveMessage c) w fun r w₁ ↦ w₁.terminated = false ∧
      Frame [.log, .messages] w w₁ ∧
      ((env (.saveMessage c)).dbError = true ∧ (∃ e, r = .error e) ∧ w₁.db.messages = w.db.messages ∨
        (env (.saveMessage c)).dbError = false ∧ r = .ok (w.db.lastMessageId + 1) ∧
          ∃ row, w₁.db.messages = w.db.messages ++ [row]) := by
    refine ends_op ht rfl fun r w₁ he ↦ .lift ⟨(kept_exec he rfl).running, exec_frame he, ?_⟩
    cases hd : (env (.saveMessage c)).dbError with
    | true =>
      obtain ⟨herr, hdb⟩ := exec_saveMessage_error he hd
      exact .inl ⟨rfl, herr, by rw [hdb]⟩
    | false =>
      obtain ⟨hd', -⟩ | ⟨hr, hdb⟩ := exec_saveMessage he
      · cases hd.symm.trans hd'
      · exact .inr ⟨rfl, hr, _, by rw [hdb]; rfl⟩
  refine Ends.bind hsave (fun id w₁ h₁ ↦ ?_) fun e w₁ h₁ ↦ ?_
  · obtain ⟨ht₁, hf₁, ⟨-, ⟨e, he⟩, -⟩ | ⟨hd, hid, row, hrow⟩⟩ := h₁
    · cases he
    · obtain rfl : id = w.db.lastMessageId + 1 := Except.ok.inj hid
      rw [hd] at hfail ⊢
      have hlink := hfail.resolve_left (by simp)
      refine Ends.bind (R := fun r w₂ ↦ (∃ e, r = .error e) ∧ Aborted true w w₂)
        (ends_op ht₁ rfl fun r w₂ he ↦ .lift ?_) (fun a w₂ h₂ ↦ ?_) fun e w₂ h₂ ↦ ⟨⟨e, rfl⟩, h₂.2⟩
      · obtain ⟨herr, hdb⟩ := exec_saveCorrelation_error he hlink
        have hf₂ := exec_frame he
        refine ⟨herr, (kept_exec he rfl).running, .inr ⟨row, by rw [hdb, hrow], rfl⟩, ?_, ?_⟩
        · rw [hdb, hf₁.correlations (by simp)]
        · rw [hf₂.clients (by simp [writes]), hf₁.clients (by simp)]
      · obtain ⟨⟨e, he⟩, -⟩ := h₂
        cases he
  · obtain ⟨ht₁, hf₁, ⟨hd, -, hrow⟩ | ⟨-, hr, -⟩⟩ := h₁
    · rw [hd]
      exact ⟨⟨e, rfl⟩, ht₁, .inl ⟨hrow, rfl⟩, hf₁.correlations (by simp), hf₁.clients (by simp)⟩
    · cases hr

theorem ends_accepting {p : Program α} {saved : Bool}
    (h : Ends (alone i j env) p w fun r w' ↦ (∃ e, r = .error e) ∧ Aborted saved w w') :
    Ends (alone i j env) (accepting p) w fun r w' ↦ r = .ok none ∧ Aborted saved w w' := by
  have hp : Ends (alone i j env) (some <$> p) w fun r w' ↦
      (∃ e, r = .error e) ∧ Aborted saved w w' := by
    refine Ends.bind h (fun a w' ha ↦ ?_) fun e w' he ↦ ⟨⟨e, rfl⟩, he.2⟩
    obtain ⟨⟨e, he⟩, -⟩ := ha
    cases he
  refine Ends.recover hp (fun a w' ha ↦ ?_) fun e w₁ h₁ ↦ ?_
  · obtain ⟨⟨e, he⟩, -⟩ := ha
    cases he
  · exact ends_op h₁.2.running rfl fun _ w₂ he ↦
      .ret ⟨rfl, h₁.2.kept (kept_exec he rfl) (by simp [Apart, writes])⟩

theorem calls_of_frame {parts : List Part} (hf : Frame parts w w') (hp : .messages ∉ parts)
    (hm : m.type = .message) :
    saveCall env w' m = saveCall env w m ∧ linkCall env w' m = linkCall env w m := by
  have hne : ¬ m.type = .reply := by simp [hm]
  refine ⟨?_, ?_⟩
  · rw [saveCall, saveCall, acceptedCopy, acceptedCopy, if_neg hne, if_neg hne]
  · rw [linkCall, linkCall, correlationOwner, correlationOwner, if_neg hne, if_neg hne, (hf.messages hp).2]

theorem ends_acceptMessage (ht : w.terminated = false) (hm : m.type = .message)
    (hflags : (m.needsReply || m.needsAck) = true)
    (hfail : (env (saveCall env w m)).dbError = true ∨ (env (linkCall env w m)).dbError = true) :
    Ends (alone i j env) (acceptMessage m) w fun r w' ↦
      (∃ e, r = .error e) ∧ Aborted (!(env (saveCall env w m)).dbError) w w' := by
  have hcopy : acceptedCopy env w m = ⟨m, none, m.destination⟩ := if_neg (by simp [hm])
  have howner : correlationOwner env w m = m.sender := if_neg (by simp [hm])
  have hblock : acceptMessage m = (saveMessage ⟨m, none, m.destination⟩).bind fun id ↦
      (saveCorrelation id m.correlationId m.sender).bind fun _ ↦ .ret id := by
    unfold acceptMessage
    rw [hflags]
    rfl
  rw [saveCall, linkCall, hcopy, howner] at hfail
  rw [hblock, saveCall, hcopy]
  exact ends_saveAndLink ht hfail

theorem ends_acceptReply (ht : w.terminated = false) (hm : m.type = .reply)
    (hfail : (env (saveCall env w m)).dbError = true ∨ (env (linkCall env w m)).dbError = true) :
    Ends (alone i j env) (acceptReply m) w fun r w' ↦
      (∃ e, r = .error e) ∧ Aborted (!(env (saveCall env w m)).dbError) w w' := by
  rw [acceptReply_eq]
  refine ends_op ht rfl fun owner w₁ he ↦ ?_
  have hf := exec_frame he
  have howner : originalSender env w m = owner := by
    have hr : some (originalSender env w m) = some owner := exec_reads he
    exact Option.some.inj hr
  have hcopy : acceptedCopy env w m = ⟨redirect m (recipient m owner), none, recipient m owner⟩ := by
    rw [acceptedCopy, if_pos hm, howner]
  have hlink : correlationOwner env w m = recipient m owner := by
    rw [correlationOwner, if_pos hm, howner]
  obtain ⟨hmessages, hlast⟩ := hf.messages (by simp [writes])
  rw [saveCall, linkCall, hcopy, hlink, ← hlast] at hfail
  rw [saveCall, hcopy]
  exact (ends_saveAndLink (kept_exec he rfl).running hfail).mono fun r w₂ h₂ ↦
    ⟨h₂.1, h₂.2.after hf (by simp [Apart, writes])⟩

theorem ends_handleMessage {session : Option ℕ} (ht : w.terminated = false) (hm : m.type = .message)
    (hflags : (m.needsReply || m.needsAck) = true)
    (hfail : (env (saveCall env w m)).dbError = true ∨ (env (linkCall env w m)).dbError = true) :
    Ends (alone i j env) (handleMessage m session) w fun r w' ↦
      r = .ok () ∧ Aborted (!(env (saveCall env w m)).dbError) w w' := by
  refine Ends.bind (ends_isOnlineSession ht) (fun online w₁ h₁ ↦ ?_) fun e w₁ h₁ ↦ by cases h₁.1
  obtain ⟨-, hk⟩ := h₁
  obtain ⟨hsave, hlink⟩ := calls_of_frame hk.frame (by simp) hm
  rw [← hsave, ← hlink] at hfail
  rw [← hsave]
  refine Ends.bind (ends_accepting (ends_acceptMessage hk.running hm hflags hfail))
    (fun a w₂ h₂ ↦ ?_) fun e w₂ h₂ ↦ by cases h₂.1
  obtain ⟨ha, hab⟩ := h₂
  obtain rfl := Except.ok.inj ha
  cases session with
  | none => exact .ret ⟨rfl, hab.after hk.frame (by simp [Apart])⟩
  | some s => exact .ret ⟨rfl, hab.after hk.frame (by simp [Apart])⟩

theorem ends_handle {identity : Bytes} (ht : w.terminated = false) (hfree : w.registryOwner = none)
    (hm : Linking m)
    (hfail : (env (saveCall env w m)).dbError = true ∨ (env (linkCall env w m)).dbError = true) :
    Ends (alone i j env) (handle m identity) w fun r w' ↦
      r = .ok () ∧ Aborted (!(env (saveCall env w m)).dbError) w w' := by
  rcases hm with ⟨hm, hflags⟩ | hm
  · have hhandle : handle m identity = messageHandler m := by
      unfold handle
      rw [hm]
    rw [hhandle]
    refine Ends.bind (ends_findSession ht hfree) (fun session w₁ h₁ ↦ ?_) fun e w₁ h₁ ↦ by cases h₁.1
    obtain ⟨hsession, hlooked⟩ := h₁
    obtain rfl := Except.ok.inj hsession
    obtain ⟨hsave, hlink⟩ := calls_of_frame hlooked.kept.frame (by simp) hm
    rw [← hsave, ← hlink] at hfail
    rw [← hsave]
    refine ends_holding (ends_handleMessage hlooked.kept.running hm hflags hfail) (fun r w₂ h₂ ↦ ?_)
      fun r w₂ w₃ h₂ h₃ ↦ ?_
    · refine ⟨h₂.2.running, fun s hs ↦ ?_⟩
      exact registered_of_clients (h₂.2.clients.trans hlooked.clients) (registered_of_lookup hs)
    · exact ⟨h₂.1, (h₂.2.kept h₃ (by simp [Apart])).after hlooked.kept.frame (by simp [Apart])⟩
  · have hhandle : handle m identity = replyHandler m := by
      unfold handle
      rw [hm]
    rw [hhandle]
    refine Ends.bind (ends_accepting (ends_acceptReply ht hm hfail)) (fun a w₁ h₁ ↦ ?_)
      fun e w₁ h₁ ↦ by cases h₁.1
    obtain ⟨ha, hab⟩ := h₁
    obtain rfl := Except.ok.inj ha
    exact .ret ⟨rfl, hab⟩

/-- When a storage call of the accept block throws, the handler ends there; both
tables are as before exactly when it was the first of the two. -/
theorem accept_atomic_iff {identity : Bytes} (ht : w.terminated = false)
    (hfree : w.registryOwner = none) (hm : Linking m)
    (hfail : (env (saveCall env w m)).dbError = true ∨ (env (linkCall env w m)).dbError = true) :
    ∃ w', interp (alone i j env) (handle m identity) w = some (.ok (), w') ∧
      (w'.db.messages = w.db.messages ∧ w'.db.correlations = w.db.correlations ↔
        (env (saveCall env w m)).dbError = true) := by
  have hends : Ends (alone i j env) (handle m identity) w fun r w' ↦
      r = .ok () ∧ Aborted (!(env (saveCall env w m)).dbError) w w' := ends_handle ht hfree hm hfail
  obtain ⟨r, w', hrun, rfl, hab⟩ := hends
  refine ⟨w', hrun, fun h ↦ ?_, fun h ↦ ⟨?_, hab.correlations⟩⟩
  · rcases hab.messages with ⟨-, hsaved⟩ | ⟨row, hrow, -⟩
    · simpa using hsaved
    · rw [h.1] at hrow
      exact absurd hrow (by simp)
  · rcases hab.messages with ⟨hrow, -⟩ | ⟨row, -, hsaved⟩
    · exact hrow
    · rw [h] at hsaved
      cases hsaved

/-- Alice's message to bob, which needs a reply. -/
def asking : Message :=
  { flags := flagNeedsReply, correlationId := 7, sender := [97], destination := [98] }

/-- The database refuses new messages. -/
def refusesMessages : Op → Choice
  | .saveMessage _ => { dbError := true }
  | _ => {}

/-- The database refuses new correlations. -/
def refusesCorrelations : Op → Choice
  | .saveCorrelation _ _ _ => { dbError := true }
  | _ => {}

theorem accept_atomic_iff_refused : ∃ w', interp (alone 0 (arrival asking) refusesMessages)
    (handle asking [97]) (initial none) = some (.ok (), w') ∧
      (w'.db.messages = [] ∧ w'.db.correlations = [] ↔
        (refusesMessages (saveCall refusesMessages (initial none) asking)).dbError = true) :=
  accept_atomic_iff rfl rfl (.inl ⟨rfl, rfl⟩) (.inl rfl)

/-- The message stays in the table without its correlation. -/
theorem row_left_behind : ¬ ∀ (i : ℕ) j env w m identity w', w.terminated = false →
    w.registryOwner = none → Linking m →
      ((env (saveCall env w m)).dbError = true ∨ (env (linkCall env w m)).dbError = true) →
        interp (alone i j env) (handle m identity) w = some (.ok (), w') →
          w'.db.messages = w.db.messages ∧ w'.db.correlations = w.db.correlations := by
  intro h
  have hrun : (interp (alone 0 (arrival asking) refusesCorrelations) (handle asking [97])
      (initial none)).map (fun r ↦ (r.1.toOption, r.2.db.messages.length)) = some (some (), 1) := by
    decide +kernel
  obtain ⟨⟨r, w'⟩, hrun, hv⟩ := Option.map_eq_some_iff.mp hrun
  obtain ⟨hr, hlen⟩ := Prod.mk.inj hv
  cases r with
  | error e => cases hr
  | ok u =>
    obtain ⟨hmessages, -⟩ := h 0 _ _ _ _ _ w' rfl rfl (.inl ⟨rfl, rfl⟩) (.inr rfl) hrun
    rw [hmessages] at hlen
    cases hlen

end MessageBroker.AcceptBlocks
