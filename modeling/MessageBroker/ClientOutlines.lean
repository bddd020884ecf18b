import MessageBroker.ProofOutlines
import MessageBroker.UniversalClient

namespace MessageBroker.ClientOutlines

open ByteStrings ProgramTrees ProofOutlines ThreadPools UniversalClient
open NumberTexts (ascii)
open WireMessages (Message flagNone flagNeedsReply flagNeedsAck)

variable {clientName data : Bytes} {w w' : World} {o : Op} {ch : Choice} {r : o.Res} {m : Message} {id : UInt64}
  {i : ℕ} {j : Job} {α β : Type}

/-- Nothing is struck from the log. -/
def Grows (w w' : World) : Prop := ∀ e ∈ w.log, e ∈ w'.log

theorem Grows.refl (w : World) : Grows w w := fun _ ↦ id

theorem Grows.trans {u : World} (h : Grows u w) (h' : Grows w w') : Grows u w' := fun e he ↦ h' e (h e he)

def Reported (w : World) (r : Report) : Prop := ⟨.report r, ()⟩ ∈ w.log

def Read (w : World) (m : Message) : Prop := ∃ data, ⟨.receive, some data⟩ ∈ w.log ∧ deserialize data = .ok m

def Sent (w : World) (m : Message) : Prop := ∃ data, ⟨.send data, .ok ()⟩ ∈ w.log ∧ serialize m = .ok data

def Requested (w : World) (id : UInt64) : Prop := ∃ dest, ⟨.setPendingRequest id dest, ()⟩ ∈ w.log

/-- The user has typed a line with this command, its argument and a text. -/
def Typed (w : World) (command : String) (argument text : Bytes) : Prop :=
  ∃ line, ⟨.getline, some line⟩ ∈ w.log ∧ (readWord line).1 = ascii command ∧
    arguments (readWord line).2 = some (argument, text)

/-- The commands that send a message, with what it needs: a reply, an acknowledgement. -/
def sendCommands : List (String × Bool × Bool) :=
  [("send", false, false), ("send_ack", false, true), ("request", true, false)]

/-- What gives the client occasion to send a message. -/
inductive Occasion (clientName : Bytes) (w : World) : Message → Prop
  | register : Occasion clientName w { type := .register, sender := clientName }
  | unregister : Occasion clientName w { type := .unregister, sender := clientName }
  | message {command : String} {dest text : Bytes} {needsReply needsAck : Bool} (correlationId : UInt64)
      (h : Typed w command dest text) (hcmd : (command, needsReply, needsAck) ∈ sendCommands)
      (hreq : needsReply = true → Requested w correlationId) :
      Occasion clientName w (newMessage clientName dest text needsReply needsAck correlationId)
  | manualReply {corrIdStr text : Bytes} {correlationId : UInt64} (h : Typed w "reply" corrIdStr text)
      (hid : stoull corrIdStr = .ok correlationId) : Occasion clientName w
        (manualReply clientName correlationId text)
  | reply {m : Message} (h : Reported w (.message m)) (hreply : m.needsReply = true) :
      Occasion clientName w (replyTo clientName m (autoReply m))
  | ack {m : Message} (h : Reported w (.message m)) (hack : m.needsAck = true) :
      Occasion clientName w (ackOf clientName m.correlationId m.sender)

/-- What an operation of the client presupposes. -/
def Justified (clientName : Bytes) (w : World) : Op → Prop
  | .send data => ∃ m, Occasion clientName w m ∧ serialize m = .ok data
  | .report (.message m) => m.type = .message ∧ Read w m
  | .report (.reply m) => m.type = .reply ∧ Read w m
  | .report (.ack m) => m.type = .ack ∧ Read w m
  | .erasePendingRequest id => ∃ m, Reported w (.reply m) ∧ m.correlationId = id
  | _ => True

theorem Reported.grows {r : Report} (h : Reported w r) (hl : Grows w w') : Reported w' r := hl _ h

theorem Read.grows (h : Read w m) (hl : Grows w w') : Read w' m := by
  obtain ⟨data, hd, hm⟩ := h
  exact ⟨data, hl _ hd, hm⟩

theorem Sent.grows (h : Sent w m) (hl : Grows w w') : Sent w' m := by
  obtain ⟨data, hd, hm⟩ := h
  exact ⟨data, hl _ hd, hm⟩

theorem Requested.grows (h : Requested w id) (hl : Grows w w') : Requested w' id := by
  obtain ⟨dest, hd⟩ := h
  exact ⟨dest, hl _ hd⟩

theorem Typed.grows {command : String} {argument text : Bytes} (h : Typed w command argument text)
    (hl : Grows w w') :
    Typed w' command argument text := by
  obtain ⟨line, hline, hcmd, hargs⟩ := h
  exact ⟨line, hl _ hline, hcmd, hargs⟩

theorem Occasion.grows (h : Occasion clientName w m) (hl : Grows w w') : Occasion clientName w' m := by
  cases h with
  | register => exact .register
  | unregister => exact .unregister
  | message id h hcmd hreq => exact .message id (h.grows hl) hcmd fun hr ↦ (hreq hr).grows hl
  | manualReply h hid => exact .manualReply (h.grows hl) hid
  | reply h hr => exact .reply (h.grows hl) hr
  | ack h ha => exact .ack (h.grows hl) ha

theorem Occasion.sender (h : Occasion clientName w m) : m.sender = clientName := by
  cases h <;> rfl

theorem needsReply_newMessage {dest text : Bytes} {needsReply needsAck : Bool} :
    (newMessage clientName dest text needsReply needsAck id).needsReply = needsReply := by
  have hflags : ∀ a b : Bool,
      ((((if a then flagNeedsReply else flagNone) ||| if b then flagNeedsAck else flagNone) &&&
        flagNeedsReply) != 0) = a := by decide
  exact hflags needsReply needsAck

theorem Occasion.requested (h : Occasion clientName w m) (hr : m.needsReply = true) :
    Requested w m.correlationId := by
  cases h with
  | message id _ _ hreq => exact hreq (needsReply_newMessage.symm.trans hr)
  | _ =>
    have hnone : (flagNone &&& flagNeedsReply != 0) = true := hr
    exact absurd hnone (by decide)

theorem Justified.grows (h : Justified clientName w o) (hl : Grows w w') : Justified clientName w' o := by
  cases o with
  | send data =>
    obtain ⟨m, hm, hs⟩ := h
    exact ⟨m, hm.grows hl, hs⟩
  | erasePendingRequest id =>
    obtain ⟨m, hm, hid⟩ := h
    exact ⟨m, hm.grows hl, hid⟩
  | report r =>
    cases r with
    | message m | reply m | ack m => exact ⟨h.1, h.2.grows hl⟩
    | _ => trivial
  | _ => trivial

theorem exec_log (he : exec o ch w = some (r, w')) : w'.log = ⟨o, r⟩ :: w.log := by
  obtain ⟨⟨r₁, w₁⟩, heff, heq⟩ := Option.map_eq_some_iff.mp he
  obtain ⟨rfl, rfl⟩ := Prod.mk.inj heq
  have hlog : w₁.log = w.log := by
    cases o with
    | joinReceiver =>
      simp only [effect] at heff
      split at heff <;> cases heff
      rfl
    | _ =>
      cases heff
      rfl
  exact congrArg _ hlog

theorem exec_grows (he : exec o ch w = some (r, w')) : Grows w w' := by
  unfold Grows
  rw [exec_log he]
  exact fun _ ↦ List.mem_cons_of_mem _

theorem exec_mem (he : exec o ch w = some (r, w')) : ⟨o, r⟩ ∈ w'.log := by
  rw [exec_log he]
  exact List.mem_cons_self

theorem start_eq (h : start j w = some w') :
    ∃ input started receiver, w' = { w with input, started, receiver } := by
  cases j <;>
  · simp only [start] at h
    split at h <;> cases h
    exact ⟨_, _, _, rfl⟩

/-- Every operation that the client has performed was justified. -/
def outline (clientName : Bytes) : Outline (client clientName) where
  admits _ _ := True
  rely _ w w' := Grows w w'
  inv w := ∀ e ∈ w.log, Justified clientName w e.op
  allowed _ _ o w := Justified clientName w o
  fresh _ _ := True
  rely_refl _ w := .refl w
  rely_trans _ _ _ _ := Grows.trans
  step hinv hallowed _ he := by
    refine ⟨fun e hm ↦ ?_, fun _ _ ↦ exec_grows he⟩
    rw [exec_log he] at hm
    rcases List.mem_cons.mp hm with rfl | hm
    · exact hallowed.grows (exec_grows he)
    · exact (hinv e hm).grows (exec_grows he)
  start hinv hs := by
    obtain ⟨input, started, receiver, rfl⟩ := start_eq hs
    exact ⟨fun e hm ↦ (hinv e hm).grows (.refl _), fun _ ↦ .refl _⟩
  tick hinv := ⟨hinv, fun _ ↦ .refl _⟩
  fresh_rely _ _ := trivial

abbrev env (clientName : Bytes) (i : ℕ) (j : Job) := (outline clientName).setting i j

/-- Whatever the program has found in the log stays there. -/
abbrev Calm (clientName : Bytes) (i : ℕ) (j : Job) {α : Type} (p : Program α) (w : World) : Prop :=
  Safe (env clientName i j) (fun _ w' ↦ Grows w w') (fun _ w' ↦ Grows w w') p w

theorem calm_ret (a : α) : Calm clientName i j (.ret a) w := fun _ hl _ ↦ hl

theorem calm_lift (x : Except String α) : Calm clientName i j (Prog.lift x) w :=
  Safe.lift (fun _ _ _ hl _ ↦ hl) fun _ _ _ hl _ ↦ hl

theorem calm_bind {p : Program α} {f : α → Program β} (hp : Calm clientName i j p w)
    (hf : ∀ a w', Grows w w' → Calm clientName i j (f a) w') : Calm clientName i j (p.bind f) w := by
  refine Safe.seq hp (fun _ _ _ hl ↦ hl) fun a w' _ hl ↦ ?_
  exact (hf a w' hl).mono (fun _ _ ↦ hl.trans) fun _ _ ↦ hl.trans

theorem calm_when {b : Bool} {p : Program Unit} (hp : b = true → Calm clientName i j p w) :
    Calm clientName i j (Prog.when b p) w := by
  cases b with
  | false => exact calm_ret ()
  | true => exact hp rfl

theorem safe_perform {X : String → World → Prop} (h : Justified clientName w o) :
    Safe (env clientName i j) (fun r w' ↦ Grows w w' ∧ ⟨o, r⟩ ∈ w'.log) X (perform o) w := by
  refine Safe.perform fun w₁ hl _ ↦ ⟨h.grows hl, fun ch r w₂ _ he w₃ hl' _ ↦ ?_⟩
  exact ⟨(hl.trans (exec_grows he)).trans hl', hl' _ (exec_mem he)⟩

theorem Calm.after {u : World} {p : Program α} (h : Calm clientName i j p w) (hu : Grows u w) :
    Safe (env clientName i j) (fun _ ↦ Grows u) (fun _ ↦ Grows u) p w :=
  h.mono (fun _ _ ↦ hu.trans) fun _ _ ↦ hu.trans

theorem calm_perform (h : Justified clientName w o) : Calm clientName i j (perform o) w :=
  (safe_perform h).mono (fun _ _ h ↦ h.1) fun _ _ ↦ id

theorem calm_sendRawMessage (h : Occasion clientName w m) : Calm clientName i j (sendRawMessage m) w := by
  refine Safe.bind (Safe.lift (fun data hdata w₁ hl _ ↦ ?_) fun _ _ _ hl _ ↦ hl)
  have hsend : Justified clientName w₁ (.send data) := ⟨m, h.grows hl, hdata⟩
  exact (calm_bind (calm_perform hsend) fun r _ _ ↦ calm_lift r).after hl

theorem calm_sendReport {l : Report} (h : Occasion clientName w m)
    (hl : ∀ w, Justified clientName w (.report l)) :
    Calm clientName i j ((sendRawMessage m).bind fun _ ↦ perform (.report l)) w :=
  calm_bind (calm_sendRawMessage h) fun _ w _ ↦ calm_perform (hl w)

theorem calm_sendMessage {command : String} {dest text : Bytes} {needsReply needsAck : Bool}
    (h : Typed w command dest text) (hcmd : (command, needsReply, needsAck) ∈ sendCommands) :
    Calm clientName i j (sendMessage clientName dest text needsReply needsAck) w := by
  refine calm_bind (calm_perform trivial) fun id w₁ h₁ ↦ ?_
  -- the request is remembered before the message goes out
  have hremember : Safe (env clientName i j) (fun _ w' ↦ Grows w₁ w' ∧ (needsReply = true → Requested w' id))
      (fun _ w' ↦ Grows w₁ w') (Prog.when needsReply (perform (.setPendingRequest id dest))) w₁ := by
    cases needsReply with
    | false => exact fun w' hl _ ↦ ⟨hl, nofun⟩
    | true =>
      have hset : Justified clientName w₁ (.setPendingRequest id dest) := trivial
      exact (safe_perform hset).mono (fun _ _ h ↦ ⟨h.1, fun _ ↦ ⟨dest, h.2⟩⟩) fun _ _ h ↦ h
  refine Safe.seq hremember (fun _ _ _ h ↦ h) fun _ w₂ _ h₂ ↦ Calm.after ?_ h₂.1
  have hocc : Occasion clientName w₂ (newMessage clientName dest text needsReply needsAck id) :=
    .message id ((h.grows h₁).grows h₂.1) hcmd h₂.2
  exact calm_sendReport hocc fun _ ↦ trivial

theorem calm_handleMessage (h : Read w m) : Calm clientName i j (handleMessage clientName m) w := by
  unfold handleMessage
  cases ht : m.type with
  | message =>
    refine Safe.seq (safe_perform ⟨ht, h⟩) (fun _ _ _ h ↦ h) fun _ w₁ _ h₁ ↦ Calm.after ?_ h₁.1
    refine calm_bind (calm_when fun ha ↦ ?_) fun _ w₂ h₂ ↦ calm_when fun hr ↦ ?_
    · exact calm_sendReport (.ack h₁.2 ha) fun _ ↦ trivial
    · exact calm_sendReport (.reply (h₂ _ h₁.2) hr) fun _ ↦ trivial
  | reply =>
    refine Safe.seq (safe_perform ⟨ht, h⟩) (fun _ _ _ h ↦ h) fun _ w₁ _ h₁ ↦ Calm.after ?_ h₁.1
    exact calm_perform (o := .erasePendingRequest _) ⟨m, h₁.2, rfl⟩
  | ack => exact calm_perform ⟨ht, h⟩
  | register | unregister | unknown code hcode => exact calm_ret ()

theorem safe_receiveFrame {X : String → World → Prop} (h : ⟨.receive, some data⟩ ∈ w.log) :
    Safe (env clientName i j) (fun _ w' ↦ Grows w w') X (receiveFrame clientName data) w := by
  unfold receiveFrame
  split
  · exact fun _ hl _ ↦ hl
  · have hbody : Calm clientName i j ((Prog.lift (deserialize data)).bind (handleMessage clientName)) w :=
      Safe.bind (Safe.lift (fun m hm w₁ hl _ ↦ (calm_handleMessage ⟨data, hl _ h, hm⟩).after hl)
        fun _ _ _ hl _ ↦ hl)
    exact Safe.recover (hbody.mono (fun _ _ hl ↦ hl) fun _ w₁ hl w₂ hl' _ ↦ Grows.trans hl hl')

theorem safe_receiverLoop (n : ℕ) :
    Safe (env clientName i j) (fun _ _ ↦ True) (fun _ _ ↦ False) (receiverLoop clientName n) w := by
  induction n generalizing w with
  | zero => exact fun _ _ _ ↦ trivial
  | succ n ih =>
    refine Safe.seq (safe_perform (o := .isRunning) trivial) (fun _ _ _ ↦ False.elim) fun running w₁ _ _ ↦ ?_
    cases running with
    | false => exact (safe_perform (o := .endReceiver) trivial).mono (fun _ _ _ ↦ trivial) fun _ _ h ↦ h
    | true =>
      refine Safe.seq (safe_perform (o := .receive) trivial) (fun _ _ _ ↦ False.elim) fun r w₂ _ h₂ ↦ ?_
      match r with
      | none => exact ih
      | some data => exact Safe.seq (safe_receiveFrame h₂.2) (fun _ _ _ ↦ False.elim) fun _ _ _ _ ↦ ih

theorem calm_sendCommand {line : Bytes} {command : String} {needsReply needsAck : Bool}
    (h : ⟨.getline, some line⟩ ∈ w.log) (hword : (readWord line).1 = ascii command)
    (hcmd : (command, needsReply, needsAck) ∈ sendCommands) :
    Calm clientName i j (sendCommand clientName (readWord line).2 command needsReply needsAck) w := by
  unfold sendCommand
  split
  · next dest message hargs => exact calm_sendMessage ⟨line, h, hword, hargs⟩ hcmd
  · exact calm_perform trivial

theorem calm_processCommand {line : Bytes} (h : ⟨.getline, some line⟩ ∈ w.log) :
    Calm clientName i j (processCommand clientName line) w := by
  unfold processCommand
  dsimp only
  split_ifs with hsend hack hrequest hreply
  · exact calm_sendCommand h hsend (by simp [sendCommands])
  · exact calm_sendCommand h hack (by simp [sendCommands])
  · exact calm_sendCommand h hrequest (by simp [sendCommands])
  · split
    · next corrIdStr message hargs =>
      have htyped : Typed w "reply" corrIdStr message := ⟨line, h, hreply, hargs⟩
      refine Safe.bind (Safe.lift (fun corrId hid w₁ hl _ ↦ Calm.after ?_ hl) fun _ _ _ hl _ ↦ hl)
      exact calm_sendReport (.manualReply (htyped.grows hl) hid) fun _ ↦ trivial
    · exact calm_perform trivial
  · exact calm_bind (calm_perform trivial) fun _ _ _ ↦ calm_perform trivial
  · exact calm_perform trivial
  · exact calm_perform trivial
  · exact calm_perform trivial

theorem calm_inputLoop (n : ℕ) : Calm clientName i j (inputLoop clientName n) w := by
  induction n generalizing w with
  | zero => exact calm_ret ()
  | succ n ih =>
    refine calm_bind (calm_perform trivial) fun running w₁ _ ↦ ?_
    cases running with
    | false => exact calm_ret ()
    | true =>
      rw [if_pos rfl]
      refine Safe.seq (safe_perform (o := .getline) trivial) (fun _ _ _ h ↦ h) fun r w₂ _ h₂ ↦ Calm.after ?_ h₂.1
      match r with
      | none => exact calm_ret ()
      | some line =>
        dsimp only
        split
        · exact ih
        · exact calm_bind (calm_processCommand h₂.2) fun _ _ _ ↦ ih

theorem calm_run (n : ℕ) : Calm clientName i j (run clientName n) w := by
  refine calm_bind (calm_sendReport .register fun _ ↦ trivial) fun _ _ _ ↦ ?_
  refine calm_bind (calm_perform trivial) fun _ _ _ ↦ ?_
  refine calm_bind (calm_perform trivial) fun _ _ _ ↦ ?_
  exact calm_bind (calm_inputLoop n) fun _ _ _ ↦ calm_sendReport .unregister fun _ ↦ trivial

theorem calm_stop : Calm clientName i j stop w :=
  calm_bind (calm_perform trivial) fun _ _ _ ↦ calm_perform trivial

theorem safe_main (n : ℕ) :
    Safe (env clientName i j) (fun _ _ ↦ True) (fun _ _ ↦ False) (main clientName n) w := by
  have hrun : Safe (env clientName i j) (fun _ _ ↦ True) (fun _ _ ↦ True)
      ((run clientName n).ensuring stop) w := by
    refine Safe.ensuring ((calm_run n).mono (fun _ _ _ ↦ ?_) fun _ _ _ ↦ ?_) <;> exact calm_stop.guarded
  refine Safe.recover (hrun.mono (fun _ _ _ ↦ trivial) fun e w _ ↦ ?_)
  exact (safe_perform (o := .report (.error e)) trivial).mono (fun _ _ _ ↦ trivial) fun _ _ h ↦ h

variable {ok : Pool Op Op.Res World Job → Label Job Choice Unit → Prop} {S : Pool Op Op.Res World Job}

theorem justified_of_reachable (h : (client clientName).Reachable ok {} S) :
    ∀ e ∈ S.world.log, Justified clientName S.world e.op := by
  refine (Outline.reachable (O := outline clientName) (fun e he ↦ absurd he List.not_mem_nil) (fun _ ↦ trivial)
    (fun _ _ _ _ _ _ _ _ ↦ trivial) (fun i j w _ _ ↦ ?_) h).inv
  cases j with
  | main lines => exact safe_main _
  | receiver rounds => exact safe_receiverLoop rounds

/-- The lines that the client has shown, the last one first. -/
def shown (w : World) : List Report :=
  w.log.filterMap fun e ↦
    match e.op with
    | .report r => some r
    | _ => none

theorem reported_of_mem_shown {r : Report} (h : r ∈ shown w) : Reported w r := by
  obtain ⟨⟨o, res⟩, he, hr⟩ := List.mem_filterMap.mp h
  cases o with
  | report r' =>
    obtain rfl := Option.some.inj hr
    exact he
  | _ => cases hr

/-- A request that was made is pending, unless it has been erased. -/
def Tracked (w : World) : Prop :=
  ∀ id, Requested w id → id ∈ w.pendingRequests ∨ ⟨.erasePendingRequest id, ()⟩ ∈ w.log

theorem tracked_exec (h : Tracked w) (he : exec o ch w = some (r, w')) : Tracked w' := by
  have hlog := exec_log he
  intro id hr
  -- an operation that neither makes nor erases this request
  have frame (hmem : id ∈ w.pendingRequests → id ∈ w'.pendingRequests) (hold : Requested w id) :
      id ∈ w'.pendingRequests ∨ ⟨.erasePendingRequest id, ()⟩ ∈ w'.log := by
    rcases h id hold with hp | hp
    · exact .inl (hmem hp)
    · exact .inr (exec_grows he _ hp)
  obtain ⟨dest, hd⟩ := hr
  rw [hlog] at hd
  cases o with
  | setPendingRequest id' dest' =>
    cases he
    rcases List.mem_cons.mp hd with heq | hd
    · cases heq
      exact .inl (AList.mem_insert _ |>.mpr (.inl rfl))
    · exact frame (fun hp ↦ AList.mem_insert _ |>.mpr (.inr hp)) ⟨dest, hd⟩
  | erasePendingRequest id' =>
    cases he
    rcases List.mem_cons.mp hd with heq | hd
    · cases heq
    · by_cases hid : id = id'
      · exact .inr (hid ▸ List.mem_cons_self)
      · exact frame (fun hp ↦ AList.mem_erase.mpr ⟨hid, hp⟩) ⟨dest, hd⟩
  | joinReceiver =>
    obtain ⟨⟨r₁, w₁⟩, heff, heq⟩ := Option.map_eq_some_iff.mp he
    obtain ⟨rfl, rfl⟩ := Prod.mk.inj heq
    rcases List.mem_cons.mp hd with heq' | hd
    · cases heq'
    · refine frame (fun hp ↦ ?_) ⟨dest, hd⟩
      simp only [effect] at heff
      split at heff <;> cases heff
      exact hp
  | _ =>
    cases he
    rcases List.mem_cons.mp hd with heq | hd
    · cases heq
    · exact frame (fun hp ↦ hp) ⟨dest, hd⟩

theorem tracked_of_reachable (h : (client clientName).Reachable ok {} S) : Tracked S.world := by
  induction h with
  | init => exact fun _ ⟨_, hd⟩ ↦ absurd hd List.not_mem_nil
  | next l _ _ hs ih =>
    cases l with
    | start j =>
      obtain ⟨w', hw, rfl⟩ := Machine.start_cases hs
      obtain ⟨input, started, receiver, rfl⟩ := start_eq hw
      exact ih
    | step i ch =>
      obtain ⟨j, o, k, r, w', -, he, rfl⟩ := Machine.step_cases hs
      exact tracked_exec ih he
    | tick t => exact Option.some.inj hs ▸ ih

end MessageBroker.ClientOutlines
