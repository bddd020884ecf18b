import MessageBroker.ThreadPhases

namespace MessageBroker.RoutePhases

open ByteStrings WireMessages MessageStore ProgramTrees Protocols BrokerState SessionQueues
  ClientRegistry MessageHandlers ServerJobs SharedInvariant ProgramShapes RunInvariants

/-- Where a thread stands with the correlations and, if it handles a reply, with
the row it saves for destination `d`. -/
inductive RoutePhase
  | outside
  | loose
  | failed
  | accepting
  | accepted
  | found (id : ℕ)
  | asking
  | redirected (owner : Bytes)
  | saved (d : Bytes) (id : ℕ)
  | linked (d : Bytes) (id : ℕ)
  | absent (d : Bytes) (id : ℕ)
  | met (d : Bytes) (id s : ℕ)
  | online (d : Bytes) (id s : ℕ)
  | handed (d : Bytes) (id s : ℕ)
deriving DecidableEq

def links : Op → Bool
  | .saveCorrelation _ _ _ | .markAckReceived _ _ => true
  | _ => false

def quiet : Op → Bool
  | .markDelivered _ => false
  | o => !links o

/-- Where a reply goes when its correlation belongs to `owner`. -/
def recipient (m : Message) (owner : Bytes) : Bytes :=
  if owner = [] then m.destination else owner

def redirect (m : Message) (d : Bytes) : Message := { m with destination := d }

def routeProtocol (m : Message) : Protocol Op Op.Res RoutePhase where
  may x o :=
    match x, o with
    | .failed, _ => True
    | .accepting, .saveCorrelation _ corr owner => corr = m.correlationId ∧ owner = m.sender
    | .found _, .findMessageIdByCorrelation corr => corr = m.correlationId
    | .found _, .findMessageIdByCorrelationAndDestination corr _ => corr = m.correlationId
    | .found id, .markAckReceived id' n => id' = id ∧ n = m.sender
    | .asking, .findOriginalSenderByCorrelation corr => corr = m.correlationId
    | .redirected owner, o =>
      o = .saveMessage ⟨redirect m (recipient m owner), none, recipient m owner⟩
    | .saved d id, o => o = .saveCorrelation id m.correlationId d
    | .linked d _, .findClient n => n = d
    | .met _ _ s, .isOnline s' => s' = s
    | .online d id s, o => quiet o = true ∧
      ∀ s' c, hands o = some (s', c) → s' = s ∧ c = ⟨redirect m d, some id, d⟩
    | .loose, o | .accepting, o | .accepted, o | .found _, o | .handed _ _ _, o => links o = false
    | _, o => quiet o = true
  next x o r :=
    match x, o, r with
    | .accepting, .saveMessage _, .error _ => .failed
    | .accepting, .saveCorrelation _ _ _, .ok _ => .accepted
    | .accepting, .saveCorrelation _ _ _, .error _ => .failed
    | .found _, .findMessageIdByCorrelation _, id => .found id
    | .found _, .findMessageIdByCorrelationAndDestination _ _, id => .found id
    | .asking, .findOriginalSenderByCorrelation _, owner =>
      if owner.length ≤ 255 then .redirected owner else .failed
    | .redirected owner, .saveMessage _, .ok id => .saved (recipient m owner) id
    | .redirected _, .saveMessage _, .error _ => .failed
    | .saved d id, .saveCorrelation _ _ _, .ok _ => .linked d id
    | .saved _ _, .saveCorrelation _ _ _, .error _ => .failed
    | .linked d id, .findClient _, s => s.elim (.absent d id) (.met d id)
    | .met d id s, .isOnline _, online => if online then .online d id s else .absent d id
    | .online d id s, .pushQueue _ _, _ => .handed d id s
    | .online d id s, .pushPendingSend _ _ _, _ => .handed d id s
    | .online _ _ _, .markSent _, .error _ => .failed
    | x, _, _ => x

variable {m : Message} {x y : RoutePhase} {α : Type} {o : Op}

/-- In phase `x`, unless a storage call has failed. -/
def Calm (x y : RoutePhase) : Prop := y = x ∨ y = .failed

/-- The phases that only storage calls leave. -/
def Steady : RoutePhase → Prop
  | .redirected _ | .saved _ _ | .linked _ _ | .met _ _ _ | .online _ _ _ => False
  | _ => True

theorem steady_perform (hx : Steady x) (ho : family o ≠ .storage) :
    Within (routeProtocol m) (Calm x) (perform o) := by
  have hq : quiet o = true ∧ links o = false := by
    cases o with
    | saveCorrelation | markDelivered | markAckReceived => exact absurd rfl ho
    | _ => exact ⟨rfl, rfl⟩
  refine .perform fun y hy ↦ ?_
  rcases hy with rfl | rfl
  · cases y with
    | redirected | saved | linked | met | online => exact hx.elim
    | outside | absent => exact ⟨hq.1, fun _ ↦ .inl rfl⟩
    | loose | accepted | handed => exact ⟨hq.2, fun _ ↦ .inl rfl⟩
    | failed => exact ⟨trivial, fun _ ↦ .inl rfl⟩
    | accepting =>
      cases o with
      | saveCorrelation => exact absurd rfl ho
      | saveMessage c =>
        refine ⟨hq.2, fun r ↦ ?_⟩
        cases r with
        | ok id => exact .inl rfl
        | error e => exact .inr rfl
      | _ => exact ⟨hq.2, fun _ ↦ .inl rfl⟩
    | found id =>
      cases o with
      | findMessageIdByCorrelation | findMessageIdByCorrelationAndDestination
      | markAckReceived => exact absurd rfl ho
      | _ => exact ⟨hq.2, fun _ ↦ .inl rfl⟩
    | asking =>
      cases o with
      | findOriginalSenderByCorrelation => exact absurd rfl ho
      | _ => exact ⟨hq.1, fun _ ↦ .inl rfl⟩
  · exact ⟨trivial, fun _ ↦ .inr rfl⟩

theorem registering (hx : Steady x) : Registering (Within (routeProtocol m) (Calm x)) :=
  registering_of_composable (Within.composable _ _) fun _ ho ↦ steady_perform hx ho

/-- The phases in which a thread may end when no storage call fails. -/
def Final (m : Message) : RoutePhase → Prop
  | .accepting => (m.needsReply || m.needsAck) = false
  | .asking | .redirected _ | .saved _ _ | .linked _ _ | .met _ _ _ | .online _ _ _ => False
  | _ => True

def Settles (m : Message) (p : Program α) (x : RoutePhase) : Prop :=
  Follows (routeProtocol m) (fun _ ↦ Final m) (fun _ ↦ Final m) p x

theorem final_of_calm (hx : Final m x) (hy : Calm x y) : Final m y := by
  rcases hy with rfl | rfl
  · exact hx
  · trivial

theorem steady_of_final (hx : Final m x) : Steady x := by
  cases x with
  | asking | redirected | saved | linked | met | online => exact hx.elim
  | _ => trivial

theorem settles_of_within {p : Program α} (h : Within (routeProtocol m) (Calm x) p)
    (hx : Final m x) : Settles m p x :=
  Follows.mono (h x (.inl rfl)) (fun _ _ ↦ final_of_calm hx) fun _ _ ↦ final_of_calm hx

theorem settles_failed (p : Program α) : Settles m p .failed :=
  Follows.absorbed (fun _ ↦ ⟨trivial, fun _ ↦ rfl⟩) (fun _ ↦ trivial) fun _ ↦ trivial

theorem Settles.after {β : Type} {p : Program α} {f : α → Program β}
    (h : Within (routeProtocol m) (Calm x) p) (ht : Total p) (hf : ∀ a, Settles m (f a) x) :
    Settles m (p.bind f) x := by
  refine Follows.bind (Follows.of_total (h x (.inl rfl)) ht) fun a y hy ↦ ?_
  rcases hy with rfl | rfl
  · exact hf a
  · exact settles_failed _

theorem Settles.holding {session : Option ℕ} {p : Program α} (h : Settles m p x) :
    Settles m (holding session p) x := by
  have drop (s : ℕ) {y : RoutePhase} (hy : Final m y) : Settles m (dropSession s) y :=
    settles_of_within (registering (steady_of_final hy)).dropSession hy
  cases session with
  | none => exact h
  | some s => exact Follows.ensuring h (fun _ _ hy ↦ drop s hy) fun _ _ hy ↦ drop s hy

theorem total_findSession (n : Bytes) : Total (findSession n) := fun _ _ _ ↦ trivial

theorem total_isOnlineSession (session : Option ℕ) : Total (isOnlineSession session) := by
  cases session with
  | none => trivial
  | some s => exact fun _ ↦ trivial

theorem total_touchSession (identity : Bytes) : Total (touchSession identity) := by
  refine fun _ n ↦ ?_
  cases n with
  | none => exact fun _ ↦ trivial
  | some n =>
    refine fun s ↦ ?_
    cases s with
    | none => exact fun _ ↦ trivial
    | some s => exact fun _ _ ↦ trivial

/-- The phases in which rows may be marked. -/
def MayMark : RoutePhase → Prop
  | .loose | .accepting | .accepted | .failed => True
  | _ => False

def marks (o : Op) : Bool :=
  onRows o || match o with
    | .loadPendingMessagesOnly _ | .loadExpiredSent _ | .increment _ => true
    | _ => false

theorem marks_perform (hx : MayMark x) {o : Op} (ho : marks o = true) :
    Within (routeProtocol m) (Calm x) (perform o) := by
  refine .perform fun y hy ↦ ?_
  have hl : links o = false := by
    cases o with
    | saveCorrelation | markAckReceived => cases ho
    | _ => rfl
  rcases hy with rfl | rfl
  · cases y with
    | loose | accepted => exact ⟨hl, fun _ ↦ .inl rfl⟩
    | failed => exact ⟨trivial, fun _ ↦ .inl rfl⟩
    | accepting =>
      cases o with
      | markDelivered | markSent | markPending | loadExpiredSent | loadPendingMessagesOnly
      | loadPendingRepliesForSenderOnly | increment => exact ⟨rfl, fun _ ↦ .inl rfl⟩
      | _ => cases ho
    | _ => exact hx.elim
  · exact ⟨trivial, fun _ ↦ .inr rfl⟩

theorem marking (hx : MayMark x) : Marking (Within (routeProtocol m) (Calm x)) := by
  have hsteady : Steady x := by
    cases x with
    | redirected | saved | linked | met | online => exact hx.elim
    | _ => trivial
  have receipt (s : ℕ) : Within (routeProtocol m) (Calm x) (perform (.updateLastReceive s)) :=
    steady_perform hsteady (by simp [family])
  refine ⟨registering hsteady, receipt, fun o ho ↦ marks_perform hx ?_, fun n ↦ ?_, fun cfg ↦ ?_⟩
  · unfold marks
    rw [ho]
    rfl
  · exact (registering hsteady).deliverOfflineMessages (fun _ ↦ marks_perform hx rfl)
      (fun _ ↦ marks_perform hx rfl) (marks_perform hx rfl) (marks_perform hx rfl) receipt
  · exact (registering hsteady).checkExpiredAcks (fun _ ↦ marks_perform hx rfl)
      (fun _ ↦ marks_perform hx rfl) (marks_perform hx rfl) (marks_perform hx rfl)

theorem settles_registerHandler {identity : Bytes} : Settles m (registerHandler m identity) .loose :=
  settles_of_within (marking (x := .loose) trivial).registerHandler trivial

theorem settles_unregisterHandler : Settles m (unregisterHandler m) .loose :=
  settles_of_within (marking (m := m) (x := .loose) trivial).unregisterHandler trivial

/-- After its accept block a message is accepted, or needs no correlation. -/
def Passed (m : Message) (x : RoutePhase) : Prop := Final m x ∧ MayMark x

theorem follows_acceptMessage : Follows (routeProtocol m) (fun _ ↦ Passed m)
    (fun _ y ↦ y = .failed) (acceptMessage m) RoutePhase.accepting := by
  refine ⟨rfl, fun r ↦ ?_⟩
  cases r with
  | error e => exact rfl
  | ok id =>
    change Follows _ _ _ ((Prog.when (m.needsReply || m.needsAck) _).bind _) RoutePhase.accepting
    cases hflags : m.needsReply || m.needsAck with
    | false => exact ⟨hflags, trivial⟩
    | true =>
      refine ⟨⟨rfl, rfl⟩, fun r ↦ ?_⟩
      cases r with
      | error e => exact rfl
      | ok u => exact ⟨trivial, trivial⟩

theorem settles_handleMessage {session : Option ℕ} :
    Settles m (handleMessage m session) .accepting := by
  refine Settles.after (registering (x := .accepting) trivial).isOnlineSession (total_isOnlineSession session)
    fun online ↦ ?_
  have hacc : Follows (routeProtocol m) (fun _ ↦ Passed m) (fun _ ↦ Final m)
      (MessageHandlers.accepting (acceptMessage m)) .accepting := by
    have hsome : Follows (routeProtocol m) (fun _ ↦ Passed m) (fun _ y ↦ y = .failed)
        (some <$> acceptMessage m) .accepting := follows_acceptMessage.bind fun _ _ hy ↦ hy
    refine hsome.recover fun e y hy ↦ ?_
    subst hy
    exact Follows.absorbed (fun _ ↦ ⟨trivial, fun _ ↦ rfl⟩) (fun _ ↦ ⟨trivial, trivial⟩) fun _ ↦ trivial
  refine hacc.bind fun id y hy ↦ ?_
  have h := marking (m := m) hy.2
  refine settles_of_within ?_ hy.1
  cases id with
  | none => exact h.ret ()
  | some id =>
    cases session with
    | none => exact h.ret ()
    | some s => exact h.when h.sendNow

theorem settles_messageHandler : Settles m (messageHandler m) .accepting :=
  Settles.after ((registering (x := .accepting) trivial).findSession _) (total_findSession _) fun _ ↦
    settles_handleMessage.holding

theorem found_perform {id : ℕ} (h : (routeProtocol m).may (.found id) o)
    (h' : ∀ r, (routeProtocol m).next (.found id) o r = .found id) :
    Within (routeProtocol m) (Calm (.found id)) (perform o) := by
  refine .perform fun y hy ↦ ?_
  rcases hy with rfl | rfl
  · exact ⟨h, fun r ↦ .inl (h' r)⟩
  · exact ⟨trivial, fun _ ↦ .inr rfl⟩

theorem settles_ackHandler : Settles m (ackHandler m) (.found 0) := by
  unfold MessageHandlers.ackHandler
  split
  · refine ⟨rfl, fun owner ↦ ?_⟩
    have hfind : Follows (routeProtocol m) (fun id y ↦ y = RoutePhase.found id)
        (fun _ ↦ Final m) (findAcknowledged m) (.found 0) := by
      refine ⟨rfl, fun id ↦ ?_⟩
      change Follows _ _ _ (if id = 0 then _ else _) (RoutePhase.found id)
      split
      · exact ⟨rfl, fun _ ↦ rfl⟩
      · exact rfl
    refine hfind.bind fun id y hy ↦ ?_
    subst hy
    have h : Registering (Within (routeProtocol m) (Calm (.found id))) := registering trivial
    refine settles_of_within ?_ trivial
    split
    · exact h.bind (found_perform rfl fun _ ↦ rfl) fun _ ↦
        h.when (h.acknowledge (found_perform rfl fun _ ↦ rfl) (found_perform ⟨rfl, rfl⟩ fun _ ↦ rfl))
    · exact h.ret ()
  · exact trivial

variable {d : Bytes} {id s : ℕ}

/-- What follows the accept block of a reply. -/
def Linked (m : Message) : Option (ℕ × Message) → RoutePhase → Prop
  | some (id, reply), y => y = .failed ∨
    ∃ d, reply = redirect m d ∧ y = .linked d id ∧ d.length ≤ 255
  | none, y => y = .failed

theorem acceptReply_eq : acceptReply m =
    (perform (.findOriginalSenderByCorrelation m.correlationId)).bind fun owner ↦
      (saveMessage ⟨redirect m (recipient m owner), none, recipient m owner⟩).bind fun id ↦
        (saveCorrelation id m.correlationId (recipient m owner)).bind fun _ ↦
          .ret (id, redirect m (recipient m owner)) := by
  unfold acceptReply
  refine congrArg _ (funext fun owner ↦ ?_)
  unfold redirect recipient
  split <;> rfl

theorem follows_acceptReply (hm : m.Fits) : Follows (routeProtocol m) (fun a ↦ Linked m (some a))
    (fun _ y ↦ y = .failed) (acceptReply m) .asking := by
  rw [acceptReply_eq]
  refine ⟨rfl, fun owner ↦ ?_⟩
  change Follows _ _ _ _ (if owner.length ≤ 255 then RoutePhase.redirected owner else .failed)
  split
  · next howner =>
    have hd : (recipient m owner).length ≤ 255 := by
      unfold recipient
      split
      · exact hm.2.1
      · exact howner
    refine ⟨rfl, fun r ↦ ?_⟩
    cases r with
    | error e => exact rfl
    | ok id =>
      refine ⟨rfl, fun r ↦ ?_⟩
      cases r with
      | error e => exact rfl
      | ok u => exact .inr ⟨_, rfl, rfl, hd⟩
  · refine Follows.absorbed (fun _ ↦ ⟨trivial, fun _ ↦ rfl⟩) (fun a ↦ ?_) fun _ ↦ rfl
    exact .inl rfl

theorem fits_redirect (hm : m.Fits) (hd : d.length ≤ 255) : (redirect m d).Fits :=
  ⟨hm.1, hd, hm.2.2⟩

/-- The copy is handed over before `sendMessage` ends. -/
theorem follows_sendMessage (hm : m.Fits) (hd : d.length ≤ 255) : Follows (routeProtocol m)
    (fun sent y ↦ sent = true ∧ Calm (.handed d id s) y) (fun _ ↦ Calm (.handed d id s))
    (sendMessage s ⟨redirect m d, some id, d⟩) (.online d id s) := by
  have h : Registering (Within (routeProtocol m) (Calm (.handed d id s))) := registering trivial
  have hands {s' : ℕ} {c : Copy} (hc : some (s, (⟨redirect m d, some id, d⟩ : Copy)) = some (s', c)) :
      s' = s ∧ c = ⟨redirect m d, some id, d⟩ := by
    cases hc
    exact ⟨rfl, rfl⟩
  have rest {p : Program Unit} (hp : Within (routeProtocol m) (Calm (.handed d id s)) p) :
      Follows (routeProtocol m) (fun sent y ↦ sent = true ∧ Calm (.handed d id s) y)
        (fun _ ↦ Calm (.handed d id s)) (p.bind fun _ ↦ .ret true) (.handed d id s) :=
    (hp _ (.inl rfl)).bind fun _ y hy ↦ ⟨rfl, hy⟩
  refine ⟨⟨rfl, by simp [RunInvariants.hands]⟩, fun _ ↦ ⟨⟨rfl, by simp [RunInvariants.hands]⟩, fun online ↦ ?_⟩⟩
  cases online with
  | true =>
    obtain ⟨data, hdata, -⟩ := WireCodec.deserialize_serialize (fits_redirect hm hd)
    change Follows _ _ _ ((sendZmqMessage s ⟨redirect m d, some id, d⟩).bind fun _ ↦ .ret true)
      (RoutePhase.online d id s)
    have hsend : sendZmqMessage s ⟨redirect m d, some id, d⟩ =
        (sendToClient s ⟨redirect m d, some id, d⟩ data).recover fun _ ↦ perform (.markOffline s) := by
      unfold sendZmqMessage
      rw [hdata]
      rfl
    rw [hsend]
    refine ⟨⟨rfl, fun s' c hc ↦ hands hc⟩, fun _ ↦ rest ?_⟩
    exact h.recover (steady_perform trivial (by simp [family])) fun _ ↦ h.session (.markOffline s) rfl
  | false =>
    refine ⟨⟨rfl, by simp [RunInvariants.hands]⟩, fun _ ↦
      ⟨⟨rfl, fun s' c hc ↦ hands hc⟩, fun _ ↦ rest (h.ensuring ?_ (h.queue (.unlockQueue s) rfl))⟩⟩
    exact h.bind (h.ret _) fun _ ↦ h.bind (h.queue (.queueSize s) rfl) fun n ↦ h.when (h.persistLoop _)

theorem within_mark {o : Op} (ho : onRows o = true) :
    Within (routeProtocol m) (Calm (.handed d id s)) (perform o) := by
  refine .perform fun y hy ↦ ?_
  rcases hy with rfl | rfl
  · cases o with
    | markDelivered | markSent | markPending | loadPendingRepliesForSenderOnly => exact ⟨rfl, fun _ ↦ .inl rfl⟩
    | _ => cases ho
  · exact ⟨trivial, fun _ ↦ .inr rfl⟩

theorem settles_sendReply (hm : m.Fits) (hd : d.length ≤ 255) :
    Settles m (sendReply (redirect m d) id s) (.online d id s) := by
  have h : Registering (Within (routeProtocol m) (Calm (.handed d id s))) := registering trivial
  have mark {o : Op} (ho : onRows o = true) :
      Within (routeProtocol m) (Calm (.handed d id s)) (perform o) := within_mark ho
  have rollBack : Within (routeProtocol m) (Calm (.handed d id s)) (rollBack id s) :=
    h.bind (h.recover (h.bind (mark (o := .markPending id) rfl) fun r ↦ h.lift r) fun _ ↦ h.ret ())
      fun _ ↦ h.bind (h.session (.markOffline s) rfl) fun _ ↦ h.increment _
  have settles {p : Program Unit} (hp : Within (routeProtocol m) (Calm (.handed d id s)) p)
      {y : RoutePhase} (hy : Calm (.handed d id s) y) : Settles m p y :=
    (hp y hy).mono (fun _ _ ↦ final_of_calm trivial) fun _ _ ↦ final_of_calm trivial
  have hsend : Follows (routeProtocol m) (fun _ ↦ Calm (.handed d id s))
      (fun _ ↦ Calm (.handed d id s)) (do
        if ← sendMessage s ⟨redirect m d, some id, d⟩ then
          Prog.when (!(redirect m d).needsAck) (markDelivered id)
        else rollBackReply (redirect m d) id s) (.online d id s) := by
    refine (follows_sendMessage hm hd).bind fun sent y hsent ↦ ?_
    obtain ⟨rfl, hy⟩ := hsent
    exact h.when (h.bind (mark (o := .markDelivered id) rfl) fun r ↦ h.lift r) y hy
  have hbody : Follows (routeProtocol m) (fun _ ↦ Calm (.handed d id s))
      (fun _ ↦ Calm (.handed d id s)) (do
        Prog.when (redirect m d).needsAck (markSent id)
        if ← sendMessage s ⟨redirect m d, some id, d⟩ then
          Prog.when (!(redirect m d).needsAck) (markDelivered id)
        else rollBackReply (redirect m d) id s) (.online d id s) := by
    have hmark : Follows (routeProtocol m) (fun _ y ↦ y = .online d id s) (fun _ y ↦ y = .failed)
        (Prog.when (redirect m d).needsAck (markSent id)) (.online d id s) := by
      unfold Prog.when
      split
      · refine ⟨⟨rfl, by simp [hands]⟩, fun r ↦ ?_⟩
        cases r with
        | ok u => exact rfl
        | error e => exact rfl
      · exact rfl
    refine Follows.bind (hmark.mono (fun _ _ hy ↦ hy) fun _ _ ↦ .inr) fun _ y hy ↦ ?_
    subst hy
    exact hsend
  exact Follows.recover (hbody.mono (fun _ _ ↦ final_of_calm trivial) fun _ _ hy ↦ hy)
    fun _ y hy ↦ settles rollBack hy

theorem settles_replyHandler (hm : m.Fits) : Settles m (replyHandler m) .asking := by
  have hacc : Follows (routeProtocol m) (Linked m) (fun _ ↦ Final m)
      (MessageHandlers.accepting (acceptReply m)) .asking := by
    have hsome : Follows (routeProtocol m) (Linked m) (fun _ y ↦ y = .failed)
        (some <$> acceptReply m) .asking := (follows_acceptReply hm).bind fun _ _ hy ↦ hy
    refine hsome.recover fun e y hy ↦ ?_
    subst hy
    exact ⟨trivial, fun _ ↦ rfl⟩
  refine hacc.bind fun a y hy ↦ ?_
  cases a with
  | none =>
    cases hy
    exact settles_failed _
  | some a =>
    obtain ⟨id, reply⟩ := a
    rcases hy with rfl | ⟨d, rfl, rfl, hd⟩
    · exact settles_failed _
    · refine ⟨rfl, fun _ ↦ ⟨rfl, fun session ↦ ?_⟩⟩
      cases session with
      | none => exact ⟨rfl, fun _ ↦ trivial⟩
      | some s =>
        have hsend : Settles m ((perform (.isOnline s)).bind fun online ↦
            Prog.when online (sendReply (redirect m d) id s)) (.met d id s) := by
          refine ⟨rfl, fun online ↦ ?_⟩
          cases online with
          | false => exact trivial
          | true => exact settles_sendReply hm hd
        have hhold : Settles m (holding (some s) _) (.met d id s) := hsend.holding
        exact ⟨rfl, fun _ ↦ hhold⟩

def received : Job → Option Message
  | .receive _ data => (deserialize data).toOption
  | _ => none

theorem received_eq {j : Job} : received j = some m ↔ Receives j m := by
  cases j with
  | receive identity data =>
    constructor
    · intro h
      cases hd : deserialize data with
      | error e =>
        rw [received, hd] at h
        cases h
      | ok m' =>
        rw [received, hd] at h
        exact ⟨identity, data, rfl, hd.trans (congrArg _ (Option.some.inj h))⟩
    · rintro ⟨identity', data', hj, hd⟩
      cases hj
      rw [received, hd]
      rfl
  | cleanupInactiveSessions | checkExpiredAcks | processPendingSends | sendTask =>
    refine Iff.intro (fun h ↦ by cases h) ?_
    rintro ⟨identity', data', hj, -⟩
    cases hj

def incoming (j : Job) : Message := (received j).getD {}

def routeStart : Job → RoutePhase
  | .receive identity data =>
    match received (.receive identity data) with
    | none => .loose
    | some m =>
      match m.type with
      | .message => .accepting
      | .reply => .asking
      | .ack => .found 0
      | _ => .loose
  | _ => .outside

theorem settles_handle {identity : Bytes} {data : Bytes} (hd : deserialize data = .ok m) :
    Settles m (handle m identity) (routeStart (.receive identity data)) := by
  have hm := (WireCodec.serialize_deserialize hd).1
  have hr : received (.receive identity data) = some m := received_eq.mpr ⟨_, _, rfl, hd⟩
  simp only [routeStart, hr]
  unfold handle
  cases m.type with
  | register => exact settles_registerHandler
  | message => exact settles_messageHandler
  | reply => exact settles_replyHandler hm
  | ack => exact settles_ackHandler
  | unregister => exact settles_unregisterHandler
  | unknown => exact trivial

theorem steady_routeStart (j : Job) : Steady (routeStart j) := by
  unfold routeStart
  split
  · split
    · trivial
    · split <;> trivial
  · trivial

theorem settles_receive (identity data : Bytes) :
    Settles (incoming (.receive identity data)) (receive identity data)
      (routeStart (.receive identity data)) := by
  have hx := steady_routeStart (.receive identity data)
  have h {m : Message} := registering (m := m) hx
  have hbody : Settles (incoming (.receive identity data)) (do
      perform (.increment .messagesReceived)
      let msg ← Prog.lift (deserialize data)
      routeMessage msg identity) (routeStart (.receive identity data)) := by
    refine Settles.after (h.increment _) (fun _ ↦ trivial) fun _ ↦ ?_
    cases hd : deserialize data with
    | error e =>
      have hr : received (.receive identity data) = none := by
        rw [received, hd]
        rfl
      simp only [routeStart, hr]
      exact trivial
    | ok m =>
      have hm : incoming (.receive identity data) = m := by
        rw [incoming, received_eq.mpr ⟨identity, data, rfl, hd⟩]
        rfl
      rw [hm]
      change Settles m (routeMessage m identity) (routeStart (.receive identity data))
      exact Settles.after (h.touchSession identity) (total_touchSession identity) fun session ↦
        (settles_handle hd).holding
  exact Follows.recover hbody fun _ y hy ↦
    settles_of_within ((registering (steady_of_final hy)).increment _) hy

theorem outside_perform (ho : quiet o = true) :
    Within (routeProtocol m) (Calm .outside) (perform o) := by
  refine .perform fun y hy ↦ ?_
  rcases hy with rfl | rfl
  · exact ⟨ho, fun _ ↦ .inl rfl⟩
  · exact ⟨trivial, fun _ ↦ .inr rfl⟩

theorem settles_code (cfg : Config) (j : Job) :
    Settles (incoming j) (code cfg j) (routeStart j) := by
  have h : Registering (Within (routeProtocol (incoming j)) (Calm .outside)) := registering trivial
  have sends (o : Op) (ho : family o = .sends) :
      Within (routeProtocol (incoming j)) (Calm .outside) (perform o) :=
    steady_perform trivial (by simp [ho])
  cases j with
  | receive identity data => exact settles_receive identity data
  | cleanupInactiveSessions =>
    exact settles_of_within (h.timer (h.cleanupInactiveSessions cfg)) trivial
  | checkExpiredAcks =>
    refine settles_of_within (h.timer (h.checkExpiredAcks (fun id ↦ ?_) (fun id ↦ ?_) ?_ ?_)) trivial
    · exact outside_perform rfl
    · exact outside_perform rfl
    · exact outside_perform rfl
    · exact outside_perform rfl
  | processPendingSends => exact settles_of_within (h.processPendingSends sends) trivial
  | sendTask =>
    refine settles_of_within (h.bind (sends .isSending rfl) fun sending ↦ ?_) trivial
    cases sending with
    | true => exact h.ret ()
    | false => exact h.processPendingSends sends

end MessageBroker.RoutePhases
