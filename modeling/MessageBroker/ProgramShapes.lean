import MessageBroker.Protocols
import MessageBroker.ServerJobs

namespace MessageBroker.ProgramShapes

open ByteStrings WireMessages MessageStore ProgramTrees Protocols BrokerState SessionQueues
  ClientRegistry MessageHandlers ServerJobs

inductive Family
  | queue
  | session
  | storage
  | registry
  | receipt
  | sends
deriving DecidableEq

/-- The counters that count loaded rows go with the loading. -/
def family : Op → Family
  | .saveMessage _ | .release _ | .destroySession _ | .nameOf _ | .lockQueue _ | .unlockQueue _
  | .queueSize _ | .queueFront _ | .pushQueue _ _ | .popQueue _ | .terminate => .queue
  | .newSession _ _ | .isOnline _ | .markOffline _ | .isExpired _ _ | .updateLastActivity _
  | .hasMetrics | .setActiveSessions => .session
  | .saveCorrelation _ _ _ | .markDelivered _ | .markSent _ | .markPending _ | .needsAck _
  | .findOriginalSenderByCorrelation _ | .findMessageIdByCorrelation _
  | .findMessageIdByCorrelationAndDestination _ _ | .markAckReceived _ _ | .loadExpiredSent _
  | .loadPendingMessagesOnly _ | .loadPendingRepliesForSenderOnly _ | .increment .offlineDelivered
  | .increment .messagesExpired => .storage
  | .increment _ => .session
  | .lockRegistry | .unlockRegistry | .findName _ | .setName _ _ | .eraseName _ | .findClient _
  | .peekClient _ | .setClient _ _ | .removeClient _ | .listClients | .identityOf _ => .registry
  | .updateLastReceive _ => .receipt
  | .pushPendingSend _ _ _ | .postSendTask | .isSending | .takePendingSends | .frontSend
  | .sendFrame _ _ | .callback _ _ | .popSend | .finishSends | .updateQueueMetrics => .sends

variable {K : ∀ {α : Type}, Program α → Prop} {α : Type} {s : ℕ} {c : Copy} {n : Bytes}
  {msg : Message}

def persists : Op → Bool
  | .saveMessage _ | .nameOf _ | .lockQueue _ | .unlockQueue _ | .queueSize _ | .queueFront _ | .popQueue _ =>
    true
  | _ => false

/-- `K` holds of the programs that persist the queue of a session. -/
structure Emptying (K : ∀ {α : Type}, Program α → Prop) : Prop extends Composable K where
  persist : ∀ o, persists o = true → K (perform o)

namespace Emptying

variable (h : Emptying K)
include h

theorem saveMessage : K (saveMessage c) :=
  h.bind (h.persist (.saveMessage c) rfl) fun r ↦ h.lift r

theorem withQueueLock {p : Program α} (hp : K p) : K (withQueueLock s p) :=
  h.bind (h.persist (.lockQueue s) rfl) fun _ ↦ h.ensuring hp (h.persist (.unlockQueue s) rfl)

theorem persistFront : K (persistFront s c) :=
  h.bind (h.persist (.nameOf s) rfl) fun _ ↦
    h.bind (h.bind h.saveMessage fun _ ↦ h.ret ()) fun _ ↦ h.persist (.popQueue s) rfl

theorem persistLoop (m : ℕ) : K (persistLoop s m) := by
  induction m with
  | zero => exact h.ret ()
  | succ m ih =>
    refine h.bind (h.persist (.queueFront s) rfl) fun r ↦ ?_
    match r with
    | none => exact h.ret ()
    | some c => exact h.bind h.persistFront fun _ ↦ ih

theorem persistQueueToDatabase : K (persistQueueToDatabase s) :=
  h.withQueueLock (h.bind (h.persist (.queueSize s) rfl) fun m ↦ h.persistLoop m)

end Emptying

/-- `K` holds of the programs that persist and drop sessions. -/
structure Persisting (K : ∀ {α : Type}, Program α → Prop) : Prop extends Composable K where
  queue : ∀ o, family o = .queue → K (perform o)

namespace Persisting

variable (h : Persisting K)
include h

theorem emptying : Emptying K where
  toComposable := h.toComposable
  persist o ho := h.queue o (by cases o <;> first | rfl | cases ho)

theorem saveMessage : K (saveMessage c) := h.emptying.saveMessage

theorem withQueueLock {p : Program α} (hp : K p) : K (withQueueLock s p) := h.emptying.withQueueLock hp

theorem persistLoop (m : ℕ) : K (persistLoop s m) := h.emptying.persistLoop m

theorem persistQueueToDatabase : K (persistQueueToDatabase s) := h.emptying.persistQueueToDatabase

theorem enqueueMessage : K (enqueueMessage s c) :=
  h.withQueueLock (h.bind (h.queue (.pushQueue s c) rfl) fun _ ↦
    h.bind (h.queue (.queueSize s) rfl) fun m ↦ h.when (h.persistLoop (m / 2)))

theorem dropSession : K (dropSession s) := by
  refine h.bind (h.queue (.release s) rfl) fun r ↦ h.when ?_
  refine h.bind (h.recover h.persistQueueToDatabase fun _ ↦ h.queue .terminate rfl) fun _ ↦ ?_
  exact h.queue (.destroySession s) rfl

theorem holding {session : Option ℕ} {p : Program α} (hp : K p) : K (holding session p) := by
  cases session with
  | none => exact hp
  | some s => exact h.ensuring hp h.dropSession

end Persisting

def spends : Op → Bool
  | .frontSend | .sendFrame _ _ | .callback _ _ | .popSend | .increment .messagesSent
  | .increment .messagesFailed => true
  | _ => false

/-- `K` holds of the programs that work off a batch of sends. -/
structure Spending (K : ∀ {α : Type}, Program α → Prop) : Prop extends Composable K where
  spend : ∀ o, spends o = true → K (perform o)

namespace Spending

variable (h : Spending K)
include h

theorem sendIdentity {send : PendingSend} : K (sendIdentity send) := by
  have hfail (counted : Bool) : K (failSend send counted) :=
    h.bind (h.spend (.callback send false) rfl) fun _ ↦ h.when (h.spend (.increment .messagesFailed) rfl)
  refine h.bind (h.spend (.sendFrame send .identity) rfl) fun r ↦ ?_
  match r with
  | .wouldBlock | .error => exact hfail _
  | .accepted =>
    refine h.bind (h.spend (.sendFrame send .delimiter) rfl) fun r ↦ ?_
    match r with
    | .wouldBlock | .error => exact hfail _
    | .accepted =>
      refine h.bind (h.spend (.sendFrame send .data) rfl) fun r ↦ ?_
      match r with
      | .wouldBlock | .error => exact hfail _
      | .accepted =>
        exact h.bind (h.spend (.callback send true) rfl) fun _ ↦ h.spend (.increment .messagesSent) rfl

theorem sendLoop (m : ℕ) : K (sendLoop m) := by
  induction m with
  | zero => exact h.ret ()
  | succ m ih =>
    refine h.bind (h.spend .frontSend rfl) fun r ↦ ?_
    match r with
    | none => exact h.ret ()
    | some send =>
      exact h.bind h.sendIdentity fun _ ↦ h.bind (h.spend .popSend rfl) fun _ ↦ ih

end Spending

/-- `K` holds of the programs that send to a session. -/
structure Sending (K : ∀ {α : Type}, Program α → Prop) : Prop extends Persisting K where
  session : ∀ o, family o = .session → K (perform o)
  sendToClient : ∀ s c data, K (sendToClient s c data)

namespace Sending

variable (h : Sending K)
include h

theorem increment (counter : Counter) (hc : family (.increment counter) = .session := by rfl) :
    K (perform (.increment counter)) :=
  h.session (.increment counter) hc

theorem sendZmqMessage : K (sendZmqMessage s c) := by
  refine h.recover (h.bind (h.lift _) fun data ↦ ?_) fun _ ↦ h.session (.markOffline s) rfl
  exact h.sendToClient s c data

theorem sendMessage : K (sendMessage s c) := by
  refine h.bind (h.session (.updateLastActivity s) rfl) fun _ ↦
    h.bind (h.session (.isOnline s) rfl) fun online ↦ h.bind ?_ fun _ ↦ h.ret true
  cases online with
  | true => exact h.sendZmqMessage
  | false => exact h.enqueueMessage

theorem flushLoop (m : ℕ) : K (flushLoop s m) := by
  induction m with
  | zero => exact h.ret ()
  | succ m ih =>
    refine h.bind (h.queue (.queueFront s) rfl) fun r ↦ ?_
    match r with
    | none => exact h.ret ()
    | some c =>
      refine h.bind (h.session (.isOnline s) rfl) fun online ↦ ?_
      cases online with
      | false => exact h.ret ()
      | true =>
        exact h.bind (h.queue (.popQueue s) rfl) fun _ ↦ h.bind h.sendZmqMessage fun _ ↦ ih

theorem flushQueue : K (flushQueue s) :=
  h.withQueueLock (h.bind (h.queue (.queueSize s) rfl) fun m ↦ h.flushLoop m)

theorem isOnlineSession {session : Option ℕ} : K (isOnlineSession session) := by
  cases session with
  | none => exact h.ret false
  | some s => exact h.session (.isOnline s) rfl

theorem countUpsert {replaced : Bool} : K (countUpsert replaced) :=
  h.bind (h.session .setActiveSessions rfl) fun _ ↦ h.bind (h.when (h.increment _)) fun _ ↦ h.increment _

theorem timer {p : Program Unit} (hp : K p) : K (timer p) :=
  h.recover hp fun _ ↦ h.queue .terminate rfl

section Sends

variable (hs : ∀ o, family o = .sends → K (perform o))
include hs

theorem sendLoop (m : ℕ) : K (sendLoop m) := by
  have hspend : Spending K := ⟨h.toComposable, fun o ho ↦ by
    cases o with
    | frontSend | sendFrame | callback | popSend => exact hs _ rfl
    | increment counter =>
      cases counter with
      | messagesSent | messagesFailed => exact h.increment _
      | _ => cases ho
    | _ => cases ho⟩
  exact hspend.sendLoop m

theorem processPendingSends : K processPendingSends := by
  refine h.bind (hs .takePendingSends rfl) fun m ↦ ?_
  split
  · exact h.bind (h.sendLoop hs m) fun _ ↦ h.bind (hs .finishSends rfl) fun _ ↦
      hs .updateQueueMetrics rfl
  · exact h.ret ()

end Sends

end Sending

/-- `K` holds of the critical sections of the registry. -/
structure Registering (K : ∀ {α : Type}, Program α → Prop) : Prop extends Sending K where
  findSession : ∀ n, K (findSession n)
  findOnlineSession : ∀ n, K (findOnlineSession n)
  touchSession : ∀ identity, K (touchSession identity)
  upsertClient : ∀ n s, K (upsertClient n s)
  unregisterClient : ∀ n, K (unregisterClient n)
  printActiveClients : K printActiveClients
  cleanupInactiveSessions : ∀ cfg, K (cleanupInactiveSessions cfg)

def tends : Op → Bool
  | .setClient _ _ => false
  | o => family o = .registry

namespace Sending

variable (h : Sending K) (hr : ∀ o, tends o = true → K (perform o))
include h hr

theorem withRegistryLock {p : Program α} (hp : K p) : K (withRegistryLock p) :=
  h.bind (hr .lockRegistry rfl) fun _ ↦ h.ensuring hp (hr .unlockRegistry rfl)

theorem replaceSession (hs : ∀ n s, K (perform (.setClient n s))) {old : ℕ} : K (replaceSession n old s) :=
  h.bind h.persistQueueToDatabase fun _ ↦ h.bind (h.session (.markOffline old) rfl) fun _ ↦
    h.bind (hr (.identityOf old) rfl) fun x ↦ h.bind (hr (.eraseName x) rfl) fun _ ↦
      hs n s

theorem upsertClient (hs : ∀ n s, K (perform (.setClient n s))) : K (upsertClient n s) := by
  refine h.withRegistryLock hr (h.bind (hr (.findClient n) rfl) fun old ↦ h.bind ?_ fun _ ↦ ?_)
  · cases old with
    | none => exact hs n s
    | some old =>
      exact h.recover (h.replaceSession hr hs) fun e ↦ h.bind h.dropSession fun _ ↦ h.fail e
  · exact h.bind (hr (.identityOf s) rfl) fun x ↦ h.bind (hr (.setName x n) rfl) fun _ ↦
      h.bind (h.session .hasMetrics rfl) fun _ ↦ h.bind (h.when h.countUpsert) fun _ ↦ h.ret old

theorem eraseClient : K (eraseClient n s) :=
  h.bind (hr (.identityOf s) rfl) fun x ↦ h.bind (hr (.eraseName x) rfl) fun _ ↦
    h.bind (hr (.removeClient n) rfl) fun _ ↦ h.dropSession

theorem unregisterClient : K (unregisterClient n) := by
  refine h.withRegistryLock hr (h.bind (hr (.peekClient n) rfl) fun r ↦ ?_)
  match r with
  | none => exact h.ret ()
  | some s =>
    exact h.bind (h.eraseClient hr) fun _ ↦ h.bind (h.increment _) fun _ ↦
      h.session .setActiveSessions rfl

theorem findOnlineSession : K (findOnlineSession n) := by
  refine h.withRegistryLock hr (h.bind (hr (.peekClient n) rfl) fun r ↦ ?_)
  match r with
  | none => exact h.ret none
  | some s =>
    refine h.bind (h.session (.isOnline s) rfl) fun online ↦ ?_
    cases online with
    | true => exact hr (.findClient n) rfl
    | false => exact h.ret none

theorem touchSession (ht : ∀ s, K (perform (.updateLastReceive s))) {identity : Bytes} :
    K (touchSession identity) := by
  refine h.withRegistryLock hr (h.bind (hr (.findName identity) rfl) fun r ↦ ?_)
  match r with
  | none => exact h.ret none
  | some n =>
    refine h.bind (hr (.findClient n) rfl) fun r' ↦ ?_
    match r' with
    | none => exact h.ret none
    | some s => exact h.bind (ht s) fun _ ↦ h.ret (some s)

omit hr in
theorem printLoop (entries : List (Bytes × ℕ)) : K (printLoop entries) := by
  induction entries with
  | nil => exact h.ret ()
  | cons e rest ih =>
    exact h.bind (h.withQueueLock (h.queue (.queueSize e.2) rfl)) fun _ ↦ ih

omit hr in
theorem expireSession {timeout : ℤ} : K (expireSession timeout s) := by
  refine h.bind (h.session (.isExpired s timeout) rfl) fun expired ↦ ?_
  cases expired with
  | false => exact h.ret false
  | true =>
    exact h.bind (h.session (.markOffline s) rfl) fun _ ↦
      h.bind h.persistQueueToDatabase fun _ ↦ h.ret true

omit hr in
theorem scanClients {timeout : ℤ} (entries : List (Bytes × ℕ)) :
    K (scanClients timeout entries) := by
  induction entries with
  | nil => exact h.ret []
  | cons e rest ih =>
    refine h.bind (h.bind (h.session (.isOnline e.2) rfl) fun online ↦ ?_) fun remove ↦
      h.bind ih fun names ↦ h.ret _
    cases online with
    | false => exact h.ret true
    | true =>
      change K (if 0 < timeout then ClientRegistry.expireSession timeout e.2 else pure false)
      split
      · exact h.expireSession
      · exact h.ret false

theorem removeClients (names : List Bytes) : K (removeClients names) := by
  induction names with
  | nil => exact h.ret ()
  | cons n rest ih =>
    refine h.bind (h.bind (hr (.peekClient n) rfl) fun r ↦ ?_) fun _ ↦ ih
    match r with
    | none => exact h.ret ()
    | some s => exact h.bind (h.eraseClient hr) fun _ ↦ h.increment _

theorem updateSessionMetrics : K updateSessionMetrics :=
  h.bind (h.session .hasMetrics rfl) fun _ ↦
    h.when (h.withRegistryLock hr (h.session .setActiveSessions rfl))

theorem cleanupInactiveSessions {cfg : Config} : K (cleanupInactiveSessions cfg) :=
  h.withRegistryLock hr (h.bind (hr .listClients rfl) fun entries ↦
    h.bind (h.scanClients entries) fun names ↦ h.bind (h.removeClients hr names) fun _ ↦
      h.when (h.updateSessionMetrics hr))

theorem registering_of_upsert (hu : ∀ n s, K (ClientRegistry.upsertClient n s))
    (ht : ∀ s, K (perform (.updateLastReceive s))) : Registering @K where
  toSending := h
  findSession n := h.withRegistryLock hr (hr (.findClient n) rfl)
  findOnlineSession _ := h.findOnlineSession hr
  touchSession _ := h.touchSession hr ht
  upsertClient := hu
  unregisterClient _ := h.unregisterClient hr
  printActiveClients :=
    h.withRegistryLock hr (h.bind (hr .listClients rfl) fun entries ↦ h.printLoop entries)
  cleanupInactiveSessions _ := h.cleanupInactiveSessions hr

omit hr in
theorem registering (hr : ∀ o, family o = .registry → K (perform o))
    (ht : ∀ s, K (perform (.updateLastReceive s))) : Registering @K := by
  have htends (o : Op) (ho : tends o = true) : K (perform o) := by
    cases o with
    | setClient => cases ho
    | _ => exact hr _ (of_decide_eq_true ho)
  exact h.registering_of_upsert htends (fun n s ↦ h.upsertClient htends fun n s ↦ hr (.setClient n s) rfl) ht

end Sending

theorem registering_of_composable (hK : Composable K)
    (h : ∀ o, family o ≠ .storage → K (perform o)) : Registering K := by
  refine Sending.registering ⟨⟨hK, fun o ho ↦ ?_⟩, fun o ho ↦ ?_, fun s c data ↦ ?_⟩
    (fun o ho ↦ ?_) fun s ↦ ?_
  · exact h o (by simp [ho])
  · exact h o (by simp [ho])
  · exact hK.bind (h (.pushPendingSend s c data) (by simp [family])) fun _ ↦
      h .postSendTask (by simp [family])
  · exact h o (by simp [ho])
  · exact h (.updateLastReceive s) (by simp [family])

namespace Registering

variable (h : Registering K)
include h

theorem unregisterHandler : K (unregisterHandler msg) := by
  refine h.bind (h.findSession _) fun session ↦ h.holding ?_
  cases session with
  | none => exact h.ret ()
  | some s =>
    exact h.bind h.persistQueueToDatabase fun _ ↦ h.bind (h.session (.markOffline s) rfl) fun _ ↦
      h.unregisterClient _

theorem notifySender {session : Option ℕ} : K (notifySender msg session) := by
  have save : K (do
      let _ ← SessionQueues.saveMessage ⟨msg, none, msg.destination⟩) :=
    h.bind h.saveMessage fun _ ↦ h.ret ()
  refine h.bind h.isOnlineSession fun online ↦ ?_
  match session, online with
  | none, _ | some _, false => exact save
  | some s, true => exact h.bind h.sendMessage fun _ ↦ h.ret ()

theorem acknowledge {owner : Bytes} {id : ℕ} (hm : K (perform (.markDelivered id)))
    (ha : K (perform (.markAckReceived id msg.sender))) : K (acknowledge msg owner id) := by
  refine h.bind (h.bind hm fun r ↦ h.lift r) fun _ ↦ h.bind ha fun _ ↦
    h.bind (h.increment _) fun _ ↦ ?_
  split
  · exact h.bind (h.findSession _) fun session ↦ h.holding h.notifySender
  · exact h.ret ()

section Retry

variable (hp : ∀ id, K (perform (.markPending id))) (hs : ∀ id, K (perform (.markSent id)))
include hp hs

theorem retryLoop (ps : List PendingMessage) : K (retryLoop ps) := by
  have pending (id : ℕ) : K (markPending id) := h.bind (hp id) fun r ↦ h.lift r
  have sent (id : ℕ) : K (markSent id) := h.bind (hs id) fun r ↦ h.lift r
  induction ps with
  | nil => exact h.ret ()
  | cons p rest ih =>
    refine h.bind (pending _) fun _ ↦ h.bind (h.findOnlineSession _) fun session ↦
      h.bind (h.holding ?_) fun _ ↦ ih
    cases session with
    | none => exact h.ret ()
    | some s =>
      refine h.bind (sent _) fun _ ↦ h.bind h.sendMessage fun sent ↦ ?_
      cases sent with
      | true => exact h.ret ()
      | false => exact pending _

theorem checkExpiredAcks {cfg : Config} (hload : K (perform (.loadExpiredSent cfg.ackTimeout)))
    (hcount : K (perform (.increment .messagesExpired))) : K (checkExpiredAcks cfg) := by
  unfold ClientRegistry.checkExpiredAcks
  split
  · exact h.bind hload fun rows ↦ h.bind (h.when hcount) fun _ ↦ h.retryLoop hp hs rows
  · exact h.ret ()

end Retry

section Backlog

variable (hd : ∀ id, K (perform (.markDelivered id))) (hs : ∀ id, K (perform (.markSent id)))
include hd hs

theorem offlineLoop (ps : List PendingMessage) : K (offlineLoop s ps) := by
  induction ps with
  | nil => exact h.ret ()
  | cons p rest ih =>
    refine h.bind (h.session (.isOnline s) rfl) fun online ↦ ?_
    cases online with
    | false => exact h.ret ()
    | true =>
      refine h.bind (h.when (h.bind (hs _) fun r ↦ h.lift r)) fun _ ↦ h.bind h.sendMessage fun sent ↦ ?_
      cases sent with
      | false => exact h.ret ()
      | true => exact h.bind (h.when (h.bind (hd _) fun r ↦ h.lift r)) fun _ ↦ ih

theorem deliverOfflineMessages (hl : K (perform (.loadPendingMessagesOnly n)))
    (hc : K (perform (.increment .offlineDelivered))) (ht : ∀ s, K (perform (.updateLastReceive s))) :
    K (deliverOfflineMessages n) := by
  refine h.bind (h.findSession n) fun session ↦ h.holding ?_
  cases session with
  | none => exact h.ret ()
  | some s =>
    refine h.bind hl fun rows ↦ ?_
    split
    · exact h.bind hc fun _ ↦ h.bind (h.session (.updateLastActivity s) rfl) fun _ ↦
        h.bind (ht s) fun _ ↦ h.bind (h.offlineLoop hd hs rows) fun _ ↦ h.flushQueue
    · exact h.ret ()

end Backlog

end Registering

def onRows : Op → Bool
  | .markDelivered _ | .markSent _ | .markPending _ | .loadPendingRepliesForSenderOnly _ => true
  | _ => false

/-- `K` holds of the passes over loaded rows, of loading replies and of changing the status of rows. -/
structure Marking (K : ∀ {α : Type}, Program α → Prop) : Prop extends Registering K where
  receipt : ∀ s, K (perform (.updateLastReceive s))
  rows : ∀ o, onRows o = true → K (perform o)
  deliverOfflineMessages : ∀ n, K (deliverOfflineMessages n)
  checkExpiredAcks : ∀ cfg, K (checkExpiredAcks cfg)

namespace Marking

variable (h : Marking K) {id : ℕ}
include h

theorem markDelivered : K (markDelivered id) :=
  h.bind (h.rows (.markDelivered id) rfl) fun r ↦ h.lift r

theorem markSent : K (markSent id) :=
  h.bind (h.rows (.markSent id) rfl) fun r ↦ h.lift r

theorem markPending : K (markPending id) :=
  h.bind (h.rows (.markPending id) rfl) fun r ↦ h.lift r

theorem repliesLoop (ps : List PendingMessage) : K (repliesLoop s ps) := by
  induction ps with
  | nil => exact h.ret ()
  | cons p rest ih =>
    refine h.bind (h.session (.isOnline s) rfl) fun online ↦ ?_
    cases online with
    | false => exact h.ret ()
    | true =>
      exact h.bind (h.when h.markSent) fun _ ↦ h.bind h.sendMessage fun _ ↦
        h.bind (h.when h.markDelivered) fun _ ↦ ih

theorem deliverPendingReplies : K (deliverPendingReplies n) := by
  refine h.bind (h.findSession n) fun session ↦ h.holding ?_
  cases session with
  | none => exact h.ret ()
  | some s =>
    refine h.bind (h.rows (.loadPendingRepliesForSenderOnly n) rfl) fun rows ↦ ?_
    split
    · exact h.bind (h.session (.updateLastActivity s) rfl) fun _ ↦
        h.bind (h.receipt s) fun _ ↦ h.repliesLoop rows
    · exact h.ret ()

theorem registerHandler {identity : Bytes} : K (registerHandler msg identity) := by
  change K (if msg.sender ≠ [] then _ else pure ())
  split
  · refine h.bind (h.session (.newSession identity msg.sender) rfl) fun session ↦ h.holding ?_
    refine h.bind (h.session (.updateLastActivity session) rfl) fun _ ↦
      h.bind (h.receipt session) fun _ ↦
        h.bind (h.upsertClient _ _) fun old ↦ h.holding ?_
    exact h.bind (h.deliverOfflineMessages _) fun _ ↦ h.bind h.deliverPendingReplies fun _ ↦
      h.printActiveClients
  · exact h.ret ()

theorem rollBack : K (rollBack id s) :=
  h.bind (h.recover h.markPending fun _ ↦ h.ret ()) fun _ ↦
    h.bind (h.session (.markOffline s) rfl) fun _ ↦ h.increment _

theorem sendNow : K (sendNow msg id s) := by
  refine h.recover (h.bind (h.receipt s) fun _ ↦
    h.bind h.sendMessage fun sent ↦ ?_) fun _ ↦ h.rollBack
  cases sent with
  | false => exact h.rollBack
  | true =>
    refine h.recover ?_ fun _ ↦ h.increment _
    cases msg.needsAck with
    | true => exact h.markSent
    | false => exact h.markDelivered

end Marking

def onCorrelations : Op → Bool
  | .needsAck _ | .findOriginalSenderByCorrelation _ | .findMessageIdByCorrelation _
  | .findMessageIdByCorrelationAndDestination _ _ | .markAckReceived _ _ => true
  | _ => false

/-- `K` holds of all programs when it holds of the accept blocks. -/
structure Answering (K : ∀ {α : Type}, Program α → Prop) : Prop extends Marking K where
  lookups : ∀ o, onCorrelations o = true → K (perform o)
  acceptMessage : ∀ msg, msg.type = .message → K (acceptMessage msg)
  acceptReply : ∀ msg, msg.type = .reply → K (acceptReply msg)

theorem Marking.answering (h : Marking K) (hl : ∀ o, onCorrelations o = true → K (perform o))
    (hc : ∀ id corr n, K (perform (.saveCorrelation id corr n))) : Answering K := by
  have correlate (id : ℕ) (corr : UInt64) (n : Bytes) : K (saveCorrelation id corr n) :=
    h.bind (hc id corr n) fun r ↦ h.lift r
  refine ⟨h, hl, fun msg _ ↦ ?_, fun msg _ ↦ ?_⟩
  · exact h.bind h.saveMessage fun id ↦ h.bind (h.when (correlate id _ _)) fun _ ↦ h.ret id
  · exact h.bind (hl (.findOriginalSenderByCorrelation _) rfl) fun _ ↦
      h.bind h.saveMessage fun id ↦ h.bind (correlate id _ _) fun _ ↦ h.ret _

namespace Answering

variable (h : Answering K) {id : ℕ}
include h

theorem accepting {p : Program α} (hp : K p) : K (accepting p) :=
  h.recover (h.bind hp fun a ↦ h.ret (some a)) fun _ ↦ h.bind (h.increment _) fun _ ↦ h.ret none

theorem messageHandler (ht : msg.type = .message) : K (messageHandler msg) := by
  refine h.bind (h.findSession _) fun session ↦ h.holding ?_
  refine h.bind h.isOnlineSession fun online ↦
    h.bind (h.accepting (h.acceptMessage msg ht)) fun id ↦ ?_
  match id, session with
  | none, _ | some _, none => exact h.ret ()
  | some id, some s => exact h.when h.sendNow

theorem sendReply : K (sendReply msg id s) := by
  refine h.recover (h.bind (h.when h.markSent) fun _ ↦ h.bind h.sendMessage fun sent ↦ ?_)
    fun _ ↦ h.rollBack
  cases sent with
  | true => exact h.when h.markDelivered
  | false =>
    exact h.bind (h.when (h.recover h.markPending fun _ ↦ h.ret ())) fun _ ↦
      h.bind (h.session (.markOffline s) rfl) fun _ ↦ h.increment _

theorem replyHandler (ht : msg.type = .reply) : K (replyHandler msg) := by
  refine h.bind (h.accepting (h.acceptReply msg ht)) fun accepted ↦ ?_
  match accepted with
  | none => exact h.ret ()
  | some (id, m) =>
    refine h.bind (h.findSession _) fun session ↦ h.holding (h.bind h.isOnlineSession fun _ ↦ ?_)
    match session with
    | none => exact h.ret ()
    | some s => exact h.when h.sendReply

theorem acknowledge {owner : Bytes} : K (acknowledge msg owner id) :=
  h.toRegistering.acknowledge (h.rows (.markDelivered id) rfl) (h.lookups (.markAckReceived _ _) rfl)

theorem ackHandler : K (ackHandler msg) := by
  unfold MessageHandlers.ackHandler
  split
  · refine h.bind (h.lookups (.findOriginalSenderByCorrelation _) rfl) fun owner ↦
      h.bind (h.bind (h.lookups (.findMessageIdByCorrelation _) rfl) fun id ↦ ?_) fun id ↦ ?_
    · split
      · exact h.lookups (.findMessageIdByCorrelationAndDestination _ _) rfl
      · exact h.ret id
    · split
      · exact h.bind (h.lookups (.needsAck id) rfl) fun _ ↦ h.when h.acknowledge
      · exact h.ret ()
  · exact h.ret ()

theorem receive {identity data : Bytes} : K (receive identity data) := by
  refine h.recover (h.bind (h.increment _) fun _ ↦ h.bind (h.lift _) fun msg ↦ ?_)
    fun _ ↦ h.increment _
  refine h.bind (h.touchSession identity) fun session ↦ h.holding ?_
  unfold handle
  split
  · exact h.registerHandler
  · next ht => exact h.messageHandler ht
  · next ht => exact h.replyHandler ht
  · exact h.ackHandler
  · exact h.toRegistering.unregisterHandler
  · exact h.ret ()

theorem code (hs : ∀ o, family o = .sends → K (perform o)) (cfg : Config) (j : Job) :
    K (code cfg j) := by
  cases j with
  | receive identity data => exact h.receive
  | cleanupInactiveSessions => exact h.timer (h.cleanupInactiveSessions cfg)
  | checkExpiredAcks => exact h.timer (h.checkExpiredAcks cfg)
  | processPendingSends => exact h.processPendingSends hs
  | sendTask =>
    refine h.bind (hs .isSending rfl) fun sending ↦ ?_
    cases sending with
    | true => exact h.ret ()
    | false => exact h.processPendingSends hs

end Answering

/-- `K` holds of the storage calls as well. -/
structure Handling (K : ∀ {α : Type}, Program α → Prop) : Prop extends Registering K where
  receipt : ∀ s, K (perform (.updateLastReceive s))
  storage : ∀ o, family o = .storage → K (perform o)

namespace Handling

variable (h : Handling K) {id : ℕ}
include h

theorem marking : Marking K where
  toRegistering := h.toRegistering
  receipt := h.receipt
  rows o ho := h.storage o (by cases o <;> first | rfl | cases ho)
  deliverOfflineMessages n := h.deliverOfflineMessages (fun id ↦ h.storage (.markDelivered id) rfl)
    (fun id ↦ h.storage (.markSent id) rfl) (h.storage (.loadPendingMessagesOnly n) rfl)
    (h.storage (.increment .offlineDelivered) rfl) h.receipt
  checkExpiredAcks cfg := h.toRegistering.checkExpiredAcks (fun id ↦ h.storage (.markPending id) rfl)
    (fun id ↦ h.storage (.markSent id) rfl) (h.storage (.loadExpiredSent _) rfl)
    (h.storage (.increment .messagesExpired) rfl)

theorem checkExpiredAcks {cfg : Config} : K (checkExpiredAcks cfg) :=
  h.marking.checkExpiredAcks cfg

theorem answering : Answering K :=
  h.marking.answering (fun o ho ↦ h.storage o (by cases o <;> first | rfl | cases ho))
    fun id corr n ↦ h.storage (.saveCorrelation id corr n) rfl

theorem receive {identity data : Bytes} : K (receive identity data) := h.answering.receive

theorem code (hs : ∀ o, family o = .sends → K (perform o)) (cfg : Config) (j : Job) :
    K (code cfg j) := h.answering.code hs cfg j

end Handling

end MessageBroker.ProgramShapes
