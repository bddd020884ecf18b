import MessageBroker.SessionQueues

namespace MessageBroker.ClientRegistry

open ByteStrings WireMessages MessageStore ProgramTrees BrokerState SessionQueues

def withRegistryLock {α : Type} (p : Program α) : Program α := do
  perform .lockRegistry
  p.ensuring (perform .unlockRegistry)

def findSession (name : Bytes) : Program (Option ℕ) :=
  withRegistryLock (perform (.findClient name))

/-- Persist the queue of the session that `s` replaces. -/
def replaceSession (name : Bytes) (old s : ℕ) : Program Unit := do
  persistQueueToDatabase old
  perform (.markOffline old)
  perform (.eraseName (← perform (.identityOf old)))
  perform (.setClient name s)

def placeSession (name : Bytes) (s : ℕ) : Option ℕ → Program Unit
  | none => perform (.setClient name s)
  | some old => (replaceSession name old s).recover fun e ↦ do
    dropSession old
    throw e

def countUpsert (replaced : Bool) : Program Unit := do
  perform .setActiveSessions
  Prog.when replaced (perform (.increment .clientsUnregistered))
  perform (.increment .clientsRegistered)

/-- The pointer to the old session is returned to the caller. -/
def upsertClient (name : Bytes) (s : ℕ) : Program (Option ℕ) :=
  withRegistryLock do
    let old ← perform (.findClient name)
    placeSession name s old
    perform (.setName (← perform (.identityOf s)) name)
    Prog.when (← perform .hasMetrics) (countUpsert old.isSome)
    return old

/-- Erase an entry of both maps; the session may die with it. -/
def eraseClient (name : Bytes) (s : ℕ) : Program Unit := do
  perform (.eraseName (← perform (.identityOf s)))
  perform (.removeClient name)
  dropSession s

def unregisterClient (name : Bytes) : Program Unit :=
  withRegistryLock do
    match ← perform (.peekClient name) with
    | none => pure ()
    | some s =>
      eraseClient name s
      perform (.increment .clientsUnregistered)
      perform .setActiveSessions

def offlineLoop (s : ℕ) : List PendingMessage → Program Unit
  | [] => pure ()
  | pending :: rest => do
    if ← perform (.isOnline s) then
      Prog.when pending.msg.needsAck (markSent pending.id)
      if ← sendMessage s pending.copy then
        Prog.when (!pending.msg.needsAck) (markDelivered pending.id)
        offlineLoop s rest

def deliverOffline (name : Bytes) : Option ℕ → Program Unit
  | none => pure ()
  | some s => do
    let pendingMessages ← perform (.loadPendingMessagesOnly name)
    if pendingMessages ≠ [] then
      perform (.increment .offlineDelivered)
      perform (.updateLastActivity s)
      perform (.updateLastReceive s)
      offlineLoop s pendingMessages
      flushQueue s

def deliverOfflineMessages (name : Bytes) : Program Unit := do
  let session ← findSession name
  holding session (deliverOffline name session)

def repliesLoop (s : ℕ) : List PendingMessage → Program Unit
  | [] => pure ()
  | reply :: rest => do
    if ← perform (.isOnline s) then
      Prog.when reply.msg.needsAck (markSent reply.id)
      Prog.when (← sendMessage s reply.copy) (markDelivered reply.id)
      repliesLoop s rest

def deliverReplies (name : Bytes) : Option ℕ → Program Unit
  | none => pure ()
  | some s => do
    let pendingReplies ← perform (.loadPendingRepliesForSenderOnly name)
    if pendingReplies ≠ [] then
      perform (.updateLastActivity s)
      perform (.updateLastReceive s)
      repliesLoop s pendingReplies

def deliverPendingReplies (name : Bytes) : Program Unit := do
  let session ← findSession name
  holding session (deliverReplies name session)

def printLoop : List (Bytes × ℕ) → Program Unit
  | [] => pure ()
  | (_, s) :: rest => do
    let _ ← withQueueLock s (perform (.queueSize s))
    printLoop rest

def printActiveClients : Program Unit :=
  withRegistryLock do
    printLoop (← perform .listClients)

def updateSessionMetrics : Program Unit := do
  Prog.when (← perform .hasMetrics) (withRegistryLock (perform .setActiveSessions))

def expireSession (timeout : ℤ) (s : ℕ) : Program Bool := do
  if ← perform (.isExpired s timeout) then
    perform (.markOffline s)
    persistQueueToDatabase s
    return true
  else return false

/-- Whether a cleanup pass removes a session. An expired one is taken offline
and its queue persisted first. -/
def shouldRemove (timeout : ℤ) (s : ℕ) : Program Bool := do
  if ← perform (.isOnline s) then
    if 0 < timeout then expireSession timeout s else return false
  else return true

def scanClients (timeout : ℤ) : List (Bytes × ℕ) → Program (List Bytes)
  | [] => pure []
  | (name, s) :: rest => do
    let remove ← shouldRemove timeout s
    let names ← scanClients timeout rest
    return if remove then name :: names else names

def removeClient (name : Bytes) : Program Unit := do
  match ← perform (.peekClient name) with
  | none => pure ()
  | some s =>
    eraseClient name s
    perform (.increment .clientsTimeout)

def removeClients : List Bytes → Program Unit
  | [] => pure ()
  | name :: rest => do
    removeClient name
    removeClients rest

def cleanupInactiveSessions (cfg : Config) : Program Unit :=
  withRegistryLock do
    let toRemove ← scanClients cfg.sessionTimeout (← perform .listClients)
    removeClients toRemove
    Prog.when (toRemove ≠ []) updateSessionMetrics

/-- The registered session, if it is online. -/
def findOnlineSession (name : Bytes) : Program (Option ℕ) :=
  withRegistryLock do
    match ← perform (.peekClient name) with
    | none => return none
    | some s =>
      if ← perform (.isOnline s) then perform (.findClient name)
      else return none

def retrySend (pending : PendingMessage) : Option ℕ → Program Unit
  | none => pure ()
  | some s => do
    markSent pending.id
    if ← sendMessage s pending.copy then pure ()
    else markPending pending.id

def retryLoop : List PendingMessage → Program Unit
  | [] => pure ()
  | pending :: rest => do
    markPending pending.id
    let session ← findOnlineSession pending.msg.destination
    holding session (retrySend pending session)
    retryLoop rest

def checkExpiredAcks (cfg : Config) : Program Unit := do
  if 0 < cfg.ackTimeout then
    let expiredMessages ← perform (.loadExpiredSent cfg.ackTimeout)
    Prog.when (expiredMessages ≠ []) (perform (.increment .messagesExpired))
    retryLoop expiredMessages

end MessageBroker.ClientRegistry
