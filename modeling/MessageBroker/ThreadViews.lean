import MessageBroker.OperationEffects
import MessageBroker.StoreInvariant

namespace MessageBroker.ThreadViews

open ByteStrings WireMessages MessageStore BrokerState StoreInvariant OperationEffects

/-- What a thread owns: mutexes, session pointers and its batch of sends. -/
structure Hold where
  registry : Bool
  queues : ℕ → Bool
  pointers : ℕ → ℕ
  batch : List PendingSend

def hold (i : ℕ) (w : World) : Hold where
  registry := w.registryOwner = some i
  queues := fun s ↦ (w.sessions s).queueOwner = some i
  pointers := fun s ↦ (w.sessions s).owners.count i
  batch := w.batches i

def Hold.free : Hold := ⟨false, fun _ ↦ false, fun _ ↦ 0, []⟩

def Hold.lockRegistry (h : Hold) : Hold := { h with registry := true }

def Hold.unlockRegistry (h : Hold) : Hold := { h with registry := false }

def Hold.lockQueue (h : Hold) (s : ℕ) : Hold :=
  { h with queues := Function.update h.queues s true }

def Hold.unlockQueue (h : Hold) (s : ℕ) : Hold :=
  { h with queues := Function.update h.queues s false }

def Hold.acquire (h : Hold) : Option ℕ → Hold
  | none => h
  | some s => { h with pointers := Function.update h.pointers s (h.pointers s + 1) }

def Hold.release (h : Hold) (s : ℕ) : Hold :=
  { h with pointers := Function.update h.pointers s (h.pointers s - 1) }

theorem Hold.unlockQueue_lockQueue {h : Hold} {s : ℕ} (hs : h.queues s = false) :
    (h.lockQueue s).unlockQueue s = h := by
  cases h
  simp_all [lockQueue, unlockQueue]

theorem Hold.release_acquire (h : Hold) (s : ℕ) : (h.acquire (some s)).release s = h := by
  cases h
  simp [acquire, release]

theorem Hold.unlockRegistry_acquire {h : Hold} (hr : h.registry = false) (x : Option ℕ) :
    (h.lockRegistry.acquire x).unlockRegistry = h.acquire x := by
  cases h
  cases x <;> simp_all [acquire, lockRegistry, unlockRegistry]

theorem Hold.registry_acquire (h : Hold) (x : Option ℕ) :
    (h.acquire x).registry = h.registry := by
  cases x <;> rfl

theorem Hold.queues_acquire (h : Hold) (x : Option ℕ) : (h.acquire x).queues = h.queues := by
  cases x <;> rfl

/-- What the history of a thread says. `credit` are the rows it saved or loaded
and has not handed over, `debt` those it handed over and has not marked since;
`unpopped` tells that it saved the front of a queue and has not removed it. -/
structure Account where
  credit : List ℕ := []
  debt : List ℕ := []
  unpopped : Bool := false
  failed : Bool := false
  replies : List (ℕ × Bytes) := []
  removing : Bool := false
  frame : Option (PendingSend × SendResult) := none

namespace Account

def spend (a : Account) (c : Copy) : Account :=
  if plain c.msg then
    { a with credit := a.credit.filter (some · ≠ c.source), debt := c.source.toList ++ a.debt }
  else a

def settle (a : Account) (id : ℕ) : Account := { a with debt := a.debt.filter (· ≠ id) }

def note (a : Account) (j : Job) : (o : Op) → o.Res → Account
  | .saveMessage c, .ok id =>
    if c.source ≠ none then { a with unpopped := true }
    else if plain c.msg then { a with credit := id :: a.credit }
    else a
  | .saveMessage _, .error _ | .saveCorrelation _ _ _, .error _ | .markDelivered _, .error _
  | .markSent _, .error _ | .markPending _, .error _ => { a with failed := true }
  | .markDelivered id, .ok _ => a.settle id
  | .loadPendingMessagesOnly _, rows => { a with credit := rows.map (·.id) }
  | .loadPendingRepliesForSenderOnly name, rows =>
    { a with
      credit := rows.map (·.id)
      replies := rows.map (fun p ↦ (p.id, name)) ++ a.replies }
  | .pushQueue _ c, _ | .pushPendingSend _ c _, _ => a.spend c
  | .popQueue _, _ => { a with unpopped := false }
  | .isOnline _, online =>
    if j = .cleanupInactiveSessions ∧ online = false then { a with removing := true } else a
  | .isExpired _ _, expired =>
    if j = .cleanupInactiveSessions ∧ expired = true then { a with removing := true } else a
  | .sendFrame send _, result => { a with frame := some (send, result) }
  | _, _ => a

/-- Nothing is spent or earned; the other entries may only accumulate. -/
structure Keeps (a a' : Account) : Prop where
  credit : a'.credit = a.credit
  debt : a'.debt = a.debt
  unpopped : a'.unpopped = a.unpopped
  failed : a.failed = true → a'.failed = true
  replies : a.replies ⊆ a'.replies
  removing : a.removing = true → a'.removing = true

theorem Keeps.refl (a : Account) : Keeps a a :=
  ⟨rfl, rfl, rfl, id, fun _ h ↦ h, id⟩

theorem Keeps.trans {a b c : Account} (h : Keeps a b) (h' : Keeps b c) : Keeps a c :=
  ⟨h'.credit.trans h.credit, h'.debt.trans h.debt, h'.unpopped.trans h.unpopped,
    h'.failed ∘ h.failed, fun _ hx ↦ h'.replies (h.replies hx), h'.removing ∘ h.removing⟩

end Account

def account (i : ℕ) : List Event → Account
  | [] => {}
  | e :: log => if e.thread = i then (account i log).note e.job e.op e.res else account i log

/-- No pointer to the session is left, so that no thread can reach it again. -/
def Dead (w : World) (s : ℕ) : Prop :=
  s < w.nextSession ∧ (w.sessions s).owners = [] ∧ ¬ w.Registered s

/-- The ways in which the shared state only grows. -/
structure Grows (w w' : World) : Prop where
  db : Extends w.db w'.db
  sessions : w.nextSession ≤ w'.nextSession
  name : ∀ s < w.nextSession, (w'.sessions s).name = (w.sessions s).name
  identity : ∀ s < w.nextSession, (w'.sessions s).identity = (w.sessions s).identity
  offline : ∀ s < w.nextSession, (w.sessions s).isOnline = false →
    (w'.sessions s).isOnline = false
  dead : ∀ s, Dead w s → Dead w' s ∧
    ((w.sessions s).outgoingQueue = [] → (w'.sessions s).outgoingQueue = [])
  metrics : w'.metrics.isSome = w.metrics.isSome
  terminated : w.terminated = true → w'.terminated = true

theorem Grows.refl (w : World) : Grows w w :=
  ⟨.refl _, Nat.le_refl _, fun _ _ ↦ rfl, fun _ _ ↦ rfl, fun _ _ h ↦ h, fun _ h ↦ ⟨h, id⟩, rfl, id⟩

theorem Grows.trans {u v w : World} (h : Grows u v) (h' : Grows v w) : Grows u w where
  db := h.db.trans h'.db
  sessions := h.sessions.trans h'.sessions
  name s hs := (h'.name s (Nat.lt_of_lt_of_le hs h.sessions)).trans (h.name s hs)
  identity s hs := (h'.identity s (Nat.lt_of_lt_of_le hs h.sessions)).trans (h.identity s hs)
  offline s hs ho := h'.offline s (Nat.lt_of_lt_of_le hs h.sessions) (h.offline s hs ho)
  dead s hs :=
    have ⟨hs₁, hq₁⟩ := h.dead s hs
    have ⟨hs₂, hq₂⟩ := h'.dead s hs₁
    ⟨hs₂, fun hq ↦ hq₂ (hq₁ hq)⟩
  metrics := h'.metrics.trans h.metrics
  terminated := h'.terminated ∘ h.terminated

variable {parts : List Part} {i i' : ℕ} {j : Job} {ch : Choice} {o : Op} {w w' : World} {r : o.Res}

theorem hold_eq (hr : w'.registryOwner = w.registryOwner)
    (hq : ∀ s, (w'.sessions s).queueOwner = (w.sessions s).queueOwner)
    (ho : ∀ s, (w'.sessions s).owners = (w.sessions s).owners)
    (hb : w'.batches i = w.batches i) : hold i w' = hold i w := by
  simp only [hold, hr, hq, ho, hb]

theorem account_exec (h : exec i j o ch w = some (r, w')) :
    account i w'.log = (account i w.log).note j o r := by
  rw [exec_log h, account, if_pos rfl]

theorem account_exec_ne (h : exec i j o ch w = some (r, w')) (hi : i' ≠ i) :
    account i' w'.log = account i' w.log := by
  rw [exec_log h, account, if_neg (Ne.symm hi)]

/-- Whether an operation earns or spends nothing. -/
def keepsAccount : Op → Bool
  | .saveMessage _ | .markDelivered _ | .loadPendingMessagesOnly _
  | .loadPendingRepliesForSenderOnly _ | .pushQueue _ _ | .pushPendingSend _ _ _
  | .popQueue _ => false
  | _ => true

theorem note_keeps {a : Account} (h : keepsAccount o = true) : a.Keeps (a.note j o r) := by
  cases o with
  | saveMessage | markDelivered | loadPendingMessagesOnly | loadPendingRepliesForSenderOnly
  | pushQueue | pushPendingSend | popQueue => cases h
  | saveCorrelation | markSent | markPending =>
    cases r with
    | ok u => exact .refl a
    | error e => exact ⟨rfl, rfl, rfl, fun _ ↦ rfl, fun _ h ↦ h, id⟩
  | isOnline | isExpired =>
    simp only [Account.note]
    split
    · exact ⟨rfl, rfl, rfl, id, fun _ h ↦ h, fun _ ↦ rfl⟩
    · exact .refl a
  | sendFrame => exact ⟨rfl, rfl, rfl, id, fun _ h ↦ h, id⟩
  | _ => exact .refl a

/-- Whether an operation changes what its thread owns. -/
def changesHold (o : Op) : Bool :=
  [Part.registryOwner, .queueOwners, .owners, .batches].any (· ∈ writes o)

theorem hold_exec (h : exec i j o ch w = some (r, w')) (ho : changesHold o = false) :
    hold i w' = hold i w := by
  have hf := exec_frame h
  simp only [changesHold, List.any_cons, List.any_nil, Bool.or_false, Bool.or_eq_false_iff,
    decide_eq_false_iff_not] at ho
  obtain ⟨h₁, h₂, h₃, h₄⟩ := ho
  exact hold_eq (hf.registryOwner (by simp [h₁])) (hf.queueOwners (by simp [h₂]))
    (hf.owners (by simp [h₃])) (congrFun (hf.batches (by simp [h₄])) i)

theorem hold_lockRegistry {r : Unit} (h : exec i j .lockRegistry ch w = some (r, w')) :
    hold i w' = (hold i w).lockRegistry := by
  have hf := exec_frame h
  simp [hold, Hold.lockRegistry, (exec_lockRegistry h).2, hf.queueOwners, hf.owners, hf.batches,
    writes]

theorem hold_unlockRegistry {r : Unit} (h : exec i j .unlockRegistry ch w = some (r, w')) :
    hold i w' = (hold i w).unlockRegistry := by
  have hf := exec_frame h
  simp [hold, Hold.unlockRegistry, exec_unlockRegistry h, hf.queueOwners, hf.owners, hf.batches,
    writes]

variable {s : ℕ} {n : Bytes}

theorem hold_lockQueue {r : Unit} (h : exec i j (.lockQueue s) ch w = some (r, w')) :
    hold i w' = (hold i w).lockQueue s := by
  have hf := exec_frame h
  have hq : (hold i w').queues = Function.update (hold i w).queues s true := by
    funext s'
    simp only [hold, (exec_lockQueue h).2, Function.update_apply]
    split <;> simp
  have hr := hf.registryOwner (by simp [writes])
  have ho := hf.owners (by simp [writes])
  have hb := hf.batches (by simp [writes])
  simp only [hold, Hold.lockQueue, hr, ho, hb] at hq ⊢
  rw [hq]

theorem hold_unlockQueue {r : Unit} (h : exec i j (.unlockQueue s) ch w = some (r, w')) :
    hold i w' = (hold i w).unlockQueue s := by
  have hf := exec_frame h
  have hq : (hold i w').queues = Function.update (hold i w).queues s false := by
    funext s'
    simp only [hold, exec_unlockQueue h, Function.update_apply]
    split <;> simp
  have hr := hf.registryOwner (by simp [writes])
  have ho := hf.owners (by simp [writes])
  have hb := hf.batches (by simp [writes])
  simp only [hold, Hold.unlockQueue, hr, ho, hb] at hq ⊢
  rw [hq]

theorem hold_acquire {x : Option ℕ} (hr : w'.registryOwner = w.registryOwner)
    (hq : ∀ s, (w'.sessions s).queueOwner = (w.sessions s).queueOwner)
    (hb : w'.batches = w.batches)
    (ho : ∀ s, (w'.sessions s).owners =
      if x = some s then i :: (w.sessions s).owners else (w.sessions s).owners) :
    hold i w' = (hold i w).acquire x := by
  cases x with
  | none => exact hold_eq hr hq (by simpa using ho) (by rw [hb])
  | some x =>
    have hp : (hold i w').pointers =
        Function.update (hold i w).pointers x ((hold i w).pointers x + 1) := by
      funext s
      simp only [hold, ho, Option.some.injEq, Function.update_apply]
      by_cases h : s = x
      · simp [h]
      · rw [if_neg h, if_neg (Ne.symm h)]
    simp only [hold, Hold.acquire, hr, hq, hb] at hp ⊢
    rw [hp]

theorem hold_findClient {r : Option ℕ} (h : exec i j (.findClient n) ch w = some (r, w')) :
    hold i w' = (hold i w).acquire r := by
  have hf := exec_frame h
  exact hold_acquire (hf.registryOwner (by simp [writes])) (hf.queueOwners (by simp [writes]))
    (hf.batches (by simp [writes])) (exec_findClient h).2

theorem hold_removeClient {r : Unit} (h : exec i j (.removeClient n) ch w = some (r, w')) :
    hold i w' = (hold i w).acquire (w.activeClients.lookup n) := by
  have hf := exec_frame h
  obtain ⟨-, x, hx, ho⟩ := exec_removeClient h
  rw [hx]
  exact hold_acquire (hf.registryOwner (by simp [writes])) (hf.queueOwners (by simp [writes]))
    (hf.batches (by simp [writes])) ho

theorem hold_release {r : Bool} (h : exec i j (.release s) ch w = some (r, w')) :
    hold i w' = (hold i w).release s := by
  have hf := exec_frame h
  have hp : (hold i w').pointers =
      Function.update (hold i w).pointers s ((hold i w).pointers s - 1) := by
    funext s'
    simp only [hold, (exec_release h).2, Function.update_apply]
    split
    · next hs => rw [List.count_erase_self, hs]
    · rfl
  have hr := hf.registryOwner (by simp [writes])
  have hq := hf.queueOwners (by simp [writes])
  have hb := hf.batches (by simp [writes])
  simp only [hold, Hold.release, hr, hq, hb] at hp ⊢
  rw [hp]

namespace Account

variable {a : Account} {c : Copy}

@[simp] theorem spend_debt :
    (a.spend c).debt = if plain c.msg then c.source.toList ++ a.debt else a.debt := by
  unfold spend
  split <;> rfl

@[simp] theorem spend_credit : (a.spend c).credit =
    if plain c.msg then a.credit.filter (some · ≠ c.source) else a.credit := by
  unfold spend
  split <;> rfl

@[simp] theorem spend_unpopped : (a.spend c).unpopped = a.unpopped := by
  unfold spend
  split <;> rfl

@[simp] theorem spend_failed : (a.spend c).failed = a.failed := by
  unfold spend
  split <;> rfl

@[simp] theorem spend_replies : (a.spend c).replies = a.replies := by
  unfold spend
  split <;> rfl

end Account

theorem Account.spend_keeps {a b : Account} (h : a.Keeps b) (c : Copy) :
    (a.spend c).Keeps (b.spend c) := by
  unfold Account.spend
  split
  · exact ⟨by rw [h.credit], by rw [h.debt], h.unpopped, h.failed, h.replies, h.removing⟩
  · exact h

theorem Account.settle_keeps {a b : Account} (h : a.Keeps b) (id : ℕ) :
    (a.settle id).Keeps (b.settle id) :=
  ⟨h.credit, by rw [settle, settle, h.debt], h.unpopped, h.failed, h.replies, h.removing⟩

end MessageBroker.ThreadViews
