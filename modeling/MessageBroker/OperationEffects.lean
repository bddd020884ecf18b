import MessageBroker.BrokerState

namespace MessageBroker.OperationEffects

open ByteStrings WireMessages MessageStore BrokerState

/-- The parts of the shared state that an operation may write. -/
inductive Part
  | log
  | messages
  | correlations
  | clients
  | registryOwner
  | allocation
  | owners
  | queues
  | queueOwners
  | presence
  | destroyed
  | pendingSends
  | batches
  | terminated
deriving DecidableEq

def writes : Op → List Part
  | .saveMessage _ | .markDelivered _ | .markSent _ | .markPending _ => [.messages]
  | .saveCorrelation _ _ _ | .markAckReceived _ _ => [.correlations]
  | .lockRegistry | .unlockRegistry => [.registryOwner]
  | .setClient _ _ => [.clients]
  | .findClient _ | .release _ => [.owners]
  | .removeClient _ => [.clients, .owners]
  | .newSession _ _ =>
    [.allocation, .owners, .queues, .queueOwners, .presence, .destroyed]
  | .destroySession _ => [.destroyed]
  | .markOffline _ => [.presence]
  | .lockQueue _ | .unlockQueue _ => [.queueOwners]
  | .pushQueue _ _ | .popQueue _ => [.queues]
  | .pushPendingSend _ _ _ => [.pendingSends]
  | .takePendingSends => [.pendingSends, .batches]
  | .callback _ _ => [.presence, .batches]
  | .popSend => [.batches]
  | .terminate => [.terminated]
  | _ => []

/-- What an operation leaves as it was when it writes only `parts`. -/
structure Frame (parts : List Part) (w w' : World) : Prop where
  log : .log ∉ parts → w'.log = w.log
  metrics : w'.metrics.isSome = w.metrics.isSome
  messages : .messages ∉ parts →
    w'.db.messages = w.db.messages ∧ w'.db.lastMessageId = w.db.lastMessageId
  correlations : .correlations ∉ parts → w'.db.correlations = w.db.correlations
  clients : .clients ∉ parts → w'.activeClients = w.activeClients
  registryOwner : .registryOwner ∉ parts → w'.registryOwner = w.registryOwner
  nextSession : .allocation ∉ parts → w'.nextSession = w.nextSession
  name : .allocation ∉ parts → ∀ s, (w'.sessions s).name = (w.sessions s).name
  owners : .owners ∉ parts → ∀ s, (w'.sessions s).owners = (w.sessions s).owners
  queues : .queues ∉ parts → ∀ s,
    (w'.sessions s).outgoingQueue = (w.sessions s).outgoingQueue
  queueOwners : .queueOwners ∉ parts → ∀ s,
    (w'.sessions s).queueOwner = (w.sessions s).queueOwner
  presence : .presence ∉ parts → ∀ s, (w'.sessions s).isOnline = (w.sessions s).isOnline
  destroyed : .destroyed ∉ parts → ∀ s, (w'.sessions s).destroyed = (w.sessions s).destroyed
  pendingSends : .pendingSends ∉ parts → w'.pendingSends = w.pendingSends
  batches : .batches ∉ parts → w'.batches = w.batches
  terminated : .terminated ∉ parts → w'.terminated = w.terminated

variable {parts : List Part} {i : ℕ} {j : Job} {ch : Choice} {o : Op} {w w' : World} {r : o.Res}

theorem Frame.refl (w : World) : Frame parts w w := by
  constructor <;> simp

theorem Frame.trans {u : World} (h : Frame parts u w) (h' : Frame parts w w') :
    Frame parts u w' := by
  cases h
  cases h'
  constructor <;> simp_all

theorem Frame.weaken {parts' : List Part} (h : Frame parts w w') (hsub : parts ⊆ parts') :
    Frame parts' w w' := by
  have up {p : Part} (hp : p ∉ parts') : p ∉ parts := fun hm ↦ hp (hsub hm)
  exact ⟨fun hp ↦ h.log (up hp), h.metrics, fun hp ↦ h.messages (up hp),
    fun hp ↦ h.correlations (up hp), fun hp ↦ h.clients (up hp), fun hp ↦ h.registryOwner (up hp),
    fun hp ↦ h.nextSession (up hp), fun hp ↦ h.name (up hp), fun hp ↦ h.owners (up hp),
    fun hp ↦ h.queues (up hp), fun hp ↦ h.queueOwners (up hp), fun hp ↦ h.presence (up hp),
    fun hp ↦ h.destroyed (up hp), fun hp ↦ h.pendingSends (up hp), fun hp ↦ h.batches (up hp),
    fun hp ↦ h.terminated (up hp)⟩

theorem setSession_apply (w : World) (s s' : ℕ) (f : Session → Session) :
    (w.setSession s f).sessions s' = if s' = s then f (w.sessions s') else w.sessions s' := by
  simp only [World.setSession, Function.update_apply]
  split
  · next h => rw [h]
  · rfl

theorem setSession_frame {s : ℕ} {f : Session → Session}
    (hn : .allocation ∉ parts → ∀ x, (f x).name = x.name)
    (ho : .owners ∉ parts → ∀ x, (f x).owners = x.owners)
    (hq : .queues ∉ parts → ∀ x, (f x).outgoingQueue = x.outgoingQueue)
    (hl : .queueOwners ∉ parts → ∀ x, (f x).queueOwner = x.queueOwner)
    (hp : .presence ∉ parts → ∀ x, (f x).isOnline = x.isOnline)
    (hd : .destroyed ∉ parts → ∀ x, (f x).destroyed = x.destroyed) :
    Frame parts w (w.setSession s f) := by
  have field {α : Type} {g : Session → α} (hg : ∀ x, g (f x) = g x) (s' : ℕ) :
      g ((w.setSession s f).sessions s') = g (w.sessions s') := by
    rw [setSession_apply]
    split
    · exact hg _
    · rfl
  constructor
  case name => exact fun h ↦ field (hn h)
  case owners => exact fun h ↦ field (ho h)
  case queues => exact fun h ↦ field (hq h)
  case queueOwners => exact fun h ↦ field (hl h)
  case presence => exact fun h ↦ field (hp h)
  case destroyed => exact fun h ↦ field (hd h)
  all_goals simp [World.setSession]

theorem setDb_frame {db : Database}
    (hm : .messages ∉ parts →
      db.messages = w.db.messages ∧ db.lastMessageId = w.db.lastMessageId)
    (hc : .correlations ∉ parts → db.correlations = w.db.correlations) :
    Frame parts w (w.setDb db) := by
  constructor
  case messages => exact hm
  case correlations => exact hc
  all_goals simp [World.setDb]

theorem dbCall_cases {m : String} {α : Type} {a : α} {db : Database} {r : Except String α}
    (h : dbCall ch m w a db = some (r, w')) :
    (ch.dbError = true ∧ r = .error m ∧ w' = w) ∨
      (ch.dbError = false ∧ r = .ok a ∧ w' = w.setDb db) := by
  unfold dbCall at h
  split at h
  · next he =>
    cases h
    exact .inl ⟨he, rfl, rfl⟩
  · next he =>
    cases h
    exact .inr ⟨by simpa using he, rfl, rfl⟩

theorem dbCall_frame {m : String} {α : Type} {a : α} {db : Database} {r : Except String α}
    (h : dbCall ch m w a db = some (r, w'))
    (hm : .messages ∉ parts →
      db.messages = w.db.messages ∧ db.lastMessageId = w.db.lastMessageId)
    (hc : .correlations ∉ parts → db.correlations = w.db.correlations) :
    Frame parts w w' := by
  obtain ⟨-, -, rfl⟩ | ⟨-, -, rfl⟩ := dbCall_cases h
  · exact .refl _
  · exact setDb_frame hm hc

theorem saveCorrelation_messages {db db' : Database} {now : ℤ} {id : ℕ} {c : UInt64} {s : Bytes}
    (h : db.saveCorrelation now id c s = some db') :
    db'.messages = db.messages ∧ db'.lastMessageId = db.lastMessageId := by
  unfold Database.saveCorrelation at h
  split at h
  · cases h
    exact ⟨rfl, rfl⟩
  · cases h

theorem markAckReceived_messages {db : Database} {id : ℕ} {s : Bytes} :
    (db.markAckReceived id s).messages = db.messages ∧
      (db.markAckReceived id s).lastMessageId = db.lastMessageId := by
  simp only [Database.markAckReceived]
  split <;> exact ⟨rfl, rfl⟩

theorem effect_frame (h : effect i ch o w = some (r, w')) : Frame (writes o) w w' := by
  cases o with
  | saveMessage | markDelivered | markSent | markPending =>
    exact dbCall_frame h (by simp [writes]) (fun _ ↦ rfl)
  | saveCorrelation id c s =>
    simp only [effect] at h
    split at h
    · cases h
      exact .refl w
    · next hs => exact dbCall_frame h (fun _ ↦ saveCorrelation_messages hs) (by simp [writes])
  | markAckReceived id s =>
    simp only [effect, Option.some.injEq, Prod.mk.injEq] at h
    obtain ⟨-, rfl⟩ := h
    split
    · exact .refl w
    · exact setDb_frame (fun _ ↦ markAckReceived_messages) (by simp [writes])
  | lockRegistry =>
    simp only [effect] at h
    split at h <;> cases h
    constructor <;> simp [writes]
  | findClient n =>
    simp only [effect] at h
    split at h <;> cases h
    · exact .refl w
    · apply setSession_frame <;> simp [writes]
  | removeClient n =>
    simp only [effect] at h
    split at h <;> cases h
    · exact .refl w
    · next s _ =>
      have hf : Frame (writes (.removeClient n)) w
          (w.setSession s fun x ↦ { x with owners := i :: x.owners }) := by
        apply setSession_frame <;> simp [writes]
      refine hf.trans ?_
      constructor <;> simp [writes]
  | lockQueue s =>
    simp only [effect] at h
    split at h <;> cases h
    apply setSession_frame <;> simp [writes]
  | newSession identity n =>
    simp only [effect, Option.some.injEq, Prod.mk.injEq] at h
    obtain ⟨-, rfl⟩ := h
    constructor <;> simp [writes]
  | takePendingSends =>
    simp only [effect] at h
    split at h <;> cases h <;> constructor <;> simp [writes, World.setBatch]
  | callback send success =>
    simp only [effect, Option.some.injEq, Prod.mk.injEq] at h
    obtain ⟨-, rfl⟩ := h
    have hf (sends : List PendingSend) :
        Frame (writes (.callback send success)) w (w.setBatch i sends) := by
      constructor <;> simp [writes, World.setBatch]
    have hs (v : World) : Frame (writes (.callback send success)) v
        (v.setSession send.session fun x ↦ { x with isOnline := false }) := by
      apply setSession_frame <;> simp [writes]
    split
    · exact hf _
    · exact (hf _).trans (hs _)
  | sendFrame send part =>
    simp only [effect, Option.some.injEq, Prod.mk.injEq] at h
    obtain ⟨-, rfl⟩ := h
    split <;> constructor <;> simp [writes]
  | markOffline | updateLastActivity | updateLastReceive | unlockQueue | pushQueue | popQueue
  | destroySession | release =>
    simp only [effect, Option.some.injEq, Prod.mk.injEq] at h
    obtain ⟨-, rfl⟩ := h
    apply setSession_frame <;> simp [writes]
  | unlockRegistry | setName | eraseName | setClient | pushPendingSend | postSendTask | popSend
  | finishSends | updateQueueMetrics | increment | setActiveSessions | terminate =>
    simp only [effect, Option.some.injEq, Prod.mk.injEq] at h
    obtain ⟨-, rfl⟩ := h
    constructor <;> simp [writes, World.setBatch, World.setMetrics]
  | _ =>
    simp only [effect, Option.some.injEq, Prod.mk.injEq] at h
    obtain ⟨-, rfl⟩ := h
    exact .refl w

theorem exec_cases (h : exec i j o ch w = some (r, w')) : w.terminated = false ∧
    ∃ v, effect i ch o w = some (r, v) ∧
      w' = { v with log := ⟨i, j, o, ch, r, w.wallClock⟩ :: v.log } := by
  unfold exec at h
  split at h
  · cases h
  · next ht =>
    obtain ⟨⟨r', v⟩, he, hr⟩ := Option.map_eq_some_iff.mp h
    cases hr
    exact ⟨by simpa using ht, v, he, rfl⟩

theorem writes_log (o : Op) : Part.log ∉ writes o := by
  cases o <;> simp [writes]

theorem exec_log (h : exec i j o ch w = some (r, w')) :
    w'.log = ⟨i, j, o, ch, r, w.wallClock⟩ :: w.log := by
  obtain ⟨-, v, he, rfl⟩ := exec_cases h
  simp only [(effect_frame he).log (writes_log o)]

theorem exec_frame (h : exec i j o ch w = some (r, w')) : Frame (.log :: writes o) w w' := by
  obtain ⟨-, v, he, rfl⟩ := exec_cases h
  obtain ⟨_, h₁, h₂, h₃, h₄, h₅, h₆, h₇, h₈, h₉, h₁₀, h₁₁, h₁₂, h₁₃, h₁₄, h₁₅⟩ := effect_frame he
  constructor <;> simp_all

/-- What only a few operations write besides the parts. -/
structure Aside (o : Op) (w w' : World) : Prop where
  sendingInProgress : o ≠ .takePendingSends → o ≠ .finishSends →
    w'.sendingInProgress = w.sendingInProgress
  postedTasks : o ≠ .postSendTask → o ≠ .finishSends → w'.postedTasks = w.postedTasks
  wire : (∀ send part, o ≠ .sendFrame send part) → w'.wire = w.wire
  identityToName : (∀ x n, o ≠ .setName x n) → (∀ x, o ≠ .eraseName x) →
    w'.identityToName = w.identityToName
  identity : (∀ x n, o ≠ .newSession x n) → ∀ s, (w'.sessions s).identity = (w.sessions s).identity

theorem Aside.refl (o : Op) (w : World) : Aside o w w :=
  ⟨fun _ _ ↦ rfl, fun _ _ ↦ rfl, fun _ ↦ rfl, fun _ _ ↦ rfl, fun _ _ ↦ rfl⟩

theorem setSession_aside {s : ℕ} {f : Session → Session} (hf : ∀ x, (f x).identity = x.identity) :
    Aside o w (w.setSession s f) := by
  refine ⟨fun _ _ ↦ rfl, fun _ _ ↦ rfl, fun _ ↦ rfl, fun _ _ ↦ rfl, fun _ s' ↦ ?_⟩
  rw [setSession_apply]
  split
  · exact hf _
  · rfl

theorem aside_of_eq (h₁ : w'.sendingInProgress = w.sendingInProgress)
    (h₂ : w'.postedTasks = w.postedTasks) (h₃ : w'.wire = w.wire)
    (h₄ : w'.identityToName = w.identityToName)
    (h₅ : ∀ s, (w'.sessions s).identity = (w.sessions s).identity) : Aside o w w' :=
  ⟨fun _ _ ↦ h₁, fun _ _ ↦ h₂, fun _ ↦ h₃, fun _ _ ↦ h₄, fun _ ↦ h₅⟩

theorem dbCall_aside {m : String} {α : Type} {a : α} {db : Database} {r : Except String α}
    (h : dbCall ch m w a db = some (r, w')) : Aside o w w' := by
  obtain ⟨-, -, rfl⟩ | ⟨-, -, rfl⟩ := dbCall_cases h
  · exact .refl o _
  · exact ⟨fun _ _ ↦ rfl, fun _ _ ↦ rfl, fun _ ↦ rfl, fun _ _ ↦ rfl, fun _ _ ↦ rfl⟩

theorem effect_aside (h : effect i ch o w = some (r, w')) : Aside o w w' := by
  cases o with
  | saveMessage | markDelivered | markSent | markPending => exact dbCall_aside h
  | saveCorrelation id c s =>
    simp only [effect] at h
    split at h
    · cases h
      exact .refl _ w
    · exact dbCall_aside h
  | needsAck | findOriginalSenderByCorrelation | findMessageIdByCorrelation
  | findMessageIdByCorrelationAndDestination | loadExpiredSent | loadPendingMessagesOnly
  | loadPendingRepliesForSenderOnly | findName | peekClient | listClients | identityOf | nameOf
  | isOnline | isExpired | queueSize | queueFront | isSending | frontSend | hasMetrics =>
    cases h
    exact .refl _ w
  | findClient =>
    simp only [effect] at h
    split at h <;> cases h
    · exact .refl _ w
    · exact setSession_aside fun _ ↦ rfl
  | lockQueue =>
    simp only [effect] at h
    split at h <;> cases h
    exact setSession_aside fun _ ↦ rfl
  | removeClient n =>
    simp only [effect] at h
    split at h <;> cases h
    · exact .refl _ w
    · next s _ =>
      have hf : Aside (.removeClient n) w
          (w.setSession s fun x ↦ { x with owners := i :: x.owners }) :=
        setSession_aside fun _ ↦ rfl
      obtain ⟨h₁, h₂, h₃, h₄, h₅⟩ := hf
      exact ⟨h₁, h₂, h₃, h₄, h₅⟩
  | callback send success =>
    cases h
    split
    · exact aside_of_eq rfl rfl rfl rfl fun _ ↦ rfl
    · have hf (v : World) : Aside (.callback send success) v
          (v.setSession send.session fun x ↦ { x with isOnline := false }) :=
        setSession_aside fun _ ↦ rfl
      obtain ⟨h₁, h₂, h₃, h₄, h₅⟩ := hf (w.setBatch i _)
      exact ⟨h₁, h₂, h₃, h₄, h₅⟩
  | markAckReceived =>
    cases h
    split
    · exact .refl _ w
    · exact aside_of_eq rfl rfl rfl rfl fun _ ↦ rfl
  | lockRegistry =>
    simp only [effect] at h
    split at h <;> cases h
    exact aside_of_eq rfl rfl rfl rfl fun _ ↦ rfl
  | takePendingSends =>
    simp only [effect] at h
    split at h <;> cases h
    all_goals
      exact ⟨fun h ↦ absurd rfl h, fun _ _ ↦ rfl, fun _ ↦ rfl, fun _ _ ↦ rfl, fun _ _ ↦ rfl⟩
  | finishSends =>
    cases h
    exact ⟨fun _ h ↦ absurd rfl h, fun _ h ↦ absurd rfl h, fun _ ↦ rfl, fun _ _ ↦ rfl,
      fun _ _ ↦ rfl⟩
  | postSendTask =>
    cases h
    exact ⟨fun _ _ ↦ rfl, fun h ↦ absurd rfl h, fun _ ↦ rfl, fun _ _ ↦ rfl, fun _ _ ↦ rfl⟩
  | sendFrame send part =>
    cases h
    split
    · exact ⟨fun _ _ ↦ rfl, fun _ _ ↦ rfl, fun h ↦ absurd rfl (h send part), fun _ _ ↦ rfl,
        fun _ _ ↦ rfl⟩
    · exact .refl _ w
  | setName x n =>
    cases h
    exact ⟨fun _ _ ↦ rfl, fun _ _ ↦ rfl, fun _ ↦ rfl, fun h ↦ absurd rfl (h x n), fun _ _ ↦ rfl⟩
  | eraseName x =>
    cases h
    exact ⟨fun _ _ ↦ rfl, fun _ _ ↦ rfl, fun _ ↦ rfl, fun _ h ↦ absurd rfl (h x), fun _ _ ↦ rfl⟩
  | newSession x n =>
    cases h
    exact ⟨fun _ _ ↦ rfl, fun _ _ ↦ rfl, fun _ ↦ rfl, fun _ _ ↦ rfl, fun h ↦ absurd rfl (h x n)⟩
  | markOffline | updateLastActivity | updateLastReceive | unlockQueue | pushQueue | popQueue
  | destroySession | release =>
    cases h
    exact setSession_aside fun _ ↦ rfl
  | unlockRegistry | setClient | pushPendingSend | popSend | updateQueueMetrics | increment
  | setActiveSessions | terminate =>
    cases h
    exact aside_of_eq rfl rfl rfl rfl fun _ ↦ rfl

theorem exec_aside (h : exec i j o ch w = some (r, w')) : Aside o w w' := by
  obtain ⟨-, v, he, rfl⟩ := exec_cases h
  obtain ⟨h₁, h₂, h₃, h₄, h₅⟩ := effect_aside he
  exact ⟨h₁, h₂, h₃, h₄, h₅⟩

/-- The clocks stand still, and only two operations write a receive time. -/
structure Timed (o : Op) (w w' : World) : Prop where
  clock : w'.steadyClock = w.steadyClock
  wallClock : w'.wallClock = w.wallClock
  receives : ∀ s, o ≠ .updateLastReceive s → (∀ x n, o = .newSession x n → s ≠ w.nextSession) →
    (w'.sessions s).lastReceive = (w.sessions s).lastReceive

theorem setSession_timed {f : Session → Session} (hf : ∀ x, (f x).lastReceive = x.lastReceive) :
    Timed o w (w.setSession s f) := by
  refine ⟨rfl, rfl, fun s' _ _ ↦ ?_⟩
  rw [setSession_apply]
  split
  · exact hf _
  · rfl

theorem dbCall_timed {m : String} {a : α} {db : Database} {r : Except String α}
    (h : dbCall ch m w a db = some (r, w')) : Timed o w w' := by
  obtain ⟨-, -, rfl⟩ | ⟨-, -, rfl⟩ := dbCall_cases h
  · exact ⟨rfl, rfl, fun _ _ _ ↦ rfl⟩
  · exact ⟨rfl, rfl, fun _ _ _ ↦ rfl⟩

theorem effect_timed (h : effect i ch o w = some (r, w')) : Timed o w w' := by
  cases o with
  | saveMessage | markDelivered | markSent | markPending => exact dbCall_timed h
  | saveCorrelation id c s =>
    simp only [effect] at h
    split at h
    · cases h
      exact ⟨rfl, rfl, fun _ _ _ ↦ rfl⟩
    · exact dbCall_timed h
  | findClient | lockQueue =>
    simp only [effect] at h
    split at h <;> cases h
    all_goals first | exact ⟨rfl, rfl, fun _ _ _ ↦ rfl⟩ | exact setSession_timed fun _ ↦ rfl
  | removeClient n =>
    simp only [effect] at h
    split at h <;> cases h
    · exact ⟨rfl, rfl, fun _ _ _ ↦ rfl⟩
    · next s _ =>
      have hf : Timed (.removeClient n) w (w.setSession s fun x ↦ { x with owners := i :: x.owners }) :=
        setSession_timed fun _ ↦ rfl
      exact ⟨rfl, rfl, hf.receives⟩
  | callback send success =>
    cases h
    split
    · exact ⟨rfl, rfl, fun _ _ _ ↦ rfl⟩
    · have hf (v : World) : Timed (.callback send success) v
          (v.setSession send.session fun x ↦ { x with isOnline := false }) := setSession_timed fun _ ↦ rfl
      exact ⟨rfl, rfl, (hf (w.setBatch i _)).receives⟩
  | lockRegistry | takePendingSends =>
    simp only [effect] at h
    split at h <;> cases h
    all_goals exact ⟨rfl, rfl, fun _ _ _ ↦ rfl⟩
  | markAckReceived | sendFrame =>
    cases h
    split <;> exact ⟨rfl, rfl, fun _ _ _ ↦ rfl⟩
  | updateLastReceive s =>
    cases h
    refine ⟨rfl, rfl, fun s' hs _ ↦ ?_⟩
    have hne : s' ≠ s := fun heq ↦ hs (by rw [heq])
    rw [setSession_apply, if_neg hne]
  | newSession x n =>
    cases h
    refine ⟨rfl, rfl, fun s _ hs ↦ ?_⟩
    exact congrArg Session.lastReceive (Function.update_of_ne (hs x n rfl) _ _)
  | markOffline | updateLastActivity | unlockQueue | pushQueue | popQueue | destroySession | release =>
    cases h
    exact setSession_timed fun _ ↦ rfl
  | _ =>
    cases h
    exact ⟨rfl, rfl, fun _ _ _ ↦ rfl⟩

theorem exec_timed (h : exec i j o ch w = some (r, w')) : Timed o w w' := by
  obtain ⟨-, v, he, rfl⟩ := exec_cases h
  obtain ⟨hc, hw, hr⟩ := effect_timed he
  exact ⟨hc, hw, hr⟩

variable {s : ℕ} {c : Copy} {id : ℕ} {n : Bytes}

theorem dbSelect_sublist {α : Type} (ch : Choice) (rows : List α) : (dbSelect ch rows).Sublist rows := by
  unfold dbSelect
  split
  · exact List.take_sublist _ _
  · exact .refl _

theorem mem_dbSelect {α : Type} {rows : List α} {a : α} (h : a ∈ dbSelect ch rows) : a ∈ rows :=
  (dbSelect_sublist ch rows).subset h

theorem exec_updateLastReceive {r : Unit} (h : exec i j (.updateLastReceive s) ch w = some (r, w')) :
    (w'.sessions s).lastReceive = w.steadyClock := by
  obtain ⟨-, v, he, rfl⟩ := exec_cases h
  cases he
  simp only [World.setSession, Function.update_self]

theorem exec_saveMessage {r : Except String ℕ}
    (h : exec i j (.saveMessage c) ch w = some (r, w')) :
    (ch.dbError = true ∧ (∃ e, r = .error e) ∧ w'.db = w.db) ∨
      r = .ok (w.db.lastMessageId + 1) ∧ w'.db = (w.db.saveMessage w.wallClock c).2 := by
  obtain ⟨-, v, he, rfl⟩ := exec_cases h
  obtain ⟨hd, rfl, rfl⟩ | ⟨-, rfl, rfl⟩ := dbCall_cases he
  · exact .inl ⟨hd, ⟨_, rfl⟩, rfl⟩
  · exact .inr ⟨rfl, rfl⟩

theorem exec_saveCorrelation {corr : UInt64} {r : Except String Unit}
    (h : exec i j (.saveCorrelation id corr n) ch w = some (r, w')) :
    ((ch.dbError = true ∨ w.db.row? id = none) ∧ (∃ e, r = .error e) ∧ w'.db = w.db) ∨
      r = .ok () ∧ w.db.saveCorrelation w.wallClock id corr n = some w'.db := by
  obtain ⟨-, v, he, rfl⟩ := exec_cases h
  simp only [effect] at he
  split at he
  · next hs =>
    cases he
    refine .inl ⟨.inr ?_, ⟨_, rfl⟩, rfl⟩
    simpa [Database.saveCorrelation] using hs
  · next hs =>
    obtain ⟨hd, rfl, rfl⟩ | ⟨-, rfl, rfl⟩ := dbCall_cases he
    · exact .inl ⟨.inl hd, ⟨_, rfl⟩, rfl⟩
    · exact .inr ⟨rfl, hs⟩

theorem exec_markDelivered {r : Except String Unit}
    (h : exec i j (.markDelivered id) ch w = some (r, w')) :
    (ch.dbError = true ∧ (∃ e, r = .error e) ∧ w'.db = w.db) ∨
      (r = .ok () ∧ ch.dbError = false) ∧ w'.db = w.db.markDelivered id := by
  obtain ⟨-, v, he, rfl⟩ := exec_cases h
  obtain ⟨hd, rfl, rfl⟩ | ⟨hd, rfl, rfl⟩ := dbCall_cases he
  · exact .inl ⟨hd, ⟨_, rfl⟩, rfl⟩
  · exact .inr ⟨⟨rfl, hd⟩, rfl⟩

theorem exec_markSent {r : Except String Unit}
    (h : exec i j (.markSent id) ch w = some (r, w')) :
    (ch.dbError = true ∧ (∃ e, r = .error e) ∧ w'.db = w.db) ∨
      r = .ok () ∧ w'.db = w.db.markSent id := by
  obtain ⟨-, v, he, rfl⟩ := exec_cases h
  obtain ⟨hd, rfl, rfl⟩ | ⟨-, rfl, rfl⟩ := dbCall_cases he
  · exact .inl ⟨hd, ⟨_, rfl⟩, rfl⟩
  · exact .inr ⟨rfl, rfl⟩

theorem exec_markPending {r : Except String Unit}
    (h : exec i j (.markPending id) ch w = some (r, w')) :
    (ch.dbError = true ∧ (∃ e, r = .error e) ∧ w'.db = w.db) ∨
      r = .ok () ∧ w'.db = w.db.markPending id := by
  obtain ⟨-, v, he, rfl⟩ := exec_cases h
  obtain ⟨hd, rfl, rfl⟩ | ⟨-, rfl, rfl⟩ := dbCall_cases he
  · exact .inl ⟨hd, ⟨_, rfl⟩, rfl⟩
  · exact .inr ⟨rfl, rfl⟩

theorem exec_markAckReceived {r : Unit}
    (h : exec i j (.markAckReceived id n) ch w = some (r, w')) :
    w'.db = w.db ∨ w'.db = w.db.markAckReceived id n := by
  obtain ⟨-, v, he, rfl⟩ := exec_cases h
  cases he
  split
  · exact .inl rfl
  · exact .inr rfl

theorem exec_lockRegistry {r : Unit} (h : exec i j .lockRegistry ch w = some (r, w')) :
    w.registryOwner = none ∧ w'.registryOwner = some i := by
  obtain ⟨-, v, he, rfl⟩ := exec_cases h
  simp only [effect] at he
  split at he
  · next hn =>
    cases he
    exact ⟨hn, rfl⟩
  · cases he

theorem exec_unlockRegistry {r : Unit} (h : exec i j .unlockRegistry ch w = some (r, w')) :
    w'.registryOwner = none := by
  obtain ⟨-, v, he, rfl⟩ := exec_cases h
  cases he
  rfl

theorem acquire_owners (x s : ℕ) :
    ((w.setSession x fun y ↦ { y with owners := i :: y.owners }).sessions s).owners =
      if some x = some s then i :: (w.sessions s).owners else (w.sessions s).owners := by
  rw [setSession_apply]
  by_cases hs : s = x
  · rw [if_pos hs, if_pos (congrArg some hs.symm)]
  · rw [if_neg hs, if_neg fun h ↦ hs (Option.some.inj h).symm]

theorem exec_findClient {r : Option ℕ} (h : exec i j (.findClient n) ch w = some (r, w')) :
    w.activeClients.lookup n = r ∧ ∀ s, (w'.sessions s).owners =
      if r = some s then i :: (w.sessions s).owners else (w.sessions s).owners := by
  obtain ⟨-, v, he, rfl⟩ := exec_cases h
  simp only [effect] at he
  split at he
  · next hl =>
    cases he
    exact ⟨hl, fun s ↦ rfl⟩
  · next x hl =>
    cases he
    exact ⟨hl, acquire_owners x⟩

theorem exec_removeClient {r : Unit} (h : exec i j (.removeClient n) ch w = some (r, w')) :
    w'.activeClients = w.activeClients.erase n ∧
      ∃ x, w.activeClients.lookup n = x ∧ ∀ s, (w'.sessions s).owners =
        if x = some s then i :: (w.sessions s).owners else (w.sessions s).owners := by
  obtain ⟨-, v, he, rfl⟩ := exec_cases h
  simp only [effect] at he
  split at he
  · next hl =>
    cases he
    have hn : n ∉ w.activeClients := AList.lookup_eq_none.mp hl
    have hkeys : n ∉ w.activeClients.keys := hn
    exact ⟨AList.ext (List.kerase_of_notMem_keys hkeys).symm, none, hl, fun s ↦ rfl⟩
  · next x hl =>
    cases he
    exact ⟨rfl, some x, hl, acquire_owners x⟩

theorem exec_setClient {r : Unit} (h : exec i j (.setClient n s) ch w = some (r, w')) :
    w'.activeClients = w.activeClients.insert n s := by
  obtain ⟨-, v, he, rfl⟩ := exec_cases h
  cases he
  rfl

theorem exec_setName {identity : Bytes} {r : Unit}
    (h : exec i j (.setName identity n) ch w = some (r, w')) :
    w'.identityToName = w.identityToName.insert identity n := by
  obtain ⟨-, v, he, rfl⟩ := exec_cases h
  cases he
  rfl

theorem exec_eraseName {identity : Bytes} {r : Unit}
    (h : exec i j (.eraseName identity) ch w = some (r, w')) :
    w'.identityToName = w.identityToName.erase identity := by
  obtain ⟨-, v, he, rfl⟩ := exec_cases h
  cases he
  rfl

theorem exec_newSession {identity : Bytes} {r : ℕ}
    (h : exec i j (.newSession identity n) ch w = some (r, w')) :
    r = w.nextSession ∧ w'.nextSession = w.nextSession + 1 ∧
      (∀ s ≠ w.nextSession, w'.sessions s = w.sessions s) ∧
      w'.sessions w.nextSession = { identity, name := n, lastReceive := w.steadyClock,
                                    lastActivity := w.steadyClock, owners := [i] } := by
  obtain ⟨-, v, he, rfl⟩ := exec_cases h
  cases he
  exact ⟨rfl, rfl, fun s hs ↦ Function.update_of_ne hs _ _, Function.update_self _ _ _⟩

theorem exec_release {r : Bool} (h : exec i j (.release s) ch w = some (r, w')) :
    r = decide ((w'.sessions s).owners = [] ∧ ¬ w'.Registered s) ∧
      ∀ s', (w'.sessions s').owners =
        if s' = s then (w.sessions s').owners.erase i else (w.sessions s').owners := by
  obtain ⟨-, v, he, rfl⟩ := exec_cases h
  cases he
  refine ⟨rfl, fun s' ↦ ?_⟩
  rw [setSession_apply]
  split <;> rfl

theorem exec_destroySession {r : Unit} (h : exec i j (.destroySession s) ch w = some (r, w')) :
    ∀ s', (w'.sessions s').destroyed = (decide (s' = s) || (w.sessions s').destroyed) := by
  obtain ⟨-, v, he, rfl⟩ := exec_cases h
  cases he
  intro s'
  rw [setSession_apply]
  split
  · next hs => simp [hs]
  · next hs => simp [hs]

theorem exec_markOffline {r : Unit} (h : exec i j (.markOffline s) ch w = some (r, w')) :
    ∀ s', (w'.sessions s').isOnline = (!decide (s' = s) && (w.sessions s').isOnline) := by
  obtain ⟨-, v, he, rfl⟩ := exec_cases h
  cases he
  intro s'
  rw [setSession_apply]
  split
  · next hs => simp [hs]
  · next hs => simp [hs]

theorem exec_lockQueue {r : Unit} (h : exec i j (.lockQueue s) ch w = some (r, w')) :
    (w.sessions s).queueOwner = none ∧ ∀ s', (w'.sessions s').queueOwner =
      if s' = s then some i else (w.sessions s').queueOwner := by
  obtain ⟨-, v, he, rfl⟩ := exec_cases h
  simp only [effect] at he
  split at he
  · next hn =>
    cases he
    refine ⟨hn, fun s' ↦ ?_⟩
    rw [setSession_apply]
    split <;> rfl
  · cases he

theorem exec_unlockQueue {r : Unit} (h : exec i j (.unlockQueue s) ch w = some (r, w')) :
    ∀ s', (w'.sessions s').queueOwner =
      if s' = s then none else (w.sessions s').queueOwner := by
  obtain ⟨-, v, he, rfl⟩ := exec_cases h
  cases he
  intro s'
  rw [setSession_apply]
  split <;> rfl

theorem exec_pushQueue {r : Unit} (h : exec i j (.pushQueue s c) ch w = some (r, w')) :
    ∀ s', (w'.sessions s').outgoingQueue =
      if s' = s then (w.sessions s').outgoingQueue ++ [c] else (w.sessions s').outgoingQueue := by
  obtain ⟨-, v, he, rfl⟩ := exec_cases h
  cases he
  intro s'
  rw [setSession_apply]
  split <;> rfl

theorem exec_popQueue {r : Unit} (h : exec i j (.popQueue s) ch w = some (r, w')) :
    ∀ s', (w'.sessions s').outgoingQueue =
      if s' = s then (w.sessions s').outgoingQueue.tail else (w.sessions s').outgoingQueue := by
  obtain ⟨-, v, he, rfl⟩ := exec_cases h
  cases he
  intro s'
  rw [setSession_apply]
  split <;> rfl

theorem exec_pushPendingSend {data : Bytes} {r : Unit}
    (h : exec i j (.pushPendingSend s c data) ch w = some (r, w')) :
    w'.pendingSends = w.pendingSends ++
      [{ identity := (w.sessions s).identity, data, session := s, copy := c }] := by
  obtain ⟨-, v, he, rfl⟩ := exec_cases h
  cases he
  rfl

theorem exec_takePendingSends {r : ℕ} (h : exec i j .takePendingSends ch w = some (r, w')) :
    r = w.pendingSends.length ∧ w'.pendingSends = [] ∧
      w'.batches = if w.pendingSends = [] then w.batches
        else Function.update w.batches i w.pendingSends := by
  obtain ⟨-, v, he, rfl⟩ := exec_cases h
  simp only [effect] at he
  split at he
  · next hp =>
    cases he
    simp [hp]
  · next hp =>
    cases he
    simp [hp, World.setBatch]

theorem exec_takePendingSends_flag {r : ℕ} (h : exec i j .takePendingSends ch w = some (r, w')) :
    w'.sendingInProgress = !decide (w.pendingSends = []) := by
  obtain ⟨-, v, he, rfl⟩ := exec_cases h
  simp only [effect] at he
  split at he
  · next hp =>
    cases he
    simp [hp]
  · next hp =>
    cases he
    simp [hp]

theorem exec_callback {send : PendingSend} {success : Bool} {r : Unit}
    (h : exec i j (.callback send success) ch w = some (r, w')) :
    (w'.batches = Function.update w.batches i
        (((w.batches i).head?.map fun x ↦ { x with called := true }).toList ++
          (w.batches i).tail)) ∧
      ∀ s, (w'.sessions s).isOnline =
        ((success || !decide (s = send.session)) && (w.sessions s).isOnline) := by
  obtain ⟨-, v, he, rfl⟩ := exec_cases h
  cases he
  cases success with
  | true => simp [World.setBatch]
  | false =>
    refine ⟨rfl, fun s ↦ ?_⟩
    simp only [Bool.false_eq_true, if_false, setSession_apply]
    split
    · next hs => simp [hs]
    · next hs => simp [hs, World.setBatch]

theorem exec_postSendTask {r : Unit} (h : exec i j .postSendTask ch w = some (r, w')) :
    w'.postedTasks = w.postedTasks + 1 := by
  obtain ⟨-, v, he, rfl⟩ := exec_cases h
  cases he
  rfl

theorem exec_finishSends {r : Unit} (h : exec i j .finishSends ch w = some (r, w')) :
    w'.sendingInProgress = false ∧ w'.postedTasks =
      if w.pendingSends = [] then w.postedTasks else w.postedTasks + 1 := by
  obtain ⟨-, v, he, rfl⟩ := exec_cases h
  cases he
  exact ⟨rfl, rfl⟩

theorem exec_popSend {r : Unit} (h : exec i j .popSend ch w = some (r, w')) :
    w'.batches = Function.update w.batches i (w.batches i).tail := by
  obtain ⟨-, v, he, rfl⟩ := exec_cases h
  cases he
  rfl

theorem exec_sendFrame {send : PendingSend} {part : SendPart} {r : SendResult}
    (h : exec i j (.sendFrame send part) ch w = some (r, w')) :
    w'.wire = if r = .accepted then w.wire ++ [(send, part)] else w.wire := by
  obtain ⟨-, v, he, rfl⟩ := exec_cases h
  cases he
  split <;> rfl

theorem exec_reads (h : exec i j o ch w = some (r, w')) :
    (effect i ch o w).map (·.1) = some r := by
  obtain ⟨-, v, he, rfl⟩ := exec_cases h
  rw [he, Option.map_some]

end MessageBroker.OperationEffects
