import MessageBroker.SequentialRuns
import MessageBroker.SharedInvariant
import MessageBroker.WireCodec

namespace MessageBroker.IsolatedRuns

open ByteStrings WireMessages WireCodec MessageStore ProgramTrees SequentialRuns BrokerState SessionQueues
  ClientRegistry MessageHandlers ServerJobs OperationEffects

/-- The operations of thread `i` when no other thread runs; `env` is what the
environment decides about each of them. -/
def alone (i : ℕ) (j : Job) (env : Op → Choice) (o : Op) (w : World) : Option (o.Res × World) :=
  exec i j o (env o) w

def Unfailing (env : Op → Choice) : Prop := ∀ o, (env o).dbError = false

def blocks : Op → Bool
  | .lockRegistry | .lockQueue _ => true
  | _ => false

variable {i : ℕ} {j : Job} {env : Op → Choice} {o : Op} {ch : Choice} {w w' : World} {α β : Type}
  {parts parts' : List Part} {n : Bytes} {s : ℕ} {c : Copy} {r : o.Res}

theorem exec_total (ht : w.terminated = false) (ho : blocks o = false) :
    ∃ r w', exec i j o ch w = some (r, w') := by
  have some_of {x : Option (o.Res × World)} (he : effect i ch o w = x) (hx : x.isSome = true) :
      ∃ r w', exec i j o ch w = some (r, w') := by
    obtain ⟨⟨r, w'⟩, hr⟩ := Option.isSome_iff_exists.mp hx
    refine ⟨r, { w' with log := ⟨i, j, o, ch, r, w.wallClock⟩ :: w'.log }, ?_⟩
    simp only [exec, ht, Bool.false_eq_true, if_false, he, hr, Option.map_some]
  have call {β : Type} {m : String} {a : β} {db : Database} : (dbCall ch m w a db).isSome = true := by
    unfold dbCall
    split <;> rfl
  cases o with
  | lockRegistry | lockQueue => cases ho
  | saveMessage | markDelivered | markSent | markPending => exact some_of rfl call
  | saveCorrelation id corr n =>
    refine some_of rfl ?_
    simp only [effect]
    split
    · rfl
    · exact call
  | findClient | removeClient | takePendingSends =>
    refine some_of rfl ?_
    simp only [effect]
    split <;> rfl
  | _ => exact some_of rfl rfl

theorem ends_op {k : o.Res → Program α} {Q : Except String α → World → Prop}
    (ht : w.terminated = false) (ho : blocks o = false)
    (h : ∀ a w', exec i j o (env o) w = some (a, w') → Ends (alone i j env) (k a) w' Q) :
    Ends (alone i j env) (.op o k) w Q := by
  obtain ⟨a, w', he⟩ := exec_total (i := i) (j := j) (o := o) (w := w) ht ho
  exact Ends.op he (h a w' he)

theorem ends_perform {Q : Except String o.Res → World → Prop} (ht : w.terminated = false)
    (ho : blocks o = false) (h : ∀ a w', exec i j o (env o) w = some (a, w') → Q (.ok a) w') :
    Ends (alone i j env) (perform o) w Q :=
  ends_op ht ho fun a w' he ↦ .ret (h a w' he)

/-- The process goes on; only `parts` have been written, and no name of an identity. -/
structure Kept (parts : List Part) (w w' : World) : Prop where
  frame : Frame parts w w'
  names : w'.identityToName = w.identityToName
  identity : .allocation ∉ parts → ∀ s, (w'.sessions s).identity = (w.sessions s).identity
  running : w'.terminated = false

theorem Kept.refl (h : w.terminated = false) : Kept parts w w := ⟨.refl w, rfl, fun _ _ ↦ rfl, h⟩

theorem Kept.trans {u : World} (h : Kept parts u w) (h' : Kept parts w w') : Kept parts u w' :=
  ⟨h.frame.trans h'.frame, h'.names.trans h.names,
    fun hp s ↦ (h'.identity hp s).trans (h.identity hp s), h'.running⟩

theorem Kept.weaken (h : Kept parts w w') (hsub : parts ⊆ parts') : Kept parts' w w' :=
  ⟨h.frame.weaken hsub, h.names, fun hp ↦ h.identity fun hm ↦ hp (hsub hm), h.running⟩

def renames : Op → Bool
  | .setName _ _ | .eraseName _ | .terminate => true
  | _ => false

theorem kept_exec (he : exec i j o ch w = some (r, w')) (ho : renames o = false) :
    Kept (.log :: writes o) w w' := by
  refine ⟨exec_frame he, (exec_aside he).identityToName ?_ ?_, fun hp ↦ (exec_aside he).identity ?_, ?_⟩
  · rintro x n rfl
    cases ho
  · rintro x rfl
    cases ho
  · rintro x n rfl
    exact hp (by simp [writes])
  · rw [(exec_frame he).terminated]
    · exact (exec_cases he).1
    · cases o with
      | terminate => cases ho
      | _ => simp [writes]

theorem ends_withRegistryLock {p : Program α} {Q R : Except String α → World → Prop}
    (ht : w.terminated = false) (hfree : w.registryOwner = none)
    (h : ∀ w₁, Kept [.log, .registryOwner] w w₁ → Ends (alone i j env) p w₁ R)
    (hR : ∀ r w₂, R r w₂ → w₂.terminated = false)
    (hQ : ∀ r w₂ w₃, R r w₂ → Kept [.log, .registryOwner] w₂ w₃ → w₃.registryOwner = none → Q r w₃) :
    Ends (alone i j env) (withRegistryLock p) w Q := by
  obtain ⟨w₁, he⟩ : ∃ w₁, alone i j env .lockRegistry w = some ((), w₁) :=
    ⟨_, by simp [alone, exec, effect, ht, hfree]; rfl⟩
  refine Ends.step he (Ends.ensuring (h w₁ (kept_exec he rfl)) fun r w₂ hr ↦ ?_)
  exact ends_perform (hR r w₂ hr) rfl fun _ w₃ he ↦
    ⟨rfl, hQ r w₂ w₃ hr (kept_exec he rfl) (exec_unlockRegistry he)⟩

/-- What looking up a session leaves as it was. -/
structure Looked (w w' : World) : Prop where
  kept : Kept [.log, .registryOwner, .owners] w w'
  free : w'.registryOwner = none

theorem Looked.clients (h : Looked w w') : w'.activeClients = w.activeClients :=
  h.kept.frame.clients (by simp)

theorem ends_findSession (ht : w.terminated = false) (hfree : w.registryOwner = none) :
    Ends (alone i j env) (findSession n) w fun r w' ↦
      r = .ok (w.activeClients.lookup n) ∧ Looked w w' := by
  refine ends_withRegistryLock (R := fun r w₂ ↦ r = .ok (w.activeClients.lookup n) ∧
    Kept [.log, .registryOwner, .owners] w w₂) ht hfree (fun w₁ h₁ ↦ ?_) (fun _ _ h ↦ h.2.running) ?_
  · refine ends_perform h₁.running rfl fun x w₂ he ↦ ⟨?_, ?_⟩
    · rw [← (exec_findClient he).1, h₁.frame.clients (by simp)]
    · exact (h₁.weaken (by simp)).trans ((kept_exec he rfl).weaken (by simp [writes]))
  · exact fun r w₂ w₃ hr h₃ hfree ↦ ⟨hr.1, hr.2.trans (h₃.weaken (by simp)), hfree⟩

theorem registered_of_clients (h : w'.activeClients = w.activeClients) (hs : w.Registered s) :
    w'.Registered s := by
  unfold World.Registered
  rw [h]
  exact hs

theorem ends_dropSession (ht : w.terminated = false) (hs : w.Registered s) :
    Ends (alone i j env) (dropSession s) w fun r w' ↦ r = .ok () ∧ Kept [.log, .owners] w w' := by
  refine Ends.bind (R := fun r w' ↦ r = .ok false ∧ Kept [.log, .owners] w w')
    (ends_perform ht rfl fun r w₁ he ↦ ?_) (fun a w₁ ha ↦ ?_) fun e w₁ he ↦ ?_
  · have hk : Kept [.log, .owners] w w₁ := kept_exec he rfl
    refine ⟨?_, hk⟩
    rw [(exec_release he).1, decide_eq_false]
    exact fun h ↦ h.2 (registered_of_clients (hk.frame.clients (by simp)) hs)
  · obtain ⟨ha, hk⟩ := ha
    cases ha
    exact .ret ⟨rfl, hk⟩
  · cases he.1

theorem ends_holding {session : Option ℕ} {p : Program α} {Q R : Except String α → World → Prop}
    (h : Ends (alone i j env) p w R)
    (hR : ∀ r w₁, R r w₁ → w₁.terminated = false ∧ ∀ s, session = some s → w₁.Registered s)
    (hQ : ∀ r w₁ w₂, R r w₁ → Kept [.log, .owners] w₁ w₂ → Q r w₂) :
    Ends (alone i j env) (holding session p) w Q := by
  cases session with
  | none => exact h.mono fun r w₁ hr ↦ hQ r w₁ w₁ hr (.refl (hR r w₁ hr).1)
  | some s =>
    refine Ends.ensuring h fun r w₁ hr ↦ ?_
    obtain ⟨ht, hs⟩ := hR r w₁ hr
    exact (ends_dropSession ht (hs s rfl)).mono fun _ w₂ h₂ ↦ ⟨h₂.1, hQ r w₁ w₂ hr h₂.2⟩

theorem ends_isOnlineSession {session : Option ℕ} (ht : w.terminated = false) :
    Ends (alone i j env) (isOnlineSession session) w fun r w' ↦
      r = .ok (session.any fun s ↦ (w.sessions s).isOnline) ∧ Kept [.log] w w' := by
  cases session with
  | none => exact .ret ⟨rfl, .refl ht⟩
  | some s =>
    refine ends_perform ht rfl fun r w₁ he ↦ ⟨?_, kept_exec he rfl⟩
    have hr : some (w.sessions s).isOnline = some r := exec_reads he
    rw [← Option.some.inj hr]
    rfl

theorem ends_read {k : o.Res → Program α} {Q : Except String α → World → Prop} {a : o.Res}
    (ht : w.terminated = false) (ho : effect i (env o) o w = some (a, w))
    (h : ∀ w₁, Kept [.log] w w₁ → w₁.db = w.db → Ends (alone i j env) (k a) w₁ Q) :
    Ends (alone i j env) (.op o k) w Q := by
  have he : exec i j o (env o) w =
      some (a, { w with log := ⟨i, j, o, env o, a, w.wallClock⟩ :: w.log }) := by
    simp only [exec, ht, Bool.false_eq_true, if_false, ho, Option.map_some]
  refine Ends.op he (h _ ⟨?_, rfl, fun _ _ ↦ rfl, ht⟩ rfl)
  constructor <;> simp

theorem ends_sendOnline {Q : World → Prop} (ht : w.terminated = false)
    (hon : (w.sessions s).isOnline = true)
    (h : ∀ w₁, Kept [.log] w w₁ →
      Ends (alone i j env) (sendZmqMessage s c) w₁ fun r w' ↦ r = .ok () ∧ Q w') :
    Ends (alone i j env) (sendMessage s c) w fun r w' ↦ r = .ok true ∧ Q w' := by
  refine ends_op ht rfl fun _ w₁ h₁ ↦ ?_
  have hk₁ : Kept [.log] w w₁ := kept_exec h₁ rfl
  refine ends_op hk₁.running rfl fun online w₂ h₂ ↦ ?_
  have hk₂ : Kept [.log] w w₂ := hk₁.trans (kept_exec h₂ rfl)
  have honline : online = true := by
    have hr : some (w₁.sessions s).isOnline = some online := exec_reads h₂
    rw [← Option.some.inj hr, hk₁.frame.presence (by simp), hon]
  subst honline
  change Ends _ ((sendZmqMessage s c).bind fun _ ↦ .ret true) _ _
  exact Ends.bind (h w₂ hk₂) (fun _ w' hw ↦ .ret ⟨rfl, hw.2⟩) fun e w' hw ↦ by cases hw.1

/-- A send as its session hands it over: to its own identity, with the frame of the message. -/
structure Formed (w : World) (x : PendingSend) : Prop where
  identity : x.identity = (w.sessions x.session).identity
  data : serialize x.copy.msg = .ok x.data

theorem Formed.before {x : PendingSend} (h : Formed w' x) (hk : Kept parts w w') (hp : .allocation ∉ parts) :
    Formed w x :=
  ⟨h.identity.trans (hk.identity hp x.session), h.data⟩

theorem ends_sendMessage (ht : w.terminated = false) (hon : (w.sessions s).isOnline = true)
    (hfits : c.msg.Fits) :
    Ends (alone i j env) (sendMessage s c) w fun r w' ↦ r = .ok true ∧ Kept [.log, .pendingSends] w w' ∧
      ∃ x, w'.pendingSends = w.pendingSends ++ [x] ∧ x.copy = c ∧ x.session = s ∧ Formed w x := by
  obtain ⟨data, hdata⟩ : ∃ data, serialize c.msg = .ok data := ⟨_, serialize_frame hfits⟩
  have hzmq : sendZmqMessage s c =
      .op (.pushPendingSend s c data) fun _ ↦ .op .postSendTask .ret := by
    unfold sendZmqMessage
    rw [hdata]
    rfl
  refine ends_sendOnline ht hon fun w₁ hk₁ ↦ ?_
  rw [hzmq]
  refine ends_op hk₁.running rfl fun _ w₂ h₂ ↦ ?_
  have hk₂ : Kept [.log, .pendingSends] w w₂ := (hk₁.weaken (by simp)).trans (kept_exec h₂ rfl)
  have hsends := exec_pushPendingSend h₂
  rw [hk₁.frame.pendingSends (by simp)] at hsends
  refine ends_op hk₂.running rfl fun _ w₃ h₃ ↦ .ret ?_
  have hk₃ : Kept [.log] w₂ w₃ := kept_exec h₃ rfl
  have hsends₃ := (hk₃.frame.pendingSends (by simp)).trans hsends
  exact ⟨rfl, hk₂.trans (hk₃.weaken (by simp)), _, hsends₃, rfl, rfl, hk₁.identity (by simp) s, hdata⟩

theorem ends_sendMessage_unfit (ht : w.terminated = false) (hon : (w.sessions s).isOnline = true)
    (hfits : ¬ c.msg.Fits) :
    Ends (alone i j env) (sendMessage s c) w fun r w' ↦ r = .ok true ∧ Kept [.log, .presence] w w' := by
  have hzmq : sendZmqMessage s c = perform (.markOffline s) := by
    obtain ⟨e, he⟩ := serialize_error hfits
    unfold sendZmqMessage
    rw [he]
    rfl
  refine ends_sendOnline ht hon fun w₁ hk₁ ↦ ?_
  rw [hzmq]
  exact ends_perform hk₁.running rfl fun _ w₂ h₂ ↦ ⟨rfl, (hk₁.weaken (by simp)).trans (kept_exec h₂ rfl)⟩

end MessageBroker.IsolatedRuns
