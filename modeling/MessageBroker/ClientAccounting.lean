import MessageBroker.OperationEffects
import MessageBroker.ProgramShapes
import MessageBroker.ThreadPools

namespace MessageBroker.ClientAccounting

open ByteStrings WireMessages ProgramTrees ProofOutlines ThreadPools Protocols BrokerState SessionQueues
  ClientRegistry OperationEffects ProgramShapes

inductive RegistryCall
  | upsertClient (name : Bytes) (s : ℕ)
  | unregisterClient (name : Bytes)
  | cleanupInactiveSessions (cfg : Config)

/-- The caller drops the pointer that it gets back, and catches what is thrown. -/
def callCode : RegistryCall → Program Unit
  | .upsertClient name s =>
    ((upsertClient name s).bind fun old ↦ holding old (.ret ())).recover fun _ ↦ .ret ()
  | .unregisterClient name => (unregisterClient name).recover fun _ ↦ .ret ()
  | .cleanupInactiveSessions cfg => (cleanupInactiveSessions cfg).recover fun _ ↦ .ret ()

/-- Each call runs in a thread of its own, with arbitrary arguments. At any
moment everything but the clients, their mutex and the metrics may change. -/
def registry : Machine Op Op.Res World RegistryCall Choice World where
  exec i _ o ch w := effect i ch o w
  start _ w := some w
  code := callCode
  tick u w := { u with activeClients := w.activeClients, registryOwner := w.registryOwner, metrics := w.metrics }

abbrev Calls := Pool Op Op.Res World RegistryCall

def count (c : Counter) (w : World) : ℕ := w.metrics.elim 0 (·.counters c)

/-- Clients registered less those unregistered, those timed out and those still there. -/
def balance (w : World) : ℤ :=
  count .clientsRegistered w - count .clientsUnregistered w - count .clientsTimeout w -
    w.activeClients.entries.length

def gauge (w : World) : ℕ := w.metrics.elim 0 (·.activeSessions)

/-- The counters and the gauge agree with the registry. -/
structure Balanced (w : World) : Prop where
  counters : (count .clientsRegistered w : ℤ) - count .clientsUnregistered w - count .clientsTimeout w =
    w.activeClients.entries.length
  gauge : gauge w = w.activeClients.entries.length

theorem balance_eq_zero_iff {w : World} : balance w = 0 ↔
    (count .clientsRegistered w : ℤ) - count .clientsUnregistered w - count .clientsTimeout w =
      w.activeClients.entries.length := by
  unfold balance
  omega

/-- The operations on the clients, their mutex and the metrics. -/
def touches : Op → Bool
  | .lockRegistry | .unlockRegistry | .setClient _ _ | .removeClient _ | .increment _ | .setActiveSessions
  | .updateQueueMetrics => true
  | _ => false

theorem touches_of_queue {o : Op} (h : family o = .queue) : touches o = false := by
  cases o with
  | increment counter => cases counter <;> cases h
  | _ => first | rfl | cases h

structure Untouched (w w' : World) : Prop where
  clients : w'.activeClients = w.activeClients
  owner : w'.registryOwner = w.registryOwner
  metrics : w'.metrics = w.metrics

variable {i : ℕ} {ch : Choice} {o : Op} {w w' : World} {r : o.Res} {s : ℕ} {n : Bytes} {c : Counter}

theorem dbCall_metrics {m : String} {α : Type} {a : α} {db : MessageStore.Database} {r : Except String α}
    (h : dbCall ch m w a db = some (r, w')) : w'.metrics = w.metrics := by
  obtain ⟨-, -, rfl⟩ | ⟨-, -, rfl⟩ := dbCall_cases h <;> rfl

theorem effect_metrics (h : effect i ch o w = some (r, w')) (ho : touches o = false) :
    w'.metrics = w.metrics := by
  cases o with
  | saveMessage | markDelivered | markSent | markPending => exact dbCall_metrics h
  | saveCorrelation =>
    simp only [effect] at h
    split at h
    · cases h
      rfl
    · exact dbCall_metrics h
  | findClient | lockQueue | takePendingSends =>
    simp only [effect] at h
    split at h <;> cases h <;> rfl
  | markAckReceived | callback | sendFrame =>
    cases h
    split <;> rfl
  | lockRegistry | unlockRegistry | setClient | removeClient | increment | setActiveSessions
    | updateQueueMetrics =>
    cases ho
  | _ =>
    cases h
    rfl

theorem effect_untouched (h : effect i ch o w = some (r, w')) (ho : touches o = false) : Untouched w w' := by
  refine ⟨(effect_frame h).clients ?_, (effect_frame h).registryOwner ?_, effect_metrics h ho⟩
  all_goals cases o <;> simp [touches] at ho <;> simp [writes]

theorem Untouched.balance (h : Untouched w w') : balance w' = ClientAccounting.balance w := by
  simp only [ClientAccounting.balance, count, h.clients, h.metrics]

theorem Untouched.gauge (h : Untouched w w') : gauge w' = ClientAccounting.gauge w := by
  simp only [ClientAccounting.gauge, h.metrics]

theorem Untouched.balanced (h : Untouched w w') (hb : Balanced w) : Balanced w' := by
  refine ⟨balance_eq_zero_iff.mp (h.balance.trans (balance_eq_zero_iff.mpr hb.counters)), ?_⟩
  rw [h.gauge, h.clients, hb.gauge]

/-- What one operation adds to the balance when it increments a counter. -/
def weight : Counter → ℤ
  | .clientsRegistered => 1
  | .clientsUnregistered | .clientsTimeout => -1
  | _ => 0

theorem effect_increment {r : Unit} (h : effect i ch (.increment c) w = some (r, w'))
    (hm : w.metrics.isSome = true) :
    balance w' = balance w + weight c ∧ gauge w' = gauge w := by
  cases h
  obtain ⟨m, hm⟩ := Option.isSome_iff_exists.mp hm
  simp only [balance, count, gauge, World.setMetrics, hm, Option.map_some, Option.elim_some,
    Function.update_apply, and_true]
  cases c <;> simp [weight] <;> omega

theorem effect_setActiveSessions {r : Unit} (h : effect i ch .setActiveSessions w = some (r, w'))
    (hm : w.metrics.isSome = true) : balance w' = balance w ∧ gauge w' = w'.activeClients.entries.length := by
  cases h
  obtain ⟨m, hm⟩ := Option.isSome_iff_exists.mp hm
  simp only [balance, count, gauge, World.setMetrics, hm, Option.map_some, Option.elim_some, and_self]

section Entries

variable {α β : Type} [DecidableEq α] {l : AList fun _ : α ↦ β} {a : α} {b : β}

omit [DecidableEq α] in
theorem length_keys : l.keys.length = l.entries.length := List.length_map _

theorem entries_erase (h : l.lookup a = some b) : (l.erase a).entries.length + 1 = l.entries.length := by
  have hmem : a ∈ l.keys := AList.lookup_isSome.mp (h ▸ rfl)
  have hpos := List.length_pos_of_mem hmem
  rw [← length_keys, ← length_keys, AList.keys_erase, List.length_erase_of_mem hmem]
  omega

theorem entries_insert : (l.insert a b).entries.length =
    l.entries.length + if (l.lookup a).isSome = true then 0 else 1 := by
  rw [AList.entries_insert, List.length_cons]
  cases ha : l.lookup a with
  | none =>
    rw [List.kerase_of_notMem_keys (AList.lookup_eq_none.mp ha)]
    rfl
  | some b' => exact entries_erase ha

end Entries

theorem effect_setClient {r : Unit} (h : effect i ch (.setClient n s) w = some (r, w')) :
    balance w' = balance w - (if (w.activeClients.lookup n).isSome = true then 0 else 1) ∧ gauge w' = gauge w ∧
      w'.activeClients.entries.length =
        w.activeClients.entries.length + if (w.activeClients.lookup n).isSome = true then 0 else 1 := by
  cases h
  refine ⟨?_, rfl, entries_insert⟩
  simp only [balance, count, entries_insert]
  split <;> omega

theorem effect_removeClient {r : Unit} (h : effect i ch (.removeClient n) w = some (r, w'))
    (hn : w.activeClients.lookup n = some s) : balance w' = balance w + 1 := by
  simp only [effect, hn] at h
  cases h
  have hlength := entries_erase hn
  simp only [balance, count, World.setSession]
  omega

/-- What the other threads leave to the owner of the registry. -/
structure Leaves (i : ℕ) (w w' : World) : Prop where
  owner : w'.registryOwner = some i ↔ w.registryOwner = some i
  clients : w.registryOwner = some i → w'.activeClients = w.activeClients
  metrics : w.registryOwner = some i → w'.metrics = w.metrics

theorem Leaves.refl (i : ℕ) (w : World) : Leaves i w w := ⟨Iff.rfl, fun _ ↦ rfl, fun _ ↦ rfl⟩

theorem Leaves.trans {u : World} (h : Leaves i u w) (h' : Leaves i w w') : Leaves i u w' :=
  ⟨h'.owner.trans h.owner, fun ho ↦ (h'.clients (h.owner.mpr ho)).trans (h.clients ho),
    fun ho ↦ (h'.metrics (h.owner.mpr ho)).trans (h.metrics ho)⟩

theorem Untouched.leaves (h : Untouched w w') : Leaves i w w' :=
  ⟨by rw [h.owner], fun _ ↦ h.clients, fun _ ↦ h.metrics⟩

/-- The metrics are on, and the books are balanced while nobody holds the mutex. -/
structure Books (w : World) : Prop where
  enabled : w.metrics.isSome = true
  balanced : w.registryOwner = none → Balanced w

theorem Untouched.books (h : Untouched w w') (hw : Books w) : Books w' :=
  ⟨h.metrics ▸ hw.enabled, fun ho ↦ h.balanced (hw.balanced (h.owner ▸ ho))⟩

/-- A thread that already holds the mutex locks it again only where the counters
agree; it gives it back where the gauge does, too. -/
def Permitted (i : ℕ) (o : Op) (w : World) : Prop :=
  match o with
  | .lockRegistry => w.registryOwner = some i → balance w = 0
  | .unlockRegistry => w.registryOwner = some i ∧ Balanced w
  | .setClient _ _ | .removeClient _ | .increment _ | .setActiveSessions | .updateQueueMetrics =>
    w.registryOwner = some i
  | _ => True

theorem step_books (h : Books w) (hp : Permitted i o w) (he : effect i ch o w = some (r, w')) :
    Books w' ∧ ∀ i', i' ≠ i → Leaves i' w w' := by
  have held (ho : w.registryOwner = some i) (hparts : .registryOwner ∉ writes o) :
      Books w' ∧ ∀ i', i' ≠ i → Leaves i' w w' := by
    have howner := (effect_frame he).registryOwner hparts
    refine ⟨⟨(effect_frame he).metrics.trans h.enabled, fun hnone ↦ ?_⟩, fun i' hi ↦ ?_⟩
    · rw [howner, ho] at hnone
      cases hnone
    · have hnot : w.registryOwner ≠ some i' := by
        rw [ho]
        exact fun hsome ↦ hi (Option.some.inj hsome).symm
      exact ⟨by rw [howner], fun hi' ↦ absurd hi' hnot, fun hi' ↦ absurd hi' hnot⟩
  by_cases ht : touches o = false
  · have hw := effect_untouched he ht
    exact ⟨hw.books h, fun _ _ ↦ hw.leaves⟩
  · cases o with
    | lockRegistry =>
      simp only [effect] at he
      split at he
      · next hnone =>
        cases he
        refine ⟨⟨h.enabled, fun hnone ↦ by cases hnone⟩, fun i' hi ↦ ⟨?_, fun _ ↦ rfl, fun _ ↦ rfl⟩⟩
        rw [hnone]
        exact ⟨fun hi' ↦ absurd (Option.some.inj hi').symm hi, fun hi' ↦ by cases hi'⟩
      · cases he
    | unlockRegistry =>
      obtain ⟨ho, hb⟩ := hp
      cases he
      refine ⟨⟨h.enabled, fun _ ↦ ⟨hb.counters, hb.gauge⟩⟩, fun i' hi ↦ ⟨?_, fun _ ↦ rfl, fun _ ↦ rfl⟩⟩
      rw [ho]
      exact ⟨fun hi' ↦ (by cases hi'), fun hi' ↦ absurd (Option.some.inj hi').symm hi⟩
    | setClient | removeClient | increment | setActiveSessions | updateQueueMetrics =>
      exact held hp (by simp [writes])
    | _ => exact absurd rfl ht

def outline : Outline registry where
  admits _ _ := True
  rely := Leaves
  inv := Books
  allowed i _ o w := Permitted i o w
  fresh i w := w.registryOwner ≠ some i
  rely_refl := Leaves.refl
  rely_trans _ _ _ _ := Leaves.trans
  step h hp _ he := step_books h hp he
  start h hw := by
    cases hw
    exact ⟨h, fun i ↦ .refl i _⟩
  tick {u w} h := by
    have hw : Untouched w (registry.tick u w) := ⟨rfl, rfl, rfl⟩
    exact ⟨hw.books h, fun _ ↦ hw.leaves⟩
  fresh_rely hf h := fun ho ↦ hf (h.owner.mp ho)

abbrev env (i : ℕ) (j : RegistryCall) := outline.setting i j

/-- An assertion that neither the others nor the operations beside the registry falsify. -/
structure Lasting (i : ℕ) (A : World → Prop) : Prop where
  rely : ∀ {w w'}, Leaves i w w' → A w → A w'
  beside : ∀ {w w'}, Untouched w w' → A w → A w'

/-- The program keeps every assertion about the registry. -/
def Beside (i : ℕ) (j : RegistryCall) {α : Type} (p : Program α) : Prop :=
  ∀ A, Lasting i A → ∀ w, A w → Safe (env i j) (fun _ ↦ A) (fun _ ↦ A) p w

variable {j : RegistryCall} {A B : World → Prop} {X : String → World → Prop} {α : Type}

theorem safe_beside (hA : Lasting i A) (ho : touches o = false) (hw : A w) :
    Safe (env i j) (fun _ ↦ A) X (perform o) w := by
  refine Safe.perform fun w₁ h₁ _ ↦ ⟨?_, fun ch r w₂ _ he w₃ h₃ _ ↦ ?_⟩
  · change Permitted i o w₁
    cases o with
    | lockRegistry | unlockRegistry | setClient | removeClient | increment | setActiveSessions
    | updateQueueMetrics => cases ho
    | _ => trivial
  · exact hA.rely h₃ (hA.beside (effect_untouched he ho) (hA.rely h₁ hw))

theorem beside_persisting : Persisting (Beside i j) where
  ret _ _ hA _ hw := Safe.ret fun _ hr _ ↦ hA.rely hr hw
  fail _ _ hA _ hw := Safe.fail fun _ hr _ ↦ hA.rely hr hw
  bind h hf A hA w hw := Safe.seq (h A hA w hw) (fun _ _ _ he ↦ he) fun a w' _ hw' ↦ hf a A hA w' hw'
  recover h hf A hA w hw := Safe.recover ((h A hA w hw).mono (fun _ _ ha ↦ ha) fun e w' he ↦ hf e A hA w' he)
  queue _ ho _ hA _ hw := safe_beside hA (touches_of_queue ho) hw

theorem safe_dropSession (hA : Lasting i A) (hw : A w) : Safe (env i j) (fun _ ↦ A) X (dropSession s) w := by
  refine Safe.bind ((safe_beside (o := .release s) hA rfl hw).mono (fun last w₁ hw₁ ↦ ?_) fun _ _ h ↦ h)
  unfold Prog.when
  split
  · refine Safe.bind (Safe.mono (Q := fun _ ↦ A) (X := X) ?_ (fun _ _ h ↦ safe_beside hA rfl h) fun _ _ h ↦ h)
    refine Safe.recover ((beside_persisting.persistQueueToDatabase A hA w₁ hw₁).mono (fun _ _ h ↦ h)
      fun _ _ h ↦ ?_)
    exact safe_beside hA rfl h
  · exact Safe.ret fun _ hr _ ↦ hA.rely hr hw₁

/-- The owner of the registry has the balance at `z`, and, if `g` is set, the gauge is up to date. -/
structure Owns (i : ℕ) (z : ℤ) (g : Bool) (w : World) : Prop where
  owner : w.registryOwner = some i
  enabled : w.metrics.isSome = true
  balance : ClientAccounting.balance w = z
  gauge : g = true → ClientAccounting.gauge w = w.activeClients.entries.length

/-- The owner knows, besides, what a lookup of `n` gives. -/
structure Found (i : ℕ) (g : Bool) (n : Bytes) (x : Option ℕ) (w : World) : Prop extends Owns i 0 g w where
  lookup : w.activeClients.lookup n = x

variable {z : ℤ} {g : Bool} {x : Option ℕ}

theorem Owns.balanced (h : Owns i 0 true w) : Balanced w :=
  ⟨balance_eq_zero_iff.mp h.balance, h.gauge rfl⟩

theorem lasting_of_owner (h : ∀ {w w'}, Untouched w w' → A w → A w')
    (ho : ∀ w, A w → w.registryOwner = some i) : Lasting i A where
  rely hr hw := h ⟨hr.clients (ho _ hw), (hr.owner.mpr (ho _ hw)).trans (ho _ hw).symm, hr.metrics (ho _ hw)⟩ hw
  beside := h

theorem Owns.beside (hw : Untouched w w') (h : Owns i z g w) : Owns i z g w' :=
  ⟨hw.owner.trans h.owner, hw.metrics ▸ h.enabled, hw.balance.trans h.balance,
    fun hg ↦ by rw [hw.gauge, hw.clients, h.gauge hg]⟩

theorem lasting_owns : Lasting i (Owns i z g) := lasting_of_owner Owns.beside fun _ h ↦ h.owner

theorem lasting_found : Lasting i (Found i g n x) :=
  lasting_of_owner (fun hw h ↦ ⟨h.toOwns.beside hw, hw.clients ▸ h.lookup⟩) fun _ h ↦ h.owner

theorem lasting_fresh : Lasting i (outline.fresh i) where
  rely hr hw := outline.fresh_rely hw hr
  beside hu hw := outline.fresh_rely hw hu.leaves

theorem safe_step {B : o.Res → World → Prop} (hA : Lasting i A) (hB : ∀ r, Lasting i (B r))
    (hp : ∀ w, A w → Permitted i o w)
    (he : ∀ {ch r w w'}, A w → effect i ch o w = some (r, w') → B r w') (hw : A w) :
    Safe (env i j) B X (perform o) w := by
  refine Safe.perform fun w₁ h₁ _ ↦ ⟨hp _ (hA.rely h₁ hw), fun ch r w₂ _ heff w₃ h₃ _ ↦ ?_⟩
  exact (hB r).rely h₃ (he (hA.rely h₁ hw) heff)

theorem safe_increment (hw : Owns i z g w) :
    Safe (env i j) (fun _ ↦ Owns i (z + weight c) g) X (perform (.increment c)) w := by
  refine safe_step lasting_owns (fun _ ↦ lasting_owns) (fun _ h ↦ h.owner) (fun {ch r w w'} h he ↦ ?_) hw
  obtain ⟨hbalance, hgauge⟩ := effect_increment he h.enabled
  have hframe := effect_frame he
  refine ⟨(hframe.registryOwner (by simp [writes])).trans h.owner, hframe.metrics.trans h.enabled, ?_,
    fun hg ↦ ?_⟩
  · rw [hbalance, h.balance]
  · rw [hgauge, hframe.clients (by simp [writes]), h.gauge hg]

theorem safe_setActiveSessions (hw : Owns i z g w) :
    Safe (env i j) (fun _ ↦ Owns i z true) X (perform .setActiveSessions) w := by
  refine safe_step lasting_owns (fun _ ↦ lasting_owns) (fun _ h ↦ h.owner) (fun {ch r w w'} h he ↦ ?_) hw
  obtain ⟨hbalance, hgauge⟩ := effect_setActiveSessions he h.enabled
  have hframe := effect_frame he
  exact ⟨(hframe.registryOwner (by simp [writes])).trans h.owner, hframe.metrics.trans h.enabled,
    hbalance.trans h.balance, fun _ ↦ hgauge⟩

theorem safe_setClient (hw : Found i true n x w) :
    Safe (env i j) (fun _ ↦ Owns i (if x.isSome = true then 0 else -1) x.isSome) X (perform (.setClient n s))
      w := by
  refine safe_step lasting_found (fun _ ↦ lasting_owns) (fun _ h ↦ h.owner) (fun {ch r w w'} h he ↦ ?_) hw
  obtain ⟨hbalance, hgauge, hlength⟩ := effect_setClient he
  have hframe := effect_frame he
  refine ⟨(hframe.registryOwner (by simp [writes])).trans h.owner, hframe.metrics.trans h.enabled, ?_,
    fun hx ↦ ?_⟩
  · rw [hbalance, h.balance, h.lookup]
    split <;> rfl
  · rw [hlength, hgauge, h.lookup, if_pos hx, h.gauge rfl, Nat.add_zero]

theorem safe_removeClient (hw : Found i g n (some s) w) :
    Safe (env i j) (fun _ ↦ Owns i 1 false) X (perform (.removeClient n)) w := by
  refine safe_step lasting_found (fun _ ↦ lasting_owns) (fun _ h ↦ h.owner) (fun {ch r w w'} h he ↦ ?_) hw
  have hframe := effect_frame he
  refine ⟨(hframe.registryOwner (by simp [writes])).trans h.owner, hframe.metrics.trans h.enabled, ?_,
    fun hg ↦ by cases hg⟩
  rw [effect_removeClient he h.lookup, h.balance, zero_add]

theorem safe_lookup {o : Op} (ho : touches o = false) {f : o.Res → Option ℕ} (hw : Owns i 0 g w)
    (hf : ∀ {ch r w w'}, effect i ch o w = some (r, w') → w.activeClients.lookup n = f r) :
    Safe (env i j) (fun r ↦ Found i g n (f r)) X (perform o) w := by
  refine safe_step lasting_owns (fun _ ↦ lasting_found) (fun _ _ ↦ ?_) (fun {ch r w w'} h he ↦ ?_) hw
  · cases o <;> trivial
  · have hu := effect_untouched he ho
    exact ⟨h.beside hu, hu.clients ▸ hf he⟩

theorem safe_findClient (hw : Owns i 0 g w) :
    Safe (env i j) (Found i g n) X (perform (.findClient n)) w := by
  refine safe_lookup (o := .findClient n) rfl hw fun {ch r w w'} he ↦ ?_
  simp only [effect] at he
  split at he
  · next hl =>
    cases he
    exact hl
  · next hl =>
    cases he
    exact hl

theorem safe_peekClient (hw : Owns i 0 g w) :
    Safe (env i j) (Found i g n) X (perform (.peekClient n)) w := by
  refine safe_lookup (o := .peekClient n) rfl hw fun he ↦ ?_
  cases he
  rfl

theorem safe_hasMetrics (hA : Lasting i A) (hw : A w) :
    Safe (env i j) (fun r w' ↦ r = true ∧ A w') X (perform .hasMetrics) w := by
  refine Safe.perform fun w₁ h₁ hi ↦ ⟨trivial, fun ch r w₂ _ he w₃ h₃ _ ↦ ⟨?_, ?_⟩⟩
  · cases he
    exact hi.enabled
  · cases he
    exact hA.rely h₃ (hA.rely h₁ hw)

theorem safe_withRegistryLock {p : Program α} (hw : outline.fresh i w)
    (h : ∀ w, Owns i 0 true w → Safe (env i j) (fun _ ↦ Owns i 0 true) (fun _ ↦ Owns i 0 true) p w) :
    Safe (env i j) (fun _ ↦ outline.fresh i) (fun _ ↦ outline.fresh i) (withRegistryLock p) w := by
  have unlock {X : String → World → Prop} {w : World} (hw : Owns i 0 true w) :
      Safe (env i j) (fun _ ↦ outline.fresh i) X (perform .unlockRegistry) w := by
    refine safe_step lasting_owns (fun _ ↦ lasting_fresh) (fun _ h ↦ ⟨h.owner, h.balanced⟩) (fun _ he ↦ ?_) hw
    cases he
    exact fun ho ↦ by cases ho
  have lock : Safe (env i j) (fun _ ↦ Owns i 0 true) (fun _ ↦ outline.fresh i) (perform .lockRegistry) w := by
    refine Safe.perform fun w₁ h₁ hi ↦ ⟨fun ho ↦ absurd (h₁.owner.mp ho) hw, fun ch r w₂ _ he w₃ h₃ _ ↦ ?_⟩
    change effect i ch .lockRegistry w₁ = some (r, w₂) at he
    simp only [effect] at he
    split at he
    · next hnone =>
      cases he
      have hb := hi.balanced hnone
      exact lasting_owns.rely h₃ ⟨rfl, hi.enabled, balance_eq_zero_iff.mpr hb.counters, fun _ ↦ hb.gauge⟩
    · cases he
  refine Safe.bind (lock.mono (fun _ w₁ h₁ ↦ Safe.ensuring ?_) fun _ _ h ↦ h)
  exact (h w₁ h₁).mono (fun _ _ h₂ ↦ unlock h₂) fun _ _ h₂ ↦ unlock h₂

theorem safe_placeSession (hw : Found i true n x w) :
    Safe (env i j) (fun _ ↦ Owns i (if x.isSome = true then 0 else -1) x.isSome) (fun _ ↦ Owns i 0 true)
      (placeSession n s x) w := by
  cases x with
  | none => exact safe_setClient hw
  | some old =>
    have hreplace : Safe (env i j) (fun _ ↦ Owns i 0 true) (fun _ ↦ Found i true n (some old))
      (replaceSession n old s) w := by
      refine Safe.bind ((beside_persisting.persistQueueToDatabase _ lasting_found w hw).mono (fun _ w₁ h₁ ↦ ?_)
        fun _ _ h ↦ h)
      refine Safe.bind ((safe_beside (o := .markOffline old) lasting_found rfl h₁).mono (fun _ w₂ h₂ ↦ ?_)
        fun _ _ h ↦ h)
      refine Safe.bind ((safe_beside (o := .identityOf old) lasting_found rfl h₂).mono (fun y w₃ h₃ ↦ ?_)
        fun _ _ h ↦ h)
      refine Safe.bind ((safe_beside (o := .eraseName y) lasting_found rfl h₃).mono (fun _ w₄ h₄ ↦ ?_)
        fun _ _ h ↦ h)
      exact safe_setClient h₄
    refine Safe.recover (hreplace.mono (fun _ _ h ↦ h) fun e w₁ h₁ ↦ ?_)
    exact Safe.bind ((safe_dropSession lasting_owns h₁.toOwns).mono
      (fun _ w₂ h₂ ↦ Safe.fail fun _ hr _ ↦ lasting_owns.rely hr h₂) fun _ _ h ↦ h)

theorem safe_countUpsert {replaced : Bool} (hw : Owns i (if replaced = true then 0 else -1) g w) :
    Safe (env i j) (fun _ ↦ Owns i 0 true) (fun _ ↦ Owns i 0 true) (countUpsert replaced) w := by
  refine Safe.bind ((safe_setActiveSessions hw).mono (fun _ w₁ h₁ ↦ ?_) fun _ _ h ↦ h)
  refine Safe.bind (Safe.mono (Q := fun _ ↦ Owns i (-1) true) ?_ (fun _ _ h ↦ safe_increment h) fun _ _ h ↦ h)
  cases replaced with
  | false => exact Safe.ret fun _ hr _ ↦ lasting_owns.rely hr h₁
  | true => exact safe_increment h₁

theorem safe_upsertClient (hw : outline.fresh i w) :
    Safe (env i j) (fun _ ↦ outline.fresh i) (fun _ ↦ outline.fresh i) (upsertClient n s) w := by
  refine safe_withRegistryLock hw fun w₁ h₁ ↦ ?_
  refine Safe.bind ((safe_findClient (n := n) h₁).mono (fun old w₂ h₂ ↦ ?_) fun _ _ h ↦ h)
  refine Safe.bind ((safe_placeSession h₂).mono (fun _ w₃ h₃ ↦ ?_) fun _ _ h ↦ h)
  refine Safe.bind ((safe_beside (o := .identityOf s) lasting_owns rfl h₃).mono (fun y w₄ h₄ ↦ ?_) fun _ _ h ↦ h)
  refine Safe.bind ((safe_beside (o := .setName y n) lasting_owns rfl h₄).mono (fun _ w₅ h₅ ↦ ?_) fun _ _ h ↦ h)
  refine Safe.bind ((safe_hasMetrics lasting_owns h₅).mono (fun r w₆ h₆ ↦ ?_) fun _ _ h ↦ h)
  obtain ⟨rfl, h₆⟩ := h₆
  exact Safe.bind ((safe_countUpsert h₆).mono (fun _ w₇ h₇ ↦ Safe.ret fun _ hr _ ↦ lasting_owns.rely hr h₇)
    fun _ _ h ↦ h)

theorem safe_eraseClient (hw : Found i g n (some s) w) :
    Safe (env i j) (fun _ ↦ Owns i 1 false) X (eraseClient n s) w := by
  refine Safe.bind ((safe_beside (o := .identityOf s) lasting_found rfl hw).mono (fun y w₁ h₁ ↦ ?_)
    fun _ _ h ↦ h)
  refine Safe.bind ((safe_beside (o := .eraseName y) lasting_found rfl h₁).mono (fun _ w₂ h₂ ↦ ?_) fun _ _ h ↦ h)
  exact Safe.bind ((safe_removeClient h₂).mono (fun _ w₃ h₃ ↦ safe_dropSession lasting_owns h₃) fun _ _ h ↦ h)

theorem safe_unregisterClient (hw : outline.fresh i w) :
    Safe (env i j) (fun _ ↦ outline.fresh i) (fun _ ↦ outline.fresh i) (unregisterClient n) w := by
  refine safe_withRegistryLock hw fun w₁ h₁ ↦ ?_
  refine Safe.bind ((safe_peekClient (n := n) h₁).mono (fun r w₂ h₂ ↦ ?_) fun _ _ h ↦ h)
  cases r with
  | none => exact Safe.ret fun _ hr _ ↦ lasting_owns.rely hr h₂.toOwns
  | some s =>
    refine Safe.bind ((safe_eraseClient h₂).mono (fun _ w₃ h₃ ↦ ?_) fun _ _ h ↦ h)
    exact Safe.bind ((safe_increment h₃).mono (fun _ w₄ h₄ ↦ safe_setActiveSessions h₄) fun _ _ h ↦ h)

theorem beside_scanClients {timeout : ℤ} (entries : List (Bytes × ℕ)) :
    Beside i j (scanClients timeout entries) := by
  have h : Persisting (Beside i j) := beside_persisting
  have op {o : Op} (ho : touches o = false) : Beside i j (perform o) := fun _ hA _ hw ↦ safe_beside hA ho hw
  induction entries with
  | nil => exact h.ret []
  | cons e rest ih =>
    refine h.bind (h.bind (op (o := .isOnline e.2) rfl) fun online ↦ ?_) fun remove ↦ h.bind ih fun names ↦
      h.ret _
    cases online with
    | false => exact h.ret true
    | true =>
      change Beside i j (if 0 < timeout then expireSession timeout e.2 else pure false)
      split
      · refine h.bind (op (o := .isExpired e.2 timeout) rfl) fun expired ↦ ?_
        cases expired with
        | false => exact h.ret false
        | true =>
          exact h.bind (op (o := .markOffline e.2) rfl) fun _ ↦ h.bind h.persistQueueToDatabase fun _ ↦
            h.ret true
      · exact h.ret false

theorem Owns.weaken (h : Owns i z g w) : Owns i z false w :=
  ⟨h.owner, h.enabled, h.balance, fun hg ↦ by cases hg⟩

theorem safe_removeClients (names : List Bytes) (hw : Owns i 0 g w) :
    Safe (env i j) (fun _ ↦ Owns i 0 (g && names.isEmpty)) X (removeClients names) w := by
  induction names generalizing g w with
  | nil =>
    rw [List.isEmpty_nil, Bool.and_true]
    exact Safe.ret fun _ hr _ ↦ lasting_owns.rely hr hw
  | cons n rest ih =>
    rw [List.isEmpty_cons, Bool.and_false]
    refine Safe.bind (Safe.mono (Q := fun _ ↦ Owns i 0 false) ?_ (fun _ _ h ↦ ih h) fun _ _ h ↦ h)
    refine Safe.bind ((safe_peekClient (n := n) hw).mono (fun r w₁ h₁ ↦ ?_) fun _ _ h ↦ h)
    cases r with
    | none => exact Safe.ret fun _ hr _ ↦ lasting_owns.rely hr h₁.toOwns.weaken
    | some s => exact Safe.bind ((safe_eraseClient h₁).mono (fun _ _ h ↦ safe_increment h) fun _ _ h ↦ h)

/-- The pass locks the mutex that it holds, and comes no further. -/
theorem safe_updateSessionMetrics (hw : Owns i 0 g w) :
    Safe (env i j) (fun _ _ ↦ False) X updateSessionMetrics w := by
  refine Safe.bind ((safe_hasMetrics lasting_owns hw).mono (fun r w₁ h₁ ↦ ?_) fun _ _ h ↦ h)
  obtain ⟨rfl, h₁⟩ := h₁
  refine Safe.bind (Safe.mono (Q := fun _ _ ↦ False) ?_ (fun _ _ h ↦ h.elim) fun _ _ h ↦ h)
  refine Safe.perform fun w₂ h₂ _ ↦ ⟨fun _ ↦ (lasting_owns.rely h₂ h₁).balance, fun ch r w₃ _ he _ _ _ ↦ ?_⟩
  change effect i ch .lockRegistry w₂ = some (r, w₃) at he
  simp only [effect, (lasting_owns.rely h₂ h₁).owner, reduceCtorEq, if_false] at he

theorem safe_cleanupInactiveSessions {cfg : Config} (hw : outline.fresh i w) :
    Safe (env i j) (fun _ ↦ outline.fresh i) (fun _ ↦ outline.fresh i) (cleanupInactiveSessions cfg) w := by
  refine safe_withRegistryLock hw fun w₁ h₁ ↦ ?_
  refine Safe.bind ((safe_beside (o := .listClients) lasting_owns rfl h₁).mono (fun entries w₂ h₂ ↦ ?_)
    fun _ _ h ↦ h)
  refine Safe.bind ((beside_scanClients entries _ lasting_owns w₂ h₂).mono (fun names w₃ h₃ ↦ ?_) fun _ _ h ↦ h)
  refine Safe.bind ((safe_removeClients names h₃).mono (fun _ w₄ h₄ ↦ ?_) fun _ _ h ↦ h)
  unfold Prog.when
  split
  · exact (safe_updateSessionMetrics h₄).mono (fun _ _ h ↦ h.elim) fun _ _ h ↦ h
  · next hnil =>
    have hnames : names = [] := by simpa using hnil
    subst hnames
    exact Safe.ret fun _ hr _ ↦ lasting_owns.rely hr h₄

theorem safe_callCode (i : ℕ) (j : RegistryCall) (w : World) (hw : outline.fresh i w) :
    Safe (env i j) (fun _ ↦ outline.fresh i) (fun _ _ ↦ False) (callCode j) w := by
  have caught {w : World} (h : outline.fresh i w) :
      Safe (env i j) (fun _ ↦ outline.fresh i) (fun _ _ ↦ False) (.ret ()) w :=
    Safe.ret fun _ hr _ ↦ lasting_fresh.rely hr h
  cases j with
  | upsertClient name s =>
    refine Safe.recover (Safe.mono (X := fun _ ↦ outline.fresh i) ?_ (fun _ _ h ↦ h) fun _ _ h ↦ caught h)
    refine Safe.bind ((safe_upsertClient hw).mono (fun old w₁ h₁ ↦ ?_) fun _ _ h ↦ h)
    exact beside_persisting.holding (beside_persisting.ret ()) _ lasting_fresh w₁ h₁
  | unregisterClient name =>
    exact Safe.recover ((safe_unregisterClient hw).mono (fun _ _ h ↦ h) fun _ _ h ↦ caught h)
  | cleanupInactiveSessions cfg =>
    exact Safe.recover ((safe_cleanupInactiveSessions hw).mono (fun _ _ h ↦ h) fun _ _ h ↦ caught h)

variable {ok : Calls → Label RegistryCall Choice World → Prop} {w₀ : World} {S : Calls}

/-- The registry is empty, nothing has been counted, and the metrics are on. -/
structure Empty (w : World) : Prop where
  clients : w.activeClients = ∅
  unlocked : w.registryOwner = none
  metrics : ∃ m, w.metrics = some m ∧ m.counters .clientsRegistered = 0 ∧ m.counters .clientsUnregistered = 0 ∧
    m.counters .clientsTimeout = 0 ∧ m.activeSessions = 0

theorem Empty.books (h : Empty w) : Books w := by
  obtain ⟨m, hm, h₁, h₂, h₃, h₄⟩ := h.metrics
  refine ⟨by rw [hm]; rfl, fun _ ↦ ⟨?_, ?_⟩⟩
  · simp [count, hm, h₁, h₂, h₃, h.clients]
  · simp [gauge, hm, h₄, h.clients]

theorem holds (h₀ : Empty w₀) (h : registry.Reachable ok w₀ S) : outline.Holds S :=
  Outline.reachable h₀.books (fun i ho ↦ by rw [h₀.unlocked] at ho; cases ho) (fun _ _ _ _ _ _ _ _ ↦ trivial)
    (fun i j w _ hw ↦ safe_callCode i j w hw) h

/-- Whatever calls are made, the counters and the gauge agree with the registry
when all calls have come to an end, and whenever nobody holds the mutex. A
cleanup pass that has removed a session locks the mutex again and never comes to
an end; there, too, the counters agree. -/
theorem client_accounting (h₀ : Empty w₀) (h : registry.Reachable ok w₀ S) :
    ((∀ t ∈ S.threads, t.ended) → Balanced S.world) ∧
    (S.world.registryOwner = none → Balanced S.world) ∧
    ∀ i, S.nextOp i = some .lockRegistry → S.world.registryOwner = some i →
      (count .clientsRegistered S.world : ℤ) - count .clientsUnregistered S.world -
        count .clientsTimeout S.world = S.world.activeClients.entries.length := by
  have hs := holds h₀ h
  refine ⟨fun hended ↦ hs.inv.balanced ?_, hs.inv.balanced, fun i hop ho ↦ balance_eq_zero_iff.mp ?_⟩
  · cases ho : S.world.registryOwner with
    | none => rfl
    | some i => exact absurd ho (hs.quiet hended i)
  · unfold Pool.nextOp at hop
    split at hop
    · next j o k ht =>
      obtain rfl := Option.some.inj hop
      exact hs.allowed ht ho
    · cases hop

def hasEnded (t : Thread Op Op.Res RegistryCall) : Bool :=
  match t.code with
  | .ret _ => true
  | _ => false

theorem ended_of_hasEnded {t : Thread Op Op.Res RegistryCall} (h : hasEnded t = true) : t.ended := by
  unfold hasEnded at h
  split at h
  · exact ⟨_, ‹_›⟩
  · cases h

/-- The schedule of calls one after the other, each with its number of steps. -/
def oneByOne : ℕ → List (RegistryCall × ℕ) → List (Label RegistryCall Choice World)
  | _, [] => []
  | i, (j, n) :: rest => .start j :: (List.replicate n (.step i {}) ++ oneByOne (i + 1) rest)

def relocks (S : Calls) (i : ℕ) : Bool :=
  match S.nextOp i with
  | some .lockRegistry => S.world.registryOwner = some i
  | _ => false

theorem nextOp_of_relocks {i : ℕ} (h : relocks S i = true) :
    S.nextOp i = some .lockRegistry ∧ S.world.registryOwner = some i := by
  unfold relocks at h
  split at h
  · exact ⟨‹_›, of_decide_eq_true h⟩
  · cases h

/-- Anna registers twice and unregisters, bob registers. When he has been silent for
too long, a cleanup pass removes him and then blocks. -/
theorem client_accounting_two :
    (∃ S : Calls, registry.Reachable (fun _ _ ↦ True) { metrics := some {} } S ∧ S.threads.length = 4 ∧
      S.world.activeClients.entries.length = 1 ∧ Balanced S.world) ∧
    ∃ S : Calls, registry.Reachable (fun _ _ ↦ True) { metrics := some {} } S ∧
      S.nextOp 4 = some .lockRegistry ∧ S.world.activeClients.entries.length = 0 ∧
      (count .clientsRegistered S.world : ℤ) - count .clientsUnregistered S.world -
        count .clientsTimeout S.world = S.world.activeClients.entries.length := by
  have hempty : Empty { metrics := some {} } := ⟨rfl, rfl, {}, rfl, rfl, rfl, rfl, rfl⟩
  constructor
  · have hrun : (registry.runs (fun _ _ ↦ True)
      (oneByOne 0 [(.upsertClient [97] 0, 9), (.upsertClient [97] 1, 21),
        (.unregisterClient [97], 13), (.upsertClient [98] 2, 9)]) ⟨{ metrics := some {} }, []⟩).map (fun S ↦
          (S.threads.all hasEnded, S.threads.length, S.world.activeClients.entries.length)) = some
            (true, 4, 1) := by
      decide +kernel
    obtain ⟨S, hS, hv⟩ := Option.map_eq_some_iff.mp hrun
    obtain ⟨hended, hv⟩ := Prod.mk.inj hv
    obtain ⟨hthreads, hclients⟩ := Prod.mk.inj hv
    have hr := Machine.Reachable.init.runs _ hS
    exact ⟨S, hr, hthreads, hclients, (client_accounting hempty hr).1 fun t ht ↦
      ended_of_hasEnded (List.all_eq_true.mp hended t ht)⟩
  · have hrun : (registry.runs (fun _ _ ↦ True)
      (oneByOne 0 [(.upsertClient [97] 0, 9), (.upsertClient [97] 1, 21),
        (.unregisterClient [97], 13), (.upsertClient [98] 2, 9)] ++
          .tick { steadyClock := 61 * ticksPerSecond } ::
        oneByOne 4 [(.cleanupInactiveSessions {}, 19)]) ⟨{ metrics := some {} }, []⟩).map (fun S ↦
          (relocks S 4, S.world.activeClients.entries.length)) = some (true, 0) := by
      decide +kernel
    obtain ⟨S, hS, hv⟩ := Option.map_eq_some_iff.mp hrun
    obtain ⟨hrelocks, hclients⟩ := Prod.mk.inj hv
    have hr := Machine.Reachable.init.runs _ hS
    obtain ⟨hop, ho⟩ := nextOp_of_relocks hrelocks
    exact ⟨S, hr, hop, hclients, (client_accounting hempty hr).2.2 4 hop ho⟩

end MessageBroker.ClientAccounting
