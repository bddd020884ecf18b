import MessageBroker.RegistryIndex

namespace MessageBroker.Inactivity

open ByteStrings WireMessages OrderedSelection MessageStore ProgramTrees ThreadPools Protocols BrokerState
  SessionQueues ClientRegistry MessageHandlers ServerJobs OperationEffects SharedInvariant ProgramShapes
  ServerOutlines RunInvariants ThreadPhases RegistryIndex

variable {cfg : Config} {ok : State → Step → Prop} {metrics : Option Metrics} {S S' : State} {w w' : World}
  {i s : ℕ} {j : Job} {o : Op} {ch : Choice} {r : o.Res} {n : Bytes} {α : Type}

def creates : Event → Option ℕ
  | ⟨_, _, .newSession _ _, _, s, _⟩ => some s
  | _ => none

def Creates (i s : ℕ) (w : World) : Prop := ∃ e ∈ w.log, e.thread = i ∧ creates e = some s

instance (i s : ℕ) (w : World) : Decidable (Creates i s w) := by
  unfold Creates
  infer_instance

def clientOf : Job → Option Bytes
  | .receive identity _ => some identity
  | _ => none

def FromClient (S : State) (i s : ℕ) : Prop :=
  (S.threads[i]?).bind (fun t ↦ clientOf t.job) = some (S.world.sessions s).identity

instance (S : State) (i s : ℕ) : Decidable (FromClient S i s) := by
  unfold FromClient
  infer_instance

/-- Besides the session that `RouteMessage` finds for the sender and the one that
is being registered, `UpdateLastReceive` is called only for sessions of the
connection from which the message came. -/
def OwnReceipts (S : State) (l : Step) : Prop :=
  S.OnNext renews (fun i _ s ↦ S.world.registryOwner = some i ∨ Creates i s S.world ∨ FromClient S i s) l

instance (S : State) (l : Step) : Decidable (OwnReceipts S l) := by
  unfold OwnReceipts
  infer_instance

/-- No thread that handles a message from the connection takes a step. -/
def Silent (s : ℕ) (S : State) : Step → Prop
  | .start _ | .tick _ => True
  | .step i _ => ¬ FromClient S i s

instance (s : ℕ) (S : State) : (l : Step) → Decidable (Silent s S l)
  | .start _ | .tick _ => instDecidableTrue
  | .step i _ => inferInstanceAs (Decidable (¬ FromClient S i s))

theorem creates_of_event {e : Event} (h : creates e = some s) (he : e = ⟨i, j, o, ch, r, w.wallClock⟩) :
    ∃ x n, o = .newSession x n ∧ HEq r s := by
  subst he
  cases o with
  | newSession x n => exact ⟨x, n, rfl, heq_of_eq (Option.some.inj h)⟩
  | _ => cases h

/-- A session belongs to the connection of the thread that has created it. -/
def Origins (w : World) : Prop :=
  ∀ e ∈ w.log, ∀ s, creates e = some s →
    s < w.nextSession ∧ ∃ data, e.job = .receive (w.sessions s).identity data

theorem origins_step (hp : Performs cfg ok S i j o ch r w') (h : Origins S.world) : Origins w' := by
  have hg := hp.grows
  intro e he s hs
  rw [exec_log hp.exec] at he
  rcases List.mem_cons.mp he with he | he
  · obtain ⟨x, n, rfl, hr⟩ := creates_of_event hs he
    obtain rfl := eq_of_heq hr
    obtain ⟨rfl, hnext, -, hnew⟩ := exec_newSession hp.exec
    rw [hnext, hnew, he]
    exact ⟨Nat.lt_succ_self _, hp.allowed.2⟩
  · obtain ⟨hlt, hj⟩ := h e he s hs
    exact ⟨hlt.trans_le hg.sessions, by rw [hg.identity s hlt]; exact hj⟩

theorem origins (h : (broker cfg).Reachable ok (initial metrics) S) : Origins S.world :=
  run_invariant (P := Origins) (fun _ he ↦ absurd he List.not_mem_nil) (fun _ _ _ _ h ↦ h) origins_step h

theorem fromClient_of_map {data : Bytes}
    (h : (S.threads[i]?).map (·.job) = some (.receive (S.world.sessions s).identity data)) :
    FromClient S i s := by
  obtain ⟨t, ht, hj⟩ := Option.map_eq_some_iff.mp h
  rw [FromClient, ht, Option.bind_some, hj, clientOf]

theorem Creates.fromClient (h : (broker cfg).Reachable ok (initial metrics) S) (hc : Creates i s S.world) :
    FromClient S i s := by
  obtain ⟨e, he, rfl, hs⟩ := hc
  obtain ⟨-, data, hj⟩ := origins h e he s hs
  exact fromClient_of_map (by rw [job_of_event h e he, hj])

theorem fromClient_of_update (h : (broker cfg).Reachable ok (initial metrics) S)
    (hok : OwnReceipts S (.step i ch)) (hop : S.nextOp i = some (.updateLastReceive s)) : FromClient S i s := by
  rcases Pool.OnNext.meets hok hop rfl with hown | hc | hf
  · obtain ⟨data, hj⟩ := job_of_refreshed h hop hown
    exact fromClient_of_map hj
  · exact hc.fromClient h
  · exact hf

/-- A receive time changes only in a step of a thread that handles a message from
the connection of the session. -/
theorem receipt_step {l : Step} (h : (broker cfg).Reachable ok (initial metrics) S) (hown : OwnReceipts S l)
    (hs : (broker cfg).next S l = some S') (hlt : s < S.world.nextSession)
    (hne : (S'.world.sessions s).lastReceive ≠ (S.world.sessions s).lastReceive) :
    ∃ i ch, l = .step i ch ∧ FromClient S i s := by
  obtain ⟨i, ch, j, o, k, r, rfl, ht, he⟩ | ⟨n, now, elapsed, hw⟩ := next_cases hs
  · refine ⟨i, ch, rfl, ?_⟩
    by_cases hu : o = .updateLastReceive s
    · have hop : S.nextOp i = some o := by rw [Pool.nextOp, ht]
      exact fromClient_of_update h hown (hu ▸ hop)
    · exact absurd ((exec_timed he).receives s hu fun _ _ _ ↦ hlt.ne) hne
  · exact absurd (by rw [hw]) hne

theorem clock_step {l : Step} (hs : (broker cfg).next S l = some S') :
    S.world.steadyClock ≤ S'.world.steadyClock := by
  obtain ⟨i, ch, j, o, k, r, rfl, ht, he⟩ | ⟨n, now, elapsed, hw⟩ := next_cases hs
  · exact (exec_timed he).clock.ge
  · rw [hw]
    exact Nat.le_add_right ..

theorem receipt_le (h : (broker cfg).Reachable ok (initial metrics) S) (s : ℕ) :
    (S.world.sessions s).lastReceive ≤ S.world.steadyClock := by
  induction h generalizing s with
  | init => exact Nat.le_refl 0
  | @next S S' l hr hl hs ih =>
    obtain ⟨i, ch, j, o, k, r, rfl, ht, he⟩ | ⟨n, now, elapsed, hw⟩ := next_cases hs
    · have htimed := exec_timed he
      by_cases hu : o = .updateLastReceive s
      · subst hu
        rw [exec_updateLastReceive he, htimed.clock]
      · by_cases hn : ∃ x n, o = .newSession x n ∧ s = S.world.nextSession
        · obtain ⟨x, n, rfl, rfl⟩ := hn
          obtain ⟨-, -, -, hnew⟩ := exec_newSession he
          rw [hnew, htimed.clock]
        · rw [htimed.receives s hu fun x n ho hs ↦ hn ⟨x, n, ho, hs⟩, htimed.clock]
          exact ih s
    · rw [hw]
      exact (ih s).trans (Nat.le_add_right ..)

/-- What stays as it is while nothing is received from the connection of a session. -/
structure Quiet (s : ℕ) (S S' : State) : Prop where
  lt : s < S'.world.nextSession
  identity : (S'.world.sessions s).identity = (S.world.sessions s).identity
  receipt : (S'.world.sessions s).lastReceive = (S.world.sessions s).lastReceive
  clock : S.world.steadyClock ≤ S'.world.steadyClock

theorem quiet_of_leads (h : (broker cfg).Reachable OwnReceipts (initial metrics) S)
    (hlt : s < S.world.nextSession)
    (hl : (broker cfg).Leads (fun S l ↦ OwnReceipts S l ∧ Silent s S l) S S') : Quiet s S S' := by
  induction hl with
  | refl => exact ⟨hlt, rfl, rfl, Nat.le_refl _⟩
  | @next S₁ S₂ l hl hok hs ih =>
    have hr := h.leads (hl.mono fun _ _ hok ↦ hok.1)
    have hsteady : S₁.world.nextSession ≤ S₂.world.nextSession ∧
        (S₂.world.sessions s).identity = (S₁.world.sessions s).identity := by
      obtain ⟨i, ch, j, o, k, r, rfl, ht, he⟩ | ⟨n, now, elapsed, hw⟩ := next_cases hs
      · have hp : Performs cfg OwnReceipts S₁ i j o ch r S₂.world := ⟨holds_of_reachable hr, ⟨k, ht⟩, hok.1, he⟩
        exact ⟨hp.grows.sessions, hp.grows.identity s ih.lt⟩
      · rw [hw]
        exact ⟨Nat.le_refl _, rfl⟩
    refine ⟨ih.lt.trans_le hsteady.1, hsteady.2.trans ih.identity, ?_, ih.clock.trans (clock_step hs)⟩
    rw [← ih.receipt]
    by_contra hne
    obtain ⟨i, ch, rfl, hf⟩ := receipt_step hr hok.1 hs ih.lt hne
    exact hok.2 hf

def seconds (t t' : ℕ) : ℕ := (t' - t) / ticksPerSecond

def Stale (timeout : ℤ) (s : ℕ) (w : World) : Prop :=
  timeout < seconds (w.sessions s).lastReceive w.steadyClock

theorem seconds_anti {t t' u : ℕ} (h : t ≤ t') : seconds t' u ≤ seconds t u :=
  Nat.div_le_div_right (Nat.sub_le_sub_left h u)

theorem exec_isExpired {timeout : ℤ} {r : Bool} (h : exec i j (.isExpired s timeout) ch w = some (r, w'))
    (hstale : Stale timeout s w) : r = true := by
  have hr : some (!(w.sessions s).isOnline ||
      decide (timeout < ((w.steadyClock - (w.sessions s).lastReceive) / ticksPerSecond : ℕ))) = some r :=
    exec_reads h
  have hlate : decide (timeout < ((w.steadyClock - (w.sessions s).lastReceive) / ticksPerSecond : ℕ)) = true :=
    decide_eq_true hstale
  rw [hlate, Bool.or_true] at hr
  exact (Option.some.inj hr).symm

/-- The entries that a pass has listed and has neither found alive nor removed. -/
def cleanupProtocol (cfg : Config) (j : Job) : Protocol Op Op.Res (Option (List (Bytes × ℕ))) where
  may x o := j = .cleanupInactiveSessions → o = .hasMetrics → x = some []
  next x o r :=
    match o, r with
    | .listClients, entries => some entries
    | .isExpired s timeout, false =>
      if timeout = cfg.sessionTimeout then x.map (List.filter fun e ↦ e.2 ≠ s) else x
    | .peekClient n, none | .removeClient n, _ => x.map (List.filter fun e ↦ e.1 ≠ n)
    | .terminate, _ => some []
    | _, _ => x

variable {x : Option (List (Bytes × ℕ))} {p q : Bytes × ℕ → Prop} {timeout : ℤ}

/-- The pass has listed the clients, and what is left of them satisfies `p`. -/
def Left (p : Bytes × ℕ → Prop) (x : Option (List (Bytes × ℕ))) : Prop := ∃ l, x = some l ∧ ∀ e ∈ l, p e

theorem Left.mono (h : Left p x) (hq : ∀ e, p e → q e) : Left q x := by
  obtain ⟨l, rfl, hl⟩ := h
  exact ⟨l, rfl, fun e he ↦ hq e (hl e he)⟩

theorem Left.filter (h : Left p x) (f : Bytes × ℕ → Bool) :
    Left (fun e ↦ p e ∧ f e = true) (x.map (List.filter f)) := by
  obtain ⟨l, rfl, hl⟩ := h
  refine ⟨_, rfl, fun e he ↦ ?_⟩
  obtain ⟨he, hf⟩ := List.mem_filter.mp he
  exact ⟨hl e he, hf⟩

theorem Left.next (h : Left p x) (ho : o ≠ .listClients) : Left p ((cleanupProtocol cfg j).next x o r) := by
  cases o with
  | listClients => exact absurd rfl ho
  | isExpired s timeout =>
    cases r with
    | true => exact h
    | false =>
      change Left p (if _ then _ else _)
      split
      · exact (h.filter _).mono fun _ he ↦ he.1
      · exact h
  | peekClient n =>
    cases r with
    | none => exact (h.filter _).mono fun _ he ↦ he.1
    | some s => exact h
  | removeClient n => exact (h.filter _).mono fun _ he ↦ he.1
  | terminate => exact ⟨[], rfl, fun _ he ↦ absurd he List.not_mem_nil⟩
  | _ => exact h

/-- The program leads to an `x` with `Q`, unless it throws. -/
def Passes (cfg : Config) (pr : Program α) (x : Option (List (Bytes × ℕ)))
    (Q : α → Option (List (Bytes × ℕ)) → Prop) : Prop :=
  Follows (cleanupProtocol cfg .cleanupInactiveSessions) Q (fun _ _ ↦ True) pr x

theorem Passes.op {k : o.Res → Program α} {Q : α → Option (List (Bytes × ℕ)) → Prop} (hm : o ≠ .hasMetrics)
    (h : ∀ r, Passes cfg (k r) ((cleanupProtocol cfg .cleanupInactiveSessions).next x o r) Q) :
    Passes cfg (.op o k) x Q :=
  ⟨fun _ heq ↦ absurd heq hm, h⟩

theorem within_perform (ho : o ≠ .listClients) (hm : o ≠ .hasMetrics) :
    Within (cleanupProtocol cfg .cleanupInactiveSessions) (Left p) (perform o) :=
  Within.perform fun _ hx ↦ ⟨fun _ heq ↦ absurd heq hm, fun _ ↦ hx.next ho⟩

theorem persisting : Persisting (Within (cleanupProtocol cfg .cleanupInactiveSessions) (Left p)) where
  toComposable := Within.composable _ _
  queue o ho := by
    refine within_perform ?_ ?_
    · rintro rfl
      cases ho
    · rintro rfl
      cases ho

theorem passes_of_within {pr : Program α} (h : Within (cleanupProtocol cfg .cleanupInactiveSessions) (Left p) pr)
    (hx : Left p x) : Passes cfg pr x fun _ ↦ Left p :=
  Follows.mono (h x hx) (fun _ _ hy ↦ hy) fun _ _ _ ↦ trivial

theorem passes_shouldRemove (hpos : 0 < cfg.sessionTimeout) (hx : Left p x) :
    Passes cfg (shouldRemove cfg.sessionTimeout s) x fun remove ↦ Left fun e ↦ p e ∧
      (remove = false → e.2 ≠ s) := by
  refine Passes.op (by simp) fun online ↦ ?_
  cases online with
  | false => exact hx.mono fun _ he ↦ ⟨he, fun h ↦ by cases h⟩
  | true =>
    change Passes cfg (if 0 < cfg.sessionTimeout then expireSession cfg.sessionTimeout s else .ret false) x _
    rw [if_pos hpos]
    refine Passes.op (by simp) fun expired ↦ ?_
    cases expired with
    | false =>
      change Left _ (if _ then _ else _)
      rw [if_pos rfl]
      exact (hx.filter _).mono fun _ he ↦ ⟨he.1, fun _ ↦ of_decide_eq_true he.2⟩
    | true =>
      refine Passes.op (by simp) fun _ ↦ ?_
      have hpersist : Passes cfg (persistQueueToDatabase s) x fun _ ↦ Left p :=
        passes_of_within persisting.persistQueueToDatabase hx
      refine Follows.bind (p := persistQueueToDatabase s) hpersist fun _ y hy ↦ ?_
      exact hy.mono fun _ he ↦ ⟨he, fun h ↦ by cases h⟩

theorem passes_scanClients (hpos : 0 < cfg.sessionTimeout) (l : List (Bytes × ℕ)) (hx : Left p x) :
    Passes cfg (scanClients cfg.sessionTimeout l) x fun names ↦ Left fun e ↦ p e ∧ (e ∈ l → e.1 ∈ names) := by
  induction l generalizing p x with
  | nil => exact hx.mono fun _ he ↦ ⟨he, fun h ↦ absurd h List.not_mem_nil⟩
  | cons e l ih =>
    refine Follows.bind (passes_shouldRemove hpos hx) fun remove y hy ↦ Follows.bind (ih hy) fun names z hz ↦ ?_
    refine hz.mono fun e' he' ↦ ⟨he'.1.1, fun hmem ↦ ?_⟩
    rcases List.mem_cons.mp hmem with rfl | hmem
    · cases remove with
      | true => exact List.mem_cons_self ..
      | false => exact absurd rfl (he'.1.2 rfl)
    · have hn := he'.2 hmem
      split
      · exact List.mem_cons_of_mem _ hn
      · exact hn

theorem passes_removeClient (hx : Left p x) :
    Passes cfg (removeClient n) x fun _ ↦ Left fun e ↦ p e ∧ e.1 ≠ n := by
  have hdrop {y : Option (List (Bytes × ℕ))} (hy : Left p y) :
      Left (fun e ↦ p e ∧ e.1 ≠ n) (y.map (List.filter fun e ↦ e.1 ≠ n)) :=
    (hy.filter _).mono fun _ he ↦ ⟨he.1, of_decide_eq_true he.2⟩
  refine Passes.op (by simp) fun r ↦ ?_
  match r with
  | none => exact hdrop hx
  | some s =>
    refine Passes.op (by simp) fun y ↦ Passes.op (by simp) fun _ ↦ Passes.op (by simp) fun _ ↦ ?_
    refine Follows.bind (passes_of_within persisting.dropSession (hdrop hx)) fun _ z hz ↦ ?_
    exact passes_of_within (within_perform (by simp) (by simp)) hz

theorem passes_removeClients (names : List Bytes) (hx : Left (fun e ↦ e.1 ∈ names) x) :
    Passes cfg (removeClients names) x fun _ ↦ Left fun _ ↦ False := by
  induction names generalizing x with
  | nil => exact hx.mono fun _ he ↦ absurd he List.not_mem_nil
  | cons n names ih =>
    refine Follows.bind (passes_removeClient hx) fun _ y hy ↦ ih (hy.mono fun e he ↦ ?_)
    exact (List.mem_cons.mp he.1).resolve_left he.2

theorem passes_updateSessionMetrics (hx : Left (fun _ ↦ False) x) :
    Passes cfg updateSessionMetrics x fun _ ↦ Left fun _ ↦ False := by
  have hempty : x = some [] := by
    obtain ⟨l, rfl, hl⟩ := hx
    rw [List.eq_nil_iff_forall_not_mem.mpr hl]
  refine ⟨fun _ _ ↦ hempty, fun metrics ↦ ?_⟩
  have hc : Persisting (Within (cleanupProtocol cfg .cleanupInactiveSessions) (Left fun _ ↦ False)) := persisting
  exact passes_of_within (hc.when (hc.bind (within_perform (by simp) (by simp)) fun _ ↦
    hc.ensuring (within_perform (by simp) (by simp)) (within_perform (by simp) (by simp)))) hx

theorem passes_cleanup (hpos : 0 < cfg.sessionTimeout) :
    Passes cfg (cleanupInactiveSessions cfg) none fun _ ↦ Left fun _ ↦ False := by
  have hunlock (y : Option (List (Bytes × ℕ))) (hy : Left (fun _ ↦ False) y) :
      Passes cfg (perform .unlockRegistry) y fun _ ↦ Left fun _ ↦ False :=
    passes_of_within (within_perform (by simp) (by simp)) hy
  refine Passes.op (by simp) fun _ ↦ Follows.ensuring (?_ : Passes cfg _ _ fun _ ↦ Left fun _ ↦ False)
    (fun _ ↦ hunlock) fun _ _ _ ↦ Passes.op (by simp) fun _ ↦ trivial
  refine Passes.op (by simp) fun entries ↦ ?_
  have hlisted : Left (· ∈ entries) (some entries) := ⟨entries, rfl, fun _ he ↦ he⟩
  rw [Prog.ret_bind]
  refine Follows.bind (passes_scanClients hpos entries hlisted) fun names y hy ↦ ?_
  refine Follows.bind (passes_removeClients names (hy.mono fun e he ↦ he.2 he.1)) fun _ z hz ↦ ?_
  unfold Prog.when
  split
  · exact passes_updateSessionMetrics hz
  · exact hz

def AtEnd (j : Job) (x : Option (List (Bytes × ℕ))) : Prop := j = .cleanupInactiveSessions → x = some []

theorem follows_code (hpos : 0 < cfg.sessionTimeout) (j : Job) :
    Follows (cleanupProtocol cfg j) (fun _ ↦ AtEnd j) (fun _ ↦ AtEnd j) (code cfg j) none := by
  have hend {y : Option (List (Bytes × ℕ))} (hy : Left (fun _ ↦ False) y) :
    AtEnd .cleanupInactiveSessions y := by
    obtain ⟨l, rfl, hl⟩ := hy
    rw [List.eq_nil_iff_forall_not_mem.mpr hl]
    exact fun _ ↦ rfl
  cases j with
  | cleanupInactiveSessions =>
    refine Follows.recover (Follows.mono (passes_cleanup hpos) (fun _ _ hy ↦ hend hy) fun _ _ hy ↦ hy)
      fun _ y _ ↦ ?_
    exact ⟨fun _ heq ↦ (by cases heq), fun _ _ ↦ rfl⟩
  | _ => exact Follows.free (fun _ _ hj ↦ by cases hj) (fun _ _ hj ↦ by cases hj) fun _ _ hj ↦ by cases hj

/-- What is left of a pass contains every entry of the session. -/
def Covers (s : ℕ) (w : World) (x : Option (List (Bytes × ℕ))) : Prop :=
  w.terminated = true ∨ ∀ l, x = some l → ∀ n, w.activeClients.lookup n = some s → (n, s) ∈ l

theorem lookup_step (hp : Performs cfg ok S i j o ch r w') (hsilent : ¬ FromClient S i s)
    (hn : w'.activeClients.lookup n = some s) :
    S.world.activeClients.lookup n = some s ∧ o ≠ .removeClient n := by
  by_cases hw : .clients ∈ writes o
  · cases o with
    | setClient n' s' =>
      rw [exec_setClient hp.exec] at hn
      by_cases heq : n = n'
      · subst heq
        rw [AList.lookup_insert] at hn
        obtain rfl := Option.some.inj hn
        obtain ⟨-, -, -, data, hj⟩ := hp.allowed
        obtain ⟨k, ht⟩ := hp.thread
        exact absurd (fromClient_of_map (by rw [ht, hj]; rfl)) hsilent
      · rw [AList.lookup_insert_ne heq] at hn
        exact ⟨hn, by simp⟩
    | removeClient n' =>
      rw [(exec_removeClient hp.exec).1] at hn
      by_cases heq : n = n'
      · subst heq
        rw [AList.lookup_erase] at hn
        cases hn
      · rw [AList.lookup_erase_ne heq] at hn
        exact ⟨hn, fun h ↦ heq (by cases h; rfl)⟩
    | _ => simp [writes] at hw
  · rw [(exec_frame hp.exec).clients (by simp [hw])] at hn
    refine ⟨hn, ?_⟩
    rintro rfl
    simp [writes] at hw

theorem covers_other (hp : Performs cfg ok S i j o ch r w') (hsilent : ¬ FromClient S i s)
    (h : Covers s S.world x) : Covers s w' x := by
  refine .inr fun l hl n hn ↦ ?_
  have hup := (exec_cases hp.exec).1
  exact h.resolve_left (by simp [hup]) l hl n (lookup_step hp hsilent hn).1

theorem covers_own {j' : Job} (hp : Performs cfg ok S i j o ch r w') (hsilent : ¬ FromClient S i s)
    (hstale : Stale cfg.sessionTimeout s S.world) (h : Covers s S.world x) :
    Covers s w' ((cleanupProtocol cfg j').next x o r) := by
  have same : Covers s w' x := covers_other hp hsilent h
  have drop (f : Bytes × ℕ → Bool) (hf : ∀ n, w'.activeClients.lookup n = some s → f (n, s) = true) :
      Covers s w' (x.map (List.filter f)) := by
    refine same.imp_right fun hc l hl n hn ↦ ?_
    obtain ⟨l', rfl, rfl⟩ := Option.map_eq_some_iff.mp hl
    exact List.mem_filter.mpr ⟨hc l' rfl n hn, hf n hn⟩
  cases o with
  | listClients =>
    refine .inr fun l hl n hn ↦ ?_
    obtain rfl := Option.some.inj hl
    have hr : some ((orderBy (fun _ ↦ 0) (fun e ↦ ch.tie e.2) S.world.activeClients.entries).map
      fun e ↦ (e.1, e.2)) = some r := exec_reads hp.exec
    have hn' := (lookup_step hp hsilent hn).1
    rw [← Option.some.inj hr]
    exact List.mem_map.mpr ⟨⟨n, s⟩, mem_orderBy.mpr (AList.mem_lookup_iff.mp hn'), rfl⟩
  | isExpired s' timeout =>
    cases r with
    | true => exact same
    | false =>
      change Covers s w' (if _ then _ else _)
      split
      · next htimeout =>
        refine drop _ fun n _ ↦ decide_eq_true ?_
        rintro rfl
        subst htimeout
        cases exec_isExpired hp.exec hstale
      · exact same
  | peekClient n' =>
    cases r with
    | some s' => exact same
    | none =>
      refine drop _ fun n hn ↦ decide_eq_true ?_
      rintro rfl
      have hr : some (S.world.activeClients.lookup n) = some none := exec_reads hp.exec
      rw [(lookup_step hp hsilent hn).1] at hr
      cases hr
  | removeClient n' =>
    refine drop _ fun n hn ↦ decide_eq_true ?_
    rintro rfl
    exact (lookup_step hp hsilent hn).2 rfl
  | terminate =>
    obtain ⟨-, v, he, rfl⟩ := exec_cases hp.exec
    cases he
    exact .inl rfl
  | _ => exact same

theorem Quiet.stale (hq : Quiet s S S') (hle : (S.world.sessions s).lastReceive ≤ S.world.steadyClock)
    (ht : timeout < seconds S.world.steadyClock S'.world.steadyClock) : Stale timeout s S'.world := by
  have hanti : seconds S.world.steadyClock S'.world.steadyClock ≤
      seconds (S'.world.sessions s).lastReceive S'.world.steadyClock := seconds_anti (hq.receipt ▸ hle)
  exact ht.trans_le (by exact_mod_cast hanti)

theorem Quiet.still (hq : Quiet s S S') (h : Stale timeout s S.world) : Stale timeout s S'.world := by
  rw [Stale, hq.receipt]
  exact h.trans_le (by exact_mod_cast Nat.div_le_div_right (Nat.sub_le_sub_right hq.clock _))

def QuietStep (s : ℕ) (S : State) (l : Step) : Prop := OwnReceipts S l ∧ Silent s S l

instance (s : ℕ) (S : State) (l : Step) : Decidable (QuietStep s S l) := inferInstanceAs (Decidable (_ ∧ _))

theorem covers_of_leads (h : (broker cfg).Reachable OwnReceipts (initial metrics) S)
    (hlt : s < S.world.nextSession)
    (hstale : Stale cfg.sessionTimeout s S.world) (hl : (broker cfg).Leads (QuietStep s) S S')
    (hi : S.threads.length ≤ i) :
    Covers s S'.world (phase (cleanupProtocol cfg .cleanupInactiveSessions) none i S'.world.log) := by
  induction hl with
  | refl =>
    rw [phase_eq_start fun e he ↦ ((thread_lt h e he).trans_le hi).ne]
    exact .inr fun l hl ↦ by cases hl
  | @next S₁ S₂ l hl hok hs ih =>
    have hr := h.leads (hl.mono fun _ _ hok ↦ hok.1)
    obtain ⟨i', ch, j, o, k, r, rfl, ht, he⟩ | ⟨n, now, elapsed, hw⟩ := next_cases hs
    · have hp : Performs cfg OwnReceipts S₁ i' j o ch r S₂.world := ⟨holds_of_reachable hr, ⟨k, ht⟩, hok.1, he⟩
      by_cases hii : i = i'
      · subst hii
        rw [phase_exec he]
        exact covers_own hp hok.2 ((quiet_of_leads h hlt hl).still hstale) ih
      · rw [phase_exec_ne he hii]
        exact covers_other hp hok.2 ih
    · rw [hw]
      exact ih

/-- The pass of thread `i` is through with its loops: it has returned, or goes on
to the metrics. -/
def Swept (i : ℕ) (S : State) : Prop :=
  ∃ t, S.threads[i]? = some t ∧ t.job = .cleanupInactiveSessions ∧ (t.ended ∨ S.nextOp i = some .hasMetrics)

def passed (i : ℕ) (S : State) : Bool :=
  (S.threads[i]?).any fun t ↦ decide (t.job = .cleanupInactiveSessions) && hasEnded t

theorem swept_of_passed (h : passed i S = true) : Swept i S := by
  obtain ⟨t, ht, hpassed⟩ := (Option.any_eq_true _ _).mp h
  obtain ⟨hj, hend⟩ := (Bool.and_eq_true _ _).mp hpassed
  exact ⟨t, ht, of_decide_eq_true hj, .inl (ended_of_hasEnded hend)⟩

theorem removed_of_swept (h : (broker cfg).Reachable OwnReceipts (initial metrics) S)
    (hlt : s < S.world.nextSession)
    (hpos : 0 < cfg.sessionTimeout) (hstale : Stale cfg.sessionTimeout s S.world)
    (hl : (broker cfg).Leads (QuietStep s) S S') (hi : S.threads.length ≤ i)
    (hup : S'.world.terminated = false) (hswept : Swept i S') (n : Bytes) :
    S'.world.activeClients.lookup n ≠ some s := by
  obtain ⟨⟨j, code⟩, ht, rfl, hend⟩ := hswept
  have hr := h.leads (hl.mono fun _ _ hok ↦ hok.1)
  have hfollows := follows_of_reachable (P := fun j ↦ cleanupProtocol cfg j) (Q := AtEnd) (X := AtEnd)
    (follows_code hpos) hr i _ ht
  have hnil : phase (cleanupProtocol cfg .cleanupInactiveSessions) none i S'.world.log = some [] := by
    rcases hend with ⟨u, rfl⟩ | hop
    · exact hfollows rfl
    · rw [Pool.nextOp, ht] at hop
      cases code with
      | ret | fail => cases hop
      | op o k =>
        obtain rfl := Option.some.inj hop
        exact hfollows.1 rfl rfl
  intro hn
  have hcovers := covers_of_leads h hlt hstale hl hi
  exact absurd ((hcovers.resolve_left (by simp [hup])) _ hnil n hn) List.not_mem_nil

/-- In a run with own receipts only, a receive time moves only when a message
from the connection of the session is handled; and when nothing has come from
there for longer than the timeout, the session counts as expired, and every pass
that starts then has removed it when it is through with its loops. -/
theorem inactivity_measured (hS : (broker cfg).Reachable OwnReceipts (initial metrics) S)
    (hs : s < S.world.nextSession) :
    (∀ l S', OwnReceipts S l → (broker cfg).next S l = some S' →
      (S'.world.sessions s).lastReceive ≠ (S.world.sessions s).lastReceive →
        ∃ i ch, l = .step i ch ∧ FromClient S i s) ∧
    ∀ S', (broker cfg).Leads (QuietStep s) S S' →
      (S'.world.sessions s).lastReceive = (S.world.sessions s).lastReceive ∧
      (cfg.sessionTimeout < seconds S.world.steadyClock S'.world.steadyClock →
        (∀ i j ch r w', exec i j (.isExpired s cfg.sessionTimeout) ch S'.world = some (r, w') → r = true) ∧
        ∀ i S'', 0 < cfg.sessionTimeout → S'.threads.length ≤ i → (broker cfg).Leads (QuietStep s) S' S'' →
          S''.world.terminated = false → Swept i S'' → ∀ n, S''.world.activeClients.lookup n ≠ some s) := by
  refine ⟨fun l S' hown hnext hne ↦ receipt_step hS hown hnext hs hne, fun S' hl ↦ ?_⟩
  have hq := quiet_of_leads hS hs hl
  refine ⟨hq.receipt, fun ht ↦ ?_⟩
  have hstale : Stale cfg.sessionTimeout s S'.world := hq.stale (receipt_le hS s) ht
  refine ⟨fun i j ch r w' he ↦ exec_isExpired he hstale, fun i S'' hpos hi hl' hup hswept ↦ ?_⟩
  have hr := hS.leads (hl.mono fun _ _ hok ↦ hok.1)
  exact removed_of_swept hr hq.lt hpos hstale hl' hi hup hswept

def bobRegisters : List Step := inTurn 0 [(arrival { type := .register, sender := [98] }, 31)]

/-- Whether the session of bob is there and not expired. -/
def lively (w : World) : Bool :=
  w.activeClients.lookup [98] = some 0 &&
    (exec 0 .cleanupInactiveSessions (.isExpired 0 60) {} w).map Prod.fst = some false

/-- Bob registers, nothing comes from him for 61 seconds, and a pass runs. -/
theorem inactivity_measured_bob : ∃ S S' S'', S.world.activeClients.lookup [98] = some 0 ∧
    (broker {}).Leads (QuietStep 0) S S' ∧ (broker {}).Leads (QuietStep 0) S' S'' ∧
      (S'.world.sessions 0).lastReceive = (S.world.sessions 0).lastReceive ∧
        S''.world.activeClients.lookup [98] ≠ some 0 := by
  have hrun : ((broker {}).runs OwnReceipts bobRegisters ⟨initial none, []⟩).bind (fun S ↦
      ((broker {}).runs (QuietStep 0) [.tick ⟨61, 61 * ticksPerSecond⟩] S).bind fun S' ↦
        ((broker {}).runs (QuietStep 0) (inTurn 1 [(.cleanupInactiveSessions, 20)]) S').map fun S'' ↦
          (S.world.activeClients.lookup [98], S.world.nextSession,
            seconds S.world.steadyClock S'.world.steadyClock,
            S'.threads.length, S''.world.terminated, passed 1 S'')) = some (some 0, 1, 61, 1, false, true) := by
    decide +kernel
  obtain ⟨S, hS, hrun⟩ := Option.bind_eq_some_iff.mp hrun
  obtain ⟨S', hS', hrun⟩ := Option.bind_eq_some_iff.mp hrun
  obtain ⟨S'', hS'', hv⟩ := Option.map_eq_some_iff.mp hrun
  simp only [Prod.mk.injEq] at hv
  obtain ⟨hbob, hnext, hsec, hthreads, hup, hpassed⟩ := hv
  have hl := Machine.leads_of_runs _ hS'
  have hl' := Machine.leads_of_runs _ hS''
  have hquiet :=
    (inactivity_measured (Machine.Reachable.init.runs _ hS) (by rw [hnext]; exact Nat.one_pos)).2 S' hl
  have hlate : ({} : Config).sessionTimeout < seconds S.world.steadyClock S'.world.steadyClock := by
    rw [hsec]
    decide
  have hgone := (hquiet.2 hlate).2 1 S'' (by decide) hthreads.le hl' hup (swept_of_passed hpassed)
  exact ⟨S, S', S'', hbob, hl, hl', hquiet.1, hgone _⟩

/-- Nothing comes from bob for 80 seconds, but alice sends him a message after 40. -/
theorem kept_alive : ¬ ∀ cfg metrics S s S', (broker cfg).Reachable (fun _ _ ↦ True) (initial metrics) S →
    s < S.world.nextSession → (broker cfg).Leads (Silent s) S S' →
      cfg.sessionTimeout < seconds S.world.steadyClock S'.world.steadyClock →
        ∀ i j ch r w', exec i j (.isExpired s cfg.sessionTimeout) ch S'.world = some (r, w') → r = true := by
  intro h
  have hrun : ((broker {}).runs (fun _ _ ↦ True) bobRegisters ⟨initial none, []⟩).bind (fun S ↦
      ((broker {}).runs (Silent 0) (.tick ⟨40, 40 * ticksPerSecond⟩ ::
        (inTurn 1 [(arrival { sender := [97], destination := [98] }, 16)] ++
          [.tick ⟨80, 40 * ticksPerSecond⟩])) S).map
          fun S' ↦ (S.world.nextSession, seconds S.world.steadyClock S'.world.steadyClock, lively S'.world)) =
      some (1, 80, true) := by decide +kernel
  obtain ⟨S, S', hS, hl, hv⟩ := exists_runs hrun
  simp only [Prod.mk.injEq] at hv
  obtain ⟨hnext, hsec, hlive⟩ := hv
  rw [lively, Bool.and_eq_true, decide_eq_true_iff, decide_eq_true_iff] at hlive
  obtain ⟨⟨r, w'⟩, he, hr⟩ := Option.map_eq_some_iff.mp hlive.2
  obtain rfl : r = false := hr
  have htimeout : ({} : Config).sessionTimeout < seconds S.world.steadyClock S'.world.steadyClock := by
    rw [hsec]
    decide
  cases h {} none S 0 S' hS (by rw [hnext]; exact Nat.one_pos) hl htimeout _ _ _ _ _ he

end MessageBroker.Inactivity
