import MessageBroker.LoopShutdown

namespace MessageBroker.EventLoop

open ByteStrings WireMessages ProgramTrees ThreadPools BrokerState SessionQueues ServerJobs OperationEffects
  ThreadViews SharedInvariant ServerOutlines RunInvariants HandOverOnce TransitionSystems LockDiscipline

variable {cfg : Config} {admits : Choice → Prop} {metrics : Option Metrics} {threads : ℕ} {S S' T : Server}
  {before pool pool' : State} {w w' : World} {i i' : ℕ} {j : Job} {o : Op} {ch : Choice} {a : Action} {c : Chain}
  {m : Message} {data : Bytes}

/-- Thread `i` waits for the registry that it owns itself. -/
structure Wedged (i : ℕ) (pool : State) : Prop where
  waits : pool.nextOp i = some .lockRegistry
  owns : pool.world.registryOwner = some i

/-- What has come of the broker since `before`: the registry is as it was, and
the jobs that have started with a message since have got as far as its lock. -/
structure Outage (cfg : Config) (i : ℕ) (before pool : State) : Prop extends Wedged i pool where
  clients : pool.world.activeClients = before.world.activeClients
  names : pool.world.identityToName = before.world.identityToName
  codes : ∀ i' t m, before.threads.length ≤ i' → pool.threads[i']? = some t → Receives t.job m →
    t.code = code cfg t.job ∨ ∃ k, t.code = .op .lockRegistry k
  events : ∃ new, pool.world.log = new ++ before.world.log ∧
    ∀ e ∈ new, before.threads.length ≤ e.thread → ∀ m, Receives e.job m → e.op = .increment .messagesReceived

theorem outage_refl (h : Wedged i pool) : Outage cfg i pool pool := by
  refine ⟨h, rfl, rfl, fun i' t m hi ht ↦ ?_, [], rfl, fun _ he ↦ absurd he List.not_mem_nil⟩
  rw [List.getElem?_eq_none hi] at ht
  cases ht

theorem receive_code (cfg : Config) (hj : Receives j m) :
    ∃ k, code cfg j = .op (.increment .messagesReceived) k ∧ ∀ u, ∃ k', k u = .op .lockRegistry k' := by
  obtain ⟨identity, data, rfl, hm⟩ := hj
  refine ⟨_, rfl, fun u ↦ ?_⟩
  change ∃ k', Prog.recover ((Prog.lift (deserialize data)).bind fun msg ↦
    MessageHandlers.routeMessage msg identity) _ = .op .lockRegistry k'
  rw [hm]
  exact ⟨_, rfl⟩

/-- A thread that goes on is another one, and it neither takes nor gives back the registry. -/
theorem wedged_step (hh : (outline cfg).Holds pool) (h : Wedged i pool)
    (hs : (broker cfg).next pool (.step i' ch) = some pool') : Wedged i pool' ∧
      pool'.world.activeClients = pool.world.activeClients ∧
      pool'.world.identityToName = pool.world.identityToName ∧ pool.nextOp i' ≠ some .lockRegistry := by
  obtain ⟨j, o, k, r, w', ht, he, hpool⟩ := Machine.step_cases hs
  have hop : pool.nextOp i' = some o := by rw [Pool.nextOp, ht]
  have hlock : o ≠ .lockRegistry := by
    rintro rfl
    cases h.owns.symm.trans (exec_lockRegistry he).1
  have hi : i ≠ i' := by
    rintro rfl
    exact hlock (Option.some.inj (hop.symm.trans h.waits))
  have hallowed : Allowed i' j pool.world o := hh.allowed ht (exec_cases he).1
  have hfree : (hold i' pool.world).registry ≠ true := fun hreg ↦
    hi (Option.some.inj (h.owns.symm.trans (of_decide_eq_true hreg)))
  have hrely : Rely i pool.world w' := step_rely hi hallowed he hh.inv
  have hown : (hold i pool.world).registry = true := decide_eq_true h.owns
  have hworld : pool'.world = w' := by rw [hpool]
  rw [hworld, hop]
  refine ⟨⟨(Machine.nextOp_step hs hi).trans h.waits, ?_⟩, hrely.clients hown, ?_,
    fun ho ↦ hlock (Option.some.inj ho)⟩
  · have hown' : (hold i w').registry = true := by rw [hrely.owns, hown]
    rw [hworld]
    exact of_decide_eq_true hown'
  · refine (exec_aside he).identityToName (fun x n ho ↦ ?_) fun x ho ↦ ?_
    all_goals
      subst ho
      exact hfree hallowed

theorem outage_step (hh : (outline cfg).Holds pool) (h : Outage cfg i before pool)
    (hs : (broker cfg).next pool (.step i' ch) = some pool') : Outage cfg i before pool' := by
  obtain ⟨hwedged, hclients, hnames, hlock⟩ := wedged_step hh h.toWedged hs
  obtain ⟨j, o, k, r, w', ht, he, rfl⟩ := Machine.step_cases hs
  -- a job that has started since is at its first operation
  have hfirst (m : Message) (hi : before.threads.length ≤ i') (hm : Receives j m) :
      o = .increment .messagesReceived ∧ ∃ k', k r = .op .lockRegistry k' := by
    obtain ⟨k₁, hcode, hnext⟩ := receive_code cfg hm
    rcases h.codes i' _ m hi ht hm with hk | ⟨k', hk⟩
    · obtain ⟨rfl, hk⟩ := Prog.op.inj (hk.trans hcode)
      obtain rfl := eq_of_heq hk
      exact ⟨rfl, hnext r⟩
    · refine absurd ?_ hlock
      rw [Pool.nextOp, ht]
      exact congrArg some (Prog.op.inj hk).1
  refine ⟨hwedged, hclients.trans h.clients, hnames.trans h.names, fun i₁ t m hi ht₁ hm ↦ ?_, ?_⟩
  · by_cases heq : i₁ = i'
    · subst heq
      rw [List.getElem?_set_self (List.getElem?_eq_some_iff.mp ht).1] at ht₁
      obtain rfl := Option.some.inj ht₁
      exact .inr (hfirst m hi hm).2
    · rw [List.getElem?_set_ne (Ne.symm heq)] at ht₁
      exact h.codes i₁ t m hi ht₁ hm
  · obtain ⟨new, hlog, hnew⟩ := h.events
    refine ⟨⟨i', j, o, ch, r, pool.world.wallClock⟩ :: new, ?_, ?_⟩
    · rw [exec_log he, hlog]
      rfl
    · exact List.forall_mem_cons.mpr ⟨fun hi m hm ↦ (hfirst m hi hm).1, hnew⟩

theorem outage_moved (h : Outage cfg i before pool) (ht : pool'.threads = pool.threads)
    (hw : pool'.world.registryOwner = pool.world.registryOwner ∧
      pool'.world.activeClients = pool.world.activeClients ∧
      pool'.world.identityToName = pool.world.identityToName ∧ pool'.world.log = pool.world.log) :
    Outage cfg i before pool' := by
  obtain ⟨howner, hclients, hnames, hlog⟩ := hw
  have hwaits : pool'.nextOp i = pool.nextOp i := by rw [Pool.nextOp, Pool.nextOp, ht]
  exact ⟨⟨hwaits.trans h.waits, howner.trans h.owns⟩, hclients.trans h.clients, hnames.trans h.names,
    ht ▸ h.codes, hlog ▸ h.events⟩

theorem outage_start (h : Outage cfg i before pool) (hs : (broker cfg).next pool (.start j) = some pool') :
    Outage cfg i before pool' := by
  obtain ⟨w', hw, hpool⟩ := Machine.start_cases hs
  obtain ⟨n, rfl⟩ := start_eq hw
  refine ⟨⟨Machine.nextOp_start hs h.waits, ?_⟩, ?_, ?_, fun i' t m hi ht hm ↦ ?_, ?_⟩
  · rw [hpool]
    exact h.owns
  · rw [hpool]
    exact h.clients
  · rw [hpool]
    exact h.names
  · rw [hpool] at ht
    rcases getElem?_concat_cases ht with ht | ⟨rfl, rfl⟩
    · exact h.codes i' t m hi ht hm
    · exact .inl rfl
  · rw [hpool]
    exact h.events

theorem outage_spawns {x : Option ℕ} (h : Outage cfg i before pool) (hs : Spawns cfg pool pool' c x) :
    Outage cfg i before pool' := by
  cases hs with
  | none hq =>
    obtain ⟨ht, hw | ⟨n, hw⟩⟩ := hq
    · exact outage_moved h ht (by rw [hw]; exact ⟨rfl, rfl, rfl, rfl⟩)
    · exact outage_moved h ht (by rw [hw]; exact ⟨rfl, rfl, rfl, rfl⟩)
  | some j hj hnext => exact outage_start h hnext

theorem outage_aside (h : Outage cfg i before pool) (ht : pool'.threads = pool.threads)
    (hw : Aside pool.world pool'.world) : Outage cfg i before pool' := by
  refine outage_moved h ht ?_
  cases hw with
  | same hw | ticks t hw | drops n hw =>
    rw [hw]
    exact ⟨rfl, rfl, rfl, rfl⟩
  | stops hw =>
    have hf := Shutdown.stop_frame pool.world
    have hnames : (Shutdown.stop pool.world).identityToName = pool.world.identityToName :=
      kept_by_stop (f := fun w ↦ w.identityToName) (fun _ _ _ ↦ rfl) pool.world.pendingSends pool.world
    rw [hw]
    exact ⟨hf.registryOwner (by simp), hf.clients (by simp), hnames, hf.log (by simp)⟩

theorem outage_next (hh : (outline cfg).Holds S.pool) (h : Outage cfg i before S.pool)
    (hs : Shape cfg admits a S S') :
    Outage cfg i before S'.pool := by
  cases hs with
  | idle hw ht _ _ _ hworld => exact outage_aside h ht hworld
  | begins _ _ _ _ _ _ hspawn => exact outage_spawns h hspawn
  | goesOn _ _ _ _ _ _ _ _ hspawn => exact outage_spawns h hspawn
  | leaves _ _ _ _ _ _ hp => exact hp ▸ h
  | steps _ _ _ hp => exact outage_step hh h hp

theorem outage_of_leads (h : (server cfg).Leads (Admitted admits) (started cfg threads metrics) S)
    (hw : Wedged i S.pool) (hT : (server cfg).Leads (Admitted admits) S T) : Outage cfg i S.pool T.pool :=
  hT.invariant (P := fun T ↦ Outage cfg i S.pool T.pool) (outage_refl hw) fun hl ho ha hs ↦
    outage_next (holds_of_leads (h.trans hl)) ho (shape_of_next hs ha)

theorem not_ended_of_op {t : Thread Op Op.Res Job} {k : o.Res → Program Unit} (ht : t.code = .op o k) :
    ¬ t.ended := by
  rintro ⟨u, hu⟩
  cases ht.symm.trans hu

theorem busy_of_waits (hw : Wired cfg T) (h : T.pool.nextOp i = some o) :
    ∃ (k : ℕ) (g : Handler), T.workers[k]? = some (some g) ∧ g.thread? = some i := by
  obtain ⟨j, code, ht⟩ := thread_of_nextOp h
  exact hw.held i _ ht (not_ended_of_op rfl)

/-- The handler of the event waits for the one job that has started with a message since. -/
theorem last_receipt (hw : Wired cfg T) (h : Outage cfg i before T.pool) {i₁ i₂ : ℕ}
    {t₁ t₂ : Thread Op Op.Res Job}
    {m₁ m₂ : Message} (hi₁ : before.threads.length ≤ i₁) (ht₁ : T.pool.threads[i₁]? = some t₁)
    (hm₁ : Receives t₁.job m₁)
    (hi₂ : before.threads.length ≤ i₂) (ht₂ : T.pool.threads[i₂]? = some t₂) (hm₂ : Receives t₂.job m₂) :
    i₁ = i₂ := by
  have held {i' : ℕ} {t : Thread Op Op.Res Job} {m : Message} (hi : before.threads.length ≤ i')
      (ht : T.pool.threads[i']? = some t) (hm : Receives t.job m) :
      ∃ (k : ℕ) (g : Handler), T.workers[k]? = some (some g) ∧ g.thread? = some i' ∧ g.chain = .event := by
    have hend : ¬ t.ended := by
      rcases h.codes i' t m hi ht hm with hcode | ⟨k, hcode⟩
      · obtain ⟨k, hk, -⟩ := receive_code cfg hm
        exact not_ended_of_op (hcode.trans hk)
      · exact not_ended_of_op hcode
    obtain ⟨k, g, hk, hg⟩ := hw.held i' t ht hend
    obtain ⟨t', ht', hchain⟩ := hw.jobs k g i' hk hg
    cases ht.symm.trans ht'
    obtain ⟨identity, data, hjob, -⟩ := hm
    refine ⟨k, g, hk, hg, ?_⟩
    rw [← hchain, hjob]
    rfl
  obtain ⟨k₁, g₁, hk₁, hg₁, hc₁⟩ := held hi₁ ht₁ hm₁
  obtain ⟨k₂, g₂, hk₂, hg₂, hc₂⟩ := held hi₂ ht₂ hm₂
  have hone := hw.single .event (by decide)
  rw [total] at hone
  obtain rfl := worker_unique (by rw [hc₁]; omega) hk₁ hk₂ (hc₂.trans hc₁.symm)
  cases hk₁.symm.trans hk₂
  exact Option.some.inj (hg₁.symm.trans hg₂)

/-- A cleanup pass that waits for itself ends the service: its worker never comes
back, also when the server is stopped, no client is registered or unregistered
any more, and of all messages that are received from then on one at most is even
counted, and none is handled. -/
theorem outage (h : (server cfg).Leads (Admitted admits) (started cfg threads metrics) S) (hw : Wedged i S.pool)
    (hT : (server cfg).Leads (Admitted admits) S T) :
    Outage cfg i S.pool T.pool ∧
    (∃ (k : ℕ) (g : Handler), T.workers[k]? = some (some g) ∧ g.thread? = some i) ∧
    ∀ (i₁ i₂ : ℕ) (t₁ t₂ : Thread Op Op.Res Job) (m₁ m₂ : Message), S.pool.threads.length ≤ i₁ →
      T.pool.threads[i₁]? = some t₁ → Receives t₁.job m₁ → S.pool.threads.length ≤ i₂ →
      T.pool.threads[i₂]? = some t₂ → Receives t₂.job m₂ → i₁ = i₂ := by
  have hout := outage_of_leads h hw hT
  have hwired := wired_of_leads (h.trans hT)
  exact ⟨hout, busy_of_waits hwired hout.waits, fun _ _ _ _ _ _ hi₁ ht₁ hm₁ hi₂ ht₂ hm₂ ↦
    last_receipt hwired hout hi₁ ht₁ hm₁ hi₂ ht₂ hm₂⟩

/-- A cleanup pass removes bob's expired session while metrics are on, and then alice registers. -/
theorem outage_alice : ∃ S T : Server, Wedged 2 S.pool ∧ S.pool.threads.length = 3 ∧
    T.workers = [some (.event (.routing 4)), some (.cleanup (.passing 2))] ∧ Outage {} 2 S.pool T.pool ∧
    (∃ (k : ℕ) (g : Handler), T.workers[k]? = some (some g) ∧ g.thread? = some 2) ∧
    ∀ (i₁ i₂ : ℕ) (t₁ t₂ : Thread Op Op.Res Job) (m₁ m₂ : Message), S.pool.threads.length ≤ i₁ →
      T.pool.threads[i₁]? = some t₁ → Receives t₁.job m₁ → S.pool.threads.length ≤ i₂ →
      T.pool.threads[i₂]? = some t₂ → Receives t₂.job m₂ → i₁ = i₂ := by
  have hrun : (((server {}).runs (Admitted fun _ ↦ True)
    (.arrive (multipart { type := .register, sender := [98] }) ::
      .dispatch 0 .event :: List.replicate 45 (.work 0 {}) ++ .tick ⟨0, 100 * ticksPerSecond⟩ ::
      .dispatch 1 .cleanup :: List.replicate 20 (.work 1 {})) (started {} 2 (some {}))).bind fun S ↦
        ((server {}).runs (Admitted fun _ ↦ True) (.arrive (multipart { type := .register, sender := [97] }) ::
          .dispatch 0 .event :: List.replicate 8 (.work 0 {})) S).map fun T ↦
            (locksRegistry (S.pool.nextOp 2), S.pool.world.registryOwner, S.pool.threads.length, T.workers)) =
      some (true, some 2, 3, [some (.event (.routing 4)), some (.cleanup (.passing 2))]) := by
    decide +kernel
  obtain ⟨S, T, hS, hT, hv⟩ := System.exists_leads_leads hrun
  simp only [Prod.mk.injEq] at hv
  obtain ⟨hnext, hown, hlen, hworkers⟩ := hv
  have hw : Wedged 2 S.pool := ⟨eq_of_locksRegistry hnext, hown⟩
  exact ⟨S, T, hw, hlen, hworkers, outage hS hw hT⟩

end MessageBroker.EventLoop
