import MessageBroker.WorkerChains

namespace MessageBroker.EventLoop

open ByteStrings WireMessages ThreadPools BrokerState ServerJobs ServerOutlines RunInvariants HandOverOnce
  TransitionSystems ReceiveLoop

variable {cfg : Config} {S S' : Server} {k i : ℕ} {h h' : Handler} {c : Chain} {j : Job} {ch : Choice}
  {a : Action} {admits : Choice → Prop} {pool pool' : State} {threads : ℕ} {metrics : Option Metrics}

theorem setGauge_setGauge (m n : ℕ) (w : World) : setGauge n (setGauge m w) = setGauge n w := by
  simp [setGauge, World.setMetrics, Function.comp_def]

theorem exists_gauge (w : World) : ∃ n, setGauge n w = w := by
  cases hm : w.metrics with
  | none =>
    refine ⟨0, ?_⟩
    rw [setGauge, World.setMetrics, hm, Option.map_none, ← hm]
  | some m =>
    refine ⟨m.pendingSendQueueSize, ?_⟩
    rw [setGauge, World.setMetrics, hm, Option.map_some, ← hm]

theorem effect_setGauge {o : Op} (n : ℕ) (w : World) (ho : o ≠ .updateQueueMetrics) :
    effect i ch o (setGauge n w) = (effect i ch o w).map fun r ↦ (r.1, setGauge n r.2) := by
  cases o with
  | updateQueueMetrics => exact absurd rfl ho
  | saveMessage | markDelivered | markSent | markPending =>
    simp only [effect, dbCall]
    split <;> rfl
  | saveCorrelation id corr name =>
    have hdb : (setGauge n w).db.saveCorrelation (setGauge n w).wallClock id corr name =
        w.db.saveCorrelation w.wallClock id corr name := rfl
    simp only [effect, hdb]
    cases w.db.saveCorrelation w.wallClock id corr name with
    | none => rfl
    | some db =>
      simp only [dbCall]
      split <;> rfl
  | lockRegistry =>
    have hown : (setGauge n w).registryOwner = w.registryOwner := rfl
    simp only [effect, hown]
    split <;> rfl
  | lockQueue s =>
    have hown : ((setGauge n w).sessions s).queueOwner = (w.sessions s).queueOwner := rfl
    simp only [effect, hown]
    split <;> rfl
  | takePendingSends =>
    have hsends : (setGauge n w).pendingSends = w.pendingSends := rfl
    simp only [effect, hsends]
    split <;> rfl
  | findClient name | removeClient name =>
    have hclients : (setGauge n w).activeClients.lookup name = w.activeClients.lookup name := rfl
    simp only [effect, hclients]
    cases w.activeClients.lookup name <;> rfl
  | sendFrame | callback | markAckReceived =>
    simp only [effect, Option.map_some]
    split <;> rfl
  | hasMetrics => simp [effect, setGauge, World.setMetrics]
  | increment | setActiveSessions => simp [effect, setGauge, World.setMetrics, Function.comp_def]
  | _ => rfl

theorem exec_setGauge {o : Op} {r : o.Res} {n : ℕ} {w w' : World}
    (he : exec i j o ch (setGauge n w) = some (r, w')) :
    ∃ w₁ m, exec i j o ch w = some (r, w₁) ∧ w' = setGauge m w₁ := by
  have hterm : (setGauge n w).terminated = w.terminated := rfl
  have hclock : (setGauge n w).wallClock = w.wallClock := rfl
  simp only [exec, hterm, hclock] at he ⊢
  split at he
  · cases he
  · next hrun =>
    rw [if_neg hrun]
    obtain ⟨⟨r', w₂⟩, hw₂, hr⟩ := Option.map_eq_some_iff.mp he
    obtain ⟨rfl, rfl⟩ := Prod.mk.inj hr
    by_cases ho : o = .updateQueueMetrics
    · subst ho
      obtain ⟨-, rfl⟩ := Prod.mk.inj (Option.some.inj hw₂)
      have hsame : setGauge w.pendingSends.length (setGauge n w) =
          setGauge w.pendingSends.length (setGauge w.pendingSends.length w) := by
        rw [setGauge_setGauge, setGauge_setGauge]
      refine ⟨{ setGauge w.pendingSends.length w with
        log := ⟨i, j, .updateQueueMetrics, ch, r', w.wallClock⟩ :: w.log }, w.pendingSends.length, rfl, ?_⟩
      exact congrArg (fun v : World ↦ { v with log := ⟨i, j, .updateQueueMetrics, ch, r', w.wallClock⟩ ::
        w.log }) hsame
    · rw [effect_setGauge n w ho] at hw₂
      obtain ⟨⟨r₁, w₁⟩, hw₁, hr⟩ := Option.map_eq_some_iff.mp hw₂
      obtain ⟨rfl, rfl⟩ := Prod.mk.inj hr
      exact ⟨_, n, by rw [hw₁]; rfl, rfl⟩

/-- Pools that differ in the gauge only. -/
def Gauged (pool pool' : State) : Prop :=
  pool'.threads = pool.threads ∧ ∃ n, pool'.world = setGauge n pool.world

theorem Gauged.refl (pool : State) : Gauged pool pool := by
  obtain ⟨n, hn⟩ := exists_gauge pool.world
  exact ⟨rfl, n, hn.symm⟩

theorem Gauged.quiet {pool'' : State} (h : Gauged pool pool') (hq : Quiet pool' pool'') :
    Gauged pool pool'' := by
  obtain ⟨ht, n, hn⟩ := h
  refine ⟨hq.1.trans ht, ?_⟩
  obtain hw | ⟨m, hw⟩ := hq.2
  · exact ⟨n, hw.trans hn⟩
  · exact ⟨m, by rw [hw, hn, setGauge_setGauge]⟩

/-- The broker takes the same steps whatever its gauge. -/
theorem Gauged.next {pool'' : State} {l : Step} (h : Gauged pool pool')
    (hs : (broker cfg).next pool' l = some pool'') :
    ∃ pool₁, (broker cfg).next pool l = some pool₁ ∧ Gauged pool₁ pool'' := by
  obtain ⟨ht, n, hn⟩ := h
  cases l with
  | start j =>
    obtain ⟨w', hw, rfl⟩ := Machine.start_cases hs
    rw [hn] at hw
    have hstart : ∃ w₁, ServerJobs.start j pool.world = some w₁ ∧ w' = setGauge n w₁ := by
      change ServerJobs.start j (setGauge n pool.world) = some w' at hw
      unfold ServerJobs.start at hw ⊢
      split at hw
      · split at hw
        · cases hw
        · next hne =>
          obtain rfl := Option.some.inj hw
          exact ⟨_, if_neg hne, rfl⟩
      · obtain rfl := Option.some.inj hw
        exact ⟨_, rfl, rfl⟩
    obtain ⟨w₁, hw₁, rfl⟩ := hstart
    refine ⟨⟨w₁, pool.threads ++ [⟨j, code cfg j⟩]⟩, ?_, ?_, n, rfl⟩
    · change (ServerJobs.start j pool.world).map _ = _
      rw [hw₁]
      rfl
    · change pool'.threads ++ _ = _
      rw [ht]
      rfl
  | step i ch =>
    obtain ⟨j, o, code, r, w', hth, he, rfl⟩ := Machine.step_cases hs
    rw [hn] at he
    obtain ⟨w₁, m, hw₁, rfl⟩ := exec_setGauge he
    refine ⟨⟨w₁, pool.threads.set i ⟨j, code r⟩⟩, ?_, ?_, m, rfl⟩
    · rw [ht] at hth
      simp only [Machine.next, hth]
      change (exec i j o ch pool.world).map _ = _
      rw [hw₁]
      rfl
    · change pool'.threads.set i _ = _
      rw [ht]
  | tick t =>
    obtain rfl := Option.some.inj hs
    exact ⟨_, rfl, ht, n, by rw [show (broker cfg).tick t pool'.world = tick t pool'.world from rfl, hn]; rfl⟩

/-- The jobs of a chain are run one after another, and a chain that is not in use has none. -/
def Disciplined (cfg : Config) (admits : Choice → Prop) (pool : State) : Step → Prop
  | .start j => chainOf j = .send ∨ lasting cfg (chainOf j) = true ∧
    ∀ t ∈ pool.threads, chainOf t.job = chainOf j → hasEnded t = true
  | .step _ ch => admits ch
  | .tick _ => True

theorem serialised_of_disciplined {l : Step} (h : Disciplined cfg (·.dbError = false) pool l) :
    Serialised pool l := by
  cases l with
  | start j =>
    intro hj t ht hr
    have hchain {j : Job} (hj : isReceive j = true) : chainOf j = .event := by
      cases j with
      | receive => rfl
      | _ => cases hj
    obtain hsend | ⟨-, hended⟩ := h
    · cases (hchain hj).symm.trans hsend
    · exact hended t ht ((hchain hr).trans (hchain hj).symm)
  | step i ch => exact h
  | tick t => trivial

theorem disciplined_begins (h : Wired cfg S) (hdue : chainOf j ≠ .send → armed S (chainOf j) = true) :
    Disciplined cfg admits S.pool (.start j) := by
  by_cases hc : chainOf j = .send
  · exact .inl hc
  have harm := hdue hc
  refine .inr ⟨?_, fun t ht hchain ↦ ?_⟩
  · by_contra hl
    have hzero := h.unused _ hc (Bool.eq_false_iff.mpr hl)
    rw [total, harm, Bool.toNat_true] at hzero
    omega
  · refine hasEnded_of_ended (Classical.byContradiction fun hend ↦ ?_)
    obtain ⟨k, g, i, hk, -, -, hg⟩ := busy_of_running h ht hend
    have hpos := busy_pos hk
    have hone := h.single _ hc
    rw [hg, hchain] at hpos
    rw [total, harm, Bool.toNat_true] at hone
    omega

theorem disciplined_goesOn (h : Wired cfg S) (hk : S.workers[k]? = some (some h')) (ha : Awaited S.pool h')
    (hchain : h'.chain = chainOf j) : Disciplined cfg admits S.pool (.start j) := by
  by_cases hc : chainOf j = .send
  · exact .inl hc
  have hpos := busy_pos hk
  rw [hchain] at hpos
  refine .inr ⟨?_, fun t ht hj ↦ ?_⟩
  · by_contra hl
    have hzero := h.unused _ hc (Bool.eq_false_iff.mpr hl)
    rw [total] at hzero
    omega
  · refine hasEnded_of_ended (Classical.byContradiction fun hend ↦ ?_)
    obtain ⟨k', g, i, hk', hi, hti, hg⟩ := busy_of_running h ht hend
    have hone := h.single _ hc
    rw [total, ← hchain] at hone
    obtain rfl := worker_unique (by omega) hk hk' (hg.trans (hj.trans hchain.symm))
    cases hk.symm.trans hk'
    exact hend (ha i hi t hti)

theorem reachable_spawns {x : Option ℕ} {pool₁ : State}
    (h : (broker cfg).Reachable (Disciplined cfg admits) (initial metrics) pool₁) (hg : Gauged pool₁ pool)
    (hs : Spawns cfg pool pool' c x) (hd : ∀ j, chainOf j = c → Disciplined cfg admits pool (.start j)) :
    ∃ pool₂, (broker cfg).Reachable (Disciplined cfg admits) (initial metrics) pool₂ ∧ Gauged pool₂ pool' := by
  cases hs with
  | none hq => exact ⟨pool₁, h, hg.quiet hq⟩
  | some j hj hnext =>
    obtain ⟨pool₂, hnext₂, hg₂⟩ := hg.next hnext
    have hstart : Disciplined cfg admits pool₁ (.start j) := by
      have hstart := hd j hj
      simp only [Disciplined, hg.1] at hstart
      exact hstart
    exact ⟨pool₂, .next _ h hstart hnext₂, hg₂⟩

def Refined (cfg : Config) (admits : Choice → Prop) (metrics : Option Metrics) (S : Server) : Prop :=
  ∃ pool, (broker cfg).Reachable (Disciplined cfg admits) (initial metrics) pool ∧ Gauged pool S.pool

theorem refined_started : Refined cfg admits metrics (started cfg threads metrics) := by
  obtain ⟨cleanup, ackTimeout, heq⟩ := started_eq cfg threads metrics
  rw [heq]
  exact ⟨_, .init, .refl _⟩

/-- A step of the server is a step of the broker or leaves the broker alone. -/
theorem refined_next (hw : Wired cfg S) (hs : Shape cfg admits a S S') (hrun : S'.running = true)
    (ih : S.running = true → Refined cfg admits metrics S) : Refined cfg admits metrics S' := by
  cases hs with
  | idle hworkers ht harm hup =>
    obtain ⟨hr, -, hpool⟩ := hup hrun
    obtain ⟨pool, hreach, hg⟩ := ih hr
    rcases hpool with hpool | ⟨t, ht⟩
    · exact ⟨pool, hreach, hpool ▸ hg⟩
    · obtain ⟨pool₂, hnext, hg₂⟩ := hg.next ht
      exact ⟨pool₂, .next (.tick t) hreach trivial hnext, hg₂⟩
  | begins k g hk hworkers hr hst hspawn hdue harm =>
    obtain ⟨pool, hreach, hg⟩ := ih hr
    refine reachable_spawns hreach hg hspawn fun j hj ↦ disciplined_begins hw fun hc ↦ ?_
    rw [hj] at hc ⊢
    exact (hdue hc).1
  | goesOn k g g' hk hawait hworkers hst hch hspawn harm =>
    obtain ⟨pool, hreach, hg⟩ := ih (running_of_stage hst ▸ hrun)
    exact reachable_spawns hreach hg hspawn fun j hj ↦ disciplined_goesOn hw hk hawait (hch.symm.trans hj.symm)
  | leaves k g hk hawait hworkers hst hp =>
    obtain ⟨pool, hreach, hg⟩ := ih (running_of_stage hst ▸ hrun)
    exact ⟨pool, hreach, hp ▸ hg⟩
  | steps i ch hadm hnext hworkers hst =>
    obtain ⟨pool, hreach, hg⟩ := ih (running_of_stage hst ▸ hrun)
    obtain ⟨pool₂, hnext₂, hg₂⟩ := hg.next hnext
    exact ⟨pool₂, .next (.step i ch) hreach hadm hnext₂, hg₂⟩

theorem refined_of_leads (h : (server cfg).Leads (Admitted admits) (started cfg threads metrics) S)
    (hrun : S.running = true) :
    Refined cfg admits metrics S := by
  refine h.invariant (P := fun S ↦ S.running = true → Refined cfg admits metrics S) (fun _ ↦ refined_started)
    (fun hl ih ha hs hrun' ↦ ?_) hrun
  exact refined_next (wired_of_leads hl) (shape_of_next hs ha) hrun' ih

/-- As long as the server is running, its threads run the jobs of the broker,
whichever worker takes which handler: those of a chain one after another. -/
theorem server_refines (h : (server cfg).Leads (Admitted admits) (started cfg threads metrics) S)
    (hrun : S.running = true) :
    ∃ pool, (broker cfg).Reachable (Disciplined cfg admits) (initial metrics) pool ∧ Gauged pool S.pool :=
  refined_of_leads h hrun

/-- Without database errors, the runs of the server are runs of the broker in
which messages are received one at a time. -/
theorem server_serialised (h : (server cfg).Leads (Admitted (·.dbError = false)) (started cfg threads metrics) S)
    (hrun : S.running = true) :
    ∃ pool, (broker cfg).Reachable Serialised (initial metrics) pool ∧ Gauged pool S.pool := by
  obtain ⟨pool, hreach, hg⟩ := refined_of_leads h hrun
  exact ⟨pool, hreach.mono fun _ _ hd ↦ serialised_of_disciplined hd, hg⟩

/-- While bob's registration is handled by one worker, the other begins a cleanup pass. -/
theorem server_refines_bob : ∃ (S : Server) (pool : State), S.running = true ∧
    S.workers = [some (.cleanup (.passing 2)), some (.event (.routing 1))] ∧
    (broker {}).Reachable (Disciplined {} (·.dbError = false)) (initial (some {})) pool ∧
    Gauged pool S.pool := by
  have hrun : ((server {}).runs (Admitted (·.dbError = false))
    (.arrive (multipart { type := .register, sender := [98] }) ::
      .dispatch 1 .event :: List.replicate 20 (.work 1 {}) ++ .tick ⟨0, 10 * ticksPerSecond⟩ ::
        .dispatch 0 .cleanup ::
      .work 0 {} :: List.replicate 3 (.work 1 {})) (started {} 2 (some {}))).map
        (fun S ↦ (S.running, S.workers)) =
      some (true, [some (.cleanup (.passing 2)), some (.event (.routing 1))]) := by decide +kernel
  obtain ⟨S, hS, hv⟩ := System.exists_leads hrun
  obtain ⟨hr, hw⟩ := Prod.mk.inj hv
  obtain ⟨pool, hreach, hg⟩ := server_refines hS hr
  exact ⟨S, pool, hr, hw, hreach, hg⟩

end MessageBroker.EventLoop
