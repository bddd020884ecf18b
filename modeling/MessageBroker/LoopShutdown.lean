import MessageBroker.LockDiscipline
import MessageBroker.WorkerChains

namespace MessageBroker.EventLoop

open ByteStrings WireMessages ThreadPools BrokerState ServerJobs OperationEffects ThreadViews
  SharedInvariant ServerOutlines RunInvariants HandOverOnce TransitionSystems LockDiscipline ReceiveLoop

variable {cfg : Config} {S S' T : Server} {k i : ℕ} {h : Handler} {c : Chain} {j : Job} {ch : Choice}
  {a : Action} {admits : Choice → Prop} {pool pool' : State} {threads : ℕ} {metrics : Option Metrics}
  {w w' : World}

/-- How many more jobs the handlers may start once the server has stopped. -/
def owed (S : Server) : ℕ := S.workers.countP (·.any Handler.owes)

def owedBy (S : Server) (c : Chain) : ℕ := S.workers.countP (·.any fun h ↦ h.owes && h.chain = c)

def jobs (S : Server) (c : Chain) : ℕ := S.pool.threads.countP fun t ↦ chainOf t.job = c

/-- What there is left to do but for the jobs. -/
def remaining (S : Server) : ℕ := spare S + (S.workers.map (·.elim 0 Handler.rank)).sum

/-- What is left of a server that has stopped: first the jobs that it may still
start, then those that run, then the rest. -/
def left (S : Server) : ℕ × Multiset (Thread Op Op.Res Job) × ℕ := (owed S, S.pool.threads, remaining S)

def Less : ℕ × Multiset (Thread Op Op.Res Job) × ℕ → ℕ × Multiset (Thread Op Op.Res Job) × ℕ → Prop :=
  Prod.Lex (· < ·) (Prod.Lex (Relation.CutExpand Machine.Continues) (· < ·))

theorem less_wf : WellFounded Less :=
  WellFounded.prod_lex Nat.lt_wfRel.wf (WellFounded.prod_lex Machine.continues_wf.cutExpand Nat.lt_wfRel.wf)

theorem less_of_owed (h : owed S' < owed S) : Less (left S') (left S) := .left _ _ h

theorem less_of_remaining (ho : owed S' ≤ owed S) (ht : S'.pool.threads = S.pool.threads)
    (hr : remaining S' < remaining S) : Less (left S') (left S) := by
  rcases Nat.lt_or_eq_of_le ho with ho | ho
  · exact less_of_owed ho
  · rw [left, left, ho, ht]
    exact .right _ (.right _ hr)

theorem sum_set_add {α : Type} {f : α → ℕ} {l : List α} {x y : α} (hk : l[k]? = some x) :
    ((l.set k y).map f).sum + f x = (l.map f).sum + f y := by
  induction l generalizing k with
  | nil => cases hk
  | cons z l ih =>
    cases k with
    | zero =>
      cases hk
      simp only [List.set_cons_zero, List.map_cons, List.sum_cons]
      omega
    | succ k =>
      have hl := ih (k := k) hk
      simp only [List.set_cons_succ, List.map_cons, List.sum_cons]
      omega

theorem owed_set {x y : Option Handler} (hk : S.workers[k]? = some x) (hw : S'.workers = S.workers.set k y) :
    owed S' + (x.any Handler.owes).toNat = owed S + (y.any Handler.owes).toNat := by
  rw [owed, hw]
  exact countP_set_add hk

theorem remaining_set {x y : Option Handler} (hk : S.workers[k]? = some x)
    (hw : S'.workers = S.workers.set k y) :
    remaining S' + spare S + x.elim 0 Handler.rank = remaining S + spare S' + y.elim 0 Handler.rank := by
  have hsum := sum_set_add (f := (·.elim 0 Handler.rank)) (y := y) hk
  rw [remaining, remaining, hw]
  omega

theorem spare_le {b : Bool} (hstage : S'.stage = S.stage)
    (hagain : armed S' c = true → b = true ∨ armed S c = true) (harmed : ∀ c', c' ≠ c → armed S' c' = armed S c')
    (hposted : S'.pool.world.postedTasks = S.pool.world.postedTasks) : spare S' ≤ spare S + b.toNat := by
  have hle (c' : Chain) : (armed S' c').toNat ≤ (armed S c').toNat + (b && decide (c' = c)).toNat := by
    by_cases hc : c' = c
    · subst hc
      rw [decide_eq_true rfl, Bool.and_true]
      cases harm : armed S' c' with
      | false => exact Nat.zero_le _
      | true => rcases hagain harm with h | h <;> rw [h] <;> simp
    · rw [harmed c' hc]
      exact Nat.le_add_right _ _
  have hevent := hle .event
  have hcleanup := hle .cleanup
  have hack := hle .ackTimeout
  simp only [armed] at hevent hcleanup hack
  rw [spare, spare, hstage, hposted]
  cases c <;>
    simp only [reduceCtorEq, decide_false, decide_true, Bool.and_false, Bool.and_true,
      Bool.toNat_false] at hevent hcleanup hack <;>
    omega

theorem arms_lt_rank (h : Handler) : h.arms.toNat < h.rank := by
  cases h with
  | event phase | cleanup phase | ackTimeout phase => cases phase <;> simp [Handler.arms, Handler.rank]
  | send i => exact Nat.one_pos

theorem arming_of_worker (hk : S.workers[k]? = some (some h)) (harms : h.arms = true) :
    arming S h.chain = true :=
  List.any_eq_true.mpr ⟨some h, List.mem_of_getElem? hk, by simp [harms]⟩

theorem armed_of_shape (hs : Shape cfg admits a S S') (hr : S.running = false) (harm : armed S' c = true) :
    armed S c = true ∨ arming S c = true := by
  cases hs with
  | idle _ _ harmed => exact .inl (harmed c harm)
  | begins _ _ _ _ hr' => cases hr.symm.trans hr'
  | goesOn _ _ _ _ _ _ _ _ _ harmed => exact .inl (harmed c ▸ harm)
  | leaves k h hk hawait hw hst hp hagain hlasts harmed =>
    by_cases hc : c = h.chain
    · subst hc
      exact (hagain harm).symm.imp_right (arming_of_worker hk)
    · exact .inl (harmed c hc ▸ harm)
  | steps _ _ _ _ _ _ harmed => exact .inl (harmed c ▸ harm)

theorem arming_set {x : Option Handler} (hw : S'.workers = S.workers.set k x) (hx : x.any Handler.arms = false)
    (harm : arming S' c = true) : arming S c = true := by
  rw [arming, hw] at harm
  obtain ⟨y, hy, harms⟩ := List.any_eq_true.mp harm
  rcases List.mem_or_eq_of_mem_set hy with hy | rfl
  · exact List.any_eq_true.mpr ⟨y, hy, harms⟩
  · obtain ⟨g, rfl, hg⟩ := Option.any_eq_true _ _ |>.mp harms
    cases hx.symm.trans (Bool.and_eq_true_iff.mp hg).1

theorem arming_of_shape (hs : Shape cfg admits a S S') (hr : S.running = false) (harm : arming S' c = true) :
    arming S c = true := by
  cases hs with
  | idle hw => rwa [arming, hw] at harm
  | begins _ _ _ _ hr' => cases hr.symm.trans hr'
  | goesOn k h h' hk hawait hw hst hch hspawn _ hwinds => exact arming_set hw (hwinds hr).2.2 harm
  | leaves k h hk hawait hw => exact arming_set hw rfl harm
  | steps i ch _ hp hw => rwa [arming, hw] at harm

/-- A server that has stopped has less to do after each of its steps; what
arrives and the clock add nothing. -/
theorem left_next (hs : Shape cfg admits a S S') (hr : S.running = false) :
    Less (left S') (left S) ∨ a.own = false ∧ left S' = left S := by
  cases hs with
  | idle hw ht _ _ hwanes =>
    have howed : owed S' = owed S := by rw [owed, owed, hw]
    have hspare := hwanes hr
    by_cases hlt : spare S' < spare S
    · refine .inl (less_of_remaining howed.le ht ?_)
      rw [remaining, remaining, hw]
      omega
    · right
      have hown : a.own.toNat = 0 := by omega
      have heq : spare S' = spare S := by omega
      refine ⟨Bool.toNat_eq_zero.mp hown, ?_⟩
      rw [left, left, howed, ht, remaining, remaining, hw, heq]
  | begins _ _ _ _ hr' => cases hr.symm.trans hr'
  | goesOn k h h' hk hawait hw hst hch hspawn harmed hwinds =>
    obtain ⟨hrank, howes, -⟩ := hwinds hr
    have howed := owed_set hk hw
    rw [Option.any_some, Option.any_some] at howed
    left
    generalize h'.thread? = x at hspawn howes
    cases hspawn with
    | none hq =>
      have hrem := remaining_set hk hw
      have hposted : S'.pool.world.postedTasks = S.pool.world.postedTasks := by
        obtain hworld | ⟨n, hworld⟩ := hq.2
        · rw [hworld]
        · rw [hworld]
          rfl
      have hle := spare_le (c := h.chain) (b := false) hst (fun harm ↦ .inr (harmed _ ▸ harm))
        (fun c _ ↦ harmed c) hposted
      rw [Bool.toNat_false, Nat.add_zero] at hle
      rw [Option.isSome_none, Bool.toNat_false, Nat.add_zero] at howes
      simp only [Option.elim_some] at hrem
      exact less_of_remaining (by omega) hq.1 (by omega)
    | some j hj hnext =>
      rw [Option.isSome_some, Bool.toNat_true] at howes
      exact less_of_owed (by omega)
  | leaves k h hk hawait hw hst hp hagain hlasts harmed =>
    have howed := owed_set hk hw
    have hrem := remaining_set hk hw
    have hlt := arms_lt_rank h
    have hle := spare_le hst hagain harmed (by rw [hp])
    rw [Option.any_none, Bool.toNat_false, Nat.add_zero] at howed
    simp only [Option.elim_some, Option.elim_none] at hrem
    exact .inl (less_of_remaining (by omega) (by rw [hp]) (by omega))
  | steps i ch _ hp hw hst _ =>
    obtain ⟨j, o, code, r, w', ht, -, hpool⟩ := Machine.step_cases hp
    left
    have howed : owed S' = owed S := by rw [owed, owed, hw]
    rw [left, left, howed, hpool]
    exact .right _ (.left _ _ (Machine.cutExpand_set ht ⟨o, code, r, rfl, rfl⟩))

theorem stopped_next (hs : Shape cfg admits a S S') (hr : S.running = false) : S'.running = false := by
  by_contra hrun
  rw [running_of_next hs (Bool.eq_true_of_not_eq_false hrun)] at hr
  cases hr

/-- A step of a server that has stopped, before which messages may arrive and time pass. -/
def Winds (cfg : Config) (admits : Choice → Prop) (S' S : Server) : Prop :=
  S.running = false ∧ ∃ T a, (server cfg).Leads (fun S a ↦ Admitted admits S a ∧ a.own = false) S T ∧
    Admitted admits T a ∧ a.own = true ∧ next cfg T a = some S'

theorem advances_of_winds (h : Winds cfg admits S' S) :
    (server cfg).Advances (fun S a ↦ Admitted admits S a ∧ a.own = false)
    (fun S a ↦ Admitted admits S a ∧ a.own = true) S' S := by
  obtain ⟨-, T, a, hleads, ha, hown, hs⟩ := h
  exact ⟨T, a, hleads, ⟨ha, hown⟩, hs⟩

theorem winds_end (hr : S.running = false) :
    ¬ ∃ f : ℕ → Server, f 0 = S ∧ ∀ n, Winds cfg admits (f (n + 1)) (f n) := by
  rintro ⟨f, hf0, hf⟩
  refine System.not_endless (m := left) (P := fun S ↦ S.running = false) less_wf hr (fun {S S' a} hr hl hs ↦ ?_)
    (fun {S S' a} hr hl hs ↦ ?_) ⟨f, hf0, fun n ↦ advances_of_winds (hf n)⟩
  · have hshape := shape_of_next hs hl.1
    exact ⟨stopped_next hshape hr, (left_next hshape hr).imp_right And.right⟩
  · have hshape := shape_of_next hs hl.1
    refine ⟨stopped_next hshape hr, (left_next hshape hr).resolve_right fun hquiet ↦ ?_⟩
    cases hquiet.1.symm.trans hl.2

theorem owedBy_set {x y : Option Handler} (hk : S.workers[k]? = some x) (hw : S'.workers = S.workers.set k y)
    (c : Chain) :
    owedBy S' c + (x.any fun h ↦ h.owes && h.chain = c).toNat =
      owedBy S c + (y.any fun h ↦ h.owes && h.chain = c).toNat := by
  rw [owedBy, hw]
  exact countP_set_add hk

theorem jobs_congr (ht : S'.pool.threads = S.pool.threads) : jobs S' c = jobs S c := by rw [jobs, jobs, ht]

theorem jobs_next (hs : Shape cfg admits a S S') (hr : S.running = false) (c : Chain) :
    jobs S' c + owedBy S' c ≤ jobs S c + owedBy S c := by
  cases hs with
  | idle hw ht => rw [jobs_congr ht, owedBy, owedBy, hw]
  | begins _ _ _ _ hr' => cases hr.symm.trans hr'
  | goesOn k h h' hk hawait hw hst hch hspawn _ hwinds =>
    have howes := (hwinds hr).2.1
    have howed := owedBy_set hk hw c
    rw [Option.any_some, Option.any_some, hch] at howed
    generalize h'.thread? = x at hspawn howes
    cases hspawn with
    | none hq =>
      rw [jobs_congr hq.1]
      by_cases hc : h.chain = c
      · simp only [hc, decide_true, Bool.and_true] at howed
        omega
      · simp only [hc, decide_false, Bool.and_false] at howed
        omega
    | some j hj hnext =>
      obtain ⟨w', -, hpool⟩ := Machine.start_cases hnext
      have hjobs : jobs S' c = jobs S c + (decide (h.chain = c)).toNat := by
        rw [jobs, hpool, List.countP_append, List.countP_singleton, hj, hch, jobs]
        by_cases hc : h.chain = c <;> simp [hc]
      rw [Option.isSome_some, Bool.toNat_true] at howes
      rw [hjobs]
      by_cases hc : h.chain = c
      · simp only [hc, decide_true, Bool.and_true, Bool.toNat_true] at howed ⊢
        omega
      · simp only [hc, decide_false, Bool.and_false, Bool.toNat_false] at howed ⊢
        omega
  | leaves k h hk hawait hw hst hp =>
    have howed := owedBy_set hk hw c
    rw [Option.any_none, Bool.toNat_false, Nat.add_zero] at howed
    rw [jobs, hp, ← jobs]
    omega
  | steps i ch _ hp hw =>
    have hjobs : jobs S' c = jobs S c := by
      have hlist : S'.pool.threads.map (·.job) = S.pool.threads.map (·.job) := by
        refine List.ext_getElem? fun i' ↦ ?_
        rw [List.getElem?_map, List.getElem?_map]
        exact Machine.job_step hp i'
      have hcount := congrArg (List.countP fun j ↦ chainOf j = c) hlist
      rwa [List.countP_map, List.countP_map] at hcount
    rw [hjobs, owedBy, owedBy, hw]

/-- At most how many jobs of a chain may still start. -/
def Chain.last : Chain → ℕ
  | .send => 0
  | _ => 1

theorem owedBy_le (h : Wired cfg S) (c : Chain) : owedBy S c ≤ c.last := by
  have hle : owedBy S c ≤ busy S c := by
    refine List.countP_mono_left fun x _ hx ↦ ?_
    obtain ⟨g, rfl, hg⟩ := Option.any_eq_true _ _ |>.mp hx
    exact (Bool.and_eq_true_iff.mp hg).2
  by_cases hc : c = .send
  · subst hc
    refine Nat.le_zero.mpr (List.countP_eq_zero.mpr fun x _ hx ↦ ?_)
    obtain ⟨g, rfl, hg⟩ := Option.any_eq_true _ _ |>.mp hx
    obtain ⟨howes, hchain⟩ := Bool.and_eq_true_iff.mp hg
    cases g with
    | send i => cases howes
    | _ => cases of_decide_eq_true hchain
  · have hone := h.single c hc
    have hlast : c.last = 1 := by
      cases c with
      | send => exact absurd rfl hc
      | _ => rfl
    rw [total] at hone
    omega

theorem little_left (hw : Wired cfg S) (hr : S.running = false) (h : (server cfg).Leads (Admitted admits) S T)
    (c : Chain) :
    jobs T c ≤ jobs S c + c.last ∧ (armed T c = true → armed S c = true ∨ arming S c = true) := by
  have hinv : T.running = false ∧ jobs T c + owedBy T c ≤ jobs S c + owedBy S c ∧
      (armed T c = true ∨ arming T c = true → armed S c = true ∨ arming S c = true) := by
    refine h.invariant (P := fun T ↦ T.running = false ∧ jobs T c + owedBy T c ≤ jobs S c + owedBy S c ∧
      (armed T c = true ∨ arming T c = true → armed S c = true ∨ arming S c = true)) ⟨hr, Nat.le_refl _, id⟩
      fun {T T' a} _ ih ha hs ↦ ?_
    obtain ⟨hrT, hjobs, harmed⟩ := ih
    have hshape := shape_of_next hs ha
    refine ⟨stopped_next hshape hrT, (jobs_next hshape hrT c).trans hjobs, fun h ↦ harmed ?_⟩
    exact h.elim (armed_of_shape hshape hrT) fun h ↦ .inr (arming_of_shape hshape hrT h)
  have hone := owedBy_le hw c
  exact ⟨by omega, fun harm ↦ hinv.2.2 (.inl harm)⟩

theorem sessions_markOffline (sends : List PendingSend) (w : World) (s : ℕ) : ∃ b,
    (sends.foldl (fun w send ↦ w.setSession send.session fun x ↦ { x with isOnline := false }) w).sessions s =
      { w.sessions s with isOnline := b } ∧ ((w.sessions s).isOnline = false → b = false) := by
  induction sends generalizing w with
  | nil => exact ⟨(w.sessions s).isOnline, rfl, id⟩
  | cons send sends ih =>
    obtain ⟨b, hb, hoff⟩ := ih (w.setSession send.session fun x ↦ { x with isOnline := false })
    rw [List.foldl_cons, hb]
    by_cases hs : s = send.session
    · subst hs
      simp only [World.setSession, Function.update_self] at hoff ⊢
      exact ⟨b, rfl, fun _ ↦ hoff trivial⟩
    · simp only [World.setSession, Function.update_of_ne hs] at hoff ⊢
      exact ⟨b, rfl, hoff⟩

theorem sessions_stop (w : World) (s : ℕ) :
    ∃ b, (Shutdown.stop w).sessions s = { w.sessions s with isOnline := b } ∧
    ((w.sessions s).isOnline = false → b = false) :=
  sessions_markOffline w.pendingSends w s

theorem rely_stop (w : World) : Rely i w (Shutdown.stop w) := by
  have hf := Shutdown.stop_frame w
  have hlog : (Shutdown.stop w).log = w.log := hf.log (by simp)
  have hclients : (Shutdown.stop w).activeClients = w.activeClients := hf.clients (by simp)
  have hnext : (Shutdown.stop w).nextSession = w.nextSession := hf.nextSession (by simp)
  obtain ⟨hmessages, -⟩ := hf.messages (by simp)
  refine ⟨?_, by rw [hlog], fun _ ↦ hclients, fun s _ ↦ hf.queues (by simp) s, ?_⟩
  · exact hold_eq (hf.registryOwner (by simp)) (hf.queueOwners (by simp)) (hf.owners (by simp))
      (by rw [hf.batches (by simp)])
  · refine ⟨fun r hr ↦ ⟨r.status, hmessages ▸ hr⟩, hnext.ge, fun s _ ↦ hf.name (by simp) s, fun s _ ↦ ?_,
      fun s _ hoff ↦ ?_, fun s hd ↦ ?_, hf.metrics, fun ht ↦ (hf.terminated (by simp)).trans ht⟩
    · obtain ⟨b, hb, -⟩ := sessions_stop w s
      rw [hb]
    · obtain ⟨b, hb, hoff'⟩ := sessions_stop w s
      rw [hb]
      exact hoff' hoff
    · refine ⟨?_, fun hq ↦ (hf.queues (by simp) s).trans hq⟩
      simpa only [Dead, World.Registered, hnext, hclients, hf.owners (by simp) s] using hd

theorem consistent_stop (h : Consistent w) : Consistent (Shutdown.stop w) := by
  have hf := Shutdown.stop_frame w
  have hdb : (Shutdown.stop w).db = w.db :=
    kept_by_stop (f := fun w ↦ w.db) (fun _ _ _ ↦ rfl) w.pendingSends w
  have hqueues := hf.queues (by simp)
  have hclients : (Shutdown.stop w).activeClients = w.activeClients := hf.clients (by simp)
  have hnext : (Shutdown.stop w).nextSession = w.nextSession := hf.nextSession (by simp)
  refine ⟨hdb ▸ h.store, fun s c hc ↦ ?_, (fun p hp ↦ nomatch hp), fun k p hp ↦ ?_, (fun p hp ↦ nomatch hp),
    fun s hq ↦ ?_, fun s hs ↦ ?_, fun s hs ↦ ?_, fun n s hn ↦ ?_, fun s hs ↦ ?_⟩
  · rw [hqueues] at hc
    exact hdb ▸ h.queues s c hc
  · rw [hf.batches (by simp)] at hp
    exact hdb ▸ h.batches k p hp
  · obtain ⟨b, hb, hoff⟩ := sessions_stop w s
    rw [hqueues] at hq
    rw [hb]
    exact hoff (h.offline s hq)
  · rw [hf.name (by simp)]
    exact h.names s (hnext ▸ hs)
  · rw [hf.owners (by simp), hqueues, hf.queueOwners (by simp)]
    exact h.unused s (hnext ▸ hs)
  · rw [hnext, hf.name (by simp)]
    exact h.clients n s (hclients ▸ hn)
  · rw [hf.destroyed (by simp)] at hs
    obtain ⟨hd, hq⟩ := h.destroyed s hs
    exact ⟨((rely_stop (i := 0) w).grows.dead s hd).1, (hqueues s).trans hq⟩

theorem rely_setGauge (n : ℕ) (w : World) : Rely i w (setGauge n w) :=
  ⟨rfl, rfl, fun _ ↦ rfl, fun _ _ ↦ rfl, .refl _, Nat.le_refl _, fun _ _ ↦ rfl, fun _ _ ↦ rfl, fun _ _ h ↦ h,
    fun _ h ↦ ⟨h, id⟩, by simp [setGauge, World.setMetrics], id⟩

theorem holds_quiet (h : (outline cfg).Holds pool) (hq : Quiet pool pool') : (outline cfg).Holds pool' := by
  obtain ⟨w, ths⟩ := pool'
  obtain ⟨rfl, rfl | ⟨n, rfl⟩⟩ := hq
  · exact h
  · exact h.moved (inv_of_eq h.inv rfl rfl rfl rfl rfl rfl) fun _ ↦ rely_setGauge n _

theorem holds_spawns {x : Option ℕ} (h : (outline cfg).Holds pool) (hs : Spawns cfg pool pool' c x) :
    (outline cfg).Holds pool' := by
  cases hs with
  | none hq => exact holds_quiet h hq
  | some j hj hnext => exact h.start (fun _ _ hrest ↦ safe_code hrest) hnext

theorem holds_aside (h : (outline cfg).Holds pool) (ht : pool'.threads = pool.threads)
    (hw : Aside pool.world pool'.world) :
    (outline cfg).Holds pool' := by
  obtain ⟨w, ths⟩ := pool'
  obtain rfl : ths = pool.threads := ht
  cases hw with
  | same hsame =>
    obtain rfl : w = pool.world := hsame
    exact h
  | ticks t htick =>
    obtain rfl : w = tick t pool.world := htick
    exact h.tick t
  | drops n hdrop =>
    obtain rfl : w = { pool.world with postedTasks := n } := hdrop
    exact h.moved (inv_of_eq h.inv rfl rfl rfl rfl rfl rfl) fun _ ↦
      rely_of_eq rfl rfl rfl rfl rfl rfl rfl rfl rfl
  | stops hstop =>
    obtain rfl : w = Shutdown.stop pool.world := hstop
    exact h.moved (consistent_stop h.inv) fun _ ↦ rely_stop _

theorem holds_next (h : (outline cfg).Holds S.pool) (hs : Shape cfg admits a S S') :
    (outline cfg).Holds S'.pool := by
  cases hs with
  | idle hw ht _ _ _ hworld => exact holds_aside h ht hworld
  | begins _ _ _ _ _ _ hspawn => exact holds_spawns h hspawn
  | goesOn _ _ _ _ _ _ _ _ hspawn => exact holds_spawns h hspawn
  | leaves _ _ _ _ _ _ hp => exact hp ▸ h
  | steps _ _ _ hp => exact h.step (fun _ _ _ _ ↦ trivial) hp

theorem holds_of_leads (h : (server cfg).Leads (Admitted admits) (started cfg threads metrics) S) :
    (outline cfg).Holds S.pool := by
  refine h.invariant (P := fun S ↦ (outline cfg).Holds S.pool) ?_ fun _ ih ha hs ↦ holds_next ih
    (shape_of_next hs ha)
  obtain ⟨cleanup, ackTimeout, heq⟩ := started_eq cfg threads metrics
  rw [heq]
  have hinit : (broker cfg).Reachable (fun _ _ ↦ True) (initial metrics) ⟨initial metrics, []⟩ := .init
  exact holds_of_reachable hinit

theorem startJob_isSome (S : Server) (k : ℕ) (handler : ℕ → Handler) (hj : chainOf j ≠ .send) :
    (S.startJob cfg k j handler).isSome := by
  cases j with
  | sendTask => exact absurd rfl hj
  | _ => rfl

theorem advance_isSome (S : Server) (k : ℕ) (h : Handler) : (advance cfg k S h).isSome := by
  cases h with
  | event phase =>
    cases phase with
    | updated =>
      change (S.startJob cfg k .processPendingSends fun i ↦ .event (.sending i)).isSome = true
      exact startJob_isSome S k _ (by decide)
    | receiving =>
      simp only [advance]
      split <;> rfl
    | reading identity =>
      simp only [advance]
      split
      · rfl
      · next data rest _ =>
          exact startJob_isSome (j := Round.job ⟨identity, data⟩) _ k _ (by simp [Round.job, chainOf])
    | _ => rfl
  | cleanup phase =>
    cases phase with
    | entered =>
      change (S.startJob cfg k .cleanupInactiveSessions fun i ↦ .cleanup (.passing i)).isSome = true
      exact startJob_isSome S k _ (by decide)
    | _ => rfl
  | ackTimeout phase =>
    cases phase with
    | entered =>
      change (S.startJob cfg k .checkExpiredAcks fun i ↦ .ackTimeout (.passing i)).isSome = true
      exact startJob_isSome S k _ (by decide)
    | _ => rfl
  | send i => rfl

/-- Unless a cleanup pass waits for itself, some worker can go on if any is busy. -/
theorem worker_goes_on (hw : Wired cfg S) (hh : (outline cfg).Holds S.pool)
    (ht : S.pool.world.terminated = false) (hn : ¬ WaitsForItself S.pool)
    (hk : S.workers[k]? = some (some h)) :
    ∃ k ch, (next cfg S (.work k ch)).isSome := by
  by_cases hall : h.thread?.all (fun i ↦ (S.pool.threads[i]?).any hasEnded) = true
  · refine ⟨k, {}, ?_⟩
    simp only [next, work, hk, if_pos hall]
    exact advance_isSome S k h
  · obtain ⟨i, hi⟩ : ∃ i, h.thread? = some i := by
      cases hthread : h.thread? with
      | none =>
        rw [hthread] at hall
        exact absurd rfl hall
      | some i => exact ⟨i, rfl⟩
    obtain ⟨t, hti, -⟩ := hw.jobs k h i hk hi
    rw [hi, Option.all_some, hti, Option.any_some] at hall
    obtain ⟨o, ho⟩ : ∃ o, S.pool.nextOp i = some o := by
      obtain ⟨j, code⟩ := t
      cases code with
      | ret u => exact absurd rfl hall
      | fail e => exact (hh.safe i _ hti S.pool.world .refl hh.inv).elim
      | op o code => exact ⟨o, by rw [Pool.nextOp, hti]⟩
    obtain ⟨i', ch, hstep⟩ := enabled_of_running hh hn ht ho
    obtain ⟨pool, hpool⟩ := Option.isSome_iff_exists.mp hstep
    obtain ⟨j, o', code, r, w', ht', -, -⟩ := Machine.step_cases hpool
    obtain ⟨k', h', hk', hi'⟩ := hw.held i' _ ht' fun hended ↦ by
      obtain ⟨u, hu⟩ := hended
      cases hu
    refine ⟨k', ch, ?_⟩
    have hnot : ¬ h'.thread?.all (fun i ↦ (S.pool.threads[i]?).any hasEnded) = true := by
      rw [hi', Option.all_some, ht', Option.any_some]
      exact Bool.false_ne_true
    simp only [next, work, hk']
    rw [if_neg hnot, hi', Option.bind_some, Option.isSome_map]
    exact hstep

theorem free_or_goes_on (hw : Wired cfg S) (hh : (outline cfg).Holds S.pool)
    (ht : S.pool.world.terminated = false) (hn : ¬ WaitsForItself S.pool) :
    (∀ x ∈ S.workers, x = none) ∨ ∃ k ch, (next cfg S (.work k ch)).isSome := by
  by_cases hfree : ∀ x ∈ S.workers, x = none
  · exact .inl hfree
  · push Not at hfree
    obtain ⟨x, hx, hne⟩ := hfree
    obtain ⟨g, rfl⟩ := Option.ne_none_iff_exists'.mp hne
    obtain ⟨k, hk⟩ := List.getElem?_of_mem hx
    exact .inr (worker_goes_on hw hh ht hn hk)

/-- The server never stops halfway: of the event and of each timer at most one
more job starts, and of the sends none; nothing is armed again but by a handler
that found the server running before; there is no endless run, however much
arrives; and until all workers are free some worker can go on, unless a cleanup
pass waits for itself. -/
theorem shutdown_finishes (h : (server cfg).Leads (Admitted admits) (started cfg threads metrics) S)
    (hr : S.running = false) :
    (∀ T, (server cfg).Leads (Admitted admits) S T → ∀ c,
      jobs T c ≤ jobs S c + c.last ∧ (armed T c = true → armed S c = true ∨ arming S c = true)) ∧
    (¬ ∃ f : ℕ → Server, f 0 = S ∧ ∀ n, Winds cfg admits (f (n + 1)) (f n)) ∧
    (S.pool.world.terminated = false → ¬ WaitsForItself S.pool →
      (∀ x ∈ S.workers, x = none) ∨ ∃ k ch, (next cfg S (.work k ch)).isSome) := by
  have hw := wired_of_leads h
  exact ⟨fun T hT ↦ little_left hw hr hT, winds_end hr, free_or_goes_on hw (holds_of_leads h)⟩

/-- The server is stopped while it handles bob's registration, alice's still
waits, and the cleanup timer is due. -/
theorem shutdown_finishes_bob : ∃ S : Server, S.running = false ∧
    S.workers = [some (.cleanup .entered), some (.event (.routing 1))] ∧ S.inbox.length = 2 ∧
    (∀ T, (server {}).Leads (Admitted fun _ ↦ True) S T → ∀ c,
      jobs T c ≤ jobs S c + c.last ∧ (armed T c = true → armed S c = true ∨ arming S c = true)) ∧
    (¬ ∃ f : ℕ → Server, f 0 = S ∧ ∀ n, Winds {} (fun _ ↦ True) (f (n + 1)) (f n)) ∧
    (S.pool.world.terminated = false → ¬ WaitsForItself S.pool →
      (∀ x ∈ S.workers, x = none) ∨ ∃ k ch, (next {} S (.work k ch)).isSome) := by
  have hrun : ((server {}).runs (Admitted fun _ ↦ True)
    (.arrive (multipart { type := .register, sender := [98] }) ::
      .arrive (multipart { type := .register, sender := [97] }) ::
      .dispatch 1 .event :: List.replicate 20 (.work 1 {}) ++
      [.tick ⟨0, 10 * ticksPerSecond⟩, .dispatch 0 .cleanup, .stop, .stop]) (started {} 2 none)).map (fun S ↦
        (S.running, S.workers, S.inbox.length)) =
      some (false, [some (.cleanup .entered), some (.event (.routing 1))], 2) := by decide +kernel
  obtain ⟨S, hS, hv⟩ := System.exists_leads hrun
  simp only [Prod.mk.injEq] at hv
  obtain ⟨hr, hw, hi⟩ := hv
  exact ⟨S, hr, hw, hi, shutdown_finishes hS hr⟩

end MessageBroker.EventLoop
