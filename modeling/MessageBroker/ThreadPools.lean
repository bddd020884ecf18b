import MessageBroker.ProofOutlines
import Mathlib.Logic.Hydra

namespace MessageBroker.ThreadPools

open ProgramTrees ProofOutlines

/-- A machine runs jobs, each in a thread of its own, over one shared state.
Threads are numbered in the order in which they start. -/
structure Machine (Op : Type) (Res : Op → Type) (W Job Choice Tick : Type) where
  exec : ℕ → Job → (o : Op) → Choice → W → Option (Res o × W)
  start : Job → W → Option W
  code : Job → Prog Op Res Unit
  tick : Tick → W → W

variable {Op : Type} {Res : Op → Type} {W Job Choice Tick : Type}

structure Thread (Op : Type) (Res : Op → Type) (Job : Type) where
  job : Job
  code : Prog Op Res Unit

def Thread.ended (t : Thread Op Res Job) : Prop := ∃ u, t.code = .ret u

structure Pool (Op : Type) (Res : Op → Type) (W Job : Type) where
  world : W
  threads : List (Thread Op Res Job)

def Pool.nextOp (s : Pool Op Res W Job) (i : ℕ) : Option Op :=
  match s.threads[i]? with
  | some ⟨_, .op o _⟩ => some o
  | _ => none

theorem getElem?_concat_cases {α : Type} {l : List α} {a b : α} {i : ℕ} (h : (l ++ [a])[i]? = some b) :
    l[i]? = some b ∨ i = l.length ∧ b = a := by
  rcases Nat.lt_trichotomy i l.length with hi | rfl | hi
  · rw [List.getElem?_append_left hi] at h
    exact .inl h
  · rw [List.getElem?_concat_length] at h
    exact .inr ⟨rfl, (Option.some.inj h).symm⟩
  · rw [List.getElem?_eq_none (by simp; omega)] at h
    cases h

inductive Label (Job Choice Tick : Type)
  | start : Job → Label Job Choice Tick
  | step : ℕ → Choice → Label Job Choice Tick
  | tick : Tick → Label Job Choice Tick

/-- A condition on the operation that a step performs next, where `pick` selects it. -/
def Pool.OnNext {α : Type} (pick : Op → Option α) (P : ℕ → Choice → α → Prop) (s : Pool Op Res W Job) :
    Label Job Choice Tick → Prop
  | .step i c => ∀ a ∈ (s.nextOp i).bind pick, P i c a
  | .start _ | .tick _ => True

instance {α : Type} (pick : Op → Option α) (P : ℕ → Choice → α → Prop) [∀ i c a, Decidable (P i c a)]
    (s : Pool Op Res W Job) : (l : Label Job Choice Tick) → Decidable (s.OnNext pick P l)
  | .step i c => inferInstanceAs (Decidable (∀ a ∈ (s.nextOp i).bind pick, P i c a))
  | .start _ | .tick _ => instDecidableTrue

theorem Pool.OnNext.meets {α : Type} {pick : Op → Option α} {P : ℕ → Choice → α → Prop} {s : Pool Op Res W Job}
    {i : ℕ} {c : Choice} {o : Op} {a : α}
    (h : s.OnNext pick P (.step i c : Label Job Choice Tick)) (ho : s.nextOp i = some o) (ha : pick o = some a) :
    P i c a :=
  h a (by rw [ho, Option.bind_some, ha]; rfl)

namespace Machine

/-- One atomic step of the pool: a job starts, one thread performs its next
operation, or time passes. -/
def next (M : Machine Op Res W Job Choice Tick) (s : Pool Op Res W Job) :
    Label Job Choice Tick → Option (Pool Op Res W Job)
  | .start j => (M.start j s.world).map fun w ↦ ⟨w, s.threads ++ [⟨j, M.code j⟩]⟩
  | .step i c =>
    match s.threads[i]? with
    | some ⟨j, .op o k⟩ => (M.exec i j o c s.world).map fun r ↦ ⟨r.2, s.threads.set i ⟨j, k r.1⟩⟩
    | _ => none
  | .tick t => some ⟨M.tick t s.world, s.threads⟩

variable (M : Machine Op Res W Job Choice Tick)
variable (ok : Pool Op Res W Job → Label Job Choice Tick → Prop)

def runs [∀ s l, Decidable (ok s l)] :
    List (Label Job Choice Tick) → Pool Op Res W Job → Option (Pool Op Res W Job)
  | [], s => some s
  | l :: ls, s => if ok s l then (M.next s l).bind (runs ls) else none

/-- The pools that interleaved runs reach from `w₀` when every step satisfies `ok`. -/
inductive Reachable (w₀ : W) : Pool Op Res W Job → Prop
  | init : Reachable w₀ ⟨w₀, []⟩
  | next {s s' : Pool Op Res W Job} (l : Label Job Choice Tick) :
      Reachable w₀ s → ok s l → M.next s l = some s' → Reachable w₀ s'

/-- The pools that a run goes on to reach from `s`. -/
inductive Leads (s : Pool Op Res W Job) : Pool Op Res W Job → Prop
  | refl : Leads s s
  | next {s' s'' : Pool Op Res W Job} (l : Label Job Choice Tick) :
      Leads s s' → ok s' l → M.next s' l = some s'' → Leads s s''

variable {M ok} {w₀ : W} {s s' : Pool Op Res W Job}

theorem Reachable.leads (h : M.Reachable ok w₀ s) (hl : M.Leads ok s s') :
    M.Reachable ok w₀ s' := by
  induction hl with
  | refl => exact h
  | next l _ hok hs ih => exact .next l ih hok hs

theorem Leads.trans {s'' : Pool Op Res W Job} (h : M.Leads ok s s') (h' : M.Leads ok s' s'') :
    M.Leads ok s s'' := by
  induction h' with
  | refl => exact h
  | next l _ hok hs ih => exact .next l ih hok hs

theorem Reachable.mono {ok' : Pool Op Res W Job → Label Job Choice Tick → Prop}
    (h : M.Reachable ok w₀ s) (hok : ∀ s l, ok s l → ok' s l) : M.Reachable ok' w₀ s := by
  induction h with
  | init => exact .init
  | next l _ hl hs ih => exact .next l ih (hok _ _ hl) hs

theorem Leads.mono {ok' : Pool Op Res W Job → Label Job Choice Tick → Prop}
    (h : M.Leads ok s s') (hok : ∀ s l, ok s l → ok' s l) : M.Leads ok' s s' := by
  induction h with
  | refl => exact .refl
  | next l _ hl hs ih => exact .next l ih (hok _ _ hl) hs

theorem leads_of_runs [∀ s l, Decidable (ok s l)] (ls : List (Label Job Choice Tick))
    (hr : M.runs ok ls s = some s') : M.Leads ok s s' := by
  induction ls generalizing s with
  | nil => exact Option.some.inj hr ▸ .refl
  | cons l ls ih =>
    rw [Machine.runs] at hr
    split at hr
    · next hl =>
      obtain ⟨s₁, hs, hr⟩ := Option.bind_eq_some_iff.mp hr
      exact (Leads.refl.next l hl hs).trans (ih hr)
    · cases hr

theorem Reachable.runs [∀ s l, Decidable (ok s l)] (h : M.Reachable ok w₀ s)
    (ls : List (Label Job Choice Tick)) (hr : M.runs ok ls s = some s') :
    M.Reachable ok w₀ s' := h.leads (leads_of_runs ls hr)

theorem step_cases {i : ℕ} {c : Choice} (h : M.next s (.step i c) = some s') :
    ∃ j o k r w', s.threads[i]? = some ⟨j, .op o k⟩ ∧ M.exec i j o c s.world = some (r, w') ∧
      s' = ⟨w', s.threads.set i ⟨j, k r⟩⟩ := by
  simp only [next] at h
  split at h
  · next j o k ht =>
    obtain ⟨⟨r, w'⟩, he, rfl⟩ := Option.map_eq_some_iff.mp h
    exact ⟨j, o, k, r, w', ht, he, rfl⟩
  · cases h

theorem start_cases {j : Job} (h : M.next s (.start j) = some s') :
    ∃ w', M.start j s.world = some w' ∧ s' = ⟨w', s.threads ++ [⟨j, M.code j⟩]⟩ := by
  obtain ⟨w', hs, rfl⟩ := Option.map_eq_some_iff.mp h
  exact ⟨w', hs, rfl⟩

theorem job_step {i : ℕ} {c : Choice} (h : M.next s (.step i c) = some s') (i' : ℕ) :
    (s'.threads[i']?).map (·.job) = (s.threads[i']?).map (·.job) := by
  obtain ⟨j, o, k, r, w', ht, -, rfl⟩ := step_cases h
  by_cases hi : i = i'
  · subst hi
    rw [ht, List.getElem?_set_self (List.getElem?_eq_some_iff.mp ht).1]
    rfl
  · rw [List.getElem?_set_ne hi]

theorem job_next {l : Label Job Choice Tick} {i : ℕ} {t : Thread Op Res Job}
    (h : M.next s l = some s') (ht : s.threads[i]? = some t) :
    ∃ t', s'.threads[i]? = some t' ∧ t'.job = t.job := by
  cases l with
  | start j =>
    obtain ⟨w', -, rfl⟩ := start_cases h
    refine ⟨t, ?_, rfl⟩
    rw [List.getElem?_append_left (List.getElem?_eq_some_iff.mp ht).1]
    exact ht
  | step i' c =>
    have hjob := job_step h i
    rw [ht] at hjob
    exact Option.map_eq_some_iff.mp hjob
  | tick t' => exact Option.some.inj h ▸ ⟨t, ht, rfl⟩

theorem nextOp_step {i i' : ℕ} {c : Choice} (h : M.next s (.step i c) = some s') (hi : i' ≠ i) :
    s'.nextOp i' = s.nextOp i' := by
  obtain ⟨j, o, k, r, w', -, -, rfl⟩ := step_cases h
  simp only [Pool.nextOp, List.getElem?_set_ne (Ne.symm hi)]

theorem nextOp_start {i : ℕ} {j : Job} {o : Op} (h : M.next s (.start j) = some s')
    (ho : s.nextOp i = some o) : s'.nextOp i = some o := by
  obtain ⟨w', -, rfl⟩ := start_cases h
  have hi : i < s.threads.length := by
    by_contra hi
    simp only [Pool.nextOp, List.getElem?_eq_none (Nat.le_of_not_lt hi)] at ho
    cases ho
  simpa only [Pool.nextOp, List.getElem?_append_left hi] using ho

/-- The pool `s'` comes from `s` by a step of one of its threads. -/
def Steps (M : Machine Op Res W Job Choice Tick) (s' s : Pool Op Res W Job) : Prop :=
  ∃ i c, M.next s (.step i c) = some s'

/-- What remains of a thread after its next operation. -/
def Continues (t' t : Thread Op Res Job) : Prop :=
  ∃ o k r, t.code = .op o k ∧ t'.code = k r

theorem continues_wf : WellFounded (@Continues Op Res Job) := by
  have hcode : ∀ (p : Prog Op Res Unit) (t : Thread Op Res Job), t.code = p → Acc Continues t := by
    intro p
    induction p with
    | ret | fail =>
      refine fun t ht ↦ ⟨_, fun t' ⟨o, k, r, ho, _⟩ ↦ ?_⟩
      cases ht.symm.trans ho
    | op o k ih =>
      refine fun t ht ↦ ⟨_, fun t' ⟨o', k', r, ho, hk⟩ ↦ ?_⟩
      cases ht.symm.trans ho
      exact ih r t' hk
  exact ⟨fun t ↦ hcode t.code t rfl⟩

theorem cutExpand_set {α : Type} {R : α → α → Prop} {l : List α} {i : ℕ} {a b : α}
    (ha : l[i]? = some a) (h : R b a) :
    Relation.CutExpand R (l.set i b : Multiset α) (l : Multiset α) := by
  obtain ⟨hi, rfl⟩ := List.getElem?_eq_some_iff.mp ha
  refine ⟨{b}, l[i], by simpa using h, ?_⟩
  rw [List.set_eq_take_append_cons_drop, if_pos hi]
  have hl : (l : Multiset α) = ↑(l.take i ++ l[i] :: l.drop (i + 1)) := by
    rw [List.cons_getElem_drop_succ, List.take_append_drop]
  rw [hl]
  simp only [← Multiset.coe_add, ← Multiset.cons_coe, ← Multiset.singleton_add]
  ac_rfl

theorem steps_wf (M : Machine Op Res W Job Choice Tick) : WellFounded M.Steps := by
  refine Subrelation.wf (fun {s' s} h ↦ ?_)
    (InvImage.wf (fun s : Pool Op Res W Job ↦ (s.threads : Multiset (Thread Op Res Job)))
      continues_wf.cutExpand)
  obtain ⟨i, c, hs⟩ := h
  obtain ⟨j, o, k, r, w', ht, -, rfl⟩ := step_cases hs
  exact cutExpand_set ht ⟨o, k, r, rfl, rfl⟩

end Machine

/-- A rely-guarantee outline for every job of a machine. Each operation that a
thread is allowed to perform keeps the invariant and stays within what every
other thread relies on; `fresh` describes a thread that owns nothing. -/
structure Outline (M : Machine Op Res W Job Choice Tick) where
  admits : Op → Choice → Prop
  rely : ℕ → W → W → Prop
  inv : W → Prop
  allowed : ℕ → Job → Op → W → Prop
  fresh : ℕ → W → Prop
  rely_refl : ∀ i w, rely i w w
  rely_trans : ∀ i {u v w}, rely i u v → rely i v w → rely i u w
  step : ∀ {i j o c w r w'}, inv w → allowed i j o w → admits o c →
    M.exec i j o c w = some (r, w') → inv w' ∧ ∀ i', i' ≠ i → rely i' w w'
  start : ∀ {j w w'}, inv w → M.start j w = some w' → inv w' ∧ ∀ i, rely i w w'
  tick : ∀ {t w}, inv w → inv (M.tick t w) ∧ ∀ i, rely i w (M.tick t w)
  fresh_rely : ∀ {i w w'}, fresh i w → rely i w w' → fresh i w'

namespace Outline

variable {M : Machine Op Res W Job Choice Tick} (O : Outline M)

def setting (i : ℕ) (j : Job) : Setting Op Res W Choice where
  exec := M.exec i j
  admits := O.admits
  rely := O.rely i
  inv := O.inv
  allowed := O.allowed i j
  rely_refl := O.rely_refl i
  rely_trans := O.rely_trans i

/-- What the outline establishes of a pool. -/
structure Holds (s : Pool Op Res W Job) : Prop where
  inv : O.inv s.world
  safe : ∀ (i : ℕ) (t : Thread Op Res Job), s.threads[i]? = some t →
    Safe (O.setting i t.job) (fun _ ↦ O.fresh i) (fun _ _ ↦ False) t.code s.world
  fresh : ∀ i, s.threads.length ≤ i → O.fresh i s.world

variable {O} {ok : Pool Op Res W Job → Label Job Choice Tick → Prop} {w₀ : W}
  {s s' : Pool Op Res W Job}

theorem Holds.allowed (h : O.Holds s) {i : ℕ} {j : Job} {o : Op} {k : Res o → Prog Op Res Unit}
    (ht : s.threads[i]? = some ⟨j, .op o k⟩) : O.allowed i j o s.world :=
  (h.safe i _ ht s.world (O.rely_refl i _) h.inv).1

theorem Holds.running (h : O.Holds s) {i : ℕ} (hi : ¬ O.fresh i s.world) : ∃ o, s.nextOp i = some o := by
  cases ht : s.threads[i]? with
  | none => exact absurd (h.fresh i (List.getElem?_eq_none_iff.mp ht)) hi
  | some t =>
    obtain ⟨j, code⟩ := t
    have hsafe := h.safe i _ ht
    cases code with
    | ret u => exact absurd (hsafe s.world (O.rely_refl i _) h.inv) hi
    | fail e => exact (hsafe s.world (O.rely_refl i _) h.inv).elim
    | op o k => exact ⟨o, by rw [Pool.nextOp, ht]⟩

theorem Holds.fresh_of_ended (h : O.Holds s) {i : ℕ} {t : Thread Op Res Job} (ht : s.threads[i]? = some t)
    (hend : t.ended) : O.fresh i s.world := by
  obtain ⟨u, hu⟩ := hend
  have hsafe := h.safe i t ht
  rw [hu] at hsafe
  exact hsafe s.world (O.rely_refl i _) h.inv

theorem Holds.step (h : O.Holds s) {i : ℕ} {c : Choice}
    (hc : ∀ j o k, s.threads[i]? = some ⟨j, .op o k⟩ → O.admits o c)
    (hs : M.next s (.step i c) = some s') : O.Holds s' := by
  obtain ⟨j, o, k, r, w', ht, he, rfl⟩ := Machine.step_cases hs
  have hi : i < s.threads.length := (List.getElem?_eq_some_iff.mp ht).1
  have ha := hc j o k ht
  obtain ⟨hal, hk⟩ := h.safe i _ ht s.world (O.rely_refl i _) h.inv
  obtain ⟨hinv, hrely⟩ := O.step h.inv hal ha he
  refine ⟨hinv, fun i' t ht' ↦ ?_, fun i' hi' ↦ ?_⟩
  · by_cases hii : i' = i
    · subst hii
      rw [List.getElem?_set_self hi] at ht'
      obtain rfl := Option.some.inj ht'
      exact hk c r w' ha he
    · rw [List.getElem?_set_ne (Ne.symm hii)] at ht'
      exact (h.safe i' t ht').after_rely (hrely i' hii)
  · rw [List.length_set] at hi'
    exact O.fresh_rely (h.fresh i' hi') (hrely i' (by omega))

theorem Holds.start (h : O.Holds s) {j : Job}
    (hcode : ∀ w, O.inv w → O.fresh s.threads.length w →
      Safe (O.setting s.threads.length j) (fun _ ↦ O.fresh s.threads.length) (fun _ _ ↦ False)
        (M.code j) w)
    (hs : M.next s (.start j) = some s') : O.Holds s' := by
  obtain ⟨w', hw, rfl⟩ := Machine.start_cases hs
  obtain ⟨hinv, hrely⟩ := O.start h.inv hw
  refine ⟨hinv, fun i t ht ↦ ?_, fun i hi ↦ ?_⟩
  · rcases getElem?_concat_cases ht with ht | ⟨rfl, rfl⟩
    · exact (h.safe i t ht).after_rely (hrely i)
    · exact hcode w' hinv (O.fresh_rely (h.fresh _ (Nat.le_refl _)) (hrely _))
  · rw [List.length_append, List.length_singleton] at hi
    exact O.fresh_rely (h.fresh i (by omega)) (hrely i)

theorem Holds.tick (h : O.Holds s) (t : Tick) : O.Holds ⟨M.tick t s.world, s.threads⟩ := by
  obtain ⟨hinv, hrely⟩ := O.tick (t := t) h.inv
  exact ⟨hinv, fun i t' ht ↦ (h.safe i t' ht).after_rely (hrely i),
    fun i hi ↦ O.fresh_rely (h.fresh i hi) (hrely i)⟩

/-- The shared state changes as every thread has relied on that it may. -/
theorem Holds.moved (h : O.Holds s) {w : W} (hinv : O.inv w) (hrely : ∀ i, O.rely i s.world w) :
    O.Holds ⟨w, s.threads⟩ :=
  ⟨hinv, fun i t ht ↦ (h.safe i t ht).after_rely (hrely i), fun i hi ↦ O.fresh_rely (h.fresh i hi) (hrely i)⟩

/-- Whatever the interleaving, the invariant holds in every state reached and
every thread stays within its outline. -/
theorem reachable (hinit : O.inv w₀) (hfresh : ∀ i, O.fresh i w₀)
    (hadm : ∀ s i c j o k, ok s (.step i c) → s.threads[i]? = some ⟨j, .op o k⟩ → O.admits o c)
    (hcode : ∀ i j w, O.inv w → O.fresh i w →
      Safe (O.setting i j) (fun _ ↦ O.fresh i) (fun _ _ ↦ False) (M.code j) w)
    (h : M.Reachable ok w₀ s) : O.Holds s := by
  induction h with
  | init => exact ⟨hinit, fun i t ht ↦ by simp at ht, fun i _ ↦ hfresh i⟩
  | next l _ hl hs ih =>
    cases l with
    | start j => exact ih.start (hcode _ j) hs
    | step i c => exact ih.step (hadm _ i c · · · hl ·) hs
    | tick t => exact Option.some.inj hs ▸ ih.tick t

theorem Holds.quiet (h : O.Holds s) (he : ∀ t ∈ s.threads, t.ended) (i : ℕ) :
    O.fresh i s.world := by
  by_cases hi : i < s.threads.length
  · obtain ⟨u, hu⟩ := he _ (List.getElem_mem hi)
    have hs := h.safe i _ (List.getElem?_eq_getElem hi)
    rw [hu] at hs
    exact hs s.world (O.rely_refl i _) h.inv
  · exact h.fresh i (by omega)

end Outline

end MessageBroker.ThreadPools
