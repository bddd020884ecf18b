import Mathlib.Data.Option.Basic
import Mathlib.Order.WellFounded

namespace MessageBroker.TransitionSystems

/-- A system takes a labelled step from a state, if the label is possible there. -/
structure System (σ ℓ : Type) where
  next : σ → ℓ → Option σ

namespace System

variable {σ ℓ : Type} (M : System σ ℓ) (ok : σ → ℓ → Prop)

/-- The states that a run goes on to reach from `s` when every step satisfies `ok`. -/
inductive Leads (s : σ) : σ → Prop
  | refl : Leads s s
  | next {s' s'' : σ} (l : ℓ) : Leads s s' → ok s' l → M.next s' l = some s'' → Leads s s''

def runs [∀ s l, Decidable (ok s l)] : List ℓ → σ → Option σ
  | [], s => some s
  | l :: ls, s => if ok s l then (M.next s l).bind (runs ls) else none

/-- A step that counts, and the quiet ones before it. -/
def Advances (quiet counts : σ → ℓ → Prop) (s' s : σ) : Prop :=
  ∃ t l, M.Leads quiet s t ∧ counts t l ∧ M.next t l = some s'

variable {M ok} {s s' s'' : σ}

theorem Leads.trans (h : M.Leads ok s s') (h' : M.Leads ok s' s'') : M.Leads ok s s'' := by
  induction h' with
  | refl => exact h
  | next l _ hok hs ih => exact .next l ih hok hs

theorem Leads.mono {ok' : σ → ℓ → Prop} (h : M.Leads ok s s') (hok : ∀ s l, ok s l → ok' s l) :
    M.Leads ok' s s' := by
  induction h with
  | refl => exact .refl
  | next l _ hl hs ih => exact .next l ih (hok _ _ hl) hs

/-- What holds at first, and is kept by the steps of a run, holds at its end. -/
theorem Leads.invariant {P : σ → Prop} (h : M.Leads ok s s') (hinit : P s)
    (hstep : ∀ {t t' l}, M.Leads ok s t → P t → ok t l → M.next t l = some t' → P t') : P s' := by
  induction h with
  | refl => exact hinit
  | next l hl hok hs ih => exact hstep hl ih hok hs

section Measures

variable {α : Type} {r : α → α → Prop} {m : σ → α} {P : σ → Prop} {quiet counts : σ → ℓ → Prop}

theorem Leads.descends (h : M.Leads quiet s s') (hs : P s)
    (hquiet : ∀ {t t' l}, P t → quiet t l → M.next t l = some t' → P t' ∧ (r (m t') (m t) ∨ m t' = m t)) :
    P s' ∧ Relation.ReflTransGen r (m s') (m s) := by
  refine h.invariant (P := fun t ↦ P t ∧ Relation.ReflTransGen r (m t) (m s)) ⟨hs, .refl⟩
    fun _ ⟨ht, ih⟩ hl hn ↦ ?_
  obtain ⟨ht', hless | heq⟩ := hquiet ht hl hn
  · exact ⟨ht', .head hless ih⟩
  · exact ⟨ht', heq ▸ ih⟩

/-- When every step that counts goes down in a well-founded order, and no quiet
one goes up, the steps that count come to an end. -/
theorem not_endless (hr : WellFounded r) (hs : P s)
    (hquiet : ∀ {t t' l}, P t → quiet t l → M.next t l = some t' → P t' ∧ (r (m t') (m t) ∨ m t' = m t))
    (hcounts : ∀ {t t' l}, P t → counts t l → M.next t l = some t' → P t' ∧ r (m t') (m t)) :
    ¬ ∃ f : ℕ → σ, f 0 = s ∧ ∀ n, M.Advances quiet counts (f (n + 1)) (f n) := by
  rintro ⟨f, rfl, hf⟩
  have down (n : ℕ) (h : P (f n)) : P (f (n + 1)) ∧ Relation.TransGen r (m (f (n + 1))) (m (f n)) := by
    obtain ⟨t, l, hleads, hl, hn⟩ := hf n
    obtain ⟨ht, hrest⟩ := hleads.descends h hquiet
    obtain ⟨hnext, hless⟩ := hcounts ht hl hn
    exact ⟨hnext, .head' hless hrest⟩
  have hP (n : ℕ) : P (f n) := by
    induction n with
    | zero => exact hs
    | succ n ih => exact (down n ih).1
  obtain ⟨n, hn⟩ := @WellFounded.not_rel_apply_succ _ _ ⟨InvImage.wf m hr.transGen⟩ f
  exact hn (down n (hP n)).2

end Measures

theorem leads_of_runs [∀ s l, Decidable (ok s l)] (ls : List ℓ) (h : M.runs ok ls s = some s') :
    M.Leads ok s s' := by
  induction ls generalizing s with
  | nil => exact Option.some.inj h ▸ .refl
  | cons l ls ih =>
    rw [runs] at h
    split at h
    · next hl =>
      obtain ⟨s₁, hs, h⟩ := Option.bind_eq_some_iff.mp h
      exact (Leads.refl.next l hl hs).trans (ih h)
    · cases h

theorem exists_leads [∀ s l, Decidable (ok s l)] {α : Type} {f : σ → α} {v : α} {ls : List ℓ}
    (h : (M.runs ok ls s).map f = some v) : ∃ s', M.Leads ok s s' ∧ f s' = v := by
  obtain ⟨s', hs, hv⟩ := Option.map_eq_some_iff.mp h
  exact ⟨s', leads_of_runs ls hs, hv⟩

theorem exists_leads_leads [∀ s l, Decidable (ok s l)] {α : Type} {f : σ → σ → α} {v : α} {ls ls' : List ℓ}
    (h : ((M.runs ok ls s).bind fun t ↦ (M.runs ok ls' t).map (f t)) = some v) :
    ∃ t t', M.Leads ok s t ∧ M.Leads ok t t' ∧ f t t' = v := by
  obtain ⟨t, ht, h⟩ := Option.bind_eq_some_iff.mp h
  obtain ⟨t', ht', hv⟩ := exists_leads h
  exact ⟨t, t', leads_of_runs ls ht, ht', hv⟩

end System

end MessageBroker.TransitionSystems
