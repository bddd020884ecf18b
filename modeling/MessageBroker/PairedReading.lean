import Mathlib.Algebra.Group.Nat.Even
import Mathlib.Data.List.Basic

namespace MessageBroker.PairedReading

variable {α β : Type*}

/-- A list read two by two; an element without a partner is dropped. -/
def pairs : List α → List (α × α)
  | [] => []
  | [_] => []
  | a :: b :: l => (a, b) :: pairs l

/-- The element without a partner. -/
def leftover : List α → List α
  | [] => []
  | [a] => [a]
  | _ :: _ :: l => leftover l

/-- The first, the third, the fifth element and so on. -/
def everyOther : List α → List α
  | [] => []
  | [a] => [a]
  | a :: _ :: l => a :: everyOther l

/-- What comes later is read as if the leftover stood before it. -/
theorem pairs_append (l l' : List α) : pairs (l ++ l') = pairs l ++ pairs (leftover l ++ l') := by
  induction l using leftover.induct with
  | case1 => rfl
  | case2 a => rfl
  | case3 a b l ih => exact congrArg ((a, b) :: ·) ih

theorem leftover_eq_nil {l : List α} : leftover l = [] ↔ Even l.length := by
  induction l using leftover.induct with
  | case1 => simp [leftover]
  | case2 a => simp [leftover]
  | case3 a b l ih =>
    rw [leftover, ih, List.length_cons, List.length_cons, Nat.even_add_one, Nat.even_add_one, not_not]

theorem leftover_cases (l : List α) : leftover l = [] ∨ ∃ a ∈ l, leftover l = [a] := by
  induction l using leftover.induct with
  | case1 => exact .inl rfl
  | case2 a => exact .inr ⟨a, List.mem_cons_self .., rfl⟩
  | case3 a b l ih =>
    rcases ih with h | ⟨c, hc, h⟩
    · exact .inl h
    · exact .inr ⟨c, List.mem_cons_of_mem _ (List.mem_cons_of_mem _ hc), h⟩

theorem map_snd_pairs (a : α) (l : List α) : (pairs (a :: l)).map Prod.snd = everyOther l := by
  induction l using everyOther.induct generalizing a with
  | case1 => rfl
  | case2 b => rfl
  | case3 b c l ih => exact congrArg (b :: ·) (ih c)

theorem everyOther_map (f : α → β) (l : List α) : everyOther (l.map f) = (everyOther l).map f := by
  induction l using everyOther.induct with
  | case1 => rfl
  | case2 a => rfl
  | case3 a b l ih => exact congrArg (f a :: ·) ih

theorem mem_of_mem_pairs {l : List α} {p : α × α} (h : p ∈ pairs l) : p.1 ∈ l ∧ p.2 ∈ l.tail := by
  induction l using pairs.induct with
  | case1 => cases h
  | case2 a => cases h
  | case3 a b l ih =>
    rcases List.mem_cons.mp h with rfl | h
    · exact ⟨List.mem_cons_self .., List.mem_cons_self ..⟩
    · obtain ⟨h₁, h₂⟩ := ih h
      exact ⟨List.mem_cons_of_mem _ (List.mem_cons_of_mem _ h₁),
        List.mem_cons_of_mem _ (List.mem_of_mem_tail h₂)⟩

/-- Two lists that consist of a part that satisfies `p` and one that does not. -/
theorem append_eq_append_iff_of_separated {p : α → Prop} {l m l' m' : List α} (hl : ∀ a ∈ l, p a)
    (hl' : ∀ a ∈ l', p a) (hm : ∀ a ∈ m, ¬ p a) (hm' : ∀ a ∈ m', ¬ p a) :
    l ++ m = l' ++ m' ↔ l = l' ∧ m = m' := by
  classical
  refine ⟨fun h ↦ ?_, fun h ↦ by rw [h.1, h.2]⟩
  have hfilter {l m : List α} (hl : ∀ a ∈ l, p a) (hm : ∀ a ∈ m, ¬ p a) :
      (l ++ m).filter (fun a ↦ decide (p a)) = l := by
    rw [List.filter_append, List.filter_eq_self.mpr (by simpa using hl),
      List.filter_eq_nil_iff.mpr (by simpa using hm), List.append_nil]
  have hfirst : l = l' := by rw [← hfilter hl hm, h, hfilter hl' hm']
  exact ⟨hfirst, List.append_cancel_left (hfirst ▸ h)⟩

end MessageBroker.PairedReading
