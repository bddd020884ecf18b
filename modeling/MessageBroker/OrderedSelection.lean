import Mathlib.Data.List.Pairwise
import Mathlib.Data.List.Sort

namespace MessageBroker.OrderedSelection

variable {α : Type}

/-- The order of a selection sorted by `key`. Equal keys come in an order the
database chooses, given here by `tie`. -/
def Precedes (key : α → ℤ) (tie : α → ℕ) (a b : α) : Prop :=
  key a < key b ∨ key a = key b ∧ tie a ≤ tie b

variable (key : α → ℤ) (tie : α → ℕ)

instance : DecidableRel (Precedes key tie) := fun _ _ ↦ inferInstanceAs (Decidable (_ ∨ _))

instance : Std.Total (Precedes key tie) where
  total a b := by
    unfold Precedes
    omega

instance : IsTrans α (Precedes key tie) where
  trans a b c hab hbc := by
    unfold Precedes at *
    omega

def orderBy (l : List α) : List α := l.insertionSort (Precedes key tie)

/-- The row that a selection sorted by descending `key` and limited to one returns. -/
def latest (l : List α) : Option α := (orderBy (fun a ↦ -key a) tie l).head?

variable {key tie} {l : List α} {a b : α}

@[simp] theorem mem_orderBy : a ∈ orderBy key tie l ↔ a ∈ l := List.mem_insertionSort _

theorem orderBy_perm (l : List α) : (orderBy key tie l).Perm l := List.perm_insertionSort _ l

theorem latest_eq_none : latest key tie l = none ↔ l = [] := by
  rw [latest, List.head?_eq_none_iff, ← List.length_eq_zero_iff, orderBy, List.length_insertionSort,
    List.length_eq_zero_iff]

theorem mem_of_latest (h : latest key tie l = some a) : a ∈ l :=
  mem_orderBy.mp (List.mem_of_mem_head? h)

theorem head_precedes (h : (orderBy key tie l).head? = some a) (hb : b ∈ l) (hne : a ≠ b) :
    Precedes key tie a b := by
  obtain ⟨rest, hr⟩ := List.head?_eq_some_iff.mp h
  have hs : (orderBy key tie l).Pairwise (Precedes key tie) := List.pairwise_insertionSort _ l
  rw [hr] at hs
  have hb' : b ∈ a :: rest := hr ▸ mem_orderBy.mpr hb
  rcases List.mem_cons.mp hb' with rfl | hb'
  · exact absurd rfl hne
  · exact (List.pairwise_cons.mp hs).1 b hb'

theorem le_of_latest (h : latest key tie l = some a) (hb : b ∈ l) : key b ≤ key a := by
  by_cases hab : a = b
  · exact hab ▸ le_rfl
  · have hp := head_precedes h hb hab
    simp only [Precedes] at hp
    omega

/-- Each element with the greatest key is the one returned for some choice
among equal keys. -/
theorem latest_of_first (ha : a ∈ l) (hmax : ∀ b ∈ l, key b ≤ key a)
    (htie : ∀ b ∈ l, b ≠ a → tie a < tie b) : latest key tie l = some a := by
  cases h : latest key tie l with
  | none => simp [latest_eq_none.mp h] at ha
  | some b =>
    by_cases hab : b = a
    · rw [hab]
    · have hb := mem_of_latest h
      have hp := head_precedes h ha hab
      have hk := hmax b hb
      have ht := htie b hb hab
      simp only [Precedes] at hp
      omega

theorem pairwise_related {R : α → α → Prop} (h : l.Pairwise R) (ha : a ∈ l) (hb : b ∈ l) (hne : a ≠ b) :
    R a b ∨ R b a := by
  have : Std.Symm fun x y ↦ R x y ∨ R y x := ⟨fun _ _ ↦ Or.symm⟩
  have h : l.Pairwise fun x y ↦ R x y ∨ R y x := h.imp Or.inl
  exact h.forall ha hb hne

/-- The selection comes in the order of `f`, whatever the choice among equal keys,
exactly when the keys grow with `f`. -/
theorem orderBy_increasing_iff {f : α → ℕ} (hf : (l.map f).Nodup) :
    (∀ t : ℕ → ℕ, (orderBy key (fun a ↦ t (f a)) l).Pairwise fun a b ↦ f a < f b) ↔
      ∀ a ∈ l, ∀ b ∈ l, f a < f b → key a < key b := by
  have hsorted (t : ℕ → ℕ) :
      (orderBy key (fun a ↦ t (f a)) l).Pairwise (Precedes key fun a ↦ t (f a)) :=
    List.pairwise_insertionSort _ l
  constructor
  · intro h a ha b hb hab
    let t : ℕ → ℕ := fun n ↦ if n = f b then 0 else 1
    have hta : t (f a) = 1 := if_neg (Nat.ne_of_lt hab)
    have htb : t (f b) = 0 := if_pos rfl
    have hne : a ≠ b := fun heq ↦ Nat.lt_irrefl _ (heq ▸ hab)
    -- among equal keys `b` would come first
    obtain ⟨hp, -⟩ | ⟨-, hlt⟩ :=
      pairwise_related ((hsorted t).and (h t)) (mem_orderBy.mpr ha) (mem_orderBy.mpr hb) hne
    · simp only [Precedes, hta, htb] at hp
      omega
    · omega
  · intro h t
    have hnodup : (orderBy key (fun a ↦ t (f a)) l).Pairwise fun a b ↦ f a ≠ f b :=
      List.pairwise_map.mp (((orderBy_perm l).map f).nodup_iff.mpr hf)
    refine ((hsorted t).and hnodup).imp_of_mem fun {a b} ha hb hab ↦ ?_
    obtain ⟨hp, hne⟩ := hab
    have hle : key a ≤ key b := by
      simp only [Precedes] at hp
      omega
    rcases Nat.lt_or_gt_of_ne hne with hlt | hlt
    · exact hlt
    · have := h b (mem_orderBy.mp hb) a (mem_orderBy.mp ha) hlt
      omega

/-- `a` is one of the elements with the greatest key. -/
def Greatest (key : α → ℤ) (l : List α) (a : α) : Prop := a ∈ l ∧ ∀ b ∈ l, key b ≤ key a

theorem greatest_of_latest (h : latest key tie l = some a) : Greatest key l a :=
  ⟨mem_of_latest h, fun _ hb ↦ le_of_latest h hb⟩

theorem exists_latest {f : α → ℕ} (hinj : ∀ b ∈ l, f b = f a → b = a) (ha : Greatest key l a) :
    ∃ t : ℕ → ℕ, latest key (fun b ↦ t (f b)) l = some a := by
  refine ⟨fun n ↦ if n = f a then 0 else 1, latest_of_first ha.1 ha.2 fun b hb hne ↦ ?_⟩
  have hfb : f b ≠ f a := fun h ↦ hne (hinj b hb h)
  simp only [hfb, if_true, if_false, Nat.one_pos]

end MessageBroker.OrderedSelection
