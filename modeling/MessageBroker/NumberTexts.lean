import MessageBroker.ByteStrings
import Mathlib.Data.Nat.Digits.Lemmas

namespace MessageBroker.NumberTexts

open ByteStrings

def ascii (s : String) : Bytes := s.toList.map fun c ↦ .ofNat c.toNat

def isSpace (b : UInt8) : Bool := b = 32 || 9 ≤ b && b ≤ 13

def isDigit (b : UInt8) : Bool := 48 ≤ b && b ≤ 57

def value (ds : Bytes) : ℕ := ds.foldl (fun n d ↦ 10 * n + (d.toNat - 48)) 0

inductive Sign
  | none
  | plus
  | minus
deriving DecidableEq

def Sign.text : Sign → Bytes
  | .none => []
  | .plus => [43]
  | .minus => [45]

def Sign.apply : Sign → ℕ → ℤ
  | .minus, n => -n
  | _, n => n

/-- The sign at the front of a text, and what follows it. -/
def splitSign (s : Bytes) : Sign × Bytes :=
  match s with
  | [] => (.none, [])
  | b :: rest => if b = 45 then (.minus, rest) else if b = 43 then (.plus, rest) else (.none, s)

/-- The sign and the digits of the number at the front of a text, if there is
one: white space is skipped, and what follows the last digit is ignored. -/
def leadingNumber (s : Bytes) : Option (Sign × Bytes) :=
  let (sign, rest) := splitSign (s.dropWhile isSpace)
  let ds := rest.takeWhile isDigit
  if ds = [] then none else some (sign, ds)

inductive ConversionError
  | invalidArgument
  | outOfRange
deriving DecidableEq

/-- The conversion of a text to a signed number between the given bounds. -/
def toSigned (lo hi : ℤ) (s : Bytes) : Except ConversionError ℤ :=
  match leadingNumber s with
  | none => .error .invalidArgument
  | some (sign, ds) =>
    if lo ≤ sign.apply (value ds) ∧ sign.apply (value ds) ≤ hi then .ok (sign.apply (value ds))
    else .error .outOfRange

/-- The conversion to an unsigned number of 64 bits. A negative number wraps around. -/
def toUnsigned64 (s : Bytes) : Except ConversionError UInt64 :=
  match leadingNumber s with
  | none => .error .invalidArgument
  | some (sign, ds) =>
    if value ds < 2 ^ 64 then
      .ok (if sign = .minus then -.ofNat (value ds) else .ofNat (value ds))
    else .error .outOfRange

/-- A text that consists of white space, a sign, digits, and a rest that does
not begin with another digit. -/
structure Reads (s : Bytes) (sign : Sign) (ds : Bytes) : Prop where
  split : ∃ spaces rest, s = spaces ++ (sign.text ++ (ds ++ rest)) ∧ (∀ b ∈ spaces, isSpace b = true) ∧
    rest.head?.all (!isDigit ·) = true
  digits : ∀ d ∈ ds, isDigit d = true
  nonempty : ds ≠ []

variable {s ds rest : Bytes} {sign : Sign} {b : UInt8} {n : ℕ} {x lo hi : ℤ}

theorem not_space_of_digit (h : isDigit b = true) : isSpace b = false := by
  simp only [isDigit, isSpace, Bool.and_eq_true, decide_eq_true_eq, Bool.or_eq_false_iff, Bool.and_eq_false_iff,
    decide_eq_false_iff_not, ← UInt8.toNat_inj, UInt8.le_iff_toNat_le, UInt8.reduceToNat] at h ⊢
  omega

theorem not_sign_of_digit (h : isDigit b = true) : b ≠ 45 ∧ b ≠ 43 := by
  constructor <;> rintro rfl <;> cases h

theorem takeWhile_append_of_head {p : UInt8 → Bool} (hds : ∀ d ∈ ds, p d = true)
    (hrest : rest.head?.all (!p ·) = true) : (ds ++ rest).takeWhile p = ds := by
  rw [List.takeWhile_append_of_pos hds]
  cases rest with
  | nil => rw [List.takeWhile_nil, List.append_nil]
  | cons b rest =>
    rw [List.takeWhile_cons_of_neg (by simpa using hrest), List.append_nil]

theorem splitSign_text (hds : ∀ d ∈ ds, isDigit d = true) (hne : ds ≠ []) :
    splitSign (sign.text ++ (ds ++ rest)) = (sign, ds ++ rest) := by
  cases sign with
  | minus | plus => rfl
  | none =>
    obtain ⟨d, ds, rfl⟩ := List.exists_cons_of_ne_nil hne
    obtain ⟨hminus, hplus⟩ := not_sign_of_digit (hds d List.mem_cons_self)
    change (if d = 45 then _ else if d = 43 then _ else _) = _
    rw [if_neg hminus, if_neg hplus]
    rfl

theorem dropWhile_spaces {spaces t : Bytes} (hspaces : ∀ b ∈ spaces, isSpace b = true)
    (ht : t.head?.all (!isSpace ·) = true) : (spaces ++ t).dropWhile isSpace = t := by
  rw [List.dropWhile_append_of_pos hspaces]
  cases t with
  | nil => rfl
  | cons b t => exact List.dropWhile_cons_of_neg (by simpa using ht)

theorem splitSign_append (u : Bytes) : (splitSign u).1.text ++ (splitSign u).2 = u := by
  cases u with
  | nil => rfl
  | cons b u =>
    change (if b = 45 then (Sign.minus, u) else if b = 43 then (Sign.plus, u)
      else (Sign.none, b :: u)).1.text ++ _ = _
    unfold splitSign
    dsimp only
    split_ifs with hminus hplus
    · rw [hminus]
      rfl
    · rw [hplus]
      rfl
    · rfl

theorem head?_dropWhile (p : UInt8 → Bool) (t : Bytes) : (t.dropWhile p).head?.all (!p ·) = true := by
  have h := List.head?_dropWhile_not p t
  cases hhead : (t.dropWhile p).head? with
  | none => rfl
  | some b =>
    rw [hhead] at h
    simpa using h

theorem head?_text (hds : ∀ d ∈ ds, isDigit d = true) (hne : ds ≠ []) :
    (sign.text ++ (ds ++ rest)).head?.all (!isSpace ·) = true := by
  cases sign with
  | minus | plus => rfl
  | none =>
    obtain ⟨d, ds, rfl⟩ := List.exists_cons_of_ne_nil hne
    have hd := not_space_of_digit (hds d List.mem_cons_self)
    simpa [Sign.text] using hd

/-- The scanner finds exactly the numbers that the grammar describes. -/
theorem leadingNumber_iff : leadingNumber s = some (sign, ds) ↔ Reads s sign ds := by
  constructor
  · intro h
    unfold leadingNumber at h
    have hsplit := splitSign_append (s.dropWhile isSpace)
    generalize splitSign (s.dropWhile isSpace) = x at h hsplit
    obtain ⟨sign', t⟩ := x
    dsimp only at h
    split at h
    · cases h
    · next hne =>
      obtain ⟨rfl, rfl⟩ := Prod.mk.inj (Option.some.inj h)
      refine ⟨⟨s.takeWhile isSpace, t.dropWhile isDigit, ?_, fun b ↦ List.mem_takeWhile_imp,
        head?_dropWhile _ _⟩, fun d ↦ List.mem_takeWhile_imp, hne⟩
      rw [List.takeWhile_append_dropWhile, hsplit, List.takeWhile_append_dropWhile]
  · rintro ⟨⟨spaces, rest, rfl, hspaces, hrest⟩, hds, hne⟩
    unfold leadingNumber
    simp only [dropWhile_spaces hspaces (head?_text hds hne), splitSign_text hds hne,
      takeWhile_append_of_head hds hrest, if_neg hne]

theorem reads_unique {sign' : Sign} {ds' : Bytes} (h : Reads s sign ds) (h' : Reads s sign' ds') :
    sign' = sign ∧ ds' = ds :=
  Prod.mk.inj (Option.some.inj ((leadingNumber_iff.mpr h').symm.trans (leadingNumber_iff.mpr h)))

theorem toSigned_of_reads (h : Reads s sign ds) : toSigned lo hi s =
    if lo ≤ sign.apply (value ds) ∧ sign.apply (value ds) ≤ hi then .ok (sign.apply (value ds))
      else .error .outOfRange := by
  unfold toSigned
  rw [leadingNumber_iff.mpr h]

theorem toSigned_of_not_reads (h : ∀ sign ds, ¬ Reads s sign ds) :
    toSigned lo hi s = .error .invalidArgument := by
  have hnone : leadingNumber s = none := Option.eq_none_iff_forall_ne_some.mpr fun x hx ↦
    h x.1 x.2 (leadingNumber_iff.mp hx)
  unfold toSigned
  rw [hnone]

/-- The number is that of the grammar, if it is within the bounds. -/
theorem toSigned_iff : toSigned lo hi s = .ok x ↔
    ∃ sign ds, Reads s sign ds ∧ x = sign.apply (value ds) ∧ lo ≤ x ∧ x ≤ hi := by
  by_cases hreads : ∃ sign ds, Reads s sign ds
  · obtain ⟨sign, ds, hr⟩ := hreads
    rw [toSigned_of_reads hr]
    constructor
    · intro h
      split at h
      · next hrange =>
        obtain rfl := Except.ok.inj h
        exact ⟨sign, ds, hr, rfl, hrange⟩
      · cases h
    · rintro ⟨sign', ds', hr', rfl, hrange⟩
      obtain ⟨rfl, rfl⟩ := reads_unique hr hr'
      rw [if_pos hrange]
  · rw [toSigned_of_not_reads fun sign ds hr ↦ hreads ⟨sign, ds, hr⟩]
    refine ⟨(nomatch ·), ?_⟩
    rintro ⟨sign, ds, hr, -⟩
    exact absurd ⟨sign, ds, hr⟩ hreads

def digits (n : ℕ) : Bytes := if n = 0 then [48] else (Nat.digits 10 n).reverse.map fun d ↦ .ofNat (48 + d)

def decimal (x : ℤ) : Bytes := (if x < 0 then [45] else []) ++ digits x.natAbs

theorem value_eq (ds : Bytes) : value ds = Nat.ofDigits 10 (ds.reverse.map fun d ↦ d.toNat - 48) := by
  rw [value, Nat.ofDigits_eq_foldr, List.foldr_map, List.foldr_reverse]
  simp only [Nat.cast_id, Nat.add_comm]

theorem toNat_digit {d : ℕ} (h : d < 10) : (UInt8.ofNat (48 + d)).toNat = 48 + d := by
  rw [UInt8.toNat_ofNat', Nat.mod_eq_of_lt (by omega)]

theorem value_digits (n : ℕ) : value (digits n) = n := by
  unfold digits
  split
  · next hn =>
    subst hn
    rfl
  · have hmap : ((Nat.digits 10 n).map fun d ↦ (UInt8.ofNat (48 + d)).toNat - 48) = Nat.digits 10 n := by
      refine (List.map_congr_left fun d hd ↦ ?_).trans (List.map_id _)
      rw [toNat_digit (Nat.digits_lt_base (by omega) hd), Nat.add_sub_cancel_left]
      rfl
    rw [value_eq, ← List.map_reverse, List.reverse_reverse, List.map_map]
    exact (congrArg _ hmap).trans (Nat.ofDigits_digits 10 n)

theorem isDigit_digits (n : ℕ) : ∀ d ∈ digits n, isDigit d = true := by
  unfold digits
  split
  · intro d hd
    rw [List.mem_singleton.mp hd]
    rfl
  · intro d hd
    obtain ⟨k, hk, rfl⟩ := List.mem_map.mp hd
    have hlt : k < 10 := Nat.digits_lt_base (by omega) (List.mem_reverse.mp hk)
    simp only [isDigit, Bool.and_eq_true, decide_eq_true_eq, UInt8.le_iff_toNat_le, toNat_digit hlt,
      UInt8.reduceToNat]
    omega

theorem digits_ne_nil (n : ℕ) : digits n ≠ [] := by
  unfold digits
  split
  · nofun
  · next hn =>
    simpa using Nat.digits_ne_nil_iff_ne_zero.mpr hn

theorem nulFree_decimal (x : ℤ) : NulFree (decimal x) := by
  unfold decimal
  intro h
  rcases List.mem_append.mp h with h | h
  · split at h
    · cases List.mem_singleton.mp h
    · cases h
  · cases isDigit_digits _ _ h

theorem toSigned_decimal (hlo : lo ≤ x) (hhi : x ≤ hi) : toSigned lo hi (decimal x) = .ok x := by
  refine toSigned_iff.mpr ⟨if x < 0 then .minus else .none, digits x.natAbs, ⟨⟨[], [], ?_, nofun, rfl⟩,
    isDigit_digits _, digits_ne_nil _⟩, ?_, hlo, hhi⟩
  · rw [decimal, List.nil_append, List.append_nil]
    split <;> rfl
  · rw [value_digits]
    split
    · next hneg => exact Int.eq_neg_comm.mp (Int.ofNat_natAbs_of_nonpos hneg.le)
    · next hpos => exact (Int.natAbs_of_nonneg (not_lt.mp hpos)).symm

end MessageBroker.NumberTexts
