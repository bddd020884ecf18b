import Mathlib.Data.Nat.Digits.Defs
import Mathlib.Data.List.TakeWhile
import Mathlib.Tactic.Ring

namespace MessageBroker.ByteStrings

abbrev Bytes := List UInt8

/-- The object representation of an `n`-byte unsigned integer on a
little-endian host. -/
def toMemory : ℕ → ℕ → Bytes
  | 0, _ => []
  | n + 1, x => UInt8.ofNat x :: toMemory n (x / 256)

def ofMemory : Bytes → ℕ
  | [] => 0
  | b :: bs => b.toNat + 256 * ofMemory bs

def byteSwap (n x : ℕ) : ℕ := ofMemory (toMemory n x).reverse

@[simp] theorem toMemory_length (n x : ℕ) : (toMemory n x).length = n := by
  induction n generalizing x with
  | zero => rfl
  | succ n ih => simp only [toMemory, List.length_cons, ih]

theorem ofMemory_lt (bs : Bytes) : ofMemory bs < 256 ^ bs.length := by
  induction bs with
  | nil => simp [ofMemory]
  | cons b bs ih =>
    have hb := b.toNat_lt
    simp only [ofMemory, List.length_cons, pow_succ]
    omega

theorem ofMemory_toMemory (n x : ℕ) : ofMemory (toMemory n x) = x % 256 ^ n := by
  induction n generalizing x with
  | zero => simp [toMemory, ofMemory, Nat.mod_one]
  | succ n ih =>
    have hb : (UInt8.ofNat x).toNat = x % 256 := by simp
    rw [toMemory, ofMemory, hb, ih, pow_succ, Nat.mul_comm (256 ^ n), Nat.mod_mul]

theorem toMemory_ofMemory (bs : Bytes) : toMemory bs.length (ofMemory bs) = bs := by
  induction bs with
  | nil => rfl
  | cons b bs ih =>
    have hb := b.toNat_lt
    have hmod : UInt8.ofNat (b.toNat + 256 * ofMemory bs) = b := by
      apply UInt8.toNat_inj.mp
      rw [UInt8.toNat_ofNat']
      omega
    have hdiv : (b.toNat + 256 * ofMemory bs) / 256 = ofMemory bs := by omega
    rw [List.length_cons, ofMemory, toMemory, hmod, hdiv, ih]

theorem toMemory_byteSwap (n x : ℕ) : toMemory n (byteSwap n x) = (toMemory n x).reverse := by
  have h := toMemory_ofMemory (toMemory n x).reverse
  rwa [List.length_reverse, toMemory_length] at h

theorem byteSwap_lt (n x : ℕ) : byteSwap n x < 256 ^ n := by
  have h := ofMemory_lt (toMemory n x).reverse
  rwa [List.length_reverse, toMemory_length] at h

theorem ofMemory_append (xs ys : Bytes) :
    ofMemory (xs ++ ys) = ofMemory xs + 256 ^ xs.length * ofMemory ys := by
  induction xs with
  | nil => simp [ofMemory]
  | cons x xs ih =>
    simp only [List.cons_append, ofMemory, ih, List.length_cons, pow_succ]
    ring

/-- The number whose base 256 digits are `bs`, most significant first. -/
def bigEndian (bs : Bytes) : ℕ := bs.foldl (fun n b ↦ 256 * n + b.toNat) 0

theorem foldl_bigEndian (bs : Bytes) (n : ℕ) :
    bs.foldl (fun n b ↦ 256 * n + b.toNat) n = ofMemory bs.reverse + 256 ^ bs.length * n := by
  induction bs generalizing n with
  | nil => simp [ofMemory]
  | cons b bs ih =>
    rw [List.foldl_cons, ih, List.reverse_cons, ofMemory_append, List.length_reverse,
      List.length_cons]
    simp only [ofMemory, pow_succ]
    ring

theorem ofMemory_reverse (bs : Bytes) : ofMemory bs.reverse = bigEndian bs := by
  simpa [bigEndian] using (foldl_bigEndian bs 0).symm

theorem bigEndian_lt (bs : Bytes) : bigEndian bs < 256 ^ bs.length := by
  simpa only [ofMemory_reverse, List.length_reverse] using ofMemory_lt bs.reverse

theorem byteSwap_ofMemory (bs : Bytes) : byteSwap bs.length (ofMemory bs) = bigEndian bs := by
  rw [byteSwap, toMemory_ofMemory, ofMemory_reverse]

theorem toMemory_byteSwap_bigEndian (bs : Bytes) :
    toMemory bs.length (byteSwap bs.length (bigEndian bs)) = bs := by
  rw [toMemory_byteSwap, ← ofMemory_reverse]
  simpa using congrArg List.reverse (toMemory_ofMemory bs.reverse)

/-- What is left of a string that is handed over as a C string. -/
def cString (s : Bytes) : Bytes := s.takeWhile (· ≠ 0)

def NulFree (s : Bytes) : Prop := 0 ∉ s

instance (s : Bytes) : Decidable (NulFree s) := inferInstanceAs (Decidable (0 ∉ s))

theorem cString_nulFree (s : Bytes) : NulFree (cString s) := fun h ↦ by
  simpa using List.mem_takeWhile_imp h

theorem cString_eq {s : Bytes} (h : NulFree s) : cString s = s := by
  rw [cString, List.takeWhile_eq_self_iff]
  intro b hb
  simpa using fun h0 : b = 0 ↦ h (h0 ▸ hb)

theorem cString_length_le (s : Bytes) : (cString s).length ≤ s.length :=
  (List.takeWhile_sublist _).length_le

/-- Text that can be read back as a C string. -/
def CText := {s : Bytes // NulFree s}

instance : DecidableEq CText := inferInstanceAs (DecidableEq {s : Bytes // NulFree s})

def CText.of (s : Bytes) : CText := ⟨cString s, cString_nulFree s⟩

@[simp] theorem CText.of_val (t : CText) : of t.val = t := Subtype.ext (cString_eq t.property)

theorem CText.val_of {s : Bytes} (h : NulFree s) : (of s).val = s := cString_eq h

end MessageBroker.ByteStrings
