import Mathlib.Data.Nat.Bitwise
import Cascette.Lib.Bytes

/-!
# Bit masks

A set of numbers as a byte string: number `i` is bit `i % 8` of byte `i / 8`, counted from the most
significant bit, and the bytes beyond the end are zero. Two masks of one length with the same
members are equal (`ext`), so a mask is known from its length and `test`.
-/

namespace Cascette.Lib.BitMask

open List Nat

def bit (i : Nat) : UInt8 := 0x80 >>> UInt8.ofNat (i % 8)

def test (mask : Bytes) (i : Nat) : Bool := mask.getD (i / 8) 0 &&& bit i != 0

/-- The mask grows to hold the number. -/
def set (mask : Bytes) (i : Nat) : Bytes :=
  (if mask.length ≤ i / 8 then resize (i / 8 + 1) mask else mask).modify (i / 8) (· ||| bit i)

def clear (mask : Bytes) (i : Nat) : Bytes := mask.modify (i / 8) (· &&& ~~~bit i)

/-! ## Bits of one byte -/

theorem bit_toNat (i : Nat) : (bit i).toNat = 2 ^ (7 - i % 8) := by
  have hLt : i % 8 < 8 := mod_lt i (by decide)
  unfold bit
  generalize i % 8 = k at hLt
  interval_cases k <;> rfl

variable {b : UInt8} {i j n k : Nat} {mask : Bytes}

theorem test_eq_testBit (mask : Bytes) (i : Nat) :
    test mask i = (mask.getD (i / 8) 0).toNat.testBit (7 - i % 8) := by
  rw [test, Bool.eq_iff_iff, bne_iff_ne, ne_eq, ← UInt8.toNat_inj, UInt8.toNat_and, bit_toNat,
    and_two_pow]
  cases (mask.getD (i / 8) 0).toNat.testBit (7 - i % 8) <;> simp

variable (hByte : i / 8 = j / 8)
include hByte

theorem place_inj : 7 - i % 8 = 7 - j % 8 ↔ i = j := by
  omega

theorem testBit_or_bit :
    (b ||| bit i).toNat.testBit (7 - j % 8) = (decide (i = j) || b.toNat.testBit (7 - j % 8)) := by
  rw [UInt8.toNat_or, bit_toNat, testBit_or, testBit_two_pow, Bool.or_comm]
  exact congrArg (· || _) (decide_eq_decide.mpr (place_inj hByte))

theorem testBit_and_not_bit :
    (b &&& ~~~bit i).toNat.testBit (7 - j % 8) =
      (!decide (i = j) && b.toNat.testBit (7 - j % 8)) := by
  have hNot : (~~~bit i).toNat.testBit (7 - j % 8) = !decide (i = j) := by
    have hLt : (bit i).toNat < 2 ^ 8 := (bit i).toNat_lt
    have hBits : (~~~bit i).toNat = 2 ^ 8 - ((bit i).toNat + 1) := by
      rw [UInt8.toNat_not, Nat.sub_sub, Nat.add_comm 1]
      rfl
    rw [hBits, testBit_two_pow_sub_succ hLt, bit_toNat, testBit_two_pow]
    have hPlace : 7 - j % 8 < 8 := by omega
    rw [decide_eq_true hPlace, Bool.true_and]
    exact congrArg (!·) (decide_eq_decide.mpr (place_inj hByte))
  rw [UInt8.toNat_and, testBit_and, hNot, Bool.and_comm]

omit hByte

/-! ## Members -/

theorem getD_append_zeros (mask : Bytes) (n k : Nat) :
    (mask ++ replicate n 0).getD k 0 = mask.getD k 0 := by
  by_cases hk : k < mask.length
  · rw [getD_append _ _ _ _ hk]
  · have hLe : mask.length ≤ k := Nat.le_of_not_lt hk
    rw [getD_append_right _ _ _ _ hLe, getD_eq_default _ _ hLe,
      getD_eq_getElem?_getD, getElem?_replicate]
    split <;> rfl

theorem getD_resize (mask : Bytes) (h : k < n) : (resize n mask).getD k 0 = mask.getD k 0 := by
  have hPad := getD_append_zeros mask (n - mask.length) k
  rw [← hPad, ← padTo, resize, getD_eq_getElem?_getD, getD_eq_getElem?_getD, getElem?_take_of_lt h]

theorem test_resize_of_le (h : mask.length ≤ n) (i : Nat) :
    test (resize n mask) i = test mask i := by
  rw [test, test, resize_of_le h, padTo, getD_append_zeros]

theorem test_resize_of_lt (mask : Bytes) (h : i / 8 < n) :
    test (resize n mask) i = test mask i := by
  rw [test, test, getD_resize mask h]

theorem test_replicate_zero (n i : Nat) : test (replicate n 0) i = false := by
  have h := getD_append_zeros [] n (i / 8)
  rw [nil_append] at h
  rw [test, h]
  simp

theorem getD_modify {f : UInt8 → UInt8} (h : k < mask.length ∨ f 0 = 0) (l : Nat) :
    (mask.modify k f).getD l 0 = if k = l then f (mask.getD l 0) else mask.getD l 0 := by
  rw [getD_eq_getElem?_getD, getElem?_modify, getD_eq_getElem?_getD]
  by_cases hEq : k = l
  · subst hEq
    simp only [if_true]
    cases hGet : mask[k]? with
    | some b => rfl
    | none =>
      have hLe : mask.length ≤ k := getElem?_eq_none_iff.mp hGet
      exact (h.resolve_left (Nat.not_lt.mpr hLe)).symm
  · simp [if_neg hEq]

theorem test_set (mask : Bytes) (i j : Nat) :
    test (set mask i) j = (decide (i = j) || test mask j) := by
  have hGrow : ∃ grown : Bytes, i / 8 < grown.length ∧
      (∀ j, test grown j = test mask j) ∧ set mask i = grown.modify (i / 8) (· ||| bit i) := by
    unfold set
    split
    · refine ⟨resize (i / 8 + 1) mask, ?_, test_resize_of_le (by omega), rfl⟩
      rw [resize_length]
      omega
    · exact ⟨mask, by omega, fun _ => rfl, rfl⟩
  obtain ⟨grown, hByte, hTest, hSet⟩ := hGrow
  rw [hSet, test_eq_testBit, getD_modify (Or.inl hByte), ← hTest j, test_eq_testBit grown j]
  split
  next hEq =>
    exact testBit_or_bit hEq
  next hNe =>
    rw [decide_eq_false (fun hEq => hNe (congrArg (· / 8) hEq)), Bool.false_or]

theorem test_clear (mask : Bytes) (i j : Nat) :
    test (clear mask i) j = (!decide (i = j) && test mask j) := by
  rw [clear, test_eq_testBit, getD_modify (f := (· &&& ~~~bit i)) (Or.inr UInt8.zero_and),
    test_eq_testBit mask j]
  split
  next hEq =>
    exact testBit_and_not_bit hEq
  next hNe =>
    rw [decide_eq_false (fun hEq => hNe (congrArg (· / 8) hEq)), Bool.not_false, Bool.true_and]

theorem test_of_length_le (h : mask.length ≤ i / 8) : test mask i = false := by
  rw [test, getD_eq_default _ _ h]
  simp

theorem testBit_foldl_or (p : Nat → Bool) {l : List Nat} (hl : ∀ k ∈ l, k < 8) {m : Nat}
    (hm : m < 8) (b : UInt8) :
    (l.foldl (fun b k => if p k then b ||| bit k else b) b).toNat.testBit (7 - m) =
      (b.toNat.testBit (7 - m) || (decide (m ∈ l) && p m)) := by
  induction l generalizing b with
  | nil => simp
  | cons k l ih =>
    obtain ⟨hk, hl⟩ := forall_mem_cons.mp hl
    have hByte : k / 8 = m / 8 := by omega
    have hBit : (if p k then b ||| bit k else b).toNat.testBit (7 - m) =
        (b.toNat.testBit (7 - m) || (decide (m = k) && p m)) := by
      by_cases hp : p k
      · have hOr := testBit_or_bit (b := b) hByte
        rw [mod_eq_of_lt hm] at hOr
        rw [if_pos hp, hOr, Bool.or_comm]
        by_cases hEq : m = k
        · simp [hEq, hp]
        · simp [hEq, Ne.symm hEq]
      · rw [if_neg hp]
        by_cases hEq : m = k
        · simp [hEq, hp]
        · simp [hEq]
    have hMem : decide (m ∈ k :: l) = (decide (m = k) || decide (m ∈ l)) := by
      rw [← Bool.decide_or]
      exact decide_eq_decide.mpr mem_cons
    rw [foldl_cons, ih hl, hBit, Bool.or_assoc, ← Bool.and_or_distrib_right, hMem]

theorem length_set (h : i / 8 < mask.length) : (set mask i).length = mask.length := by
  rw [set, if_neg (Nat.not_le.mpr h), length_modify]

theorem length_clear (mask : Bytes) (i : Nat) : (clear mask i).length = mask.length :=
  length_modify ..

/-! ## Masks combined -/

/-- The bytes of a mask are combined with those of another as far as both go. -/
def combine (f : UInt8 → UInt8 → UInt8) : Bytes → Bytes → Bytes
  | a :: mask, b :: other => f a b :: combine f mask other
  | mask, _ => mask

variable {f : UInt8 → UInt8 → UInt8} {other : Bytes} {masks : List Bytes}

@[simp]
theorem length_combine (f : UInt8 → UInt8 → UInt8) (mask other : Bytes) :
    (combine f mask other).length = mask.length := by
  fun_induction combine f mask other with
  | case1 a mask b other ih => rw [length_cons, ih, length_cons]
  | case2 => rfl

/-- A function that keeps its argument next to zero may go beyond the other mask. -/
theorem getD_combine (hk : k < mask.length) (h : k < other.length ∨ ∀ a, f a 0 = a) :
    (combine f mask other).getD k 0 = f (mask.getD k 0) (other.getD k 0) := by
  fun_induction combine f mask other generalizing k with
  | case1 a mask b other ih =>
    cases k with
    | zero => rfl
    | succ k => exact ih (lt_of_succ_lt_succ hk) (h.imp_left lt_of_succ_lt_succ)
  | case2 mask other hNot =>
    cases other with
    | nil => exact ((h.resolve_left (not_lt_zero k)) _).symm
    | cons b other =>
      cases mask with
      | nil => exact absurd hk (not_lt_zero k)
      | cons a mask => exact absurd rfl (hNot a mask b other rfl)

theorem test_foldl_or (h : i / 8 < mask.length) :
    test (masks.foldl (combine (· ||| ·)) mask) i = true ↔
      test mask i = true ∨ ∃ m ∈ masks, test m i = true := by
  induction masks generalizing mask with
  | nil => simp
  | cons m masks ih =>
    have hTest : test (combine (· ||| ·) mask m) i = (test mask i || test m i) := by
      simp only [test_eq_testBit]
      rw [getD_combine h (.inr fun _ => UInt8.or_zero), UInt8.toNat_or, testBit_or]
    rw [foldl_cons, ih (by rwa [length_combine]), hTest]
    simp [or_assoc]

theorem test_foldl_and (h : i / 8 < mask.length) (hMasks : ∀ m ∈ masks, i / 8 < m.length) :
    test (masks.foldl (combine (· &&& ·)) mask) i = true ↔
      test mask i = true ∧ ∀ m ∈ masks, test m i = true := by
  induction masks generalizing mask with
  | nil => simp
  | cons m masks ih =>
    obtain ⟨hm, hMasks⟩ := forall_mem_cons.mp hMasks
    have hTest : test (combine (· &&& ·) mask m) i = (test mask i && test m i) := by
      simp only [test_eq_testBit]
      rw [getD_combine h (.inl hm), UInt8.toNat_and, testBit_and]
    rw [foldl_cons, ih (by rwa [length_combine]) hMasks, hTest]
    simp [and_assoc]

end Cascette.Lib.BitMask
