import Mathlib.Data.List.Lex
import Mathlib.Data.List.Sort
import Mathlib.Data.UInt
import Mathlib.Tactic

/-!
# Byte strings and fixed-width integers

Byte strings are lists of `UInt8`, ordered lexicographically. A natural number is written
in `w` bytes, least significant first (`leBytes`) or most significant first (`beBytes`), and
read back by `ofLe` and `ofBe`; the round trips are exact below `256 ^ w`. `readExact` is the
sequential reader: it splits off a prefix of known length or fails.
-/

namespace Cascette.Lib

open List Nat

instance linearOrderUInt8 : LinearOrder UInt8 where
  le_refl a := UInt8.le_refl a
  le_trans a b c := UInt8.le_trans
  lt_iff_le_not_ge a b := by simp only [UInt8.lt_iff_toNat_lt, UInt8.le_iff_toNat_le]; omega
  le_antisymm a b := UInt8.le_antisymm
  le_total a b := UInt8.le_total a b
  toDecidableLE := inferInstance

abbrev Bytes := List UInt8

/-- A byte string of known length: a key or a digest. -/
abbrev Key (n : Nat) := {bytes : Bytes // bytes.length = n}

@[simp]
theorem length_key {n : Nat} (key : Key n) : key.1.length = n := key.2

def Key.fill (n : Nat) (b : UInt8) : Key n := ⟨List.replicate n b, List.length_replicate⟩

/-- One decision of membership for keys of every length. -/
instance decidableMemKey {n : Nat} (key : Key n) (keys : List (Key n)) : Decidable (key ∈ keys) :=
  inferInstance

/-- Comparison is the one of the linear order. -/
instance : Ord Bytes := LinearOrder.toOrd

instance (n : Nat) : Ord (Key n) := LinearOrder.toOrd

/-! ## Little-endian and big-endian integers -/

def leBytes : Nat → Nat → Bytes
  | 0, _ => []
  | w + 1, v => UInt8.ofNat v :: leBytes w (v / 256)

def ofLe : Bytes → Nat
  | [] => 0
  | b :: bs => b.toNat + 256 * ofLe bs

def beBytes (w v : Nat) : Bytes := (leBytes w v).reverse

def ofBe (bytes : Bytes) : Nat := ofLe bytes.reverse

@[simp]
theorem leBytes_length (w v : Nat) : (leBytes w v).length = w := by
  induction w generalizing v with
  | zero => rfl
  | succ w ih => simp [leBytes, ih]

@[simp]
theorem beBytes_length (w v : Nat) : (beBytes w v).length = w := by
  simp [beBytes]

theorem ofLe_leBytes (w v : Nat) : ofLe (leBytes w v) = v % 256 ^ w := by
  induction w generalizing v with
  | zero => simp [leBytes, ofLe, mod_one]
  | succ w ih =>
    have hByte : (UInt8.ofNat v).toNat = v % 256 := by simp
    rw [leBytes, ofLe, ih, hByte, pow_succ', mod_mul]

variable {w v n : Nat} {bytes front rest : Bytes}

theorem ofLe_leBytes_of_lt (hv : v < 256 ^ w) : ofLe (leBytes w v) = v := by
  rw [ofLe_leBytes, mod_eq_of_lt hv]

theorem ofBe_beBytes_of_lt (hv : v < 256 ^ w) : ofBe (beBytes w v) = v := by
  rw [ofBe, beBytes, reverse_reverse, ofLe_leBytes_of_lt hv]

theorem ofLe_lt (bytes : Bytes) : ofLe bytes < 256 ^ bytes.length := by
  induction bytes with
  | nil => simp [ofLe]
  | cons b bs ih =>
    have hb : b.toNat < 256 := b.toNat_lt
    rw [ofLe, length_cons, pow_succ]
    omega

theorem ofBe_lt (bytes : Bytes) : ofBe bytes < 256 ^ bytes.length := by
  simpa [ofBe] using ofLe_lt bytes.reverse

@[simp]
theorem ofLe_replicate_zero (n : Nat) : ofLe (replicate n 0) = 0 := by
  induction n with
  | zero => rfl
  | succ n ih => simp [replicate_succ, ofLe, ih]

theorem leBytes_ofLe (bytes : Bytes) : leBytes bytes.length (ofLe bytes) = bytes := by
  induction bytes with
  | nil => rfl
  | cons b bs ih =>
    have hb : b.toNat < 256 := b.toNat_lt
    have hHead : UInt8.ofNat (b.toNat + 256 * ofLe bs) = b := by
      simp
    have hTail : (b.toNat + 256 * ofLe bs) / 256 = ofLe bs := by omega
    rw [length_cons, ofLe, leBytes, hHead, hTail, ih]

theorem beBytes_ofBe_of_length (hLength : bytes.length = w) : beBytes w (ofBe bytes) = bytes := by
  have h := leBytes_ofLe bytes.reverse
  rw [length_reverse, hLength] at h
  rw [beBytes, ofBe, h, reverse_reverse]

theorem ofBe_eq_iff (hLength : bytes.length = w) :
    ofBe bytes = v ↔ v < 256 ^ w ∧ bytes = beBytes w v := by
  constructor
  · rintro rfl
    exact ⟨hLength ▸ ofBe_lt bytes, (beBytes_ofBe_of_length hLength).symm⟩
  · rintro ⟨hv, rfl⟩
    exact ofBe_beBytes_of_lt hv

theorem leBytes_zero (w : Nat) : leBytes w 0 = replicate w 0 := by
  induction w with
  | zero => rfl
  | succ w ih =>
    rw [leBytes, Nat.zero_div, ih, replicate_succ]
    rfl

theorem lex_append {a b : Bytes} (h : Lex (· < ·) a b) (hLength : a.length = b.length)
    (c d : Bytes) : Lex (· < ·) (a ++ c) (b ++ d) := by
  induction h with
  | nil => cases hLength
  | cons _ ih => exact .cons (ih (Nat.succ.inj hLength))
  | rel hab => exact .rel hab

theorem beBytes_succ (w v : Nat) : beBytes (w + 1) v = beBytes w (v / 256) ++ [UInt8.ofNat v] := by
  simp [beBytes, leBytes]

theorem beBytes_lt_beBytes {i j : Nat} (hij : i < j) (hj : j < 256 ^ w) :
    beBytes w i < beBytes w j := by
  induction w generalizing i j with
  | zero => omega
  | succ w ih =>
    rw [beBytes_succ, beBytes_succ]
    rcases (Nat.div_le_div_right hij.le : i / 256 ≤ j / 256).lt_or_eq with hLt | hEq
    · refine lex_append (ih hLt ?_) (by simp) _ _
      omega
    · rw [hEq]
      refine Lex.append_left _ (.rel ?_) _
      rw [UInt8.lt_iff_toNat_lt, UInt8.toNat_ofNat', UInt8.toNat_ofNat']
      omega

theorem beBytes_eq_zeros_iff (hv : v < 256 ^ w) : beBytes w v = replicate w 0 ↔ v = 0 := by
  constructor
  · intro h
    have hValue := ofBe_beBytes_of_lt hv
    rw [h, ofBe, reverse_replicate, ofLe_replicate_zero] at hValue
    exact hValue.symm
  · rintro rfl
    rw [beBytes, leBytes_zero, reverse_replicate]

/-! ## Padding and reading -/

/-- Zero bytes appended up to the length `n`; a longer string is left as it is. -/
def padTo (n : Nat) (bytes : Bytes) : Bytes := bytes ++ List.replicate (n - bytes.length) 0

theorem padTo_length (h : bytes.length ≤ n) : (padTo n bytes).length = n := by
  simp [padTo, h]

theorem le_padTo_length (n : Nat) (bytes : Bytes) : n ≤ (padTo n bytes).length := by
  simp only [padTo, length_append, length_replicate]
  omega

/-- `resize(n, 0)`: pads with zeros or cuts. -/
def resize (n : Nat) (bytes : Bytes) : Bytes := (padTo n bytes).take n

@[simp]
theorem resize_length (n : Nat) (bytes : Bytes) : (resize n bytes).length = n := by
  rw [resize, length_take, Nat.min_eq_left (le_padTo_length n bytes)]

/-- A key of `n` bytes from a string of any length. -/
def resizeKey (n : Nat) (bytes : Bytes) : Key n := ⟨resize n bytes, resize_length n bytes⟩

theorem resize_of_le (h : bytes.length ≤ n) : resize n bytes = padTo n bytes :=
  take_of_length_le (padTo_length h).le

theorem resizeKey_self (key : Key n) : resizeKey n key.1 = key := by
  apply Subtype.ext
  change resize n key.1 = key.1
  rw [resize_of_le key.2.le, padTo, key.2, Nat.sub_self, replicate_zero, append_nil]

/-- The reader's `read_exact`: the next `n` bytes and what follows them. -/
def readExact (n : Nat) (bytes : Bytes) : Option (Bytes × Bytes) :=
  if n ≤ bytes.length then some (bytes.take n, bytes.drop n) else none

theorem readExact_append (h : front.length = n) :
    readExact n (front ++ rest) = some (front, rest) := by
  simp [readExact, ← h]

theorem readExact_eq_some :
    readExact n bytes = some (front, rest) ↔ bytes = front ++ rest ∧ front.length = n := by
  constructor
  · intro h
    unfold readExact at h
    split at h
    next hn =>
      obtain ⟨rfl, rfl⟩ := Prod.mk.inj (Option.some.inj h)
      exact ⟨(take_append_drop n bytes).symm, by simp [hn]⟩
    · cases h
  · rintro ⟨rfl, hLength⟩
    exact readExact_append hLength

theorem length_flatten_map {α β : Type} {f : α → List β} {xs : List α}
    (h : ∀ a ∈ xs, (f a).length = n) : (xs.map f).flatten.length = xs.length * n := by
  have hLengths : (xs.map f).map List.length = xs.map fun _ => n := by
    rw [map_map]
    exact map_congr_left h
  rw [length_flatten, hLengths]
  simp

theorem length_flatten {α : Type} {pieces : List (List α)} (h : ∀ p ∈ pieces, p.length = n) :
    pieces.flatten.length = pieces.length * n := by
  have hMap := length_flatten_map (f := id) h
  rwa [map_id] at hMap

/-- The next multiple of `a` at or above `n`. -/
def alignUp (a n : Nat) : Nat := (n + a - 1) / a * a

theorem le_alignUp {a : Nat} (ha : 0 < a) (n : Nat) : n ≤ alignUp a n := by
  have hDiv := div_add_mod (n + a - 1) a
  have hMod := mod_lt (n + a - 1) ha
  rw [alignUp, mul_comm]
  omega

/-- The number of pieces of `b` elements that hold `a` elements. -/
def divCeil (a b : Nat) : Nat := (a + b - 1) / b

/-- Consecutive pieces of `n` elements, the last one possibly shorter. -/
def chunks {α : Type} (n : Nat) (xs : List α) : List (List α) :=
  (List.range (divCeil xs.length n)).map fun i => (xs.drop (i * n)).take n

/-! ## Hexadecimal digits -/

def hexDigit (d : Nat) : Char := if d < 10 then Char.ofNat (48 + d) else Char.ofNat (87 + d)

/-- The value of an ASCII hexadecimal digit, of either case. -/
def hexValue (b : UInt8) : Option Nat :=
  if 48 ≤ b.toNat ∧ b.toNat ≤ 57 then some (b.toNat - 48)
  else if 97 ≤ b.toNat ∧ b.toNat ≤ 102 then some (b.toNat - 87)
  else if 65 ≤ b.toNat ∧ b.toNat ≤ 70 then some (b.toNat - 55)
  else none

/-- The `w` low hexadecimal digits of `v`, highest first. -/
def hexBytes : Nat → Nat → Bytes
  | 0, _ => []
  | w + 1, v => hexBytes w (v / 16) ++ [UInt8.ofNat (hexDigit (v % 16)).toNat]

/-- The digits of `from_str_radix` with radix 16: at least one, after an optional plus sign. -/
def fromStrRadix16 (digits : Bytes) : Option Nat :=
  let body := if digits.head? = some 43 ∧ 1 < digits.length then digits.drop 1 else digits
  if body.isEmpty then none
  else body.foldlM (fun acc b => (hexValue b).map fun d => acc * 16 + d) 0

@[simp]
theorem hexBytes_length (w v : Nat) : (hexBytes w v).length = w := by
  induction w generalizing v with
  | zero => rfl
  | succ w ih => simp [hexBytes, ih]

theorem hexValue_hexDigit : ∀ d < 16, hexValue (UInt8.ofNat (hexDigit d).toNat) = some d := by
  decide

theorem hexBytes_range {b : UInt8} (h : b ∈ hexBytes w v) : 48 ≤ b.toNat ∧ b.toNat < 128 := by
  induction w generalizing v with
  | zero => simp [hexBytes] at h
  | succ w ih =>
    rw [hexBytes, mem_append, mem_singleton] at h
    rcases h with h | rfl
    · exact ih h
    · have hDigit : ∀ d < 16, 48 ≤ (UInt8.ofNat (hexDigit d).toNat).toNat ∧
          (UInt8.ofNat (hexDigit d).toNat).toNat < 128 := by decide
      exact hDigit _ (mod_lt _ (by norm_num))

theorem foldlM_hexBytes (w v acc : Nat) :
    (hexBytes w v).foldlM (fun acc b => (hexValue b).map fun d => acc * 16 + d) acc =
      some (acc * 16 ^ w + v % 16 ^ w) := by
  induction w generalizing v with
  | zero => simp [hexBytes, mod_one]
  | succ w ih =>
    rw [hexBytes, foldlM_append, ih, Option.bind_eq_bind, Option.bind_some]
    simp only [foldlM_cons, foldlM_nil,
      hexValue_hexDigit _ (mod_lt _ (by norm_num : 0 < 16)), Option.map_some,
      Option.bind_eq_bind, Option.bind_some, Option.pure_def, Option.some.injEq]
    rw [pow_succ', mod_mul]
    ring

theorem fromStrRadix16_hexBytes (hw : 0 < w) (hv : v < 16 ^ w) :
    fromStrRadix16 (hexBytes w v) = some v := by
  have hLength := hexBytes_length w v
  have hPlus : (hexBytes w v).head? ≠ some 43 := by
    intro h
    have := hexBytes_range (mem_of_mem_head? h)
    exact absurd this.1 (by decide)
  have hNe : (hexBytes w v).isEmpty = false := by
    rw [← Bool.not_eq_true, isEmpty_iff_length_eq_zero]
    omega
  simp only [fromStrRadix16, hPlus, false_and, if_false, hNe, Bool.false_eq_true]
  rw [foldlM_hexBytes, mod_eq_of_lt hv]
  simp

end Cascette.Lib
