import Cascette.Lib.Bytes

/-!
# UTF-8

`utf8Char` looks at the first character of a byte string: whether it is well formed, and how many
bytes belong to it (for an ill-formed one, the longest beginning of a character). A string is
valid when every character is, and the lossy conversion writes the replacement character for each
ill-formed piece; it changes a string exactly when the string is not valid
(`fromUtf8Lossy_eq_self_iff`).
-/

namespace Cascette.Lib

open List

def isContinuation (b : UInt8) : Bool := 0x80 ≤ b.toNat && b.toNat < 0xc0

/-- The second bytes that follow a lead byte of three or four bytes: no overlong form, no
surrogate, nothing above the last code point. -/
def secondByte (lead second : UInt8) : Bool :=
  if lead = 0xe0 then 0xa0 ≤ second.toNat && second.toNat < 0xc0
  else if lead = 0xed then 0x80 ≤ second.toNat && second.toNat < 0xa0
  else if lead = 0xf0 then 0x90 ≤ second.toNat && second.toNat < 0xc0
  else if lead = 0xf4 then 0x80 ≤ second.toNat && second.toNat < 0x90
  else isContinuation second

/-- A byte beyond the end reads as zero, which continues no character. -/
def utf8Char : Bytes → Bool × Nat
  | [] => (true, 0)
  | b :: rest =>
    let c := rest.headD 0
    let d := (rest.drop 1).headD 0
    let e := (rest.drop 2).headD 0
    if b.toNat < 0x80 then (true, 1)
    else if b.toNat < 0xc2 then (false, 1)
    else if b.toNat < 0xe0 then if isContinuation c then (true, 2) else (false, 1)
    else if b.toNat < 0xf0 then
      if secondByte b c then if isContinuation d then (true, 3) else (false, 2)
      else (false, 1)
    else if b.toNat < 0xf5 then
      if secondByte b c then
        if isContinuation d then if isContinuation e then (true, 4) else (false, 3)
        else (false, 2)
      else (false, 1)
    else (false, 1)

def validChars : Nat → Bytes → Bool
  | 0, _ => true
  | fuel + 1, bytes =>
    bytes.isEmpty || ((utf8Char bytes).1 && validChars fuel (bytes.drop (utf8Char bytes).2))

def validUtf8 (bytes : Bytes) : Bool := validChars bytes.length bytes

/-- The bytes of U+FFFD. -/
def replacementCharacter : Bytes := [0xef, 0xbf, 0xbd]

def lossyChars : Nat → Bytes → Bytes
  | 0, _ => []
  | fuel + 1, bytes =>
    if bytes.isEmpty then []
    else
      (if (utf8Char bytes).1 then bytes.take (utf8Char bytes).2 else replacementCharacter) ++
        lossyChars fuel (bytes.drop (utf8Char bytes).2)

def fromUtf8Lossy (bytes : Bytes) : Bytes := lossyChars bytes.length bytes

variable {bytes c : Bytes} {fuel : Nat}

theorem utf8Char_pos (h : bytes ≠ []) : 1 ≤ (utf8Char bytes).2 := by
  cases bytes with
  | nil => exact absurd rfl h
  | cons b rest =>
    simp only [utf8Char]
    repeat' split
    all_goals simp

/-- A string that begins with the replacement character begins with a well-formed character. -/
theorem utf8Char_replacement (rest : Bytes) :
    utf8Char (replacementCharacter ++ rest) = (true, 3) := by
  simp [replacementCharacter, utf8Char, secondByte, isContinuation]

theorem lossyChars_eq_self_iff (hFuel : bytes.length ≤ fuel) :
    lossyChars fuel bytes = bytes ↔ validChars fuel bytes = true := by
  induction fuel generalizing bytes with
  | zero =>
    have : bytes = [] := length_eq_zero_iff.mp (by omega)
    simp [lossyChars, validChars, this]
  | succ fuel ih =>
    by_cases hEmpty : bytes = []
    · simp [lossyChars, validChars, hEmpty]
    have hPos := utf8Char_pos hEmpty
    have hRest : (bytes.drop (utf8Char bytes).2).length ≤ fuel := by
      simp only [length_drop]
      omega
    simp only [lossyChars, validChars, List.isEmpty_iff, hEmpty, if_false, Bool.or_eq_true,
      Bool.and_eq_true, false_or]
    rw [← ih hRest]
    by_cases hOk : (utf8Char bytes).1 = true
    · simp only [hOk, if_true, true_and]
      conv_lhs => rhs; rw [← take_append_drop (utf8Char bytes).2 bytes]
      exact List.append_right_inj _
    · simp only [hOk, Bool.false_eq_true, if_false, false_and, iff_false]
      intro hEq
      have hChar := utf8Char_replacement (lossyChars fuel (bytes.drop (utf8Char bytes).2))
      rw [hEq] at hChar
      exact hOk (by rw [hChar])

theorem validChars_of_ascii (h : ∀ b ∈ bytes, b.toNat < 0x80) : validChars fuel bytes = true := by
  induction fuel generalizing bytes with
  | zero => rfl
  | succ fuel ih =>
    cases bytes with
    | nil => rfl
    | cons b rest =>
      have hChar : utf8Char (b :: rest) = (true, 1) := by
        simp [utf8Char, h b mem_cons_self]
      simp only [validChars, hChar, drop_succ_cons, drop_zero, Bool.true_and]
      rw [ih fun c hc => h c (mem_cons_of_mem b hc), Bool.or_true]

theorem validUtf8_of_ascii (h : ∀ b ∈ bytes, b.toNat < 0x80) : validUtf8 bytes = true :=
  validChars_of_ascii h

theorem isContinuation_of_ascii {b : UInt8} (h : b.toNat < 0x80) : isContinuation b = false := by
  simp [isContinuation]
  omega

/-! ## Strings -/

/-- The bytes of one well-formed character. -/
inductive IsChar : Bytes → Prop
  | one {b : UInt8} : b.toNat < 0x80 → IsChar [b]
  | two {b c : UInt8} : 0xc2 ≤ b.toNat → b.toNat < 0xe0 → isContinuation c → IsChar [b, c]
  | three {b c d : UInt8} : 0xe0 ≤ b.toNat → b.toNat < 0xf0 → secondByte b c →
      isContinuation d → IsChar [b, c, d]
  | four {b c d e : UInt8} : 0xf0 ≤ b.toNat → b.toNat < 0xf5 → secondByte b c →
      isContinuation d → isContinuation e → IsChar [b, c, d, e]

theorem IsChar.utf8Char_append (h : IsChar c) (rest : Bytes) :
    utf8Char (c ++ rest) = (true, c.length) := by
  cases h with
  | one hb => simp [utf8Char, hb]
  | @two b _ hb hb' hc =>
    have h₁ : ¬ b.toNat < 0x80 := by omega
    simp [utf8Char, h₁, Nat.not_lt.mpr hb, hb', hc]
  | @three b _ _ hb hb' hc hd =>
    have h₁ : ¬ b.toNat < 0x80 := by omega
    have h₂ : ¬ b.toNat < 0xc2 := by omega
    simp [utf8Char, h₁, h₂, Nat.not_lt.mpr hb, hb', hc, hd]
  | @four b _ _ _ hb hb' hc hd he =>
    have h₁ : ¬ b.toNat < 0x80 := by omega
    have h₂ : ¬ b.toNat < 0xc2 := by omega
    have h₃ : ¬ b.toNat < 0xe0 := by omega
    simp [utf8Char, h₁, h₂, h₃, Nat.not_lt.mpr hb, hb', hc, hd, he]

theorem exists_cons_of_headD {p : UInt8 → Bool} (hZero : p 0 = false)
    (h : p (bytes.headD 0) = true) : ∃ c rest, bytes = c :: rest ∧ p c = true := by
  cases bytes with
  | nil => simp [hZero] at h
  | cons c rest => exact ⟨c, rest, rfl, h⟩

theorem secondByte_zero (lead : UInt8) : secondByte lead 0 = false := by
  simp only [secondByte, isContinuation]
  split_ifs <;> rfl

theorem exists_isChar (hNe : bytes ≠ []) (h : (utf8Char bytes).1 = true) :
    ∃ c rest, bytes = c ++ rest ∧ IsChar c := by
  cases bytes with
  | nil => exact absurd rfl hNe
  | cons b rest =>
    simp only [utf8Char] at h
    split_ifs at h with h₁ h₂ h₃ hc h₄ hs hd h₅ hs hd he
    · exact ⟨[b], rest, rfl, .one h₁⟩
    · obtain ⟨c, rest, rfl, hc⟩ := exists_cons_of_headD rfl hc
      exact ⟨[b, c], rest, rfl, .two (by omega) h₃ hc⟩
    · obtain ⟨c, rest, rfl, hs⟩ := exists_cons_of_headD (secondByte_zero b) hs
      obtain ⟨d, rest, rfl, hd⟩ := exists_cons_of_headD rfl hd
      exact ⟨[b, c, d], rest, rfl, .three (by omega) h₄ hs hd⟩
    · obtain ⟨c, rest, rfl, hs⟩ := exists_cons_of_headD (secondByte_zero b) hs
      obtain ⟨d, rest, rfl, hd⟩ := exists_cons_of_headD rfl hd
      obtain ⟨e, rest, rfl, he⟩ := exists_cons_of_headD rfl he
      exact ⟨[b, c, d, e], rest, rfl, .four (by omega) h₅ hs hd he⟩

theorem isChar_replacementCharacter : IsChar replacementCharacter :=
  .three (by decide) (by decide) (by decide) (by decide)

theorem IsChar.ne_nil (h : IsChar c) : c ≠ [] := by
  cases h <;> simp

theorem validChars_eq (h : bytes.length ≤ fuel) : validChars fuel bytes = validUtf8 bytes := by
  unfold validUtf8
  generalize hn : bytes.length = n
  induction n using Nat.strong_induction_on generalizing fuel bytes with
  | _ n ih =>
    cases bytes with
    | nil => cases fuel <;> cases n <;> simp_all [validChars]
    | cons b rest =>
      have hPos := utf8Char_pos (cons_ne_nil b rest)
      obtain ⟨fuel, rfl⟩ : ∃ k, fuel = k + 1 := ⟨fuel - 1, by simp at h; omega⟩
      obtain ⟨m, rfl⟩ : ∃ k, n = k + 1 := ⟨n - 1, by simp at hn; omega⟩
      have hDrop : ((b :: rest).drop (utf8Char (b :: rest)).2).length ≤ m := by
        rw [length_drop]
        omega
      simp only [validChars]
      rw [ih _ (by omega) (by omega) rfl, ih _ (by omega) hDrop rfl]

theorem IsChar.validUtf8_append (h : IsChar c) (rest : Bytes) :
    validUtf8 (c ++ rest) = validUtf8 rest := by
  have hPos := length_pos_iff.mpr h.ne_nil
  conv_lhs => rw [validUtf8]
  obtain ⟨fuel, hFuel⟩ : ∃ k, (c ++ rest).length = k + 1 :=
    ⟨(c ++ rest).length - 1, by rw [length_append]; omega⟩
  rw [length_append] at hFuel
  have hEmpty : (c ++ rest).isEmpty = false := by simp [h.ne_nil]
  rw [length_append, hFuel, validChars, hEmpty, h.utf8Char_append, drop_left,
    validChars_eq (by omega)]
  simp

theorem validUtf8_lossyChars (fuel : Nat) (bytes : Bytes) :
    validUtf8 (lossyChars fuel bytes) = true := by
  induction fuel generalizing bytes with
  | zero => rfl
  | succ fuel ih =>
    rw [lossyChars]
    split
    · rfl
    next hEmpty =>
      split_ifs with hChar
      · obtain ⟨c, rest, rfl, hc⟩ := exists_isChar (by simpa using hEmpty) hChar
        rw [hc.utf8Char_append, take_left, hc.validUtf8_append, ih]
      · rw [isChar_replacementCharacter.validUtf8_append, ih]

/-- A string: bytes that are valid UTF-8. -/
abbrev Text := {bytes : Bytes // validUtf8 bytes = true}

/-- The conversion of bytes to a string that replaces what is not well formed. -/
def Text.lossy (bytes : Bytes) : Text := ⟨fromUtf8Lossy bytes, validUtf8_lossyChars _ _⟩

end Cascette.Lib
