import Mathlib.Data.List.Infix
import Mathlib.Data.List.TakeWhile
import Cascette.Espec.Parser

/-!
# What the parser accepts

The parser gives levels, window bits, keys and counts of stars only within their limits
(`WellFormed`), and the length of the text is depth enough: it never runs out of it. A parse
panics only over a size that does not fit 64 bits (`overflow_of_parse`).
-/

namespace Cascette.Espec

open Lib List Nat

abbrev ValidLevel (max : Nat) (level : UInt8) : Prop := level.toNat ≠ 0 ∧ level.toNat ≤ max

abbrev ValidBits (bits : UInt8) : Prop := 8 ≤ bits.toNat ∧ bits.toNat ≤ 15

/-- A size is written with a star if it is absent. -/
def stars (sizeSpec : Option BlockSizeSpec) : Nat := if sizeSpec.isNone then 1 else 0

/-- The limits of a specification that was read. -/
inductive ESpec.WellFormed : ESpec → Prop
  | none : WellFormed .none
  | zlib {level : Option UInt8} {variant : Option ZLibVariant} {windowBits : Option UInt8}
      (hLevel : ∀ l ∈ level, ValidLevel 9 l) (hBits : ∀ bits ∈ windowBits, ValidBits bits) :
      WellFormed (.zlib level variant windowBits)
  | encrypted {key : List Char} {iv : Bytes} {spec : ESpec} (hLength : key.length = 16)
      (hKey : ∀ ch ∈ key, ch.isAlphanum = true) (hIv : 1 ≤ iv.length ∧ iv.length ≤ 8)
      (hSpec : WellFormed spec) : WellFormed (.encrypted key iv spec)
  | blockTable {chunks : List BlockChunk} (hNe : chunks ≠ [])
      (hStars : (chunks.map fun chunk => stars chunk.1).sum ≤ 1)
      (hChunks : ∀ chunk ∈ chunks, WellFormed chunk.2) : WellFormed (.blockTable chunks)
  | bcPack {bcn : Option UInt8} (hBcn : ∀ n ∈ bcn, ValidLevel 7 n) : WellFormed (.bcPack bcn)
  | gDeflate {level : Option UInt8} (hLevel : ∀ l ∈ level, ValidLevel 12 l) :
      WellFormed (.gDeflate level)

/-! ## Results -/

variable {rest : List Char}

/-- A parse of a text that gives a value with a property and goes on after it, and that panics only
over a size. -/
def Sound {α : Type} (P : α → Prop) (text : List Char) (x : Result (α × List Char)) : Prop :=
  match x with
  | .ok (a, rest) => P a ∧ rest <:+ text
  | .error e => ∀ panic, e = .panic panic → panic = .overflow

section Sound

variable {α β : Type} {P : α → Prop} {Q : β → Prop} {text text' : List Char}

theorem forall_some {a : α} (h : P a) : ∀ b ∈ some a, P b := by
  intro b hb
  cases hb
  exact h

variable {x : Result (α × List Char)}

variable (hx : Sound P text x)
include hx

theorem Sound.bind {f : α × List Char → Result (β × List Char)}
    (hf : ∀ a rest, P a → rest <:+ text → Sound Q text (f (a, rest))) :
    Sound Q text (x >>= f) := by
  cases x with
  | error e => exact hx
  | ok result => exact hf result.1 result.2 hx.1 hx.2

theorem Sound.map {f : α → β} (hf : ∀ a, P a → Q (f a)) :
    Sound Q text (x.map fun (a, rest) => (f a, rest)) := by
  cases x with
  | error e => exact hx
  | ok result => exact ⟨hf result.1 hx.1, hx.2⟩

theorem Sound.mono (h : text <:+ text') : Sound P text' x := by
  cases x with
  | error e => exact hx
  | ok result => exact ⟨hx.1, hx.2.trans h⟩

omit hx

variable (len : Nat)

theorem sound_consume {ch : Char} {f : List Char → Result (β × List Char)} (hRest : rest <:+ text)
    (hf : ∀ tail, tail <:+ text → tail.length < rest.length → Sound Q text (f tail)) :
    Sound Q text (consume len ch rest >>= f) := by
  unfold consume
  split_ifs with hHead
  · obtain ⟨tail, rfl⟩ := head?_eq_some_iff.mp hHead
    exact hf tail ((suffix_cons _ _).trans hRest) (lt_succ_self _)
  · exact nofun

theorem sound_ensure {p : Prop} [Decidable p] {e : ESpecError} {f : Unit → Result (β × List Char)}
    (hf : p → Sound Q text (f ())) : Sound Q text (ensure p (.error e) >>= f) := by
  unfold ensure
  split
  · exact hf ‹p›
  · exact nofun

/-! ## Parts -/

theorem sound_parseNumber (rest : List Char) :
    Sound (fun _ => True) rest (parseNumber len rest) := by
  unfold parseNumber
  dsimp only
  split
  · exact nofun
  · split
    · exact ⟨trivial, dropWhile_suffix _⟩
    · exact nofun

theorem sound_parseByte (error : List Char → ESpecError) (rest : List Char) :
    Sound (fun _ => True) rest (parseByte len error rest) :=
  (sound_parseNumber len rest).bind fun _ _ _ hRest => sound_ensure fun _ => ⟨trivial, hRest⟩

theorem sound_parseCount (rest : List Char) : Sound (fun _ => True) rest (parseCount len rest) :=
  (sound_parseNumber len rest).bind fun _ _ _ hRest => sound_ensure fun _ => ⟨trivial, hRest⟩

theorem sound_parseLevel (rest : List Char) : Sound (ValidLevel 9) rest (parseLevel len rest) :=
  (sound_parseByte len _ rest).bind fun _ _ _ hRest => sound_ensure fun h => ⟨h, hRest⟩

theorem sound_parseWindowBits (rest : List Char) :
    Sound ValidBits rest (parseWindowBits len rest) :=
  (sound_parseByte len _ rest).bind fun _ _ _ hRest => sound_ensure fun h => ⟨h, hRest⟩

theorem sound_parseZlibVariant (rest : List Char) :
    Sound (fun _ => True) rest (parseZlibVariant len rest) := by
  have hTail : rest.dropWhile Char.isAlphanum <:+ rest := dropWhile_suffix _
  unfold parseZlibVariant parseIdentifier
  dsimp only
  split
  · exact ⟨trivial, hTail⟩
  split
  · exact ⟨trivial, hTail⟩
  split
  · exact ⟨trivial, hTail⟩
  · exact nofun

theorem sound_parseZlibParameters (rest : List Char) :
    Sound (fun parameters => ∀ bits ∈ parameters.2, ValidBits bits) rest
      (parseZlibParameters len rest) := by
  have hRefl := suffix_refl rest
  unfold parseZlibParameters
  split
  · refine sound_consume len hRefl fun tail hTail _ => ?_
    split
    · refine ((sound_parseWindowBits len tail).mono hTail).bind fun bits rest' hBits hRest => ?_
      exact ⟨forall_some hBits, hRest⟩
    · refine ((sound_parseZlibVariant len tail).mono hTail).bind fun variant rest' _ hRest => ?_
      dsimp only
      split
      · refine sound_consume len hRest fun tail' hTail' _ => ?_
        refine ((sound_parseWindowBits len tail').mono hTail').bind fun bits _ hBits hRest' => ?_
        exact ⟨forall_some hBits, hRest'⟩
      · exact ⟨nofun, hRest⟩
  · exact ⟨nofun, hRefl⟩

theorem sound_parseZlib (rest : List Char) : Sound ESpec.WellFormed rest (parseZlib len rest) := by
  have hRefl := suffix_refl rest
  unfold parseZlib
  split
  · exact ⟨.zlib nofun nofun, hRefl⟩
  refine sound_consume len hRefl fun tail hTail _ => ?_
  split
  · refine sound_consume len hTail fun tail' hTail' _ => ?_
    have hLevel : Sound (fun level => ∀ l ∈ level, ValidLevel 9 l) tail'
        (parseOptionalLevel len tail') := by
      unfold parseOptionalLevel
      split
      · exact (sound_parseLevel len tail').map fun _ hLevel => forall_some hLevel
      · exact ⟨nofun, suffix_refl _⟩
    refine (hLevel.mono hTail').bind fun level rest₁ hLevel hRest₁ => ?_
    refine ((sound_parseZlibParameters len rest₁).mono hRest₁).bind
      fun parameters rest₂ hBits hRest₂ => ?_
    exact sound_consume len hRest₂ fun tail'' hTail'' _ => ⟨.zlib hLevel hBits, hTail''⟩
  split
  · refine ((sound_parseLevel len tail).mono hTail).bind fun level rest' hLevel hRest => ?_
    exact ⟨.zlib (forall_some hLevel) nofun, hRest⟩
  · exact nofun

theorem sound_parseBraced (tooLarge : List Char → ESpecError) (invalid : UInt8 → ESpecError)
    (max : Nat) (rest : List Char) :
    Sound (fun parameter => ∀ p ∈ parameter, ValidLevel max p) rest
      (parseBraced len tooLarge invalid max rest) := by
  have hRefl := suffix_refl rest
  unfold parseBraced
  split
  · exact ⟨nofun, hRefl⟩
  refine sound_consume len hRefl fun tail hTail _ => ?_
  refine sound_consume len hTail fun tail' hTail' _ => ?_
  refine ((sound_parseByte len _ tail').mono hTail').bind fun num rest' _ hRest => ?_
  refine sound_ensure fun hNum => sound_consume len hRest fun tail'' hTail'' _ => ?_
  exact ⟨forall_some hNum, hTail''⟩

theorem length_hexDecode : ∀ digits : List Char, (hexDecode digits).length = digits.length / 2
  | [] => rfl
  | [_] => by simp [hexDecode]
  | _ :: _ :: rest => by
    rw [hexDecode, length_cons, length_hexDecode rest, length_cons, length_cons]
    omega

theorem sound_parseHexUntil (delimiter : Char) (minBytes maxBytes : Nat) (rest : List Char) :
    Sound (fun iv => minBytes ≤ iv.length ∧ iv.length ≤ maxBytes) rest
      (parseHexUntil len delimiter minBytes maxBytes rest) := by
  unfold parseHexUntil
  dsimp only
  split
  · exact nofun
  · refine sound_ensure fun _ => sound_ensure fun hBytes => ?_
    rw [← length_hexDecode] at hBytes
    exact ⟨hBytes, dropWhile_suffix _⟩

theorem sound_parseSize (rest : List Char) : Sound (fun _ => True) rest (parseSize len rest) := by
  have hDrop : rest.dropWhile Char.isDigit <:+ rest := dropWhile_suffix _
  unfold parseSize parseNumber
  dsimp only
  split
  · exact nofun
  split_ifs
  · have hScale {unit : Char} {tail : List Char} (factor : Nat)
        (hTail : rest.dropWhile Char.isDigit = unit :: tail) :
        Sound (fun _ => True) rest ((scale (UInt64.ofNat (Nat.ofDigitChars 10
          (rest.takeWhile Char.isDigit) 0)) factor).map (·, tail)) := by
      unfold scale
      split_ifs
      · exact ⟨trivial, (suffix_cons _ _).trans (hTail ▸ hDrop)⟩
      · rintro _ ⟨⟩
        rfl
    rw [ok_bind]
    unfold parseUnit
    split
    · exact hScale _ ‹_›
    · exact hScale _ ‹_›
    · exact nofun
    · exact nofun
    · exact nofun
    · exact ⟨trivial, hDrop⟩
  · exact nofun

theorem sound_parseBlockSizeSpec (rest : List Char) :
    Sound (fun _ => True) rest (parseBlockSizeSpec len rest) := by
  refine (sound_parseSize len rest).bind fun size rest₁ _ hRest₁ => ?_
  dsimp only
  split
  · refine sound_consume len hRest₁ fun tail hTail _ => ?_
    split
    · refine ((sound_parseCount len tail).mono hTail).bind fun count rest₂ _ hRest₂ => ?_
      exact ⟨trivial, hRest₂⟩
    · exact ⟨trivial, hTail⟩
  · exact ⟨trivial, hRest₁⟩

theorem sound_parseShortSize (rest : List Char) :
    Sound (fun _ => True) rest (parseShortSize len rest) := by
  unfold parseShortSize
  split_ifs with hStar
  · rw [consume, if_pos hStar]
    exact ⟨trivial, tail_suffix _⟩
  · exact (sound_parseBlockSizeSpec len rest).map fun _ _ => trivial

theorem sound_parseChunkSize {variableCount : Nat} (h : variableCount ≤ 1) (rest : List Char) :
    Sound (fun size => variableCount + stars size.1 ≤ size.2 ∧ size.2 ≤ 1) rest
      (parseChunkSize len variableCount rest) := by
  unfold parseChunkSize
  split
  · refine sound_consume len (suffix_refl rest) fun tail hTail _ => sound_ensure
      fun hCount => ?_
    split
    · exact ⟨⟨le_refl _, hCount⟩, hTail⟩
    · refine ((sound_parseCount len tail).mono hTail).bind fun count rest' _ hRest => ?_
      exact ⟨⟨le_succ _, hCount⟩, hRest⟩
  · refine (sound_parseBlockSizeSpec len rest).bind fun size rest' _ hRest => ?_
    exact ⟨⟨le_refl _, h⟩, hRest⟩

/-! ## Specifications -/

/-- The chunks that are read after some that started with a star. -/
structure ChunksSound (variableCount : Nat) (chunks : List BlockChunk) : Prop where
  nonempty : chunks ≠ []
  stars : variableCount + (chunks.map fun chunk => Espec.stars chunk.1).sum ≤ 1
  wellFormed : ∀ chunk ∈ chunks, chunk.2.WellFormed

section Nested

variable {parseSpec : List Char → Result (ESpec × List Char)}

theorem sound_parseEncrypted
    (h : ∀ tail, tail <:+ rest → Sound ESpec.WellFormed tail (parseSpec tail)) :
    Sound ESpec.WellFormed rest (parseEncrypted len parseSpec rest) := by
  refine sound_consume len (suffix_refl rest) fun tail₁ hTail₁ _ => ?_
  refine sound_consume len hTail₁ fun tail₂ hTail₂ _ => ?_
  have hKey : ∀ ch ∈ tail₂.takeWhile Char.isAlphanum, ch.isAlphanum = true :=
    fun ch hCh => mem_takeWhile_imp hCh
  have hDrop : tail₂.dropWhile Char.isAlphanum <:+ rest := (dropWhile_suffix _).trans hTail₂
  refine sound_ensure fun hLength => sound_consume len hDrop fun tail₃ hTail₃ _ => ?_
  refine ((sound_parseHexUntil len ',' 1 8 tail₃).mono hTail₃).bind fun iv rest₁ hIv hRest₁ => ?_
  refine sound_consume len hRest₁ fun tail₄ hTail₄ _ => ?_
  refine ((h tail₄ hTail₄).mono hTail₄).bind fun spec rest₂ hSpec hRest₂ => ?_
  refine sound_consume len hRest₂ fun tail₅ hTail₅ _ => ?_
  exact ⟨.encrypted hLength hKey hIv hSpec, hTail₅⟩

theorem sound_parseBlockTable {parseChunks : List Char → Result (List BlockChunk × List Char)}
    (hSpec : ∀ tail, tail <:+ rest → Sound ESpec.WellFormed tail (parseSpec tail))
    (hChunks : ∀ tail, tail <:+ rest → Sound (ChunksSound 0) tail (parseChunks tail)) :
    Sound ESpec.WellFormed rest (parseBlockTable len parseSpec parseChunks rest) := by
  have hSingle {sizeSpec : Option BlockSizeSpec} {spec : ESpec} (h : spec.WellFormed) :
      (ESpec.blockTable [(sizeSpec, spec)]).WellFormed := by
    refine .blockTable (cons_ne_nil _ _) ?_ (forall_mem_singleton.mpr h)
    cases sizeSpec <;> simp [stars]
  refine sound_consume len (suffix_refl rest) fun tail hTail _ => ?_
  split
  · split
    · refine ((sound_parseShortSize len tail).mono hTail).bind fun sizeSpec rest₁ _ hRest₁ => ?_
      refine sound_consume len hRest₁ fun tail₂ hTail₂ _ => ?_
      refine ((hSpec tail₂ hTail₂).mono hTail₂).bind fun spec rest₂ h hRest₂ => ?_
      exact ⟨hSingle h, hRest₂⟩
    · refine ((hSpec tail hTail).mono hTail).bind fun spec rest₂ h hRest₂ => ?_
      exact ⟨hSingle h, hRest₂⟩
  · refine sound_consume len hTail fun tail₂ hTail₂ _ => ?_
    refine ((hChunks tail₂ hTail₂).mono hTail₂).bind fun chunks rest₂ h hRest₂ => ?_
    refine sound_consume len hRest₂ fun tail₃ hTail₃ _ => ?_
    refine ⟨.blockTable h.nonempty ?_ h.wellFormed, hTail₃⟩
    simpa using h.stars

end Nested

/-- One induction on the depth serves specifications and chunks, which call each other. -/
theorem sound_parse (depth : Nat) :
    (∀ rest : List Char, rest.length < depth →
      Sound ESpec.WellFormed rest (parseEspec len depth rest)) ∧
    ∀ (variableCount : Nat) (rest : List Char), variableCount ≤ 1 → rest.length < depth →
      Sound (ChunksSound variableCount) rest (parseChunks len depth variableCount rest) := by
  induction depth with
  | zero => exact ⟨fun _ h => absurd h (not_lt_zero _), fun _ _ _ h => absurd h
    (not_lt_zero _)⟩
  | succ depth ih =>
    obtain ⟨ihSpec, ihChunks⟩ := ih
    constructor
    · intro rest hDepth
      unfold parseEspec
      split
      · exact ⟨.none, suffix_cons _ _⟩
      · exact (sound_parseZlib len _).mono (suffix_cons _ _)
      next tail =>
        have hTail : tail.length < depth := lt_of_succ_lt_succ hDepth
        exact (sound_parseEncrypted len fun tail' h => ihSpec tail'
          (h.length_le.trans_lt hTail)).mono (suffix_cons _ _)
      next tail =>
        have hTail : tail.length < depth := lt_of_succ_lt_succ hDepth
        exact (sound_parseBlockTable len (fun tail' h => ihSpec tail' (h.length_le.trans_lt hTail))
          fun tail' h => ihChunks 0 tail' (zero_le _) (h.length_le.trans_lt hTail)).mono
          (suffix_cons _ _)
      · refine ((sound_parseBraced len _ _ 7 _).bind fun bcn rest' hBcn hRest => ?_).mono
          (suffix_cons _ _)
        exact ⟨.bcPack hBcn, hRest⟩
      · refine ((sound_parseBraced len _ _ 12 _).bind fun level rest' hLevel hRest => ?_).mono
          (suffix_cons _ _)
        exact ⟨.gDeflate hLevel, hRest⟩
      · exact nofun
      · exact nofun
    · intro variableCount rest hCount hDepth
      refine (sound_parseChunkSize len hCount rest).bind fun size rest₁ hSize hRest₁ => ?_
      refine sound_consume len hRest₁ fun tail₁ hTail₁ hLength₁ => ?_
      have hDepth₁ : tail₁.length < depth := by have := hRest₁.length_le; omega
      refine ((ihSpec tail₁ hDepth₁).mono hTail₁).bind fun spec rest₂ hSpec hRest₂ => ?_
      dsimp only
      split
      · refine sound_consume len hRest₂ fun tail₂ hTail₂ hLength₂ => ?_
        have hDepth₂ : tail₂.length < depth := by have := hRest₂.length_le; omega
        refine ((ihChunks _ tail₂ hSize.2 hDepth₂).mono hTail₂).bind
          fun chunks rest₃ hChunks hRest₃ => ?_
        have hStars := hChunks.stars
        refine ⟨⟨cons_ne_nil _ _, ?_, forall_mem_cons.mpr ⟨hSpec, hChunks.wellFormed⟩⟩, hRest₃⟩
        rw [map_cons, sum_cons]
        have hSize' := hSize.1
        dsimp only at hSize' ⊢
        omega
      · refine ⟨⟨cons_ne_nil _ _, ?_, forall_mem_singleton.mpr hSpec⟩, hRest₂⟩
        simpa using hSize.1.trans hSize.2

end Sound

variable {input : List Char}

theorem ESpec.wellFormed_of_parse {spec : ESpec}
    (h : ESpec.parse input = .ok spec) : spec.WellFormed := by
  obtain ⟨_, -, h⟩ := bind_eq_ok.mp h
  obtain ⟨⟨spec', rest⟩, hParse, h⟩ := bind_eq_ok.mp h
  have hSound := (sound_parse (utf8Length input) (input.length + 1)).1 input (lt_succ_self _)
  rw [hParse] at hSound
  dsimp only at h
  split at h
  · cases h
    exact hSound.1
  · cases h

/-- The only panic of the parser is a product that does not fit. -/
theorem ESpec.overflow_of_parse {panic : Panic}
    (h : ESpec.parse input = .error (.panic panic)) : panic = .overflow := by
  have hSound := (sound_parse (utf8Length input) (input.length + 1)).1 input (lt_succ_self _)
  unfold ESpec.parse ensure at h
  split at h
  · cases hParse : parseEspec (utf8Length input) (input.length + 1) input with
    | error e =>
      rw [hParse] at hSound h
      cases h
      exact hSound panic rfl
    | ok result =>
      rw [hParse, ok_bind, ok_bind] at h
      dsimp only at h
      split at h <;> cases h
  · cases h

end Cascette.Espec
