import Cascette.Espec.Accepted

/-!
# Reading a formatted specification

The parser wants a comma before a variant or window bits also when there is no level, and the writer
leaves it out. `reread` is what the parser makes of the written text of a specification: the
specification itself unless a zlib part in it has a variant or window bits without a level
(`Levelled`).
-/

namespace Cascette.Espec

open Lib List Option Nat

variable (len : Nat)

/-! ## Characters -/

/-- The text goes on with a separator, if it goes on. -/
def Ends (rest : List Char) : Prop := ∀ ch ∈ rest.head?, ch = ',' ∨ ch = '}'

theorem Ends.head_ne {rest : List Char} (h : Ends rest) {ch : Char} (hComma : ch ≠ ',')
    (hBrace : ch ≠ '}') : rest.head? ≠ some ch := by
  intro hHead
  rcases h ch hHead with hEq | hEq
  · exact hComma hEq
  · exact hBrace hEq

variable {rest : List Char}

theorem Ends.nextIsDigit (h : Ends rest) : nextIsDigit rest = false := by
  cases rest with
  | nil => rfl
  | cons ch rest => rcases h ch rfl with rfl | rfl <;> rfl

@[simp]
theorem consume_cons (ch : Char) (rest : List Char) : consume len ch (ch :: rest) = .ok rest := by
  simp [consume]

theorem takeWhile_append_stop {p : Char → Bool} {front : List Char}
    (hFront : ∀ ch ∈ front, p ch = true) (hRest : rest.head?.any p = false) :
    (front ++ rest).takeWhile p = front ∧ (front ++ rest).dropWhile p = rest := by
  rw [takeWhile_append_of_pos hFront, dropWhile_append_of_pos hFront]
  cases rest with
  | nil => simp
  | cons ch rest =>
    have hStop : p ch = false := by simpa using hRest
    simp [hStop]

/-! ## Numbers -/

variable {ch : Char} {n : Nat}

theorem isDigit_decimal (h : ch ∈ decimal n) : ch.isDigit = true :=
  isDigit_of_mem_toDigits (by norm_num) (by norm_num) h

theorem head_decimal (n : Nat) (rest : List Char) :
    ∃ ch, (decimal n ++ rest).head? = some ch ∧ ch.isDigit = true := by
  obtain ⟨ch, digits, hDigits⟩ := exists_cons_of_ne_nil (toDigits_ne_nil (n := n) (b := 10))
  have hDecimal : decimal n = ch :: digits := hDigits
  refine ⟨ch, by rw [hDecimal]; rfl, isDigit_decimal (n := n) ?_⟩
  rw [hDecimal]
  exact mem_cons_self

theorem nextIsDigit_decimal (n : Nat) (rest : List Char) :
    nextIsDigit (decimal n ++ rest) = true := by
  obtain ⟨ch, hHead, hDigit⟩ := head_decimal n rest
  rw [nextIsDigit, hHead]
  exact hDigit

theorem head_decimal_ne (h : ch.isDigit = false) : (decimal n ++ rest).head? ≠ some ch := by
  obtain ⟨ch', hHead, hDigit⟩ := head_decimal n rest
  rintro hEq
  rw [hHead] at hEq
  cases hEq
  rw [h] at hDigit
  cases hDigit

theorem parseNumber_decimal (h : n < 2 ^ 64) (hRest : nextIsDigit rest = false) :
    parseNumber len (decimal n ++ rest) = .ok (UInt64.ofNat n, rest) := by
  obtain ⟨hTake, hDrop⟩ := takeWhile_append_stop (fun _ => isDigit_decimal (n := n)) hRest
  have hValue : Nat.ofDigitChars 10 (decimal n) 0 = n := ofDigitChars_ten_toDigits
  have hNe : decimal n ≠ [] := toDigits_ne_nil
  rw [parseNumber, hTake, hDrop, hValue, if_neg hNe, if_pos h]

theorem parseByte_decimal (error : List Char → ESpecError) (n : UInt8)
    (hRest : nextIsDigit rest = false) :
    parseByte len error (decimal n.toNat ++ rest) = .ok (n, rest) := by
  have hLt : n.toNat < 256 := n.toNat_lt
  have hNat : (UInt64.ofNat n.toNat).toNat = n.toNat :=
    UInt64.toNat_ofNat_of_lt' (hLt.trans (by norm_num))
  rw [parseByte, parseNumber_decimal len (hLt.trans (by norm_num)) hRest, ok_bind]
  dsimp only
  rw [hNat, ensure_of hLt, ok_bind, UInt8.ofNat_toNat]

theorem parseCount_decimal (n : UInt32) (hRest : nextIsDigit rest = false) :
    parseCount len (decimal n.toNat ++ rest) = .ok (n, rest) := by
  have hLt : n.toNat < 2 ^ 32 := n.toNat_lt
  have hNat : (UInt64.ofNat n.toNat).toNat = n.toNat :=
    UInt64.toNat_ofNat_of_lt' (hLt.trans (by norm_num))
  rw [parseCount, parseNumber_decimal len (hLt.trans (by norm_num)) hRest, ok_bind]
  dsimp only
  rw [hNat, ensure_of hLt, ok_bind, UInt32.ofNat_toNat]

/-! ## Codecs -/

/-- A variant or window bits that follow no level are written without a comma: a variant is
refused, and window bits are taken for the level. -/
def rereadZlib : Option UInt8 → Option ZLibVariant → Option UInt8 → Option ESpec
  | none, some _, _ => none
  | none, none, some wb => if wb.toNat ≤ 9 then some (.zlib (some wb) none none) else none
  | level, variant, windowBits => some (.zlib level variant windowBits)

variable {level bits : UInt8} (variant : ZLibVariant)

theorem parseLevel_decimal (h : ValidLevel 9 level) (hRest : nextIsDigit rest = false) :
    parseLevel len (decimal level.toNat ++ rest) = .ok (level, rest) := by
  rw [parseLevel, parseByte_decimal len _ level hRest, ok_bind]
  dsimp only
  rw [ensure_of h, ok_bind]

theorem parseWindowBits_decimal (h : ValidBits bits) (hRest : nextIsDigit rest = false) :
    parseWindowBits len (decimal bits.toNat ++ rest) = .ok (bits, rest) := by
  rw [parseWindowBits, parseByte_decimal len _ bits hRest, ok_bind]
  dsimp only
  rw [ensure_of h, ok_bind]

theorem nextIsDigit_brace (rest : List Char) : nextIsDigit ('}' :: rest) = false := rfl

theorem head_brace (rest : List Char) : ('}' :: rest).head?.any Char.isAlphanum = false := rfl

theorem head_comma (rest : List Char) : (',' :: rest).head?.any Char.isAlphanum = false := rfl

theorem parseZlibVariant_fmt (hRest : rest.head?.any Char.isAlphanum = false) :
    parseZlibVariant len (variant.fmt ++ rest) = .ok (variant, rest) := by
  have hAll : ∀ ch ∈ variant.fmt, ch.isAlphanum = true := all_eq_true.mp (by cases variant <;> rfl)
  obtain ⟨hTake, hDrop⟩ := takeWhile_append_stop hAll hRest
  rw [parseZlibVariant, parseIdentifier, hTake, hDrop]
  cases variant <;> rfl

theorem head_variant (rest : List Char) :
    nextIsDigit (variant.fmt ++ rest) = false ∧ (variant.fmt ++ rest).head? ≠ some ',' ∧
      (variant.fmt ++ rest).head? ≠ some '}' := by
  cases variant <;> simp [ZLibVariant.fmt, nextIsDigit]

def fmtParameters : Option ZLibVariant → Option UInt8 → List Char
  | none, none => []
  | some v, none => ',' :: v.fmt
  | none, some wb => ',' :: decimal wb.toNat
  | some v, some wb => ',' :: (v.fmt ++ ',' :: decimal wb.toNat)

theorem parseZlibParameters_fmt (variant : Option ZLibVariant) {windowBits : Option UInt8}
    (h : ∀ bits ∈ windowBits, ValidBits bits) (rest : List Char) :
    parseZlibParameters len (fmtParameters variant windowBits ++ '}' :: rest) =
      .ok ((variant, windowBits), '}' :: rest) := by
  cases variant with
  | none =>
    cases windowBits with
    | none => rfl
    | some bits =>
      have hBits := parseWindowBits_decimal len (h bits rfl) (nextIsDigit_brace rest)
      simp [parseZlibParameters, fmtParameters, nextIsDigit_decimal, hBits]
  | some variant =>
    cases windowBits with
    | none =>
      have hVariant := parseZlibVariant_fmt len variant (head_brace rest)
      have hHead := (head_variant variant ('}' :: rest)).1
      simp [parseZlibParameters, fmtParameters, hHead, hVariant]
    | some bits =>
      have hVariant := parseZlibVariant_fmt len variant
        (head_comma (decimal bits.toNat ++ '}' :: rest))
      have hHead := (head_variant variant (',' :: (decimal bits.toNat ++ '}' :: rest))).1
      have hBits := parseWindowBits_decimal len (h bits rfl) (nextIsDigit_brace rest)
      simp [parseZlibParameters, fmtParameters, hHead, hVariant, hBits]

theorem parseZlib_braces (hLevel : ValidLevel 9 level) (variant : Option ZLibVariant)
    {windowBits : Option UInt8} (hBits : ∀ bits ∈ windowBits, ValidBits bits) (rest : List Char) :
    parseZlib len (':' :: '{' :: (decimal level.toNat ++
      (fmtParameters variant windowBits ++ '}' :: rest))) =
        .ok (.zlib (some level) variant windowBits, rest) := by
  have hDigit : nextIsDigit (fmtParameters variant windowBits ++ '}' :: rest) = false := by
    cases variant <;> cases windowBits <;> rfl
  have hParameters := parseZlibParameters_fmt len variant hBits rest
  simp [parseZlib, parseOptionalLevel, nextIsDigit_decimal, parseLevel_decimal len hLevel hDigit,
    Except.map, hParameters]

theorem parseZlib_level (h : ValidLevel 9 level) (hRest : Ends rest) :
    parseZlib len (':' :: (decimal level.toNat ++ rest)) =
      .ok (.zlib (some level) none none, rest) := by
  have hNe : (decimal level.toNat ++ rest).head? ≠ some '{' := head_decimal_ne rfl
  rw [parseZlib, if_neg (by simp), consume_cons, ok_bind, if_neg hNe,
    if_pos (nextIsDigit_decimal _ _), parseLevel_decimal len h hRest.nextIsDigit, ok_bind]

/-- A variant right after the brace is refused. -/
theorem parseZlib_variant (rest : List Char) :
    (parseZlib len (':' :: '{' :: (variant.fmt ++ rest))).toOption = none := by
  obtain ⟨hDigit, hComma, hBrace⟩ := head_variant variant rest
  rw [parseZlib, if_neg (by simp), consume_cons, ok_bind, if_pos head?_cons, consume_cons,
    ok_bind, parseOptionalLevel, hDigit, if_neg Bool.false_ne_true, ok_bind]
  dsimp only
  rw [parseZlibParameters, if_neg hComma, ok_bind]
  rw [consume, if_neg hBrace]
  rfl

/-- Window bits right after the brace are taken for a level. -/
theorem parseZlib_bits (h : ValidBits bits) (rest : List Char) :
    (parseZlib len (':' :: '{' :: (decimal bits.toNat ++ '}' :: rest))).toOption =
      if bits.toNat ≤ 9 then some (.zlib (some bits) none none, rest) else none := by
  split_ifs with hLe
  · have hLevel : ValidLevel 9 bits := ⟨by have := h.1; omega, hLe⟩
    have hParse := @parseZlib_braces len bits hLevel none none nofun rest
    exact toOption_eq_some.mpr hParse
  · rw [parseZlib, if_neg (by simp), consume_cons, ok_bind, if_pos head?_cons, consume_cons,
      ok_bind, parseOptionalLevel, if_pos (nextIsDigit_decimal _ _), parseLevel,
      parseByte_decimal len _ bits (nextIsDigit_brace rest), ok_bind]
    dsimp only
    rw [ensure, if_neg fun hLevel => hLe hLevel.2]
    rfl

theorem parseZlib_fmt {level : Option UInt8} (hLevel : ∀ l ∈ level, ValidLevel 9 l)
    (variant : Option ZLibVariant) {windowBits : Option UInt8}
    (hBits : ∀ bits ∈ windowBits, ValidBits bits) (hRest : Ends rest) :
    (parseZlib len (fmtZlib level variant windowBits ++ rest)).toOption =
      (rereadZlib level variant windowBits).map (·, rest) := by
  cases level with
  | some level =>
    refine toOption_eq_some.mpr ?_
    have hBraces := parseZlib_braces len (hLevel level rfl) variant hBits rest
    cases variant with
    | none =>
      cases windowBits with
      | none => exact parseZlib_level len (hLevel level rfl) hRest
      | some bits => simpa [fmtZlib, fmtParameters] using hBraces
    | some variant => cases windowBits <;> simpa [fmtZlib, fmtParameters] using hBraces
  | none =>
    cases variant with
    | some variant =>
      cases windowBits with
      | none => simpa [fmtZlib, rereadZlib] using parseZlib_variant len variant ('}' :: rest)
      | some bits =>
        simpa [fmtZlib, rereadZlib] using
          parseZlib_variant len variant (',' :: (decimal bits.toNat ++ '}' :: rest))
    | none =>
      cases windowBits with
      | none =>
        have hNe : rest.head? ≠ some ':' := hRest.head_ne (by simp) (by simp)
        rw [fmtZlib, nil_append, parseZlib, if_pos hNe]
        rfl
      | some bits =>
        simp only [fmtZlib, cons_append, append_assoc, nil_append]
        rw [parseZlib_bits len (hBits bits rfl) rest, rereadZlib]
        split <;> rfl

theorem parseBraced_fmt (tooLarge : List Char → ESpecError) (invalid : UInt8 → ESpecError)
    {max : Nat} {parameter : Option UInt8} (h : ∀ n ∈ parameter, ValidLevel max n)
    (hRest : Ends rest) :
    parseBraced len tooLarge invalid max (fmtBraced parameter ++ rest) = .ok (parameter, rest) := by
  cases parameter with
  | none =>
    have hNe : rest.head? ≠ some ':' := hRest.head_ne (by simp) (by simp)
    exact if_pos hNe
  | some n =>
    have hText : fmtBraced (some n) ++ rest = ':' :: '{' :: (decimal n.toNat ++ '}' :: rest) := by
      simp [fmtBraced]
    rw [hText, parseBraced, if_neg (by simp), consume_cons, ok_bind, consume_cons, ok_bind,
      parseByte_decimal len _ n (nextIsDigit_brace rest), ok_bind]
    dsimp only
    rw [ensure_of (h n rfl), ok_bind, consume_cons, ok_bind]

/-! ## Encryption parameters -/

theorem hexCharValue_hexDigit : ∀ d < 16, hexCharValue (hexDigit d) = some d := by decide

theorem hexDigit_ne_comma : ∀ d < 16, hexDigit d ≠ ',' := by decide

theorem nibbles (b : UInt8) : b.toNat / 16 < 16 ∧ b.toNat % 16 < 16 := by
  have hLt : b.toNat < 256 := b.toNat_lt
  omega

variable {iv : Bytes} {size : UInt64}

theorem isHexdigit_hexEncode (h : ch ∈ hexEncode iv) : (ch ≠ ',' && isHexdigit ch) = true := by
  obtain ⟨b, -, hMem⟩ := mem_flatMap.mp h
  obtain ⟨d, hd, rfl⟩ : ∃ d < 16, ch = hexDigit d := by
    rcases mem_pair.mp hMem with rfl | rfl
    · exact ⟨_, (nibbles b).1, rfl⟩
    · exact ⟨_, (nibbles b).2, rfl⟩
  simp [hexDigit_ne_comma d hd, isHexdigit, hexCharValue_hexDigit d hd]

theorem length_hexEncode (iv : Bytes) : (hexEncode iv).length = 2 * iv.length := by
  induction iv with
  | nil => rfl
  | cons b iv ih =>
    rw [hexEncode, flatMap_cons, length_append, ← hexEncode, ih, length_cons]
    simp only [length_cons, length_nil]
    omega

theorem hexDecode_hexEncode (iv : Bytes) : hexDecode (hexEncode iv) = iv := by
  induction iv with
  | nil => rfl
  | cons b iv ih =>
    obtain ⟨hHigh, hLow⟩ := nibbles b
    have hByte : b.toNat / 16 * 16 + b.toNat % 16 = b.toNat := by omega
    change hexDecode (hexDigit (b.toNat / 16) :: hexDigit (b.toNat % 16) :: hexEncode iv) = _
    rw [hexDecode, hexCharValue_hexDigit _ hHigh, hexCharValue_hexDigit _ hLow, ih,
      getD_some, getD_some, hByte, UInt8.ofNat_toNat]

theorem parseHexUntil_hexEncode (h : 1 ≤ iv.length ∧ iv.length ≤ 8) (rest : List Char) :
    parseHexUntil len ',' 1 8 (hexEncode iv ++ ',' :: rest) = .ok (iv, ',' :: rest) := by
  have hStop : (',' :: rest).head?.any (fun ch => ch ≠ ',' && isHexdigit ch) = false := rfl
  obtain ⟨hTake, hDrop⟩ := takeWhile_append_stop
    (fun ch (hMem : ch ∈ hexEncode iv) => isHexdigit_hexEncode hMem) hStop
  have hLength := length_hexEncode iv
  have hHalf : 2 * iv.length / 2 = iv.length := by omega
  rw [parseHexUntil, hTake, hDrop]
  dsimp only [head?_cons]
  rw [filter_some, if_neg (by simp)]
  rw [hLength, ensure_of (mul_mod_right 2 _), ok_bind, hHalf, ensure_of h, ok_bind,
    hexDecode_hexEncode]

theorem parseIdentifier_append {key : List Char} (h : ∀ ch ∈ key, ch.isAlphanum = true)
    (rest : List Char) : parseIdentifier (key ++ ',' :: rest) = (key, ',' :: rest) := by
  obtain ⟨hTake, hDrop⟩ := takeWhile_append_stop h (head_comma rest)
  rw [parseIdentifier, hTake, hDrop]

/-! ## Sizes -/

theorem scale_div {factor : Nat} (h : size.toNat % factor = 0) :
    scale (UInt64.ofNat (size.toNat / factor)) factor = .ok size := by
  have hLt : size.toNat < 2 ^ 64 := size.toNat_lt
  have hQuotient : (UInt64.ofNat (size.toNat / factor)).toNat = size.toNat / factor :=
    UInt64.toNat_ofNat_of_lt' ((div_le_self _ _).trans_lt hLt)
  rw [scale, hQuotient, Nat.div_mul_cancel (dvd_of_mod_eq_zero h), if_pos hLt, UInt64.ofNat_toNat]

/-- The number of a size is followed by a star or an equals sign. -/
def SizeEnds (rest : List Char) : Prop := ∃ tail, rest = '*' :: tail ∨ rest = '=' :: tail

theorem parseSize_fmt (size : UInt64) (hRest : SizeEnds rest) :
    parseSize len (fmtBytes size ++ rest) = .ok (size, rest) := by
  have hLt : size.toNat < 2 ^ 64 := size.toNat_lt
  have hQuotient (factor : Nat) : size.toNat / factor < 2 ^ 64 := (div_le_self _ _).trans_lt hLt
  rw [parseSize, fmtBytes]
  split
  next hMega =>
    rw [append_assoc, parseNumber_decimal len (hQuotient _) rfl, ok_bind]
    change (scale _ _).map _ = _
    rw [scale_div hMega]
    rfl
  · split_ifs with hKilo
    · rw [append_assoc, parseNumber_decimal len (hQuotient _) rfl, ok_bind]
      change (scale _ _).map _ = _
      rw [scale_div hKilo]
      rfl
    · obtain ⟨tail, rfl | rfl⟩ := hRest
      all_goals
        rw [parseNumber_decimal len hLt rfl, ok_bind]
        change Except.ok _ = _
        rw [UInt64.ofNat_toNat]

theorem parseBlockSizeSpec_fmt (spec : BlockSizeSpec) (rest : List Char) :
    parseBlockSizeSpec len (spec.fmt ++ '=' :: rest) = .ok (spec, '=' :: rest) := by
  obtain ⟨size, count⟩ := spec
  rw [parseBlockSizeSpec, BlockSizeSpec.fmt, append_assoc]
  cases count with
  | none =>
    rw [elim_none, nil_append, parseSize_fmt len size ⟨rest, .inr rfl⟩, ok_bind]
    exact if_neg (by simp)
  | some count =>
    have hDigit : nextIsDigit ('=' :: rest) = false := rfl
    rw [elim_some, cons_append, parseSize_fmt len size ⟨_, .inl rfl⟩, ok_bind]
    dsimp only
    rw [if_pos head?_cons, consume_cons, ok_bind, if_pos (nextIsDigit_decimal _ _),
      parseCount_decimal len count hDigit, ok_bind]

theorem head_fmtBytes_ne (h : ch.isDigit = false) : (fmtBytes size ++ rest).head? ≠ some ch := by
  unfold fmtBytes
  split
  · rw [append_assoc]
    exact head_decimal_ne h
  · split
    · rw [append_assoc]
      exact head_decimal_ne h
    · exact head_decimal_ne h

theorem parseChunkSize_fmt {variableCount : Nat} {sizeSpec : Option BlockSizeSpec}
    (h : variableCount + stars sizeSpec ≤ 1) (rest : List Char) :
    parseChunkSize len variableCount (fmtSize sizeSpec ++ rest) =
      .ok ((sizeSpec, variableCount + stars sizeSpec), '=' :: rest) := by
  cases sizeSpec with
  | none =>
    have hText : fmtSize none ++ rest = '*' :: '=' :: rest := rfl
    have hStars : stars none = 1 := rfl
    rw [hStars] at h
    rw [hText, parseChunkSize, if_pos head?_cons, consume_cons, ok_bind, ensure_of h, ok_bind,
      if_pos head?_cons]
    rfl
  | some size =>
    have hText : fmtSize (some size) ++ rest = size.fmt ++ '=' :: rest := by simp [fmtSize]
    have hHead : (size.fmt ++ '=' :: rest).head? ≠ some '*' := by
      rw [BlockSizeSpec.fmt, append_assoc]
      exact head_fmtBytes_ne rfl
    rw [hText, parseChunkSize, if_neg hHead, parseBlockSizeSpec_fmt, ok_bind]
    rfl

/-! ## Specifications -/

/-- No zlib part has a variant or window bits without a level. -/
inductive ESpec.Levelled : ESpec → Prop
  | none : Levelled .none
  | zlib {level : Option UInt8} {variant : Option ZLibVariant} {windowBits : Option UInt8}
      (h : level = Option.none → variant = Option.none ∧ windowBits = Option.none) :
      Levelled (.zlib level variant windowBits)
  | encrypted {key : List Char} {iv : Bytes} {spec : ESpec} (h : Levelled spec) :
      Levelled (.encrypted key iv spec)
  | blockTable {chunks : List BlockChunk} (h : ∀ chunk ∈ chunks, Levelled chunk.2) :
      Levelled (.blockTable chunks)
  | bcPack (bcn : Option UInt8) : Levelled (.bcPack bcn)
  | gDeflate (level : Option UInt8) : Levelled (.gDeflate level)

mutual

/-- The specification that is read from the text of a specification, if one is. -/
def ESpec.reread : ESpec → Option ESpec
  | .none => some .none
  | .zlib level variant windowBits => rereadZlib level variant windowBits
  | .encrypted key iv spec => spec.reread.map (.encrypted key iv)
  | .blockTable chunks => (rereadChunks chunks).map .blockTable
  | .bcPack bcn => some (.bcPack bcn)
  | .gDeflate level => some (.gDeflate level)

def rereadChunks :
    List (Option BlockSizeSpec × ESpec) → Option (List (Option BlockSizeSpec × ESpec))
  | [] => some []
  | (sizeSpec, spec) :: chunks =>
    spec.reread.bind fun spec => (rereadChunks chunks).map ((sizeSpec, spec) :: ·)

end

/-- The parser reads the text of a specification, whatever follows after a separator. -/
def Rereads (spec : ESpec) : Prop :=
  ∀ {depth : Nat} {rest : List Char}, spec.fmt.length < depth → Ends rest →
    (parseEspec len depth (spec.fmt ++ rest)).toOption = spec.reread.map (·, rest)

theorem ends_brace (rest : List Char) : Ends ('}' :: rest) := by
  intro ch hCh
  cases hCh
  exact .inr rfl

theorem ends_nil : Ends [] := nofun

theorem ends_comma (rest : List Char) : Ends (',' :: rest) := by
  intro ch hCh
  cases hCh
  exact .inl rfl

variable {spec : ESpec}

theorem rereads_encrypted {key : List Char} (hLength : key.length = 16)
    (hKey : ∀ ch ∈ key, ch.isAlphanum = true) (hIv : 1 ≤ iv.length ∧ iv.length ≤ 8)
    (h : Rereads len spec) : Rereads len (.encrypted key iv spec) := by
  intro depth rest hDepth _
  obtain ⟨depth, rfl⟩ := exists_eq_succ_of_ne_zero (Nat.ne_zero_of_lt hDepth)
  have hText : ESpec.fmt (.encrypted key iv spec) ++ rest =
      'e' :: ':' :: '{' :: (key ++ ',' :: (hexEncode iv ++ ',' :: (spec.fmt ++ '}' :: rest))) := by
    simp [ESpec.fmt]
  have hInner : spec.fmt.length < depth := by
    simp only [ESpec.fmt, length_cons, length_append] at hDepth
    omega
  rw [hText, parseEspec, parseEncrypted, consume_cons, ok_bind, consume_cons, ok_bind,
    parseIdentifier_append hKey]
  dsimp only
  rw [ensure_of hLength, ok_bind, consume_cons, ok_bind, parseHexUntil_hexEncode len hIv, ok_bind]
  rw [consume_cons, ok_bind, toOption_bind, h hInner (ends_brace rest), ESpec.reread]
  cases spec.reread with
  | none => rfl
  | some spec => simp [Except.toOption]

variable {chunks : List BlockChunk}

theorem fmt_blockTable (h : ¬ ∃ spec, chunks = [(none, spec)]) :
    ESpec.fmt (.blockTable chunks) = 'b' :: ':' :: '{' :: (fmtChunks chunks ++ ['}']) := by
  rw [ESpec.fmt]
  exact fun spec hEq => h ⟨spec, hEq⟩

theorem head_fmt (spec : ESpec) (rest : List Char) :
    ∃ ch ∈ ['n', 'z', 'e', 'b', 'c', 'g'], (spec.fmt ++ rest).head? = some ch := by
  cases spec with
  | none => exact ⟨'n', by simp, rfl⟩
  | zlib => exact ⟨'z', by simp, rfl⟩
  | encrypted => exact ⟨'e', by simp, rfl⟩
  | blockTable chunks =>
    refine ⟨'b', by simp, ?_⟩
    by_cases hSingle : ∃ spec, chunks = [(none, spec)]
    · obtain ⟨spec, rfl⟩ := hSingle
      rfl
    · rw [fmt_blockTable hSingle]
      rfl
  | bcPack => exact ⟨'c', by simp, rfl⟩
  | gDeflate => exact ⟨'g', by simp, rfl⟩

theorem fmtChunks_cons (chunk : BlockChunk) (h : chunks ≠ []) :
    fmtChunks (chunk :: chunks) = fmtSize chunk.1 ++ (chunk.2.fmt ++ ',' :: fmtChunks chunks) := by
  cases chunks with
  | nil => exact absurd rfl h
  | cons => rw [fmtChunks, append_assoc]; simp

theorem length_fmtSize_pos (sizeSpec : Option BlockSizeSpec) : 0 < (fmtSize sizeSpec).length := by
  cases sizeSpec <;> simp [fmtSize]

theorem rereads_chunks (hNe : chunks ≠ []) (h : ∀ chunk ∈ chunks, Rereads len chunk.2)
    {variableCount depth : Nat}
    (hStars : variableCount + (chunks.map fun chunk => stars chunk.1).sum ≤ 1)
    (hDepth : (fmtChunks chunks).length < depth) (rest : List Char) :
    (parseChunks len depth variableCount (fmtChunks chunks ++ '}' :: rest)).toOption =
      (rereadChunks chunks).map (·, '}' :: rest) := by
  induction chunks generalizing variableCount depth with
  | nil => exact absurd rfl hNe
  | cons chunk chunks ih =>
    obtain ⟨sizeSpec, spec⟩ := chunk
    obtain ⟨hSpec, hTail⟩ := forall_mem_cons.mp h
    obtain ⟨depth, rfl⟩ := exists_eq_succ_of_ne_zero (Nat.ne_zero_of_lt hDepth)
    rw [map_cons, sum_cons] at hStars
    dsimp only at hStars
    have hSize := length_fmtSize_pos sizeSpec
    have hStar : variableCount + stars sizeSpec ≤ 1 := by omega
    by_cases hLast : chunks = []
    · subst hLast
      have hText : fmtChunks [(sizeSpec, spec)] ++ '}' :: rest =
          fmtSize sizeSpec ++ (spec.fmt ++ '}' :: rest) := by
        rw [fmtChunks, append_assoc]
      have hInner : spec.fmt.length < depth := by
        rw [fmtChunks, length_append] at hDepth
        omega
      rw [hText, parseChunks, parseChunkSize_fmt len hStar, ok_bind]
      dsimp only
      rw [consume_cons, ok_bind, toOption_bind, hSpec hInner (ends_brace rest), rereadChunks]
      cases spec.reread with
      | none => rfl
      | some spec => rfl
    · have hText : fmtChunks ((sizeSpec, spec) :: chunks) ++ '}' :: rest =
          fmtSize sizeSpec ++ (spec.fmt ++ ',' :: (fmtChunks chunks ++ '}' :: rest)) := by
        rw [fmtChunks_cons _ hLast]
        simp
      have hInner : spec.fmt.length < depth ∧ (fmtChunks chunks).length < depth := by
        rw [fmtChunks_cons _ hLast] at hDepth
        simp only [length_append, length_cons] at hDepth
        omega
      rw [hText, parseChunks, parseChunkSize_fmt len hStar, ok_bind]
      dsimp only
      rw [consume_cons, ok_bind, toOption_bind, hSpec hInner.1 (ends_comma _), rereadChunks]
      cases spec.reread with
      | none => rfl
      | some spec =>
        have hRest := ih hLast hTail (by omega : variableCount + stars sizeSpec + _ ≤ 1) hInner.2
        change Except.toOption (if (',' :: _).head? = some ',' then _ else _) = _
        rw [if_pos head?_cons, consume_cons, ok_bind, toOption_bind, hRest]
        cases rereadChunks chunks with
        | none => rfl
        | some chunks => rfl

theorem rereads_blockTable (hNe : chunks ≠ [])
    (hStars : (chunks.map fun chunk => stars chunk.1).sum ≤ 1)
    (h : ∀ chunk ∈ chunks, Rereads len chunk.2) : Rereads len (.blockTable chunks) := by
  intro depth rest hDepth hRest
  obtain ⟨depth, rfl⟩ := exists_eq_succ_of_ne_zero (Nat.ne_zero_of_lt hDepth)
  by_cases hSingle : ∃ spec, chunks = [(none, spec)]
  · -- the size of a single chunk is left out with its braces
    obtain ⟨spec, rfl⟩ := hSingle
    have hInner : spec.fmt.length < depth := by
      rw [ESpec.fmt, length_cons, length_cons] at hDepth
      omega
    have hSpec := forall_mem_singleton.mp h hInner hRest
    obtain ⟨ch, hMem, hHead⟩ := head_fmt spec rest
    have hLetter : ch ≠ '{' ∧ ch ≠ '*' ∧ ch.isDigit = false := by
      fin_cases hMem <;> decide
    have hBrace : (spec.fmt ++ rest).head? ≠ some '{' := by
      rw [hHead]
      exact fun hEq => hLetter.1 (Option.some.inj hEq)
    have hSize : ¬ (nextIsDigit (spec.fmt ++ rest) = true ∨
        (spec.fmt ++ rest).head? = some '*') := by
      rw [nextIsDigit, hHead]
      simp [hLetter.2.1, hLetter.2.2]
    have hText : ESpec.fmt (.blockTable [(none, spec)]) ++ rest =
        'b' :: ':' :: (spec.fmt ++ rest) := by
      rfl
    rw [hText, parseEspec, parseBlockTable, consume_cons, ok_bind, if_pos hBrace, if_neg hSize,
      toOption_bind, hSpec, ESpec.reread, rereadChunks]
    cases spec.reread with
    | none => rfl
    | some spec => rfl
  · have hFmt := fmt_blockTable hSingle
    have hText : ESpec.fmt (.blockTable chunks) ++ rest =
        'b' :: ':' :: '{' :: (fmtChunks chunks ++ '}' :: rest) := by
      rw [hFmt]
      simp
    have hInner : (fmtChunks chunks).length < depth := by
      rw [hFmt] at hDepth
      simp only [length_cons, length_append] at hDepth
      omega
    have hChunks := rereads_chunks len hNe h (by omega : 0 + _ ≤ 1) hInner rest
    rw [hText, parseEspec, parseBlockTable, consume_cons, ok_bind, if_neg (by simp), consume_cons,
      ok_bind, toOption_bind, hChunks, ESpec.reread]
    cases rereadChunks chunks with
    | none => rfl
    | some chunks => simp [Except.toOption]

theorem rereads (h : spec.WellFormed) : Rereads len spec := by
  induction h with
  | none =>
    intro depth rest hDepth _
    obtain ⟨depth, rfl⟩ := exists_eq_succ_of_ne_zero (Nat.ne_zero_of_lt hDepth)
    rfl
  | @zlib level variant windowBits hLevel hBits =>
    intro depth rest hDepth hRest
    obtain ⟨depth, rfl⟩ := exists_eq_succ_of_ne_zero (Nat.ne_zero_of_lt hDepth)
    exact parseZlib_fmt len hLevel variant hBits hRest
  | encrypted hLength hKey hIv _ ih => exact rereads_encrypted len hLength hKey hIv ih
  | blockTable hNe hStars _ ih => exact rereads_blockTable len hNe hStars ih
  | @bcPack bcn hBcn =>
    intro depth rest hDepth hRest
    obtain ⟨depth, rfl⟩ := exists_eq_succ_of_ne_zero (Nat.ne_zero_of_lt hDepth)
    change (parseBcpack len (fmtBraced bcn ++ rest)).toOption = _
    rw [parseBcpack, parseBraced_fmt len _ _ hBcn hRest]
    rfl
  | @gDeflate level hLevel =>
    intro depth rest hDepth hRest
    obtain ⟨depth, rfl⟩ := exists_eq_succ_of_ne_zero (Nat.ne_zero_of_lt hDepth)
    change (parseGdeflate len (fmtBraced level ++ rest)).toOption = _
    rw [parseGdeflate, parseBraced_fmt len _ _ hLevel hRest]
    rfl

/-- The parser returns the specification itself exactly if every zlib part is levelled. -/
theorem reread_eq_self (spec : ESpec) : spec.reread = some spec ↔ spec.Levelled := by
  induction spec using ESpec.inductionOn with
  | none => exact iff_of_true rfl .none
  | zlib level variant windowBits =>
    have hZlib : (.zlib level variant windowBits : ESpec).Levelled ↔
        (level = none → variant = none ∧ windowBits = none) :=
      ⟨fun h => by cases h; assumption, .zlib⟩
    rw [hZlib, ESpec.reread]
    cases level <;> cases variant <;> cases windowBits <;> simp [rereadZlib]
  | encrypted key iv spec ih =>
    rw [ESpec.reread, map_eq_some_iff]
    constructor
    · rintro ⟨spec', hReread, hEq⟩
      cases hEq
      exact .encrypted (ih.mp hReread)
    · intro h
      cases h with
      | encrypted h => exact ⟨spec, ih.mpr h, rfl⟩
  | blockTable chunks ih =>
    have hChunks : rereadChunks chunks = some chunks ↔ ∀ chunk ∈ chunks, chunk.2.Levelled := by
      induction chunks with
      | nil => exact iff_of_true rfl nofun
      | cons chunk chunks ihChunks =>
        obtain ⟨sizeSpec, spec⟩ := chunk
        obtain ⟨ihSpec, ihTail⟩ := forall_mem_cons.mp ih
        rw [forall_mem_cons, ← ihChunks ihTail, ← ihSpec, rereadChunks]
        simp [bind_eq_some_iff]
    rw [ESpec.reread, map_eq_some_iff]
    constructor
    · rintro ⟨chunks', hReread, hEq⟩
      cases hEq
      exact .blockTable (hChunks.mp hReread)
    · intro h
      cases h with
      | blockTable h => exact ⟨chunks, hChunks.mpr h, rfl⟩
  | bcPack bcn => exact iff_of_true rfl (.bcPack bcn)
  | gDeflate level => exact iff_of_true rfl (.gDeflate level)

namespace ESpec

theorem toOption_parse_fmt (h : spec.WellFormed) : (parse spec.fmt).toOption = spec.reread := by
  obtain ⟨ch, -, hHead⟩ := head_fmt spec []
  have hNe : spec.fmt ≠ [] := by
    rintro hNil
    rw [hNil] at hHead
    cases hHead
  have hParse := rereads (utf8Length spec.fmt) h (lt_succ_self _) ends_nil
  rw [append_nil] at hParse
  rw [parse, ensure_of hNe, ok_bind, toOption_bind, hParse]
  cases spec.reread with
  | none => rfl
  | some spec' => rfl

/-- Formatting what was parsed and parsing it again gives the same specification exactly if no zlib
part has a variant or window bits without a level. -/
theorem parse_fmt_iff {input : List Char} {spec : ESpec} (h : parse input = .ok spec) :
    parse spec.fmt = .ok spec ↔ spec.Levelled := by
  rw [← toOption_eq_some, toOption_parse_fmt (wellFormed_of_parse h), reread_eq_self]

/-- The text `b:1K*=z:{9,mpq}`, which is formatted as `b:{1K=z:{9,mpq}}`. -/
def shortForm : List Char :=
  ['b', ':', '1', 'K', '*', '=', 'z', ':', '{', '9', ',', 'm', 'p', 'q', '}']

theorem parse_fmt_shortForm : ∃ spec, parse shortForm = .ok spec ∧ parse spec.fmt = .ok spec := by
  have hParse : parse shortForm = .ok (.blockTable [(some ⟨1024, Option.none⟩,
    .zlib (some 9) (some .mpq) Option.none)]) := rfl
  refine ⟨_, hParse, (parse_fmt_iff hParse).mpr ?_⟩
  exact .blockTable (forall_mem_singleton.mpr (.zlib nofun))

/-- The text `z:{,mpq}`. -/
def unlevelled : List Char := ['z', ':', '{', ',', 'm', 'p', 'q', '}']

theorem parse_fmt_refuted : ∃ spec, parse unlevelled = .ok spec ∧ ∃ e, parse spec.fmt = .error e :=
  ⟨_, rfl, _, rfl⟩

end ESpec

end Cascette.Espec
