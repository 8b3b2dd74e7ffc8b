import Cascette.Espec.Types
import Cascette.Lib.Except

/-!
# Parser of encoding specifications

The parser looks at the next character and never goes back. Every function takes the text that is
left and returns what is left after it; positions in errors are computed from the length of the
whole text.
-/

namespace Cascette.Espec

open Lib

abbrev Result := Except (Halt ESpecError)

def utf8Length (text : List Char) : Nat := (text.map Char.utf8Size).sum

section Parser

-- the length of the text in bytes
variable (len : Nat)

/-- The position of what is left. -/
def position (rest : List Char) : Nat := len - utf8Length rest

/-- The error of a missing character. -/
def unexpected (expected : Char) (rest : List Char) : ESpecError :=
  rest.head?.elim (.unexpectedEnd (position len rest)) fun ch =>
    .unexpectedChar expected ch (position len rest)

def consume (expected : Char) (rest : List Char) : Result (List Char) :=
  if rest.head? = some expected then .ok rest.tail
  else .error (.error (unexpected len expected rest))

def nextIsDigit (rest : List Char) : Bool := rest.head?.any Char.isDigit

def parseNumber (rest : List Char) : Result (UInt64 × List Char) :=
  let digits := rest.takeWhile Char.isDigit
  let value := Nat.ofDigitChars 10 digits 0
  if digits = [] then
    .error (.error (.invalidNumber (position len rest) "Expected number"))
  else if value < 2 ^ 64 then .ok (UInt64.ofNat value, rest.dropWhile Char.isDigit)
  else .error (.error (.invalidNumber (position len rest)
    "number too large to fit in target type"))

def parseIdentifier (rest : List Char) : List Char × List Char :=
  (rest.takeWhile Char.isAlphanum, rest.dropWhile Char.isAlphanum)

/-- A number that fits a byte. -/
def parseByte (error : List Char → ESpecError) (rest : List Char) : Result (UInt8 × List Char) := do
  let (num, rest) ← parseNumber len rest
  ensure (num.toNat < 256) (.error (error rest))
  .ok (UInt8.ofNat num.toNat, rest)

/-! ## Codecs -/

def parseZlibVariant (rest : List Char) : Result (ZLibVariant × List Char) :=
  let (ident, tail) := parseIdentifier rest
  if ident = ZLibVariant.mpq.fmt then .ok (.mpq, tail)
  else if ident = ZLibVariant.zlib.fmt then .ok (.zlib, tail)
  else if ident = ZLibVariant.lz4hc.fmt then .ok (.lz4hc, tail)
  else .error (.error (.invalidNumber (position len rest)
    ("Unknown zlib variant: " ++ String.ofList ident)))

def parseWindowBits (rest : List Char) : Result (UInt8 × List Char) := do
  let (bits, rest) ← parseByte len (fun _ => .invalidBits 255) rest
  ensure (8 ≤ bits.toNat ∧ bits.toNat ≤ 15) (.error (.invalidBits bits))
  .ok (bits, rest)

def parseLevel (rest : List Char) : Result (UInt8 × List Char) := do
  let (level, rest) ← parseByte len (fun _ => .invalidLevel 255) rest
  ensure (level.toNat ≠ 0 ∧ level.toNat ≤ 9) (.error (.invalidLevel level))
  .ok (level, rest)

/-- The level in braces may be absent. -/
def parseOptionalLevel (rest : List Char) : Result (Option UInt8 × List Char) :=
  if nextIsDigit rest then (parseLevel len rest).map fun (level, rest) => (some level, rest)
  else .ok (none, rest)

/-- What may follow the level in braces: window bits, or a variant with optional window bits. -/
def parseZlibParameters (rest : List Char) :
    Result ((Option ZLibVariant × Option UInt8) × List Char) :=
  if rest.head? = some ',' then do
    let rest ← consume len ',' rest
    if nextIsDigit rest then do
      let (bits, rest) ← parseWindowBits len rest
      .ok ((none, some bits), rest)
    else do
      let (variant, rest) ← parseZlibVariant len rest
      if rest.head? = some ',' then do
        let rest ← consume len ',' rest
        let (bits, rest) ← parseWindowBits len rest
        .ok ((some variant, some bits), rest)
      else .ok ((some variant, none), rest)
  else .ok ((none, none), rest)

/-- What follows the letter. Without braces there must be a level and nothing else. -/
def parseZlib (rest : List Char) : Result (ESpec × List Char) :=
  if rest.head? ≠ some ':' then .ok (.zlib none none none, rest)
  else do
    let rest ← consume len ':' rest
    if rest.head? = some '{' then do
      let rest ← consume len '{' rest
      let (level, rest) ← parseOptionalLevel len rest
      let ((variant, windowBits), rest) ← parseZlibParameters len rest
      let rest ← consume len '}' rest
      .ok (.zlib level variant windowBits, rest)
    else if nextIsDigit rest then do
      let (level, rest) ← parseLevel len rest
      .ok (.zlib (some level) none none, rest)
    else .error (.error (unexpected len '0' rest))

/-- An optional number in braces, of at most `max`. -/
def parseBraced (tooLarge : List Char → ESpecError) (invalid : UInt8 → ESpecError) (max : Nat)
    (rest : List Char) : Result (Option UInt8 × List Char) :=
  if rest.head? ≠ some ':' then .ok (none, rest)
  else do
    let rest ← consume len ':' rest
    let rest ← consume len '{' rest
    let (num, rest) ← parseByte len tooLarge rest
    ensure (num.toNat ≠ 0 ∧ num.toNat ≤ max) (.error (invalid num))
    let rest ← consume len '}' rest
    .ok (some num, rest)

def parseBcpack (rest : List Char) : Result (ESpec × List Char) := do
  let (bcn, rest) ← parseBraced len
    (fun rest => .invalidNumber (position len rest) "BCPack version too large") .invalidBcn 7 rest
  .ok (.bcPack bcn, rest)

def parseGdeflate (rest : List Char) : Result (ESpec × List Char) := do
  let (level, rest) ← parseBraced len (fun _ => .invalidLevel 255) .invalidLevel 12 rest
  .ok (.gDeflate level, rest)

/-! ## Encryption parameters -/

def hexCharValue (ch : Char) : Option Nat :=
  if ch.toNat < 256 then hexValue (UInt8.ofNat ch.toNat) else none

def isHexdigit (ch : Char) : Bool := (hexCharValue ch).isSome

/-- Pairs of hexadecimal digits. -/
def hexDecode : List Char → Bytes
  | high :: low :: rest =>
    UInt8.ofNat ((hexCharValue high).getD 0 * 16 + (hexCharValue low).getD 0) :: hexDecode rest
  | _ => []

def parseHexUntil (delimiter : Char) (minBytes maxBytes : Nat) (rest : List Char) :
    Result (Bytes × List Char) :=
  let hexStr := rest.takeWhile fun ch => ch ≠ delimiter && isHexdigit ch
  let tail := rest.dropWhile fun ch => ch ≠ delimiter && isHexdigit ch
  match tail.head?.filter (· ≠ delimiter) with
  | some ch => .error (.error (.invalidHex ("Invalid hex character '" ++ String.ofList [ch] ++
      "' at position " ++ toString (position len tail))))
  | none => do
    ensure (hexStr.length % 2 = 0)
      (.error (.invalidHex ("Odd number of hex chars: " ++ toString hexStr.length)))
    let byteLen := hexStr.length / 2
    ensure (minBytes ≤ byteLen ∧ byteLen ≤ maxBytes) (.error (.invalidIvLength byteLen))
    .ok (hexDecode hexStr, tail)

/-! ## Sizes -/

/-- A product of 64-bit numbers. -/
def scale (size : UInt64) (factor : Nat) : Result UInt64 :=
  if size.toNat * factor < 2 ^ 64 then .ok (UInt64.ofNat (size.toNat * factor))
  else .error (.panic .overflow)

def parseUnit (size : UInt64) (rest : List Char) : Result (UInt64 × List Char) :=
  match rest with
  | 'K' :: tail => (scale size 1024).map (·, tail)
  | 'M' :: tail => (scale size (1024 * 1024)).map (·, tail)
  | 'G' :: _ => .error (.error (.invalidUnit 'G'))
  | 'T' :: _ => .error (.error (.invalidUnit 'T'))
  | 'P' :: _ => .error (.error (.invalidUnit 'P'))
  | _ => .ok (size, rest)

/-- A number with an optional unit. -/
def parseSize (rest : List Char) : Result (UInt64 × List Char) := do
  let (size, rest) ← parseNumber len rest
  parseUnit size rest

def parseCount (rest : List Char) : Result (UInt32 × List Char) := do
  let (num, rest) ← parseNumber len rest
  ensure (num.toNat < 2 ^ 32) (.error (.invalidNumber (position len rest) "Count too large"))
  .ok (UInt32.ofNat num.toNat, rest)

/-- A star without a number says that the blocks go on to the end of the file; the count is then
absent, as it is without a star. -/
def parseBlockSizeSpec (rest : List Char) : Result (BlockSizeSpec × List Char) := do
  let (size, rest) ← parseSize len rest
  if rest.head? = some '*' then do
    let rest ← consume len '*' rest
    if nextIsDigit rest then do
      let (count, rest) ← parseCount len rest
      .ok ({ size, count := some count }, rest)
    else .ok ({ size, count := none }, rest)
  else .ok ({ size, count := none }, rest)

/-- The size of a chunk in braces, with the number of chunks so far that start with a star. -/
def parseChunkSize (variableCount : Nat) (rest : List Char) :
    Result ((Option BlockSizeSpec × Nat) × List Char) :=
  if rest.head? = some '*' then do
    let rest ← consume len '*' rest
    ensure (variableCount + 1 ≤ 1) (.error .multipleVariableBlocks)
    if rest.head? = some '=' then .ok ((none, variableCount + 1), rest)
    else do
      let (count, rest) ← parseCount len rest
      .ok ((some { size := 0, count := some count }, variableCount + 1), rest)
  else do
    let (size, rest) ← parseBlockSizeSpec len rest
    .ok ((some size, variableCount), rest)

/-- The size before the `=` of the short form without braces. -/
def parseShortSize (rest : List Char) : Result (Option BlockSizeSpec × List Char) :=
  if rest.head? = some '*' then (consume len '*' rest).map (none, ·)
  else (parseBlockSizeSpec len rest).map fun (size, rest) => (some size, rest)

/-! ## Specifications -/

section Nested

-- the parser of the specifications inside
variable (parseSpec : List Char → Result (ESpec × List Char))

/-- What follows the letter. -/
def parseEncrypted (rest : List Char) : Result (ESpec × List Char) := do
  let rest ← consume len ':' rest
  let rest ← consume len '{' rest
  let (key, rest) := parseIdentifier rest
  ensure (key.length = 16)
    (.error (.invalidHex ("Key must be 16 hex chars, got " ++ toString key.length)))
  let rest ← consume len ',' rest
  let (iv, rest) ← parseHexUntil len ',' 1 8 rest
  let rest ← consume len ',' rest
  let (spec, rest) ← parseSpec rest
  let rest ← consume len '}' rest
  .ok (.encrypted key iv spec, rest)

/-- What follows the letter: one specification with or without a size, or chunks in braces. -/
def parseBlockTable (parseChunks : List Char → Result (List BlockChunk × List Char))
    (rest : List Char) : Result (ESpec × List Char) := do
  let rest ← consume len ':' rest
  if rest.head? ≠ some '{' then
    if nextIsDigit rest ∨ rest.head? = some '*' then do
      let (sizeSpec, rest) ← parseShortSize len rest
      let rest ← consume len '=' rest
      let (spec, rest) ← parseSpec rest
      .ok (.blockTable [(sizeSpec, spec)], rest)
    else do
      let (spec, rest) ← parseSpec rest
      .ok (.blockTable [(none, spec)], rest)
  else do
    let rest ← consume len '{' rest
    let (chunks, rest) ← parseChunks rest
    let rest ← consume len '}' rest
    .ok (.blockTable chunks, rest)

end Nested

mutual

/-- Every call takes a character, so the length of the text bounds the depth. -/
def parseEspec : Nat → List Char → Result (ESpec × List Char)
  | 0, _ => .error (.panic .outOfFuel)
  | depth + 1, rest =>
    match rest with
    | 'n' :: tail => .ok (.none, tail)
    | 'z' :: tail => parseZlib len tail
    | 'e' :: tail => parseEncrypted len (parseEspec depth) tail
    | 'b' :: tail => parseBlockTable len (parseEspec depth) (parseChunks depth 0) tail
    | 'c' :: tail => parseBcpack len tail
    | 'g' :: tail => parseGdeflate len tail
    | ch :: _ => .error (.error (.unknownType ch))
    | [] => .error (.error (.unexpectedEnd (position len rest)))

/-- The chunks of a block table, when so many before them started with a star. -/
def parseChunks : Nat → Nat → List Char → Result (List BlockChunk × List Char)
  | 0, _, _ => .error (.panic .outOfFuel)
  | depth + 1, variableCount, rest => do
    let ((sizeSpec, variableCount), rest) ← parseChunkSize len variableCount rest
    let rest ← consume len '=' rest
    let (spec, rest) ← parseEspec depth rest
    if rest.head? = some ',' then do
      let rest ← consume len ',' rest
      let (chunks, rest) ← parseChunks depth variableCount rest
      .ok ((sizeSpec, spec) :: chunks, rest)
    else .ok ([(sizeSpec, spec)], rest)

end

end Parser

def ESpec.parse (input : List Char) : Result ESpec := do
  ensure (input ≠ []) (.error .emptyInput)
  let (spec, rest) ← parseEspec (utf8Length input) (input.length + 1) input
  match rest with
  | [] => .ok spec
  | ch :: _ => .error (.error (.unexpectedChar (Char.ofNat 0) ch
      (position (utf8Length input) rest)))

end Cascette.Espec
