import Cascette.Espec.Parser
import Cascette.Lib.Lines

/-!
# BPSV documents

A document is a text: a header with the names and types of the fields, an optional line with a
sequence number, and one line for each row. Blank lines and comments are skipped, lines are trimmed,
and the values of a row are kept both as they were written and as the types of the fields
read them. -/

namespace Cascette.Bpsv

open Lib

inductive BpsvError
  | invalidTypeSpec (spec : List Char)
  | unknownType (name : List Char)
  | invalidFieldSpec (spec : List Char)
  | invalidHexValue (raw : List Char)
  | invalidHexLength (raw : List Char)
  | invalidDecValue (raw : List Char)
  | emptyDocument
  | invalidHeader (message : String)
  | fieldCountMismatch (expected actual : ℕ)
  | invalidSequenceNumber (line : List Char)
  | columnIndexOutOfBounds (index : ℕ)
deriving DecidableEq

/-! ## Characters and numbers -/

/-- The characters that the Unicode standard calls white space. -/
def isWhitespace (c : Char) : Bool :=
  let n := c.toNat
  (9 ≤ n ∧ n ≤ 13) ∨ n = 0x20 ∨ n = 0x85 ∨ n = 0xa0 ∨ n = 0x1680 ∨ (0x2000 ≤ n ∧ n ≤ 0x200a) ∨
    n = 0x2028 ∨ n = 0x2029 ∨ n = 0x202f ∨ n = 0x205f ∨ n = 0x3000

/-- The conversion to upper case, which leaves the capital letters of ASCII as they are. -/
structure UpperCase where
  map : List Char → List Char
  map_of_isUpper : ∀ text, (∀ c ∈ text, c.isUpper = true) → map text = text

/-- Digits of a number below a bound. -/
def parseDigits (bound : ℕ) (digits : List Char) : Option ℕ :=
  if digits ≠ [] ∧ digits.all Char.isDigit then
    let value := Nat.ofDigitChars 10 digits 0
    if value < bound then some value else none
  else none

/-- A plus sign in front is allowed. -/
def parseUnsigned (bound : ℕ) : List Char → Option ℕ
  | '+' :: digits => parseDigits bound digits
  | digits => parseDigits bound digits

def parseI64 : List Char → Option ℤ
  | '-' :: digits => (parseDigits (2 ^ 63 + 1) digits).map fun value => -(value : ℤ)
  | text => (parseUnsigned (2 ^ 63) text).map fun value => (value : ℤ)

/-! ## Fields -/

inductive BpsvType
  | string (size : ℕ)
  | hex (size : ℕ)
  | dec (size : ℕ)
deriving DecidableEq

namespace BpsvType

def parse (upper : UpperCase) (spec : List Char) : Except BpsvError BpsvType :=
  match spec.splitOn ':' with
  | [name, digits] =>
    match parseUnsigned (2 ^ 64) digits with
    | none => .error (.invalidTypeSpec spec)
    | some size =>
      let typeName := upper.map name
      if typeName = ['S', 'T', 'R', 'I', 'N', 'G'] then .ok (.string size)
      else if typeName = ['H', 'E', 'X'] then .ok (.hex size)
      else if typeName = ['D', 'E', 'C'] then .ok (.dec size)
      else .error (.unknownType typeName)
  | _ => .error (.invalidTypeSpec spec)

def name : BpsvType → List Char
  | .string _ => ['S', 'T', 'R', 'I', 'N', 'G']
  | .hex _ => ['H', 'E', 'X']
  | .dec _ => ['D', 'E', 'C']

def sizeHint : BpsvType → ℕ
  | .string size | .hex size | .dec size => size

def toSpec (fieldType : BpsvType) : List Char :=
  fieldType.name ++ ':' :: Espec.decimal fieldType.sizeHint

end BpsvType

structure BpsvField where
  name : List Char
  fieldType : BpsvType
deriving DecidableEq

namespace BpsvField

def parse (upper : UpperCase) (spec : List Char) : Except BpsvError BpsvField :=
  match spec.splitOn '!' with
  | [name, typeSpec] => do
    let fieldType ← BpsvType.parse upper typeSpec
    .ok { name, fieldType }
  | _ => .error (.invalidFieldSpec spec)

def toSpec (field : BpsvField) : List Char := field.name ++ '!' :: field.fieldType.toSpec

end BpsvField

/-- The table of the names is made from the fields and is left out. -/
structure BpsvSchema where
  fields : List BpsvField
deriving DecidableEq

namespace BpsvSchema

/-- Splitting gives at least one field, so that a header without fields is not met. -/
def parse (upper : UpperCase) (header : List Char) : Except BpsvError BpsvSchema :=
  if header = [] then .error .emptyDocument
  else do
    let fields ← (header.splitOn '|').mapM (BpsvField.parse upper)
    .ok { fields }

def toHeader (schema : BpsvSchema) : List Char :=
  ['|'].intercalate (schema.fields.map BpsvField.toSpec)

end BpsvSchema

/-! ## Rows -/

inductive BpsvValue
  | string (text : List Char)
  | hex (bytes : Bytes)
  | dec (value : ℤ)
  | empty
deriving DecidableEq

def byteLength (text : List Char) : ℕ := (text.map Char.utf8Size).sum

def BpsvValue.parse (raw : List Char) (fieldType : BpsvType) : Except BpsvError BpsvValue :=
  if raw = [] then .ok .empty
  else
    match fieldType with
    | .string _ => .ok (.string raw)
    | .hex _ =>
      if byteLength raw % 2 ≠ 0 then .error (.invalidHexLength raw)
      else if raw.all Espec.isHexdigit then .ok (.hex (Espec.hexDecode raw))
      else .error (.invalidHexValue raw)
    | .dec _ =>
      match parseI64 raw with
      | some value => .ok (.dec value)
      | none => .error (.invalidDecValue raw)

structure BpsvRow where
  values : List BpsvValue
  rawValues : List (List Char)
deriving DecidableEq

namespace BpsvRow

/-- The value at an index, read as the field of the same index says. -/
def parseValue (schema : BpsvSchema) (raw : List Char × ℕ) : Except BpsvError BpsvValue :=
  match schema.fields[raw.2]? with
  | none => .error (.columnIndexOutOfBounds raw.2)
  | some field => BpsvValue.parse raw.1 field.fieldType

def parse (rawValues : List (List Char)) (schema : BpsvSchema) : Except BpsvError BpsvRow :=
  if rawValues.length ≠ schema.fields.length then
    .error (.fieldCountMismatch schema.fields.length rawValues.length)
  else do
    let values ← rawValues.zipIdx.mapM (parseValue schema)
    .ok { values, rawValues }

def toLine (row : BpsvRow) : List Char := ['|'].intercalate row.rawValues

end BpsvRow

/-! ## Documents -/

structure BpsvDocument where
  schema : BpsvSchema
  rows : List BpsvRow
  sequenceNumber : Option UInt32
deriving DecidableEq

/-- How a line with a sequence number begins. -/
def seqnMark : List Char := ['#', '#', ' ', 's', 'e', 'q', 'n']

/-- What is behind the first of the two signs that is there. -/
def numberPart (text : List Char) : List Char :=
  if '=' ∈ text then trim isWhitespace ((text.dropWhile (· ≠ '=')).drop 1)
  else if ':' ∈ text then trim isWhitespace ((text.dropWhile (· ≠ ':')).drop 1)
  else text

def parseSequenceLine (line : List Char) : Except BpsvError UInt32 :=
  let afterSeqn := (line.drop seqnMark.length).dropWhile isWhitespace
  if afterSeqn = [] then .error (.invalidSequenceNumber line)
  else
    match parseUnsigned (2 ^ 32) (numberPart afterSeqn) with
    | some seqn => .ok (UInt32.ofNat seqn)
    | none => .error (.invalidSequenceNumber line)

namespace BpsvDocument

def new (schema : BpsvSchema) : BpsvDocument := { schema, rows := [], sequenceNumber := none }

def addRawRow (document : BpsvDocument) (values : List (List Char)) :
    Except BpsvError BpsvDocument := do
  let row ← BpsvRow.parse values document.schema
  .ok { document with rows := document.rows ++ [row] }

/-- A line behind the header. -/
def readLine (document : BpsvDocument) (line : List Char) : Except BpsvError BpsvDocument :=
  let trimmed := trim isWhitespace line
  if trimmed = [] then .ok document
  else if seqnMark.isPrefixOf trimmed then do
    let seqn ← parseSequenceLine trimmed
    .ok { document with sequenceNumber := some seqn }
  else if trimmed.head? = some '#' then .ok document
  else document.addRawRow (trimmed.splitOn '|')

/-- The lines of a text without the white space at their ends. -/
def linesOf (text : List Char) : List (List Char) :=
  (rawLines '\n' text).map fun line => line.rdropWhile isWhitespace

def parse (upper : UpperCase) (text : List Char) : Except BpsvError BpsvDocument :=
  match linesOf text with
  | [] => .error .emptyDocument
  | header :: lines =>
    if '!' ∉ header then
      .error (.invalidHeader "Header must contain field type specifications")
    else do
      let schema ← BpsvSchema.parse upper header
      lines.foldlM readLine (new schema)

def toLines (document : BpsvDocument) : List (List Char) :=
  document.schema.toHeader ::
    (document.sequenceNumber.elim [] fun seqn =>
      [seqnMark ++ [' ', '=', ' '] ++ Espec.decimal seqn.toNat]) ++
    document.rows.map BpsvRow.toLine

def format (document : BpsvDocument) : List Char :=
  document.toLines.flatMap fun line => line ++ ['\n']

end BpsvDocument

end Cascette.Bpsv
