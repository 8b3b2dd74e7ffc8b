import Cascette.Lib.Checked
import Cascette.Lib.Bytes

/-!
# Encoding specifications

An encoding specification says how a file is compressed, encrypted and cut into blocks. It is
written as a text in which most parameters are optional; `fmt` is the writer.
-/

namespace Cascette.Espec

open Lib

inductive ESpecError where
  | emptyInput
  | unknownType (found : Char)
  | invalidLevel (level : UInt8)
  | invalidBits (bits : UInt8)
  | invalidBcn (bcn : UInt8)
  | invalidHex (message : String)
  | unexpectedChar (expected found : Char) (position : Nat)
  | unexpectedEnd (position : Nat)
  | invalidNumber (position : Nat) (error : String)
  | invalidUnit (unit : Char)
  | multipleVariableBlocks
  | invalidIvLength (length : Nat)
  deriving DecidableEq

inductive ZLibVariant where
  | mpq
  | zlib
  | lz4hc
  deriving DecidableEq

/-- A block size in bytes, and the number of such blocks. -/
structure BlockSizeSpec where
  size : UInt64
  count : Option UInt32
  deriving DecidableEq

/-- A chunk of a block table is a size, absent for the final chunk, with a specification. -/
inductive ESpec where
  | none
  | zlib (level : Option UInt8) (variant : Option ZLibVariant) (windowBits : Option UInt8)
  | encrypted (key : List Char) (iv : Bytes) (spec : ESpec)
  | blockTable (chunks : List (Option BlockSizeSpec × ESpec))
  | bcPack (bcn : Option UInt8)
  | gDeflate (level : Option UInt8)

abbrev BlockChunk := Option BlockSizeSpec × ESpec

/-- Induction over specifications: a block table is reached from the specifications of its
chunks. -/
@[elab_as_elim]
theorem ESpec.inductionOn {P : ESpec → Prop} (spec : ESpec) (none : P .none)
    (zlib : ∀ level variant windowBits, P (.zlib level variant windowBits))
    (encrypted : ∀ key iv spec, P spec → P (.encrypted key iv spec))
    (blockTable : ∀ chunks, (∀ chunk ∈ chunks, P chunk.2) → P (.blockTable chunks))
    (bcPack : ∀ bcn, P (.bcPack bcn)) (gDeflate : ∀ level, P (.gDeflate level)) : P spec :=
  @ESpec.rec P (fun chunks => ∀ chunk ∈ chunks, P chunk.2) (fun chunk => P chunk.2)
    none zlib encrypted blockTable bcPack gDeflate nofun
    (fun _ _ hHead hTail => List.forall_mem_cons.mpr ⟨hHead, hTail⟩) (fun _ _ h => h) spec

/-! ## Text -/

def decimal (n : Nat) : List Char := Nat.toDigits 10 n

def ZLibVariant.fmt : ZLibVariant → List Char
  | .mpq => ['m', 'p', 'q']
  | .zlib => ['z', 'l', 'i', 'b']
  | .lz4hc => ['l', 'z', '4', 'h', 'c']

/-- The largest unit that divides the size is used; zero is written with the unit `M`. -/
def fmtBytes (size : UInt64) : List Char :=
  if size.toNat % (1024 * 1024) = 0 then decimal (size.toNat / (1024 * 1024)) ++ ['M']
  else if size.toNat % 1024 = 0 then decimal (size.toNat / 1024) ++ ['K']
  else decimal size.toNat

def BlockSizeSpec.fmt (spec : BlockSizeSpec) : List Char :=
  fmtBytes spec.size ++ spec.count.elim [] fun count => '*' :: decimal count.toNat

/-- The hexadecimal digits of a byte string, in lower case. -/
def hexEncode (bytes : Bytes) : List Char :=
  bytes.flatMap fun b => [hexDigit (b.toNat / 16), hexDigit (b.toNat % 16)]

def fmtZlib : Option UInt8 → Option ZLibVariant → Option UInt8 → List Char
  | none, none, none => []
  | some l, none, none => ':' :: decimal l.toNat
  | some l, some v, none => ':' :: '{' :: (decimal l.toNat ++ ',' :: (v.fmt ++ ['}']))
  | some l, none, some wb => ':' :: '{' :: (decimal l.toNat ++ ',' :: (decimal wb.toNat ++ ['}']))
  | some l, some v, some wb =>
    ':' :: '{' :: (decimal l.toNat ++ ',' :: (v.fmt ++ ',' :: (decimal wb.toNat ++ ['}'])))
  | none, some v, none => ':' :: '{' :: (v.fmt ++ ['}'])
  | none, some v, some wb => ':' :: '{' :: (v.fmt ++ ',' :: (decimal wb.toNat ++ ['}']))
  | none, none, some wb => ':' :: '{' :: (decimal wb.toNat ++ ['}'])

/-- A parameter in braces that may be absent. -/
def fmtBraced (parameter : Option UInt8) : List Char :=
  parameter.elim [] fun n => ':' :: '{' :: (decimal n.toNat ++ ['}'])

def fmtSize (sizeSpec : Option BlockSizeSpec) : List Char :=
  sizeSpec.elim ['*', '='] fun size => size.fmt ++ ['=']

mutual

def ESpec.fmt : ESpec → List Char
  | .none => ['n']
  | .zlib level variant windowBits => 'z' :: fmtZlib level variant windowBits
  | .encrypted key iv spec =>
    'e' :: ':' :: '{' :: (key ++ ',' :: (hexEncode iv ++ ',' :: (spec.fmt ++ ['}'])))
  | .blockTable [(none, spec)] => 'b' :: ':' :: spec.fmt
  | .blockTable chunks => 'b' :: ':' :: '{' :: (fmtChunks chunks ++ ['}'])
  | .bcPack bcn => 'c' :: fmtBraced bcn
  | .gDeflate level => 'g' :: fmtBraced level

def fmtChunks : List (Option BlockSizeSpec × ESpec) → List Char
  | [] => []
  | [(sizeSpec, spec)] => fmtSize sizeSpec ++ spec.fmt
  | (sizeSpec, spec) :: chunks => fmtSize sizeSpec ++ spec.fmt ++ ',' :: fmtChunks chunks

end

end Cascette.Espec
