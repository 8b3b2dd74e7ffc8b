import Cascette.Zbsdiff.Suffix

/-!
# Patches

The ZBSDIFF1 container: a 32-byte header and three zlib streams (control entries, difference
bytes, extra bytes). `build` assembles it from the differ's result and `applyPatchMemory` replays
it over the old data. The compressor is a parameter.
-/

namespace Cascette.Zbsdiff

open Lib

inductive ZbsdiffError
  | invalidSignature (expected actual : UInt64)
  | invalidSize (field : String) (value : Int)
  | sizeTooLarge (value : Int)
  | sizeMismatch (expected actual : Nat)
  | compressionError (e : String)
  | decompressionError (e : String)
  | binaryFormatError (e : String)
  | corruptPatch (reason : String)
  | invalidControlEntry (index : Nat) (reason : String)
  | applicationFailed (reason : String)
  | insufficientData (needed available : Nat)
  | emptyControlBlock
  | oldFileReadError (e : String)
deriving DecidableEq

/-- How a call ends without a value. -/
inductive Fault
  | error (e : ZbsdiffError)
  | panic (p : Panic)
deriving DecidableEq

abbrev Outcome (α : Type) := Except Fault α

def fail {α : Type} (e : ZbsdiffError) : Outcome α := .error (.error e)

/-- The zlib streams the code links. -/
structure Zlib where
  compress : Bytes → Bytes
  decompress : Bytes → Except String Bytes

/-! ## Control entries -/

/-- The sign is bit 63, the magnitude the bits below it. -/
def offtin (buf : Bytes) : Int :=
  let magnitude : Nat := ofLe buf % 2 ^ 63
  if 2 ^ 63 ≤ ofLe buf then -magnitude else magnitude

def offtout (value : Int) : Bytes := leBytes 8 (value.natAbs + if value < 0 then 2 ^ 63 else 0)

def maxOpSize : Int := 10000000

/-- The reason an entry is refused. -/
def ControlEntry.problem (entry : ControlEntry) : Option String :=
  if entry.diffSize < 0 then some ("Negative diff_size: " ++ toString entry.diffSize)
  else if entry.extraSize < 0 then some ("Negative extra_size: " ++ toString entry.extraSize)
  else if maxOpSize < entry.diffSize then
    some ("diff_size too large: " ++ toString entry.diffSize)
  else if maxOpSize < entry.extraSize then
    some ("extra_size too large: " ++ toString entry.extraSize)
  else none

def ControlEntry.validate (entry : ControlEntry) : Outcome Unit :=
  match entry.problem with
  | some reason => fail (.applicationFailed reason)
  | none => .ok ()

/-- The entries of a control block are checked in order, from index `i`. -/
def validateEntries (i : Nat) : List ControlEntry → Outcome Unit
  | [] => .ok ()
  | entry :: entries =>
    match entry.problem with
    | some reason => fail (.invalidControlEntry i ("Patch application failed: " ++ reason))
    | none => validateEntries (i + 1) entries

def withEntries (entries : List ControlEntry) : Outcome (List ControlEntry) :=
  if entries.isEmpty then fail .emptyControlBlock
  else do
    validateEntries 0 entries
    .ok entries

def ControlEntry.toBytes (entry : ControlEntry) : Bytes :=
  offtout entry.diffSize ++ (offtout entry.extraSize ++ offtout entry.seekOffset)

def toCompressed (zlib : Zlib) (entries : List ControlEntry) : Bytes :=
  zlib.compress (entries.flatMap ControlEntry.toBytes)

def ControlEntry.fromBytes (bytes : Bytes) : ControlEntry where
  diffSize := offtin (bytes.take 8)
  extraSize := offtin ((bytes.drop 8).take 8)
  seekOffset := offtin ((bytes.drop 16).take 8)

def readEntries : Nat → Bytes → Outcome (List ControlEntry)
  | 0, _ => .ok []
  | fuel + 1, data =>
    if data.isEmpty then .ok []
    else if data.length < 24 then
      fail (.corruptPatch
        ("Incomplete control entry: " ++ toString data.length ++ " bytes remaining"))
    else do
      let entry := ControlEntry.fromBytes data
      entry.validate
      let entries ← readEntries fuel (data.drop 24)
      .ok (entry :: entries)

def decompressZlib (zlib : Zlib) (data : Bytes) : Outcome Bytes :=
  match zlib.decompress data with
  | .ok bytes => .ok bytes
  | .error e => fail (.decompressionError e)

/-- `ControlBlock::from_compressed` -/
def fromCompressed (zlib : Zlib) (data : Bytes) : Outcome (List ControlEntry) := do
  let decompressed ← decompressZlib zlib data
  let entries ← readEntries decompressed.length decompressed
  if entries.isEmpty then fail .emptyControlBlock else .ok entries

/-! ## The header -/

def signatureBytes : Bytes := [0x5a, 0x42, 0x53, 0x44, 0x49, 0x46, 0x46, 0x31]

def zbsdiff1Signature : UInt64 := UInt64.ofNat (ofLe signatureBytes)

structure ZbsdiffHeader where
  signature : UInt64
  controlSize : Int
  diffSize : Int
  outputSize : Int
deriving DecidableEq

def maxSize : Int := 1000000000

def ZbsdiffHeader.validate (header : ZbsdiffHeader) : Outcome Unit :=
  if header.signature ≠ zbsdiff1Signature then
    fail (.invalidSignature zbsdiff1Signature header.signature)
  else if header.controlSize < 0 then fail (.invalidSize "control_size" header.controlSize)
  else if header.diffSize < 0 then fail (.invalidSize "diff_size" header.diffSize)
  else if header.outputSize < 0 then fail (.invalidSize "output_size" header.outputSize)
  else if maxSize < header.controlSize then fail (.sizeTooLarge header.controlSize)
  else if maxSize < header.diffSize then fail (.sizeTooLarge header.diffSize)
  else if maxSize < header.outputSize then fail (.sizeTooLarge header.outputSize)
  else if maxSize < header.controlSize + header.diffSize then
    fail (.sizeTooLarge (header.controlSize + header.diffSize))
  else .ok ()

/-- A signed 64-bit integer, two's complement, little-endian. -/
def i64Bytes (value : Int) : Bytes := leBytes 8 (value % 2 ^ 64).toNat

def i64OfLe (bytes : Bytes) : Int :=
  if ofLe bytes < 2 ^ 63 then ofLe bytes else (ofLe bytes : Int) - 2 ^ 64

def ZbsdiffHeader.toBytes (header : ZbsdiffHeader) : Bytes :=
  leBytes 8 header.signature.toNat ++ (i64Bytes header.controlSize ++
    (i64Bytes header.diffSize ++ i64Bytes header.outputSize))

def readHeaderField (data : Bytes) : Outcome (Bytes × Bytes) :=
  match readExact 8 data with
  | some parts => .ok parts
  | none => fail (.binaryFormatError "failed to fill whole buffer")

def readHeader (data : Bytes) : Outcome (ZbsdiffHeader × Bytes) := do
  let (signature, data) ← readHeaderField data
  if UInt64.ofNat (ofLe signature) ≠ zbsdiff1Signature then
    fail (.corruptPatch "Invalid header signature or assertion failed")
  else
    let (controlSize, data) ← readHeaderField data
    let (diffSize, data) ← readHeaderField data
    let (outputSize, data) ← readHeaderField data
    .ok (⟨UInt64.ofNat (ofLe signature), i64OfLe controlSize, i64OfLe diffSize,
      i64OfLe outputSize⟩, data)

/-! ## Applying -/

def usizeMax : Nat := 2 ^ 64 - 1

/-- The output so far, the position in the old data, and what is left of the two streams. -/
structure Replay where
  output : Bytes
  oldPos : Nat
  diff : Bytes
  extra : Bytes
deriving DecidableEq

def applyDiff (old : Bytes) : Nat → Replay → Outcome Replay
  | 0, r => .ok r
  | n + 1, r =>
    match r.diff with
    | [] => fail (.insufficientData (n + 1) 0)
    | d :: diff =>
      if r.oldPos < usizeMax then
        applyDiff old n ⟨r.output ++ [old.getD r.oldPos 0 + d], r.oldPos + 1, diff, r.extra⟩
      else .error (.panic .overflow)

def copyExtra : Nat → Replay → Outcome Replay
  | 0, r => .ok r
  | n + 1, r =>
    match r.extra with
    | [] => fail (.insufficientData (n + 1) 0)
    | x :: extra => copyExtra n ⟨r.output ++ [x], r.oldPos, r.diff, extra⟩

/-- Saturating on both sides. -/
def seekOld (oldPos : Nat) (seekOffset : Int) : Nat :=
  if seekOffset < 0 then oldPos - seekOffset.natAbs
  else min (oldPos + seekOffset.natAbs) usizeMax

def applyEntry (old : Bytes) (r : Replay) (entry : ControlEntry) : Outcome Replay := do
  let r ← applyDiff old entry.diffSize.toNat r
  let r ← copyExtra entry.extraSize.toNat r
  .ok { r with oldPos := seekOld r.oldPos entry.seekOffset }

def applyPatchWithData (old : Bytes) (control : List ControlEntry) (diff extra : Bytes)
    (expectedOutputSize : Nat) : Outcome Bytes := do
  let r ← control.foldlM (applyEntry old) ⟨[], 0, diff, extra⟩
  if r.output.length ≠ expectedOutputSize then
    fail (.sizeMismatch expectedOutputSize r.output.length)
  else .ok r.output

def readBlock (n : Nat) (data : Bytes) : Outcome (Bytes × Bytes) :=
  match readExact n data with
  | some parts => .ok parts
  | none => fail (.compressionError "failed to fill whole buffer")

/-- What is read of a patch: the control entries, the two streams and the size of the output. -/
def readPatch (zlib : Zlib) (patch : Bytes) :
    Outcome (List ControlEntry × Bytes × Bytes × Nat) := do
  let (header, data) ← readHeader patch
  header.validate
  let (controlCompressed, data) ← readBlock header.controlSize.toNat data
  let (diffCompressed, extraCompressed) ← readBlock header.diffSize.toNat data
  let control ← fromCompressed zlib controlCompressed
  let diff ← decompressZlib zlib diffCompressed
  let extra ← decompressZlib zlib extraCompressed
  .ok (control, diff, extra, header.outputSize.toNat)

def applyPatchMemory (zlib : Zlib) (old patch : Bytes) : Outcome Bytes := do
  let (control, diff, extra, outputSize) ← readPatch zlib patch
  applyPatchWithData old control diff extra outputSize

/-! ## Building -/

def buildPatchInternal (zlib : Zlib) (new : Bytes) (control : List ControlEntry)
    (diff extra : Bytes) : Outcome Bytes := do
  let controlCompressed := toCompressed zlib control
  let diffCompressed := zlib.compress diff
  let extraCompressed := zlib.compress extra
  let header : ZbsdiffHeader :=
    ⟨zbsdiff1Signature, controlCompressed.length, diffCompressed.length, new.length⟩
  header.validate
  .ok (header.toBytes ++ (controlCompressed ++ (diffCompressed ++ extraCompressed)))

def buildSimplePatch (zlib : Zlib) (new : Bytes) : Outcome Bytes := do
  let control ← withEntries [⟨0, new.length, 0⟩]
  buildPatchInternal zlib new control [] new

/-- `ZbsdiffBuilder::build` -/
def build (zlib : Zlib) (sort : Bytes → List Nat) (old new : Bytes) : Outcome Bytes :=
  match computeDiff sort old new with
  | .error p => .error (.panic p)
  | .ok result =>
    if result.control.isEmpty then buildSimplePatch zlib new
    else do
      let control ← withEntries result.control
      buildPatchInternal zlib new control result.diffData result.extraData

end Cascette.Zbsdiff
