import Cascette.Manifest.Download

/-!
# Builder of download manifests

The builder for the three versions: its options, the files, the tags and a map from tag names to the
positions of the tags. A file is removed from a mask by moving the set bits one by one. -/

namespace Cascette.Manifest

open Lib List BitMask

structure DownloadManifestBuilder where
  version : UInt8
  entries : List DownloadFileEntry
  tags : List InstallTag
  hasChecksum : Bool
  flagSize : UInt8
  basePriority : Int8
  tagNameToIndex : Text → Option Nat

namespace DownloadManifestBuilder

/-- The entry of a new file: no checksum, and flags of zero bytes where flags are enabled. -/
def newEntry (flagSize : UInt8) (encodingKey : Key 16) (fileSize : FileSize40) (priority : Int8) :
    DownloadFileEntry where
  encodingKey := encodingKey
  fileSize := fileSize
  priority := priority
  checksum := none
  flags := if 0 < flagSize then some (List.replicate flagSize.toNat 0) else none

/-- The masks grow to hold the new file. -/
def addFile (builder : DownloadManifestBuilder) (encodingKey : Key 16) (fileSize : UInt64)
    (priority : Int8) : Except DownloadError DownloadManifestBuilder := do
  let size ← FileSize40.new fileSize
  let entries := builder.entries ++ [newEntry builder.flagSize encodingKey size priority]
  .ok { builder with
    entries := entries
    tags := builder.tags.map (·.grow (divCeil entries.length 8)) }

def addTag (builder : DownloadManifestBuilder) (name : Text) (tagType : TagType) :
    DownloadManifestBuilder :=
  { builder with
    tags := builder.tags ++ [InstallTag.new name tagType builder.entries.length]
    tagNameToIndex := Function.update builder.tagNameToIndex name (some builder.tags.length) }

/-- Changes the tag of a name, if the file and the tag are there. -/
def updateTag (builder : DownloadManifestBuilder) (fileIndex : Nat) (tagName : Text)
    (change : InstallTag → InstallTag) : Except DownloadError DownloadManifestBuilder :=
  if builder.entries.length ≤ fileIndex then .error (.fileIndexOutOfBounds fileIndex)
  else match builder.tagNameToIndex tagName with
    | none => .error (.tagNotFound tagName)
    | some tagIndex => .ok { builder with tags := builder.tags.modify tagIndex change }

def associateFileWithTag (builder : DownloadManifestBuilder) (fileIndex : Nat) (tagName : Text) :
    Except DownloadError DownloadManifestBuilder :=
  builder.updateTag fileIndex tagName (·.addFile fileIndex)

def disassociateFileFromTag (builder : DownloadManifestBuilder) (fileIndex : Nat)
    (tagName : Text) : Except DownloadError DownloadManifestBuilder :=
  builder.updateTag fileIndex tagName (·.removeFile fileIndex)

/-- One bit of the loop over a mask; the second part of the state is the number of bits kept. -/
def keepBit (mask : Bytes) (fileIndex : Nat) (state : Bytes × Nat) (originalIndex : Nat) :
    Bytes × Nat :=
  if originalIndex = fileIndex then state
  else (if BitMask.test mask originalIndex then BitMask.set state.1 state.2 else state.1,
    state.2 + 1)

def removedMask (mask : Bytes) (fileIndex remaining : Nat) : Bytes :=
  resize (divCeil remaining 8)
    ((List.range (mask.length * 8)).foldl (keepBit mask fileIndex) ([], 0)).1

/-- Whether a file was removed, and the builder after it. -/
def removeFile (builder : DownloadManifestBuilder) (fileIndex : Nat) :
    Bool × DownloadManifestBuilder :=
  if builder.entries.length ≤ fileIndex then (false, builder)
  else
    let entries := builder.entries.eraseIdx fileIndex
    (true, { builder with
      entries := entries
      tags := builder.tags.map fun tag =>
        { tag with bitMask := removedMask tag.bitMask fileIndex entries.length } })

/-- Whether a tag was removed, and the builder after it; the map is built again. -/
def removeTag (builder : DownloadManifestBuilder) (tagName : Text) :
    Bool × DownloadManifestBuilder :=
  match builder.tagNameToIndex tagName with
  | none => (false, builder)
  | some index =>
    let tags := builder.tags.eraseIdx index
    (true, { builder with tags := tags, tagNameToIndex := InstallTag.indexByName tags })

def validateEntry (builder : DownloadManifestBuilder) (entry : DownloadFileEntry) :
    Except DownloadError Unit := do
  ensure (builder.hasChecksum → entry.checksum.isSome) .missingChecksum
  ensure (entry.checksum.isSome → builder.hasChecksum) .checksumsNotEnabled
  ensure (0 < builder.flagSize → entry.flags.isSome) .missingFlags
  ensure (builder.flagSize = 0 → entry.flags.isNone) .flagsNotEnabled
  match entry.flags with
  | none => .ok ()
  | some flags =>
    ensure (flags.length = builder.flagSize.toNat) (.invalidFlagSize flags.length builder.flagSize)

def validate (builder : DownloadManifestBuilder) : Except DownloadError Unit := do
  ensure (¬(builder.version < 2 ∧ 0 < builder.flagSize))
    (.flagsNotSupportedInVersion builder.version)
  ensure (¬(builder.version < 3 ∧ builder.basePriority ≠ 0))
    (.basePriorityNotSupportedInVersion builder.version)
  builder.entries.forM builder.validateEntry
  builder.tags.forM fun tag =>
    ensure (tag.bitMask.length = divCeil builder.entries.length 8) .bitMaskSizeMismatch

/-- The counts are cut to the width of their fields. -/
def header (builder : DownloadManifestBuilder) : Except DownloadError DownloadHeader :=
  let entryCount := UInt32.ofNat builder.entries.length
  let tagCount := UInt16.ofNat builder.tags.length
  match builder.version with
  | 1 => .ok (.newV1 entryCount tagCount builder.hasChecksum)
  | 2 => .ok (.newV2 entryCount tagCount builder.hasChecksum builder.flagSize)
  | 3 => .ok (.newV3 entryCount tagCount builder.hasChecksum builder.flagSize
      builder.basePriority)
  | version => .error (.unsupportedVersion version)

def build (builder : DownloadManifestBuilder) : Except DownloadError DownloadManifest := do
  builder.validate
  let header ← builder.header
  let manifest : DownloadManifest := ⟨header, builder.entries, builder.tags⟩
  manifest.validate
  .ok manifest

def fromManifest (manifest : DownloadManifest) : DownloadManifestBuilder where
  version := manifest.header.version
  entries := manifest.entries
  tags := manifest.tags
  hasChecksum := manifest.header.hasChecksum
  flagSize := manifest.header.flagSize
  basePriority := manifest.header.basePriority
  tagNameToIndex := InstallTag.indexByName manifest.tags

/-! ## Removing a file -/

/-- After the bits below `n`: how many were kept, and where they are. -/
theorem foldl_keepBit (mask : Bytes) (fileIndex n : Nat) :
    let state := (range n).foldl (keepBit mask fileIndex) ([], 0)
    state.2 = (if fileIndex < n then n - 1 else n) ∧
      ∀ i, BitMask.test state.1 i =
        (decide (i < state.2) && BitMask.test mask (InstallTag.oldIndex fileIndex i)) := by
  induction n with
  | zero => exact ⟨rfl, fun i => by simp [BitMask.test]⟩
  | succ n ih =>
    obtain ⟨hCount, hTest⟩ := ih
    rw [range_succ, foldl_append, foldl_cons, foldl_nil]
    generalize (range n).foldl (keepBit mask fileIndex) ([], 0) = state at hCount hTest
    unfold keepBit
    split
    next hSkip =>
      rw [if_neg (by omega)] at hCount
      exact ⟨by rw [if_pos (by omega), hCount]; rfl, hTest⟩
    next hKeep =>
      have hOld : InstallTag.oldIndex fileIndex state.2 = n := by
        unfold InstallTag.oldIndex
        rw [hCount]
        split <;> split <;> omega
      refine ⟨?_, fun i => ?_⟩
      · dsimp only
        rw [hCount]
        split <;> split <;> omega
      · have hLt : decide (i < state.2 + 1) = (decide (state.2 = i) || decide (i < state.2)) := by
          rw [← Bool.decide_or]
          exact decide_eq_decide.mpr (by omega)
        have hPlace : (decide (state.2 = i) && BitMask.test mask n) =
            (decide (state.2 = i) && BitMask.test mask (InstallTag.oldIndex fileIndex i)) := by
          by_cases hEq : state.2 = i
          · rw [← hEq, hOld]
          · rw [decide_eq_false hEq, Bool.false_and, Bool.false_and]
        rw [hLt, Bool.and_or_distrib_right, ← hTest, ← hPlace]
        split_ifs with hSet
        · rw [test_set, hSet, Bool.and_true]
        · rw [Bool.eq_false_iff.mpr hSet, Bool.and_false, Bool.false_or]

theorem test_removedMask {mask : Bytes} {fileIndex remaining : Nat}
    (hLength : mask.length = divCeil (remaining + 1) 8) (hIndex : fileIndex ≤ remaining)
    (hPadding : ∀ i, remaining + 1 ≤ i → BitMask.test mask i = false) (i : Nat) :
    BitMask.test (removedMask mask fileIndex remaining) i =
      BitMask.test mask (InstallTag.oldIndex fileIndex i) := by
  obtain ⟨hCount, hTest⟩ := foldl_keepBit mask fileIndex (mask.length * 8)
  have hBytes : remaining + 1 ≤ mask.length * 8 := by
    rw [hLength, divCeil]
    omega
  rw [if_pos (by omega)] at hCount
  -- what comes after the remaining files was padding before
  have hBeyond (hi : remaining ≤ i) :
      BitMask.test mask (InstallTag.oldIndex fileIndex i) = false := by
    apply hPadding
    rw [InstallTag.oldIndex, if_neg (by omega)]
    omega
  rw [removedMask]
  rcases Nat.lt_or_ge (i / 8) (divCeil remaining 8) with hLt | hGe
  · rw [test_resize_of_lt _ hLt, hTest, hCount]
    by_cases hIn : i < mask.length * 8 - 1
    · rw [decide_eq_true hIn, Bool.true_and]
    · rw [decide_eq_false hIn, Bool.false_and, hBeyond (by omega)]
  · rw [test_of_length_le ((resize_length _ _).trans_le hGe), hBeyond]
    unfold divCeil at hGe
    omega

end DownloadManifestBuilder

end Cascette.Manifest
