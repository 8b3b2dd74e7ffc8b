import Cascette.Manifest.Install

/-!
# Builder of install manifests

The builder keeps tags, files and a map from tag names to the positions of the tags. `build` adds a
header of version 1 with the counts. It keeps the type bytes of files that came from a manifest of
version 2, so such a manifest does not come back from its bytes
(`install_parse_build_refuted`). -/

namespace Cascette.Manifest

open Lib List BitMask InstallManifest

structure InstallManifestBuilder where
  tags : List InstallTag
  entries : List InstallFileEntry
  tagNameToIndex : Text → Option Nat

namespace InstallManifestBuilder

def new : InstallManifestBuilder where
  tags := []
  entries := []
  tagNameToIndex _ := none

def fromManifest (manifest : InstallManifest) : InstallManifestBuilder where
  tags := manifest.tags
  entries := manifest.entries
  tagNameToIndex := InstallTag.indexByName manifest.tags

def addTag (builder : InstallManifestBuilder) (name : Text) (tagType : TagType) :
    InstallManifestBuilder where
  tags := builder.tags ++ [InstallTag.new name tagType builder.entries.length]
  entries := builder.entries
  tagNameToIndex := Function.update builder.tagNameToIndex name (some builder.tags.length)

/-- The masks grow to hold the new file. -/
def addFile (builder : InstallManifestBuilder) (path : Text) (contentKey : Key 16)
    (fileSize : UInt32) : InstallManifestBuilder :=
  let entries := builder.entries ++ [InstallFileEntry.new path contentKey fileSize]
  { builder with
    tags := builder.tags.map (·.grow (divCeil entries.length 8))
    entries := entries }

/-- Changes the tag of a name, if the file and the tag are there. -/
def updateTag (builder : InstallManifestBuilder) (fileIndex : Nat) (tagName : Text)
    (change : InstallTag → InstallTag) : Except InstallError InstallManifestBuilder :=
  if builder.entries.length ≤ fileIndex then .error (.fileIndexOutOfBounds fileIndex)
  else match builder.tagNameToIndex tagName with
    | none => .error (.tagNotFound tagName)
    | some tagIndex => .ok { builder with tags := builder.tags.modify tagIndex change }

def associateFileWithTag (builder : InstallManifestBuilder) (fileIndex : Nat) (tagName : Text) :
    Except InstallError InstallManifestBuilder :=
  builder.updateTag fileIndex tagName (·.addFile fileIndex)

def removeFileFromTag (builder : InstallManifestBuilder) (fileIndex : Nat)
    (tagName : Text) : Except InstallError InstallManifestBuilder :=
  builder.updateTag fileIndex tagName (·.removeFile fileIndex)

/-- The positions after the removed tag move down by one. -/
def removeTag (builder : InstallManifestBuilder) (tagName : Text) :
    Except InstallError InstallManifestBuilder :=
  match builder.tagNameToIndex tagName with
  | none => .error (.tagNotFound tagName)
  | some tagIndex =>
    .ok { builder with
      tags := builder.tags.eraseIdx tagIndex
      tagNameToIndex := fun name =>
        (Function.update builder.tagNameToIndex tagName none name).map fun index =>
          if tagIndex < index then index - 1 else index }

/-- One byte of a mask without the bit of the removed file: `totalBits` files are left. -/
def removedByte (mask : Bytes) (fileIndex totalBits byteIdx : Nat) : UInt8 :=
  ((List.range 8).takeWhile fun bitIdx => byteIdx * 8 + bitIdx < totalBits).foldl
    (fun newByte bitIdx =>
      if BitMask.test mask (InstallTag.oldIndex fileIndex (byteIdx * 8 + bitIdx)) then
        newByte ||| BitMask.bit bitIdx
      else newByte) 0

def removedMask (mask : Bytes) (fileIndex totalBits : Nat) : Bytes :=
  (List.range (divCeil totalBits 8)).map (removedByte mask fileIndex totalBits)

def removeFile (builder : InstallManifestBuilder) (fileIndex : Nat) :
    Except InstallError InstallManifestBuilder :=
  if builder.entries.length ≤ fileIndex then .error (.fileIndexOutOfBounds fileIndex)
  else
    let entries := builder.entries.eraseIdx fileIndex
    .ok { builder with
      tags := builder.tags.map fun tag =>
        { tag with bitMask := removedMask tag.bitMask fileIndex entries.length }
      entries := entries }

def build (builder : InstallManifestBuilder) : Except InstallError InstallManifest := do
  ensure (builder.tags.length < 2 ^ 16) .tooManyTags
  ensure (builder.entries.length < 2 ^ 32) .tooManyEntries
  let header := InstallHeader.new (UInt16.ofNat builder.tags.length)
    (UInt32.ofNat builder.entries.length)
  let manifest : InstallManifest := ⟨header, builder.tags, builder.entries⟩
  manifest.validate
  .ok manifest

/-! ## Removing a file -/

theorem takeWhile_range (start stop n : Nat) :
    ((range n).takeWhile fun k => decide (start + k < stop)) = range (min n (stop - start)) := by
  induction n with
  | zero => rfl
  | succ n ih =>
    rw [range_succ, takeWhile_append, ih, length_range, length_range]
    by_cases hStop : start + n < stop
    · have hMin : min n (stop - start) = n := by omega
      have hMin' : min (n + 1) (stop - start) = n + 1 := by omega
      rw [hMin, hMin', if_pos rfl, takeWhile_cons, if_pos (decide_eq_true hStop),
        takeWhile_nil, range_succ]
    · have hMin : min (n + 1) (stop - start) = min n (stop - start) := by omega
      rw [hMin]
      split_ifs with hAll
      · rw [takeWhile_cons, if_neg (by simpa using hStop), append_nil, hAll]
      · rfl

theorem test_removedMask (mask : Bytes) (fileIndex totalBits i : Nat) :
    BitMask.test (removedMask mask fileIndex totalBits) i =
      (decide (i < totalBits) && BitMask.test mask (InstallTag.oldIndex fileIndex i)) := by
  rcases Nat.lt_or_ge (i / 8) (divCeil totalBits 8) with hLt | hGe
  · have hGet : (removedMask mask fileIndex totalBits).getD (i / 8) 0 =
        removedByte mask fileIndex totalBits (i / 8) := by
      rw [removedMask, getD_eq_getElem?_getD, getElem?_map, getElem?_range hLt]
      rfl
    have hPlace : i / 8 * 8 + i % 8 = i := by omega
    have hBits := testBit_foldl_or
      (fun k => BitMask.test mask (InstallTag.oldIndex fileIndex (i / 8 * 8 + k)))
      (l := range (min 8 (totalBits - i / 8 * 8)))
      (fun k hk => (mem_range.mp hk).trans_le (Nat.min_le_left _ _))
      (Nat.mod_lt i (by decide)) 0
    have hMem : decide (i % 8 ∈ range (min 8 (totalBits - i / 8 * 8))) =
        decide (i < totalBits) := by
      rw [decide_eq_decide, mem_range]
      omega
    rw [test_eq_testBit, hGet, removedByte, takeWhile_range, hBits, hMem, hPlace,
      show (0 : UInt8).toNat = 0 from rfl, Nat.zero_testBit, Bool.false_or]
  · have hLength : (removedMask mask fileIndex totalBits).length = divCeil totalBits 8 := by
      rw [removedMask, length_map, length_range]
    have hOut : ¬ i < totalBits := by
      unfold divCeil at hGe
      omega
    rw [test_of_length_le (hLength.trans_le hGe), decide_eq_false hOut, Bool.false_and]

/-- The names of a manifest have no zero byte. -/
def NamesOk (manifest : InstallManifest) : Prop :=
  (∀ tag ∈ manifest.tags, 0 ∉ tag.name.1) ∧ ∀ entry ∈ manifest.entries, 0 ∉ entry.path.1

instance (manifest : InstallManifest) : Decidable (NamesOk manifest) :=
  inferInstanceAs (Decidable (_ ∧ _))

variable {builder : InstallManifestBuilder} {manifest : InstallManifest}

theorem of_build (h : builder.build = .ok manifest) :
    manifest.Valid ∧ manifest.tags = builder.tags ∧ manifest.entries = builder.entries ∧
      ∃ tagCount entryCount, manifest.header = InstallHeader.new tagCount entryCount := by
  obtain ⟨_, -, h⟩ := bind_eq_ok.mp h
  obtain ⟨_, -, h⟩ := bind_eq_ok.mp h
  obtain ⟨_, hValid, h⟩ := bind_eq_ok.mp h
  cases h
  exact ⟨validate_eq_ok.mp hValid, rfl, rfl, _, _, rfl⟩

/-- A header of version 1 has none of the further fields. -/
theorem ok_iff_of_build (h : builder.build = .ok manifest) (hNames : NamesOk manifest) :
    manifest.Ok ↔ (∀ tag ∈ manifest.tags, tag.tagType.Canonical) ∧
      ∀ entry ∈ manifest.entries, entry.fileType = none := by
  obtain ⟨hValid, -, -, tagCount, entryCount, hHeader⟩ := of_build h
  have hVersion : ¬ 2 ≤ manifest.header.version := by
    rw [hHeader]
    exact (by decide : ¬ (2 : UInt8) ≤ 1)
  have hNone {α : Type} {o : Option α} : (o.isSome ↔ 2 ≤ manifest.header.version) ↔ o = none := by
    rw [iff_false_intro hVersion, iff_false, Option.not_isSome_iff_eq_none]
  constructor
  · intro hOk
    exact ⟨fun tag hTag => (hOk.tags tag hTag).tagType,
      fun entry hEntry => hNone.mp (hOk.entries entry hEntry).fileType⟩
  · rintro ⟨hTypes, hFileTypes⟩
    refine ⟨validate_eq_ok.mpr hValid, ?_, fun tag hTag => ?_, fun entry hEntry => ?_⟩
    · refine ⟨?_, hNone.mpr ?_, hNone.mpr ?_, hNone.mpr ?_⟩ <;> rw [hHeader] <;> rfl
    · exact ⟨hNames.1 tag hTag, hTypes tag hTag, hValid.bitMasks tag hTag⟩
    · refine ⟨?_, hNames.2 entry hEntry, hNone.mpr (hFileTypes entry hEntry)⟩
      rw [hHeader]
      rfl

/-- What the parser consumed is what `build` writes. A manifest of the builder comes back from its
bytes exactly if its tag types are canonical and no file has a type byte. -/
theorem install_parse_build :
    (∀ data manifest rest, InstallManifest.read data = .ok (manifest, rest) →
      data = manifest.build ++ rest) ∧
    ∀ (builder : InstallManifestBuilder) (manifest : InstallManifest),
      builder.build = .ok manifest → NamesOk manifest →
        (InstallManifest.parse manifest.build = .ok manifest ↔
          (∀ tag ∈ manifest.tags, tag.tagType.Canonical) ∧
            ∀ entry ∈ manifest.entries, entry.fileType = none) := by
  constructor
  · intro data manifest rest h
    exact (InstallManifest.format.write_read h).1
  · intro builder manifest h hNames
    rw [← ok_iff_of_build h hNames]
    exact InstallManifest.format.parse_write_iff

def samplePath : Text := ⟨[0x61, 0x2e, 0x62], by decide⟩

def sampleKey : Key 16 := .fill 16 0xab

def sample : InstallManifestBuilder :=
  ((new.addTag InstallTag.sampleName .locale).addFile samplePath sampleKey 7).addFile
    InstallTag.sampleName sampleKey 9

def sampleManifest : InstallManifest where
  header := .new 1 2
  tags := [⟨InstallTag.sampleName, .locale, [0]⟩]
  entries := [⟨samplePath, sampleKey, 7, none⟩, ⟨InstallTag.sampleName, sampleKey, 9, none⟩]

theorem install_parse_build_sample :
    sample.build = .ok sampleManifest ∧ NamesOk sampleManifest ∧
      InstallManifest.parse sampleManifest.build = .ok sampleManifest :=
  ⟨rfl, by decide, (install_parse_build.2 sample sampleManifest rfl (by decide)).mpr
    ⟨by decide, by decide⟩⟩

/-- A manifest of version 2. -/
def secondVersion : InstallManifest where
  header := { InstallHeader.new 0 1 with
    version := 2, contentKeySize := some 20, entryCountV2 := some 0, v2Unknown := some 0 }
  tags := []
  entries := [⟨samplePath, sampleKey, 7, some 1⟩]

/-- The type byte stays, and the header is of version 1. -/
def rebuilt : InstallManifest := { secondVersion with header := .new 0 1 }

def knownAsOther : InstallManifest where
  header := .new 1 0
  tags := [⟨InstallTag.sampleName, .other 1, []⟩]
  entries := []

theorem install_parse_build_refuted :
    (InstallManifest.parse secondVersion.build = .ok secondVersion ∧
      (fromManifest secondVersion).build = .ok rebuilt ∧ NamesOk rebuilt ∧
      InstallManifest.parse rebuilt.build ≠ .ok rebuilt) ∧
    ((new.addTag InstallTag.sampleName (.other 1)).build = .ok knownAsOther ∧ NamesOk knownAsOther ∧
      InstallManifest.parse knownAsOther.build ≠ .ok knownAsOther) := by
  have hRebuilt : (fromManifest secondVersion).build = .ok rebuilt := rfl
  have hOther : (new.addTag InstallTag.sampleName (.other 1)).build = .ok knownAsOther := rfl
  refine ⟨⟨?_, hRebuilt, by decide, fun h => ?_⟩, ⟨hOther, by decide, fun h => ?_⟩⟩
  · rfl
  · have hOk := InstallManifest.format.parse_write_iff.mp h
    exact absurd ((ok_iff_of_build hRebuilt (by decide)).mp hOk).2 (by decide)
  · have hOk := InstallManifest.format.parse_write_iff.mp h
    exact absurd ((ok_iff_of_build hOther (by decide)).mp hOk).1 (by decide)

end InstallManifestBuilder

end Cascette.Manifest
