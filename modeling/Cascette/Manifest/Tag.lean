import Cascette.Lib.BitMask
import Cascette.Lib.Format

/-!
# Tags

The install, download and size manifests group their files by tags: a name, a type and a mask with
one bit for each file. A tag is read back if its name has no zero byte, its mask has the size that
the file count gives, and its type is not a known type in the form of an unknown one.
-/

namespace Cascette.Manifest

open Lib

inductive TagType where
  | platform
  | architecture
  | locale
  | category
  | unknown
  | component
  | version
  | optimization
  | region
  | device
  | mode
  | branch
  | content
  | feature
  | expansion
  | alternate
  | option
  | other (value : UInt16)
  deriving DecidableEq, Repr

def TagType.fromU16 : UInt16 → TagType
  | 0x0001 => platform
  | 0x0002 => architecture
  | 0x0003 => locale
  | 0x0004 => category
  | 0x0005 => unknown
  | 0x0010 => component
  | 0x0020 => version
  | 0x0040 => optimization
  | 0x0080 => region
  | 0x0100 => device
  | 0x0200 => mode
  | 0x0400 => branch
  | 0x0800 => content
  | 0x1000 => feature
  | 0x2000 => expansion
  | 0x4000 => alternate
  | 0x8000 => option
  | value => other value

def TagType.asU16 : TagType → UInt16
  | platform => 0x0001
  | architecture => 0x0002
  | locale => 0x0003
  | category => 0x0004
  | unknown => 0x0005
  | component => 0x0010
  | version => 0x0020
  | optimization => 0x0040
  | region => 0x0080
  | device => 0x0100
  | mode => 0x0200
  | branch => 0x0400
  | content => 0x0800
  | feature => 0x1000
  | expansion => 0x2000
  | alternate => 0x4000
  | option => 0x8000
  | other value => value

theorem TagType.asU16_fromU16 (value : UInt16) : (fromU16 value).asU16 = value := by
  unfold fromU16
  split <;> rfl

/-- The type that its own value stands for; only `other` can hold the value of another type. -/
def TagType.Canonical (type : TagType) : Prop := fromU16 type.asU16 = type

instance (type : TagType) : Decidable type.Canonical := inferInstanceAs (Decidable (_ = _))

theorem TagType.fromU16_eq_iff {value : UInt16} {type : TagType} :
    fromU16 value = type ↔ value = type.asU16 ∧ type.Canonical := by
  constructor
  · rintro rfl
    exact ⟨(asU16_fromU16 value).symm, congrArg fromU16 (asU16_fromU16 value)⟩
  · rintro ⟨rfl, h⟩
    exact h

structure InstallTag where
  name : Text
  tagType : TagType
  bitMask : Bytes
  deriving DecidableEq

/-- An error of the binary reader: a short input, a name that is not UTF-8, magic bytes that fail
their assertion, or what the reader of the format itself reports. -/
inductive BinError (ε : Type) where
  | io
  | utf8
  | assertFail (magic : Key 2)
  | custom (err : ε)
  deriving DecidableEq

namespace InstallTag

def new (name : Text) (tagType : TagType) (entryCount : Nat) : InstallTag where
  name := name
  tagType := tagType
  bitMask := List.replicate (divCeil entryCount 8) 0

def hasFile (tag : InstallTag) (fileIndex : Nat) : Bool := BitMask.test tag.bitMask fileIndex

def addFile (tag : InstallTag) (fileIndex : Nat) : InstallTag :=
  { tag with bitMask := BitMask.set tag.bitMask fileIndex }

def removeFile (tag : InstallTag) (fileIndex : Nat) : InstallTag :=
  { tag with bitMask := BitMask.clear tag.bitMask fileIndex }

/-- The text `enUS`. -/
def sampleName : Text := ⟨[0x65, 0x6e, 0x55, 0x53], by decide⟩

/-- A text with a zero byte. -/
def zeroText : Text := ⟨[0x61, 0, 0x62], by decide⟩

/-- The position before the removal of the file at `fileIndex`, of the file that is at `index`
after it. -/
def oldIndex (fileIndex index : Nat) : Nat := if index < fileIndex then index else index + 1

/-- What a builder does to a mask that is too short for the files. -/
def grow (tag : InstallTag) (bitMaskSize : Nat) : InstallTag :=
  if tag.bitMask.length < bitMaskSize then { tag with bitMask := resize bitMaskSize tag.bitMask }
  else tag

theorem hasFile_grow (tag : InstallTag) (n i : Nat) : (tag.grow n).hasFile i = tag.hasFile i := by
  unfold grow
  split_ifs with hShort
  · exact BitMask.test_resize_of_le hShort.le i
  · rfl

theorem grow_same (tag : InstallTag) (n : Nat) :
    (tag.grow n).name = tag.name ∧ (tag.grow n).tagType = tag.tagType := by
  unfold grow
  split <;> exact ⟨rfl, rfl⟩

/-- The map from names to positions; of tags of one name the last is kept. -/
def indexByName (tags : List InstallTag) : Text → Option Nat :=
  (tags.map name).zipIdx.foldl (fun map entry => Function.update map entry.1 (some entry.2))
    fun _ => none

variable {ε : Type} {entryCount : UInt32}

def read (entryCount : UInt32) (bytes : Bytes) : Except (BinError ε) (InstallTag × Bytes) := do
  let (name, rest) ← (Format.cstr .io .utf8).read bytes
  let (tagType, rest) ← (Codec.uint16Be .io).read rest
  let (bitMask, rest) ← (Format.bytes .io (divCeil entryCount.toNat 8)).read rest
  .ok ({ name := name, tagType := .fromU16 tagType, bitMask := bitMask }, rest)

def write (tag : InstallTag) : Bytes :=
  tag.name.1 ++ [0] ++ beBytes 2 tag.tagType.asU16.toNat ++ tag.bitMask

/-- What a reader can return for `entryCount` files. -/
@[mk_iff]
structure Ok (entryCount : UInt32) (tag : InstallTag) : Prop where
  name : 0 ∉ tag.name.1
  tagType : tag.tagType.Canonical
  bitMask : tag.bitMask.length = divCeil entryCount.toNat 8

theorem read_eq_ok {bytes rest : Bytes} {tag : InstallTag} :
    read (ε := ε) entryCount bytes = .ok (tag, rest) ↔
      bytes = tag.write ++ rest ∧ tag.Ok entryCount := by
  obtain ⟨name, tagType, bitMask⟩ := tag
  simp [read, write, ok_iff, TagType.fromU16_eq_iff, and_assoc, and_comm, and_left_comm,
    -Subtype.exists]

def format (entryCount : UInt32) : Format (BinError ε) InstallTag where
  read := read entryCount
  write := write
  Valid := Ok entryCount
  read_write h _ := read_eq_ok.mpr ⟨rfl, h⟩
  write_read := read_eq_ok.mp

theorem readMany_eq_ok {n : Nat} {bytes rest : Bytes}
    {tags : List InstallTag} : readMany (read (ε := ε) entryCount) n bytes = .ok (tags, rest) ↔
      bytes = tags.flatMap write ++ rest ∧ tags.length = n ∧ ∀ tag ∈ tags, tag.Ok entryCount :=
  (format entryCount).readMany_eq_ok

end InstallTag

end Cascette.Manifest
