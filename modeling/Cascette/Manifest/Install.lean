import Cascette.Manifest.Tag

/-!
# Install manifests

Header, tags and files of an install manifest. Version 2 has three more header fields and a type
byte for each file. What the parser accepts is what `build` writes, and the manifests that come
back from their own bytes are those of `InstallManifest.Ok`.
-/

namespace Cascette.Manifest

open Lib

/-- The errors that the readers of this format raise themselves. -/
inductive InstallReadError where
  | invalidMagic (magic : Key 2)
  | invalidContentKeyLength (length : Nat)
  deriving DecidableEq

/-- `tooManyTags` and `tooManyEntries` are reported as tags that were not found, with the messages
"Too many tags" and "Too many entries". -/
inductive InstallError where
  | invalidMagic (magic : Key 2)
  | unsupportedVersion (version : UInt8)
  | invalidCKeyLength (length : UInt8)
  | tagNotFound (name : Text)
  | tooManyTags
  | tooManyEntries
  | fileIndexOutOfBounds (index : Nat)
  | bitMaskSizeMismatch (expected actual : Nat)
  | binRw (err : BinError InstallReadError)
  deriving DecidableEq

/-! ## Header -/

structure InstallHeader where
  magic : Key 2
  version : UInt8
  ckeyLength : UInt8
  tagCount : UInt16
  entryCount : UInt32
  contentKeySize : Option UInt8
  entryCountV2 : Option UInt32
  v2Unknown : Option UInt8
  deriving DecidableEq

namespace InstallHeader

def magicIn : Key 2 := ⟨[0x49, 0x4e], rfl⟩

def new (tagCount : UInt16) (entryCount : UInt32) : InstallHeader where
  magic := magicIn
  version := 1
  ckeyLength := 16
  tagCount := tagCount
  entryCount := entryCount
  contentKeySize := none
  entryCountV2 := none
  v2Unknown := none

def bitMaskSize (header : InstallHeader) : Nat := divCeil header.entryCount.toNat 8

def validate (header : InstallHeader) : Except InstallError Unit := do
  ensure (header.magic = magicIn) (.invalidMagic header.magic)
  ensure (header.version ≠ 0 ∧ header.version ≤ 2) (.unsupportedVersion header.version)
  ensure (header.ckeyLength = 16) (.invalidCKeyLength header.ckeyLength)
  ensure (2 ≤ header.version → header.contentKeySize.isSome) (.unsupportedVersion header.version)

/-- The six bytes that version 2 adds. -/
def readV2 (version : UInt8) (bytes : Bytes) :
    Except (BinError InstallReadError)
      ((Option UInt8 × Option UInt32 × Option UInt8) × Bytes) :=
  if 2 ≤ version then do
    let (contentKeySize, rest) ← (Codec.uint8 .io).read bytes
    let (entryCountV2, rest) ← (Codec.uint32Be .io).read rest
    let (v2Unknown, rest) ← (Codec.uint8 .io).read rest
    .ok ((some contentKeySize, some entryCountV2, some v2Unknown), rest)
  else .ok ((none, none, none), bytes)

def read (bytes : Bytes) : Except (BinError InstallReadError) (InstallHeader × Bytes) := do
  let (magic, rest) ← (Codec.key .io 2).read bytes
  ensure (magic = magicIn) (.custom (.invalidMagic magic))
  let (version, rest) ← (Codec.uint8 .io).read rest
  let (ckeyLength, rest) ← (Codec.uint8 .io).read rest
  let (tagCount, rest) ← (Codec.uint16Be .io).read rest
  let (entryCount, rest) ← (Codec.uint32Be .io).read rest
  let ((contentKeySize, entryCountV2, v2Unknown), rest) ← readV2 version rest
  .ok (⟨magic, version, ckeyLength, tagCount, entryCount, contentKeySize, entryCountV2,
    v2Unknown⟩, rest)

def writeV2 (header : InstallHeader) : Bytes :=
  if 2 ≤ header.version then
    header.contentKeySize.getD header.ckeyLength ::
      (beBytes 4 (header.entryCountV2.getD 0).toNat ++ [header.v2Unknown.getD 0])
  else []

def write (header : InstallHeader) : Bytes :=
  header.magic.1 ++ header.version :: header.ckeyLength :: (beBytes 2 header.tagCount.toNat ++
    (beBytes 4 header.entryCount.toNat ++ header.writeV2))

/-- What a reader can return: the further fields are there exactly in version 2. -/
@[mk_iff]
structure Ok (header : InstallHeader) : Prop where
  magic : header.magic = magicIn
  contentKeySize : header.contentKeySize.isSome ↔ 2 ≤ header.version
  entryCountV2 : header.entryCountV2.isSome ↔ 2 ≤ header.version
  v2Unknown : header.v2Unknown.isSome ↔ 2 ≤ header.version

variable {bytes rest : Bytes}

theorem readV2_eq_ok (header : InstallHeader) :
    readV2 header.version bytes =
      .ok ((header.contentKeySize, header.entryCountV2, header.v2Unknown), rest) ↔
    bytes = header.writeV2 ++ rest ∧ (header.contentKeySize.isSome ↔ 2 ≤ header.version) ∧
      (header.entryCountV2.isSome ↔ 2 ≤ header.version) ∧
      (header.v2Unknown.isSome ↔ 2 ≤ header.version) := by
  obtain ⟨magic, version, ckeyLength, tagCount, entryCount, size, count, unknown⟩ := header
  by_cases hVersion : 2 ≤ version
  · cases size <;> cases count <;> cases unknown <;> simp [readV2, writeV2, hVersion]
  · cases size <;> cases count <;> cases unknown <;> simp [readV2, writeV2, hVersion]

theorem read_eq_ok {header : InstallHeader} :
    read bytes = .ok (header, rest) ↔ bytes = header.write ++ rest ∧ header.Ok := by
  obtain ⟨magic, version, ckeyLength, tagCount, entryCount, size, count, unknown⟩ := header
  have hV2 {bytes : Bytes} := @readV2_eq_ok bytes rest
    ⟨magic, version, ckeyLength, tagCount, entryCount, size, count, unknown⟩
  rcases eq_or_ne magicIn magic with rfl | hMagic
  · simp [read, write, ok_iff, hV2, -Subtype.exists]
  · simp [read, ok_iff, hMagic, hMagic.symm, -Subtype.exists]

end InstallHeader

/-! ## Files -/

structure InstallFileEntry where
  path : Text
  contentKey : Key 16
  fileSize : UInt32
  fileType : Option UInt8
  deriving DecidableEq

namespace InstallFileEntry

def new (path : Text) (contentKey : Key 16) (fileSize : UInt32) : InstallFileEntry where
  path := path
  contentKey := contentKey
  fileSize := fileSize
  fileType := none

/-- Version 2 has a type byte. -/
def fileTypeFormat (version : UInt8) : Format (BinError InstallReadError) (Option UInt8) :=
  .optional (2 ≤ version) (.ofCodec (Codec.uint8 .io))

def read (ckeyLength version : UInt8) (bytes : Bytes) :
    Except (BinError InstallReadError) (InstallFileEntry × Bytes) := do
  let (path, rest) ← (Format.cstr .io .utf8).read bytes
  let (keyBytes, rest) ← (Format.bytes .io ckeyLength.toNat).read rest
  if hKey : keyBytes.length = 16 then do
    let (fileSize, rest) ← (Codec.uint32Be .io).read rest
    let (fileType, rest) ← (fileTypeFormat version).read rest
    .ok (⟨path, ⟨keyBytes, hKey⟩, fileSize, fileType⟩, rest)
  else .error (.custom (.invalidContentKeyLength keyBytes.length))

/-- The type byte is written when it is there, whatever the version. -/
def write (entry : InstallFileEntry) : Bytes :=
  entry.path.1 ++ 0 :: (entry.contentKey.1 ++ (beBytes 4 entry.fileSize.toNat ++
    entry.fileType.toList))

variable {version ckeyLength : UInt8}

theorem fileTypeFormat_read_eq_ok {fileType : Option UInt8} {bytes rest : Bytes} :
    (fileTypeFormat version).read bytes = .ok (fileType, rest) ↔
      bytes = fileType.toList ++ rest ∧ (fileType.isSome ↔ 2 ≤ version) := by
  rw [Format.read_eq_ok]
  cases fileType <;> simp [fileTypeFormat, Format.optional, Format.ofCodec]

/-- What a reader can return. -/
@[mk_iff]
structure Ok (ckeyLength version : UInt8) (entry : InstallFileEntry) : Prop where
  ckeyLength : ckeyLength.toNat = 16
  path : 0 ∉ entry.path.1
  fileType : entry.fileType.isSome ↔ 2 ≤ version

theorem read_eq_ok {bytes rest : Bytes} {entry : InstallFileEntry} :
    read ckeyLength version bytes = .ok (entry, rest) ↔
      bytes = entry.write ++ rest ∧ entry.Ok ckeyLength version := by
  obtain ⟨path, ⟨key, hKey⟩, fileSize, fileType⟩ := entry
  simp [read, write, ok_iff, fileTypeFormat_read_eq_ok, hKey, @eq_comm _ 16, and_assoc, and_comm,
    and_left_comm, -Subtype.exists]

def format (ckeyLength version : UInt8) : Format (BinError InstallReadError) InstallFileEntry where
  read := read ckeyLength version
  write := write
  Valid := Ok ckeyLength version
  read_write h _ := read_eq_ok.mpr ⟨rfl, h⟩
  write_read := read_eq_ok.mp

theorem readMany_eq_ok {n : Nat} {bytes rest : Bytes} {entries : List InstallFileEntry} :
    readMany (read ckeyLength version) n bytes = .ok (entries, rest) ↔
      bytes = entries.flatMap write ++ rest ∧ entries.length = n ∧
        ∀ entry ∈ entries, entry.Ok ckeyLength version :=
  (format ckeyLength version).readMany_eq_ok

end InstallFileEntry

/-! ## Manifests -/

structure InstallManifest where
  header : InstallHeader
  tags : List InstallTag
  entries : List InstallFileEntry
  deriving DecidableEq

namespace InstallManifest

def validate (manifest : InstallManifest) : Except InstallError Unit := do
  manifest.header.validate
  ensure (manifest.tags.length = manifest.header.tagCount.toNat)
    (.bitMaskSizeMismatch manifest.header.tagCount.toNat manifest.tags.length)
  ensure (manifest.entries.length = manifest.header.entryCount.toNat)
    (.bitMaskSizeMismatch manifest.header.entryCount.toNat manifest.entries.length)
  manifest.tags.forM fun tag => ensure (tag.bitMask.length = manifest.header.bitMaskSize)
    (.bitMaskSizeMismatch manifest.header.bitMaskSize tag.bitMask.length)

/-- The parser; the second part of the result is what it leaves unread. -/
def read (data : Bytes) : Except InstallError (InstallManifest × Bytes) := do
  let (header, rest) ← (InstallHeader.read data).mapError .binRw
  header.validate
  let (tags, rest) ←
    (readMany (InstallTag.read header.entryCount) header.tagCount.toNat rest).mapError .binRw
  let (entries, rest) ← (readMany (InstallFileEntry.read header.ckeyLength header.version)
    header.entryCount.toNat rest).mapError .binRw
  let manifest : InstallManifest := ⟨header, tags, entries⟩
  manifest.validate
  .ok (manifest, rest)

def parse (data : Bytes) : Except InstallError InstallManifest := (read data).map Prod.fst

/-- Writing to memory does not fail. -/
def build (manifest : InstallManifest) : Bytes :=
  manifest.header.write ++ (manifest.tags.flatMap InstallTag.write ++
    manifest.entries.flatMap InstallFileEntry.write)

/-- The manifests that a reader can return. -/
@[mk_iff]
structure Ok (manifest : InstallManifest) : Prop where
  validate : manifest.validate = .ok ()
  header : manifest.header.Ok
  tags : ∀ tag ∈ manifest.tags, tag.Ok manifest.header.entryCount
  entries : ∀ entry ∈ manifest.entries, entry.Ok manifest.header.ckeyLength manifest.header.version

/-- What `validate` checks. -/
@[mk_iff]
structure Valid (manifest : InstallManifest) : Prop where
  header : manifest.header.validate = .ok ()
  tagCount : manifest.tags.length = manifest.header.tagCount.toNat
  entryCount : manifest.entries.length = manifest.header.entryCount.toNat
  bitMasks : ∀ tag ∈ manifest.tags, tag.bitMask.length = manifest.header.bitMaskSize

variable {manifest : InstallManifest}

theorem validate_eq_ok {u : Unit} : manifest.validate = .ok u ↔ manifest.Valid := by
  simp only [validate, unit_bind_eq_ok, ensure_eq_ok, forM_eq_ok, valid_iff]

theorem read_eq_ok {data rest : Bytes} :
    read data = .ok (manifest, rest) ↔ data = manifest.build ++ rest ∧ manifest.Ok := by
  obtain ⟨header, tags, entries⟩ := manifest
  simp only [read, bind_pair_eq_ok, mapError_eq_ok, InstallHeader.read_eq_ok, unit_bind_eq_ok,
    InstallTag.readMany_eq_ok, InstallFileEntry.readMany_eq_ok, validate_eq_ok, valid_iff,
    Except.ok.injEq, Prod.mk.injEq, mk.injEq, existsAndEq, and_true, true_and, build,
    List.append_assoc, ok_iff]
  tauto

def format : Format InstallError InstallManifest where
  read := read
  write := build
  Valid := Ok
  read_write h _ := read_eq_ok.mpr ⟨rfl, h⟩
  write_read := read_eq_ok.mp

end InstallManifest

end Cascette.Manifest
