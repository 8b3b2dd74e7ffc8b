import Cascette.Manifest.Tag

/-!
# Download manifests

Three versions of a header, files with a 40-bit size, and tags. Checksums, flag bytes and a base
priority are options of the header. What the parser accepts is what `build` writes; which of the
manifests that pass `validate` come back from their bytes is
`DownloadManifest.Representable`. -/

namespace Cascette.Manifest

open Lib List Option

/-- `binRead` is an error of the binary reader, which can hold an error of this type in turn. -/
inductive DownloadError where
  | invalidMagic (magic : Key 2)
  | unsupportedVersion (version : UInt8)
  | fileSizeTooLarge (size : UInt64)
  | flagsNotSupportedInVersion (version : UInt8)
  | basePriorityNotSupportedInVersion (version : UInt8)
  | invalidFlagSize (actual : Nat) (expected : UInt8)
  | unsupportedFlagSize (size : UInt8)
  | missingChecksum
  | missingFlags
  | checksumsNotEnabled
  | flagsNotEnabled
  | fileIndexOutOfBounds (index : Nat)
  | tagNotFound (name : Text)
  | bitMaskSizeMismatch
  | entryCountMismatch (expected : UInt32) (actual : Nat)
  | tagCountMismatch (expected : UInt16) (actual : Nat)
  | invalidEncodingKeyLength (length : UInt8)
  | binRead (err : BinError DownloadError)

/-! ## Header -/

structure DownloadHeaderBase where
  magic : Key 2
  version : UInt8
  ekeyLength : UInt8
  hasChecksum : UInt8
  entryCount : UInt32
  tagCount : UInt16
  deriving DecidableEq

structure DownloadHeaderV2 extends DownloadHeaderBase where
  flagSize : UInt8
  deriving DecidableEq

structure DownloadHeaderV3 extends DownloadHeaderV2 where
  basePriority : Int8
  reserved : Key 3
  deriving DecidableEq

inductive DownloadHeader where
  | v1 (header : DownloadHeaderBase)
  | v2 (header : DownloadHeaderV2)
  | v3 (header : DownloadHeaderV3)
  deriving DecidableEq

def int8 {ε : Type} (eof : ε) : Codec ε Int8 :=
  (Codec.uint8 eof).map ⟨UInt8.toInt8, Int8.toUInt8, fun _ => rfl, fun _ => rfl⟩

variable {ε : Type}

@[simp]
theorem int8_write (eof : ε) (v : Int8) : (int8 eof).write v = [v.toUInt8] :=
  Codec.uint8_write eof v.toUInt8

namespace DownloadHeaderBase

def magicDl : Key 2 := ⟨[0x44, 0x4c], rfl⟩

def read (bytes : Bytes) : Except (BinError DownloadError) (DownloadHeaderBase × Bytes) := do
  let (magic, rest) ← (Codec.key .io 2).read bytes
  ensure (magic = magicDl) (.assertFail magic)
  let (version, rest) ← (Codec.uint8 .io).read rest
  let (ekeyLength, rest) ← (Codec.uint8 .io).read rest
  let (hasChecksum, rest) ← (Codec.uint8 .io).read rest
  let (entryCount, rest) ← (Codec.uint32Be .io).read rest
  let (tagCount, rest) ← (Codec.uint16Be .io).read rest
  .ok (⟨magic, version, ekeyLength, hasChecksum, entryCount, tagCount⟩, rest)

def write (header : DownloadHeaderBase) : Bytes :=
  header.magic.1 ++ header.version :: header.ekeyLength :: header.hasChecksum ::
    (beBytes 4 header.entryCount.toNat ++ beBytes 2 header.tagCount.toNat)

theorem read_eq_ok {bytes rest : Bytes} {header : DownloadHeaderBase} :
    read bytes = .ok (header, rest) ↔ bytes = header.write ++ rest ∧ header.magic = magicDl := by
  obtain ⟨magic, version, ekeyLength, hasChecksum, entryCount, tagCount⟩ := header
  rcases eq_or_ne magicDl magic with rfl | hMagic
  · simp [read, write, -Subtype.exists]
  · simp [read, hMagic.symm, -Subtype.exists]

end DownloadHeaderBase

namespace DownloadHeader

def base : DownloadHeader → DownloadHeaderBase
  | v1 header => header
  | v2 header => header.toDownloadHeaderBase
  | v3 header => header.toDownloadHeaderBase

def version (header : DownloadHeader) : UInt8 := header.base.version

def entryCount (header : DownloadHeader) : UInt32 := header.base.entryCount

def tagCount (header : DownloadHeader) : UInt16 := header.base.tagCount

def hasChecksum (header : DownloadHeader) : Bool := header.base.hasChecksum != 0

def flagSize : DownloadHeader → UInt8
  | v1 _ => 0
  | v2 header => header.flagSize
  | v3 header => header.flagSize

def basePriority : DownloadHeader → Int8
  | v1 _ | v2 _ => 0
  | v3 header => header.basePriority

def bitMaskSize (header : DownloadHeader) : Nat := divCeil header.entryCount.toNat 8

def validate (header : DownloadHeader) : Except DownloadError Unit := do
  ensure (header.base.magic = DownloadHeaderBase.magicDl) (.invalidMagic header.base.magic)
  ensure (1 ≤ header.version ∧ header.version ≤ 3) (.unsupportedVersion header.version)
  ensure (header.base.ekeyLength = 16) (.invalidEncodingKeyLength header.base.ekeyLength)
  ensure (header.flagSize ≤ 4) (.unsupportedFlagSize header.flagSize)

def newV1 (entryCount : UInt32) (tagCount : UInt16) (hasChecksum : Bool) : DownloadHeader :=
  v1 ⟨DownloadHeaderBase.magicDl, 1, 16, hasChecksum.toUInt8, entryCount, tagCount⟩

def newV2 (entryCount : UInt32) (tagCount : UInt16) (hasChecksum : Bool) (flagSize : UInt8) :
    DownloadHeader :=
  v2 ⟨⟨DownloadHeaderBase.magicDl, 2, 16, hasChecksum.toUInt8, entryCount, tagCount⟩, flagSize⟩

def newV3 (entryCount : UInt32) (tagCount : UInt16) (hasChecksum : Bool) (flagSize : UInt8)
    (basePriority : Int8) : DownloadHeader :=
  v3 ⟨⟨⟨DownloadHeaderBase.magicDl, 3, 16, hasChecksum.toUInt8, entryCount, tagCount⟩, flagSize⟩,
    basePriority, ⟨[0, 0, 0], rfl⟩⟩

def read (bytes : Bytes) : Except (BinError DownloadError) (DownloadHeader × Bytes) := do
  let (base, rest) ← DownloadHeaderBase.read bytes
  match base.version with
  | 1 => .ok (v1 base, rest)
  | 2 => do
    let (flagSize, rest) ← (Codec.uint8 .io).read rest
    .ok (v2 ⟨base, flagSize⟩, rest)
  | 3 => do
    let (flagSize, rest) ← (Codec.uint8 .io).read rest
    let (basePriority, rest) ← (int8 .io).read rest
    let (reserved, rest) ← (Codec.key .io 3).read rest
    .ok (v3 ⟨⟨base, flagSize⟩, basePriority, reserved⟩, rest)
  | version => .error (.custom (.unsupportedVersion version))

def write : DownloadHeader → Bytes
  | v1 header => header.write
  | v2 header => header.toDownloadHeaderBase.write ++ [header.flagSize]
  | v3 header => header.toDownloadHeaderBase.write ++
      header.flagSize :: header.basePriority.toUInt8 :: header.reserved.1

/-- The form of the header is the one that its version byte stands for. -/
def Matches : DownloadHeader → Prop
  | v1 header => header.version = 1
  | v2 header => header.version = 2
  | v3 header => header.version = 3

instance (header : DownloadHeader) : Decidable header.Matches := by
  cases header <;> exact inferInstanceAs (Decidable (_ = _))

theorem read_eq_ok {bytes rest : Bytes} {header : DownloadHeader} :
    read bytes = .ok (header, rest) ↔
      bytes = header.write ++ rest ∧ header.base.magic = DownloadHeaderBase.magicDl ∧
        header.Matches := by
  simp only [read, bind_pair_eq_ok, DownloadHeaderBase.read_eq_ok]
  constructor
  · rintro ⟨base, _, ⟨rfl, hMagic⟩, h⟩
    split at h
    next hVersion =>
      cases h
      exact ⟨rfl, hMagic, hVersion⟩
    next hVersion =>
      simp only [bind_pair_eq_ok, Codec.read_eq_ok, Except.ok.injEq, Prod.mk.injEq] at h
      obtain ⟨flagSize, _, rfl, rfl, rfl⟩ := h
      exact ⟨by simp [write], hMagic, hVersion⟩
    next hVersion =>
      simp only [bind_pair_eq_ok, Codec.read_eq_ok, Except.ok.injEq, Prod.mk.injEq] at h
      obtain ⟨flagSize, _, rfl, basePriority, _, rfl, reserved, _, rfl, rfl, rfl⟩ := h
      exact ⟨by simp [write], hMagic, hVersion⟩
    · cases h
  · rintro ⟨rfl, hMagic, hMatches⟩
    cases header with
    | v1 header =>
      refine ⟨header, rest, ⟨rfl, hMagic⟩, ?_⟩
      rw [show header.version = 1 from hMatches]
      rfl
    | v2 header =>
      refine ⟨header.toDownloadHeaderBase, _, ⟨append_assoc .., hMagic⟩, ?_⟩
      rw [show header.version = 2 from hMatches]
      simp
    | v3 header =>
      refine ⟨header.toDownloadHeaderBase, _, ⟨append_assoc .., hMagic⟩, ?_⟩
      rw [show header.version = 3 from hMatches]
      simp only [bind_pair_eq_ok, Codec.read_eq_ok]
      exact ⟨header.flagSize, _, by simp, header.basePriority, _, rfl, header.reserved, rest, rfl,
        rfl⟩

end DownloadHeader

/-! ## Files -/

/-- A size of 40 bits. -/
abbrev FileSize40 := {size : UInt64 // size.toNat < 2 ^ 40}

namespace FileSize40

def new (size : UInt64) : Except DownloadError FileSize40 :=
  if h : size.toNat < 2 ^ 40 then .ok ⟨size, h⟩ else .error (.fileSizeTooLarge size)

def ofNat (n : Nat) : FileSize40 := ⟨UInt64.ofNat (n % 2 ^ 40), by
  have hLt : n % 2 ^ 40 < 2 ^ 40 := Nat.mod_lt n (by decide)
  rwa [UInt64.toNat_ofNat_of_lt' (hLt.trans (by decide))]⟩

theorem ofNat_val (n : Nat) : (ofNat n).1 = UInt64.ofNat (n % 2 ^ 40) := rfl

theorem toNat_ofNat {n : Nat} (h : n < 256 ^ 5) : (ofNat n).1.toNat = n := by
  have hLt : n < 2 ^ 40 := h
  rw [ofNat_val, Nat.mod_eq_of_lt hLt, UInt64.toNat_ofNat_of_lt' (hLt.trans (by decide))]

def codec {ε : Type} (eof : ε) : Codec ε FileSize40 :=
  (Codec.key eof 5).map (ofBeEquiv 5 ofNat (fun size => size.1.toNat) (fun size => size.2)
    (fun _ h => toNat_ofNat h) fun size => by
      apply Subtype.ext
      rw [ofNat_val, Nat.mod_eq_of_lt size.2, UInt64.ofNat_toNat])

@[simp]
theorem codec_write (eof : ε) (size : FileSize40) :
    (codec eof).write size = beBytes 5 size.1.toNat := rfl

end FileSize40

structure DownloadFileEntry where
  encodingKey : Key 16
  fileSize : FileSize40
  priority : Int8
  checksum : Option UInt32
  flags : Option Bytes
  deriving DecidableEq

namespace DownloadFileEntry

def validate (header : DownloadHeader) (entry : DownloadFileEntry) : Except DownloadError Unit := do
  ensure (header.hasChecksum → entry.checksum.isSome) .missingChecksum
  ensure (entry.checksum.isSome → header.hasChecksum) .checksumsNotEnabled
  match entry.flags with
  | none => ensure (header.flagSize = 0) .missingFlags
  | some flags =>
    if flags.length = header.flagSize.toNat then .ok ()
    else if header.flagSize = 0 then .error .flagsNotEnabled
    else .error (.invalidFlagSize flags.length header.flagSize)

def checksumFormat (header : DownloadHeader) : Format (BinError DownloadError) (Option UInt32) :=
  .optional (header.hasChecksum = true) (.ofCodec (Codec.uint32Be .io))

def flagsFormat (header : DownloadHeader) : Format (BinError DownloadError) (Option Bytes) :=
  .optional (0 < header.flagSize) (.bytes .io header.flagSize.toNat)

def read (header : DownloadHeader) (bytes : Bytes) :
    Except (BinError DownloadError) (DownloadFileEntry × Bytes) := do
  let (encodingKey, rest) ← (Codec.key .io 16).read bytes
  let (fileSize, rest) ← (FileSize40.codec .io).read rest
  let (priority, rest) ← (int8 .io).read rest
  let (checksum, rest) ← (checksumFormat header).read rest
  let (flags, rest) ← (flagsFormat header).read rest
  let entry : DownloadFileEntry := ⟨encodingKey, fileSize, priority, checksum, flags⟩
  (entry.validate header).mapError .custom
  .ok (entry, rest)

def writeChecksum (header : DownloadHeader) (entry : DownloadFileEntry) :
    Except (BinError DownloadError) Bytes :=
  if header.hasChecksum then
    match entry.checksum with
    | some checksum => .ok (beBytes 4 checksum.toNat)
    | none => .error (.custom .missingChecksum)
  else .ok []

def writeFlags (header : DownloadHeader) (entry : DownloadFileEntry) :
    Except (BinError DownloadError) Bytes :=
  if 0 < header.flagSize then
    match entry.flags with
    | some flags => .ok flags
    | none => .error (.custom .missingFlags)
  else .ok []

def write (header : DownloadHeader) (entry : DownloadFileEntry) :
    Except (BinError DownloadError) Bytes := do
  (entry.validate header).mapError .custom
  let checksum ← entry.writeChecksum header
  let flags ← entry.writeFlags header
  .ok (entry.encodingKey.1 ++ beBytes 5 entry.fileSize.1.toNat ++ [entry.priority.toUInt8] ++
    checksum ++ flags)

/-- What is written for an entry that passes `validate`. -/
def bytes (entry : DownloadFileEntry) : Bytes :=
  entry.encodingKey.1 ++ (beBytes 5 entry.fileSize.1.toNat ++ (entry.priority.toUInt8 ::
    (entry.checksum.elim [] (fun checksum => beBytes 4 checksum.toNat) ++ entry.flags.getD [])))

/-- What `validate` checks. -/
@[mk_iff]
structure Valid (header : DownloadHeader) (entry : DownloadFileEntry) : Prop where
  checksum : entry.checksum.isSome ↔ header.hasChecksum = true
  flags : (entry.flags.getD []).length = header.flagSize.toNat

variable {header : DownloadHeader} {entry : DownloadFileEntry}

theorem validate_eq_ok {u : Unit} : entry.validate header = .ok u ↔ entry.Valid header := by
  have hFlags : (match entry.flags with
      | none => ensure (header.flagSize = 0) DownloadError.missingFlags
      | some flags =>
        if flags.length = header.flagSize.toNat then .ok ()
        else if header.flagSize = 0 then .error .flagsNotEnabled
        else .error (.invalidFlagSize flags.length header.flagSize)) = .ok u ↔
      (entry.flags.getD []).length = header.flagSize.toNat := by
    cases entry.flags with
    | none =>
      rw [ensure_eq_ok, ← UInt8.toNat_inj]
      exact eq_comm
    | some flags =>
      by_cases hEq : flags.length = header.flagSize.toNat
      · simp [hEq]
      · simp [hEq]
  simp only [validate, unit_bind_eq_ok, ensure_eq_ok, hFlags]
  constructor
  · rintro ⟨hMissing, hExtra, hFlags⟩
    exact ⟨⟨hExtra, hMissing⟩, hFlags⟩
  · intro h
    exact ⟨h.checksum.mpr, h.checksum.mp, h.flags⟩

theorem write_eq_ok (h : entry.Valid header) : entry.write header = .ok entry.bytes := by
  have hChecksum : entry.writeChecksum header =
      .ok (entry.checksum.elim [] fun checksum => beBytes 4 checksum.toNat) := by
    have hSome := h.checksum
    unfold writeChecksum
    cases hEq : entry.checksum with
    | none => rw [if_neg fun hHas => by simpa [hEq] using hSome.mpr hHas]; rfl
    | some checksum => rw [if_pos (hSome.mp (by rw [hEq]; rfl))]; rfl
  have hFlags : entry.writeFlags header = .ok (entry.flags.getD []) := by
    have hLength := h.flags
    have hPos : 0 < header.flagSize ↔ 0 < (entry.flags.getD []).length := by
      rw [hLength, UInt8.lt_iff_toNat_lt]
      rfl
    unfold writeFlags
    split_ifs with hFlagSize
    · cases hEq : entry.flags with
      | none =>
        rw [hPos, hEq] at hFlagSize
        cases hFlagSize
      | some flags => rfl
    · rw [hPos] at hFlagSize
      rw [eq_nil_of_length_eq_zero (Nat.eq_zero_of_not_pos hFlagSize)]
  rw [write, validate_eq_ok (u := ()) |>.mpr h, mapError_ok, ok_bind, hChecksum, ok_bind,
    hFlags, ok_bind]
  simp only [bytes, append_assoc, cons_append, nil_append]

theorem checksumFormat_read_eq_ok {checksum : Option UInt32} {data rest : Bytes} :
    (checksumFormat header).read data = .ok (checksum, rest) ↔
      data = checksum.elim [] (fun checksum => beBytes 4 checksum.toNat) ++ rest ∧
        (checksum.isSome ↔ header.hasChecksum = true) :=
  (checksumFormat header).read_eq_ok.trans
    (and_congr_right fun _ => and_iff_left fun _ _ => trivial)

/-- No flags are not the same as flags of no bytes. -/
theorem flagsFormat_read_eq_ok {flags : Option Bytes} {data rest : Bytes} :
    (flagsFormat header).read data = .ok (flags, rest) ↔
      data = flags.getD [] ++ rest ∧ (flags.getD []).length = header.flagSize.toNat ∧
        flags ≠ some [] := by
  rw [Format.read_eq_ok]
  cases flags with
  | none => simp [flagsFormat, Format.optional, ← UInt8.toNat_inj, @eq_comm _ 0]
  | some flags =>
    have hPos (h : flags.length = header.flagSize.toNat) : 0 < header.flagSize ↔ flags ≠ [] := by
      rw [UInt8.lt_iff_toNat_lt, ← length_pos_iff, h]
      rfl
    simp only [flagsFormat, Format.optional, Format.bytes, elim_some, isSome_some,
      true_iff, mem_def, Option.some.injEq, forall_eq', getD_some, ne_eq]
    tauto

theorem read_eq_ok {data rest : Bytes} {entry : DownloadFileEntry} :
    read header data = .ok (entry, rest) ↔
      data = entry.bytes ++ rest ∧ entry.Valid header ∧ entry.flags ≠ some [] := by
  obtain ⟨encodingKey, fileSize, priority, checksum, flags⟩ := entry
  simp only [read, bind_pair_eq_ok, Codec.read_eq_ok, Codec.key_write, FileSize40.codec_write,
    int8_write, cons_append, nil_append, checksumFormat_read_eq_ok,
    flagsFormat_read_eq_ok, unit_bind_eq_ok, mapError_eq_ok, validate_eq_ok, valid_iff,
    Except.ok.injEq, Prod.mk.injEq, mk.injEq, existsAndEq, and_true, true_and, bytes,
    append_assoc]
  tauto

def format (header : DownloadHeader) : Format (BinError DownloadError) DownloadFileEntry where
  read := read header
  write := bytes
  Valid entry := entry.Valid header ∧ entry.flags ≠ some []
  read_write h _ := read_eq_ok.mpr ⟨rfl, h⟩
  write_read := read_eq_ok.mp

theorem readMany_eq_ok {n : Nat} {data rest : Bytes} {entries : List DownloadFileEntry} :
    readMany (read header) n data = .ok (entries, rest) ↔
      data = entries.flatMap bytes ++ rest ∧ entries.length = n ∧
        ∀ entry ∈ entries, entry.Valid header ∧ entry.flags ≠ some [] :=
  (format header).readMany_eq_ok

end DownloadFileEntry

/-! ## Manifests -/

structure DownloadManifest where
  header : DownloadHeader
  entries : List DownloadFileEntry
  tags : List InstallTag
  deriving DecidableEq

namespace DownloadManifest

def validate (manifest : DownloadManifest) : Except DownloadError Unit := do
  manifest.header.validate
  ensure (manifest.entries.length = manifest.header.entryCount.toNat)
    (.entryCountMismatch manifest.header.entryCount manifest.entries.length)
  ensure (manifest.tags.length = manifest.header.tagCount.toNat)
    (.tagCountMismatch manifest.header.tagCount manifest.tags.length)
  manifest.tags.forM fun tag =>
    ensure (tag.bitMask.length = manifest.header.bitMaskSize) .bitMaskSizeMismatch
  manifest.entries.forM (DownloadFileEntry.validate manifest.header)

/-- The parser; the second part of the result is what it leaves unread. -/
def read (data : Bytes) : Except DownloadError (DownloadManifest × Bytes) := do
  let (header, rest) ← (DownloadHeader.read data).mapError .binRead
  header.validate
  let (entries, rest) ←
    (readMany (DownloadFileEntry.read header) header.entryCount.toNat rest).mapError .binRead
  let (tags, rest) ←
    (readMany (InstallTag.read header.entryCount) header.tagCount.toNat rest).mapError .binRead
  let manifest : DownloadManifest := ⟨header, entries, tags⟩
  manifest.validate
  .ok (manifest, rest)

def parse (data : Bytes) : Except DownloadError DownloadManifest := (read data).map Prod.fst

def build (manifest : DownloadManifest) : Except DownloadError Bytes := do
  manifest.validate
  let entries ←
    (manifest.entries.mapM (DownloadFileEntry.write manifest.header)).mapError .binRead
  .ok (manifest.header.write ++ entries.flatten ++ manifest.tags.flatMap InstallTag.write)

/-- What `validate` checks. -/
@[mk_iff]
structure Valid (manifest : DownloadManifest) : Prop where
  header : manifest.header.validate = .ok ()
  entryCount : manifest.entries.length = manifest.header.entryCount.toNat
  tagCount : manifest.tags.length = manifest.header.tagCount.toNat
  bitMasks : ∀ tag ∈ manifest.tags, tag.bitMask.length = manifest.header.bitMaskSize
  entries : ∀ entry ∈ manifest.entries, entry.Valid manifest.header

variable {manifest : DownloadManifest}

theorem validate_eq_ok {u : Unit} : manifest.validate = .ok u ↔ manifest.Valid := by
  simp only [validate, unit_bind_eq_ok, ensure_eq_ok, forM_eq_ok,
    DownloadFileEntry.validate_eq_ok, valid_iff]

/-- What is written for a manifest that passes `validate`. -/
def bytes (manifest : DownloadManifest) : Bytes :=
  manifest.header.write ++ (manifest.entries.flatMap DownloadFileEntry.bytes ++
    manifest.tags.flatMap InstallTag.write)

theorem build_eq_ok (h : manifest.Valid) : manifest.build = .ok manifest.bytes := by
  have hEntries : manifest.entries.mapM (DownloadFileEntry.write manifest.header) =
      .ok (manifest.entries.map DownloadFileEntry.bytes) :=
    mapM_eq_map fun entry hEntry => DownloadFileEntry.write_eq_ok (h.entries entry hEntry)
  rw [build, validate_eq_ok (u := ()) |>.mpr h, ok_bind, hEntries, mapError_ok, ok_bind,
    append_assoc]
  rfl

/-- The manifests that the format can hold, among those that pass `validate`. -/
@[mk_iff]
structure Representable (manifest : DownloadManifest) : Prop where
  header : manifest.header.Matches
  flags : ∀ entry ∈ manifest.entries, entry.flags ≠ some []
  names : ∀ tag ∈ manifest.tags, 0 ∉ tag.name.1
  types : ∀ tag ∈ manifest.tags, tag.tagType.Canonical

theorem read_eq_ok {data rest : Bytes} :
    read data = .ok (manifest, rest) ↔
      data = manifest.bytes ++ rest ∧ manifest.Valid ∧ manifest.Representable := by
  obtain ⟨header, entries, tags⟩ := manifest
  simp only [read, bind_pair_eq_ok, mapError_eq_ok, DownloadHeader.read_eq_ok, unit_bind_eq_ok,
    DownloadFileEntry.readMany_eq_ok, InstallTag.readMany_eq_ok, validate_eq_ok, valid_iff,
    Except.ok.injEq, Prod.mk.injEq, mk.injEq, existsAndEq, and_true, true_and, bytes,
    append_assoc, representable_iff, InstallTag.ok_iff, forall_and, ensure_eq_ok,
    DownloadHeader.bitMaskSize, DownloadHeader.validate]
  tauto

def format : Format DownloadError DownloadManifest where
  read := read
  write := bytes
  Valid manifest := manifest.Valid ∧ manifest.Representable
  read_write h _ := read_eq_ok.mpr ⟨rfl, h⟩
  write_read := read_eq_ok.mp

theorem parse_bytes_iff (h : manifest.Valid) :
    parse manifest.bytes = .ok manifest ↔ manifest.Representable :=
  format.parse_write_iff.trans (and_iff_right h)

/-- What the parser consumed is what `build` writes. A manifest that passes `validate` is built, and
it comes back from its bytes exactly if it is `Representable`. -/
theorem download_parse_build :
    (∀ data manifest rest, read data = .ok (manifest, rest) →
      ∃ consumed, build manifest = .ok consumed ∧ data = consumed ++ rest) ∧
    ∀ manifest : DownloadManifest, manifest.validate = .ok () →
      ∃ built, manifest.build = .ok built ∧
        (parse built = .ok manifest ↔ manifest.Representable) := by
  constructor
  · intro data manifest rest h
    obtain ⟨hBytes, hValid, -⟩ := format.write_read h
    exact ⟨manifest.bytes, build_eq_ok hValid, hBytes⟩
  · intro manifest h
    have hValid := validate_eq_ok.mp h
    exact ⟨manifest.bytes, build_eq_ok hValid, parse_bytes_iff hValid⟩

def sampleEntry : DownloadFileEntry where
  encodingKey := .fill 16 0xab
  fileSize := ⟨7, by decide⟩
  priority := -1
  checksum := some 5
  flags := some [1, 2]

def sample : DownloadManifest where
  header := .newV3 1 1 true 2 0
  entries := [sampleEntry]
  tags := [⟨InstallTag.sampleName, .locale, [0x80]⟩]

theorem representable_sample : sample.Representable := ⟨by decide, by decide, by decide, by decide⟩

theorem download_parse_build_sample :
    sample.validate = .ok () ∧ ∃ built, sample.build = .ok built ∧ parse built = .ok sample := by
  have hValidate : sample.validate = .ok () := rfl
  obtain ⟨built, hBuild, hParse⟩ := download_parse_build.2 sample hValidate
  exact ⟨hValidate, built, hBuild, hParse.mpr representable_sample⟩

/-- Flags of no bytes come back as no flags. -/
def emptyFlags : DownloadManifest where
  header := .newV1 1 0 false
  entries := [{ sampleEntry with checksum := none, flags := some [] }]
  tags := []

/-- A header of version 1 with the version byte of another. -/
def otherVersion : DownloadManifest where
  header := .v1 ⟨DownloadHeaderBase.magicDl, 2, 16, 0, 0, 0⟩
  entries := []
  tags := []

/-- The tag comes back with the platform type. -/
def knownAsOther : DownloadManifest where
  header := .newV1 0 1 false
  entries := []
  tags := [⟨InstallTag.sampleName, .other 1, []⟩]

/-- The name ends early. -/
def zeroName : DownloadManifest where
  header := .newV1 0 1 false
  entries := []
  tags := [⟨InstallTag.zeroText, .locale, []⟩]

/-- `validate` accepts the manifest, and it does not come back from what `build` writes. -/
def Lost (manifest : DownloadManifest) : Prop :=
  manifest.validate = .ok () ∧ ∃ built, manifest.build = .ok built ∧ parse built ≠ .ok manifest

theorem lost_of_not_representable (h : manifest.validate = .ok ())
    (hRep : ¬ manifest.Representable) : Lost manifest := by
  have hValid := validate_eq_ok.mp h
  exact ⟨h, manifest.bytes, build_eq_ok hValid, fun hParse =>
    hRep ((parse_bytes_iff hValid).mp hParse)⟩

theorem download_parse_build_refuted :
    Lost emptyFlags ∧ Lost otherVersion ∧ Lost knownAsOther ∧ Lost zeroName := by
  refine ⟨lost_of_not_representable rfl fun h => ?_, lost_of_not_representable rfl fun h => ?_,
    lost_of_not_representable rfl fun h => ?_, lost_of_not_representable rfl fun h => ?_⟩
  · exact absurd h.flags (by decide)
  · exact absurd h.header (by decide)
  · exact absurd h.types (by decide)
  · exact absurd h.names (by decide)

end DownloadManifest

end Cascette.Manifest
