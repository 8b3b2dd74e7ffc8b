import Cascette.Manifest.Tag

/-!
# Size manifests

A size manifest maps partial encoding keys to estimated sizes. The builder fills in the counts and
the total, and what it returns is read back from its own bytes exactly if the total fits the 40
bits of the header, no tag name has a zero byte and every tag type is canonical.
-/

namespace Cascette.Manifest

open Lib List

inductive SizeError where
  | invalidMagic (magic : Bytes)
  | unsupportedVersion (version : UInt8)
  | truncatedData (expected actual : Nat)
  | invalidEKeySize (size : UInt8)
  | entryCountMismatch (expected : UInt32) (actual : Nat)
  | tagCountMismatch (expected : UInt16) (actual : Nat)
  | totalSizeMismatch (expected actual : UInt64)
  | io
  deriving DecidableEq

/-! ## Header -/

structure SizeHeader where
  version : UInt8
  ekeySize : UInt8
  numFiles : UInt32
  numTags : UInt16
  totalSize : UInt64
  deriving DecidableEq

namespace SizeHeader

def size : Nat := 15

def magic : Bytes := [0x44, 0x53]

def validate (header : SizeHeader) : Except SizeError Unit := do
  ensure (header.version ≠ 0) (.unsupportedVersion header.version)
  ensure (header.ekeySize ≠ 0 ∧ header.ekeySize.toNat ≤ 16) (.invalidEKeySize header.ekeySize)

def fields (data : Bytes) : SizeHeader where
  version := data.getD 2 0
  ekeySize := data.getD 3 0
  numFiles := UInt32.ofNat (ofBe ((data.drop 4).take 4))
  numTags := UInt16.ofNat (ofBe ((data.drop 8).take 2))
  totalSize := UInt64.ofNat (ofBe ((data.drop 10).take 5))

def parse (data : Bytes) : Except SizeError SizeHeader := do
  ensure (size ≤ data.length) (.truncatedData size data.length)
  ensure (data.take 2 = magic) (.invalidMagic (data.take 2))
  (fields data).validate
  .ok (fields data)

/-- The low 40 bits of the total are written. -/
def write (header : SizeHeader) : Bytes :=
  magic ++ [header.version, header.ekeySize] ++ beBytes 4 header.numFiles.toNat ++
    beBytes 2 header.numTags.toNat ++ beBytes 5 header.totalSize.toNat

theorem length_write (header : SizeHeader) : header.write.length = size := by
  simp [write, magic, size]

variable {header : SizeHeader}

theorem validate_eq_ok {u : Unit} :
    header.validate = .ok u ↔
      header.version ≠ 0 ∧ header.ekeySize ≠ 0 ∧ header.ekeySize.toNat ≤ 16 := by
  rw [validate, unit_bind_eq_ok, ensure_eq_ok, ensure_eq_ok]

theorem fields_write (h : header.totalSize.toNat < 2 ^ 40) (rest : Bytes) :
    fields (header.write ++ rest) = header := by
  have hFiles : ((header.write ++ rest).drop 4).take 4 = beBytes 4 header.numFiles.toNat := by
    simp [write, magic]
  have hTags : ((header.write ++ rest).drop 8).take 2 = beBytes 2 header.numTags.toNat := by
    simp [write, magic]
  have hTotal : ((header.write ++ rest).drop 10).take 5 = beBytes 5 header.totalSize.toNat := by
    simp [write, magic, drop_append, drop_eq_nil_of_le]
  rw [fields, hFiles, hTags, hTotal, ofBe_beBytes_of_lt header.numFiles.toNat_lt,
    ofBe_beBytes_of_lt header.numTags.toNat_lt, ofBe_beBytes_of_lt h, UInt32.ofNat_toNat,
    UInt16.ofNat_toNat, UInt64.ofNat_toNat]
  rfl

theorem totalSize_fields_lt (data : Bytes) : (fields data).totalSize.toNat < 2 ^ 40 := by
  have hLt := ofBe_lt ((data.drop 10).take 5)
  have hPow : 256 ^ ((data.drop 10).take 5).length ≤ 256 ^ 5 :=
    Nat.pow_le_pow_right (by decide) (length_take_le 5 _)
  rw [fields, UInt64.toNat_ofNat_of_lt']
  · omega
  · exact (hLt.trans_le hPow).trans (by decide)

theorem parse_write (hValid : header.validate = .ok ()) (h : header.totalSize.toNat < 2 ^ 40)
    (rest : Bytes) : parse (header.write ++ rest) = .ok header := by
  have hLength : size ≤ (header.write ++ rest).length := by
    rw [length_append, length_write]
    omega
  have hMagic : (header.write ++ rest).take 2 = magic := rfl
  rw [parse, ensure_of hLength, ok_bind, ensure_of hMagic, ok_bind, fields_write h, hValid]
  rfl

theorem totalSize_lt_of_parse {data : Bytes} (h : parse data = .ok header) :
    header.totalSize.toNat < 2 ^ 40 := by
  obtain ⟨_, -, h⟩ := bind_eq_ok.mp h
  obtain ⟨_, -, h⟩ := bind_eq_ok.mp h
  obtain ⟨_, -, h⟩ := bind_eq_ok.mp h
  cases h
  exact totalSize_fields_lt data

end SizeHeader

/-! ## Entries -/

structure SizeEntry where
  key : Bytes
  esize : UInt32
  deriving DecidableEq

namespace SizeEntry

def serializedSize (header : SizeHeader) : Nat := header.ekeySize.toNat + 4

def readEntry (header : SizeHeader) (bytes : Bytes) : Except SizeError (SizeEntry × Bytes) := do
  let (key, rest) ← (Format.bytes .io header.ekeySize.toNat).read bytes
  let (esize, rest) ← (Codec.uint32Be .io).read rest
  .ok ({ key := key, esize := esize }, rest)

def writeEntry (entry : SizeEntry) : Bytes := entry.key ++ beBytes 4 entry.esize.toNat

def validate (header : SizeHeader) (entry : SizeEntry) : Except SizeError Unit :=
  ensure (entry.key.length = header.ekeySize.toNat)
    (.truncatedData header.ekeySize.toNat entry.key.length)

variable {header : SizeHeader} {entry : SizeEntry}

theorem readEntry_writeEntry (h : entry.key.length = header.ekeySize.toNat) (rest : Bytes) :
    readEntry header (entry.writeEntry ++ rest) = .ok (entry, rest) := by
  cases entry
  simpa [readEntry, writeEntry] using h

theorem length_writeEntry (h : entry.key.length = header.ekeySize.toNat) :
    entry.writeEntry.length = serializedSize header := by
  rw [writeEntry, length_append, beBytes_length, h, serializedSize]

end SizeEntry

/-! ## Manifests -/

/-- A name that is not UTF-8 is read as the empty one. -/
def tagName (bytes : Bytes) : Text := if h : validUtf8 bytes = true then ⟨bytes, h⟩ else ⟨[], rfl⟩

/-- One tag; the errors name the position in the whole input of the length `total`. -/
def readSizeTag (total bitfieldLen : Nat) (bytes : Bytes) :
    Except SizeError (InstallTag × Bytes) := do
  let (name, rest) ← (Format.zeroTerminated (.truncatedData (total + 1) total)).read bytes
  let (tagTypeRaw, rest) ←
    (Codec.uint16Be (.truncatedData (total - rest.length + 2) total)).read rest
  let (bitMask, rest) ←
    (Format.bytes (.truncatedData (total - rest.length + bitfieldLen) total) bitfieldLen).read rest
  .ok ({ name := tagName name, tagType := .fromU16 tagTypeRaw, bitMask := bitMask }, rest)

def writeSizeTag (bitfieldLen : Nat) (tag : InstallTag) : Bytes :=
  tag.name.1 ++ [0] ++ beBytes 2 tag.tagType.asU16.toNat ++ resize bitfieldLen tag.bitMask

theorem zero_notMem_tagName {bytes : Bytes} (h : 0 ∉ bytes) : 0 ∉ (tagName bytes).1 := by
  unfold tagName
  split
  · exact h
  · exact not_mem_nil

variable {tag : InstallTag}

theorem readSizeTag_writeSizeTag (total : Nat) {bitfieldLen : Nat}
    (hName : 0 ∉ tag.name.1) (hType : tag.tagType.Canonical)
    (hMask : tag.bitMask.length = bitfieldLen) (rest : Bytes) :
    readSizeTag total bitfieldLen (writeSizeTag bitfieldLen tag ++ rest) = .ok (tag, rest) := by
  have hResize : resize bitfieldLen tag.bitMask = tag.bitMask := by
    rw [resize_of_le hMask.le, padTo, hMask, Nat.sub_self]
    exact append_nil _
  have hText : tagName tag.name.1 = tag.name := dif_pos tag.name.2
  simp only [readSizeTag, writeSizeTag, hResize, bind_pair_eq_ok, Format.zeroTerminated_read_eq_ok,
    Codec.read_eq_ok, Codec.uint16Be_write, Format.bytes_read_eq_ok, append_assoc]
  exact ⟨tag.name.1, _, ⟨rfl, hName⟩, tag.tagType.asU16, _, rfl, tag.bitMask, rest, ⟨rfl, hMask⟩,
    by rw [hText, hType]⟩

theorem of_readSizeTag {total bitfieldLen : Nat} {bytes rest : Bytes}
    (h : readSizeTag total bitfieldLen bytes = .ok (tag, rest)) :
    0 ∉ tag.name.1 ∧ tag.tagType.Canonical := by
  simp only [readSizeTag, bind_pair_eq_ok, Format.zeroTerminated_read_eq_ok] at h
  obtain ⟨name, _, ⟨-, hName⟩, tagTypeRaw, _, -, bitMask, _, -, h⟩ := h
  cases h
  exact ⟨zero_notMem_tagName hName, (TagType.fromU16_eq_iff.mp rfl).2⟩

structure SizeManifest where
  header : SizeHeader
  tags : List InstallTag
  entries : List SizeEntry
  deriving DecidableEq

namespace SizeManifest

def parse (data : Bytes) : Except SizeError SizeManifest := do
  ensure (SizeHeader.size ≤ data.length) (.truncatedData SizeHeader.size data.length)
  let header ← SizeHeader.parse data
  let (tags, rest) ← readMany (readSizeTag data.length (divCeil header.numFiles.toNat 8))
    header.numTags.toNat (data.drop SizeHeader.size)
  let needed := data.length - rest.length + SizeEntry.serializedSize header * header.numFiles.toNat
  ensure (needed ≤ data.length) (.truncatedData needed data.length)
  let (entries, _) ← readMany (SizeEntry.readEntry header) header.numFiles.toNat rest
  .ok { header := header, tags := tags, entries := entries }

/-- Writing to memory does not fail. -/
def build (manifest : SizeManifest) : Bytes :=
  manifest.header.write ++
    manifest.tags.flatMap (writeSizeTag (divCeil manifest.header.numFiles.toNat 8)) ++
    manifest.entries.flatMap SizeEntry.writeEntry

def totalSize (entries : List SizeEntry) : UInt64 := (entries.map (·.esize.toUInt64)).sum

def validate (manifest : SizeManifest) : Except SizeError Unit := do
  manifest.header.validate
  ensure (manifest.tags.length = manifest.header.numTags.toNat)
    (.tagCountMismatch manifest.header.numTags manifest.tags.length)
  ensure (manifest.entries.length = manifest.header.numFiles.toNat)
    (.entryCountMismatch manifest.header.numFiles manifest.entries.length)
  ensure (totalSize manifest.entries = manifest.header.totalSize)
    (.totalSizeMismatch manifest.header.totalSize (totalSize manifest.entries))
  manifest.entries.forM (SizeEntry.validate manifest.header)

/-- What `validate` checks. -/
@[mk_iff]
structure Valid (manifest : SizeManifest) : Prop where
  header : manifest.header.validate = .ok ()
  numTags : manifest.tags.length = manifest.header.numTags.toNat
  numFiles : manifest.entries.length = manifest.header.numFiles.toNat
  totalSize : SizeManifest.totalSize manifest.entries = manifest.header.totalSize
  entries : ∀ entry ∈ manifest.entries, entry.key.length = manifest.header.ekeySize.toNat

variable {manifest : SizeManifest}

theorem validate_eq_ok {u : Unit} : manifest.validate = .ok u ↔ manifest.Valid := by
  simp only [validate, unit_bind_eq_ok, ensure_eq_ok, forM_eq_ok, SizeEntry.validate, valid_iff]

theorem toNat_totalSize {entries : List SizeEntry} (h : entries.length < 2 ^ 32) :
    (totalSize entries).toNat = (entries.map (·.esize.toNat)).sum := by
  have hMod : (totalSize entries).toNat = (entries.map (·.esize.toNat)).sum % 2 ^ 64 := by
    clear h
    unfold totalSize
    induction entries with
    | nil => rfl
    | cons entry entries ih =>
      rw [map_cons, sum_cons, map_cons, sum_cons, UInt64.toNat_add, ih,
        UInt32.toNat_toUInt64, Nat.add_mod_mod]
  have hSum : (entries.map (·.esize.toNat)).sum ≤ entries.length * (2 ^ 32 - 1) := by
    have hLe := sum_le_card_nsmul (entries.map (·.esize.toNat)) (2 ^ 32 - 1) ?_
    · rwa [length_map, smul_eq_mul] at hLe
    · intro n hn
      obtain ⟨entry, -, rfl⟩ := mem_map.mp hn
      exact Nat.le_sub_one_of_lt entry.esize.toNat_lt
  omega

theorem parse_build (h : manifest.Valid) (hTotal : manifest.header.totalSize.toNat < 2 ^ 40)
    (hTags : ∀ tag ∈ manifest.tags, tag.Ok manifest.header.numFiles) :
    parse manifest.build = .ok manifest := by
  have hTagsRead : ∀ total, ∀ tag ∈ manifest.tags, ∀ rest,
      readSizeTag total (divCeil manifest.header.numFiles.toNat 8)
        (writeSizeTag (divCeil manifest.header.numFiles.toNat 8) tag ++ rest) = .ok (tag, rest) :=
    fun total tag hTag => readSizeTag_writeSizeTag total (hTags tag hTag).name
      (hTags tag hTag).tagType (hTags tag hTag).bitMask
  have hEntriesRead : ∀ entry ∈ manifest.entries, ∀ rest,
      SizeEntry.readEntry manifest.header (entry.writeEntry ++ rest) = .ok (entry, rest) :=
    fun entry hEntry => SizeEntry.readEntry_writeEntry (h.entries entry hEntry)
  have hEntriesLength : (manifest.entries.flatMap SizeEntry.writeEntry).length =
      SizeEntry.serializedSize manifest.header * manifest.header.numFiles.toNat := by
    rw [flatMap, length_flatten_map fun entry hEntry =>
      SizeEntry.length_writeEntry (h.entries entry hEntry), h.numFiles, Nat.mul_comm]
  have hLength := manifest.header.length_write
  have hEnough : SizeHeader.size ≤ manifest.build.length := by
    simp only [build, length_append]
    omega
  have hHeader : SizeHeader.parse manifest.build = .ok manifest.header := by
    rw [build, append_assoc, SizeHeader.parse_write h.header hTotal]
  have hDrop : manifest.build.drop SizeHeader.size =
      manifest.tags.flatMap (writeSizeTag (divCeil manifest.header.numFiles.toNat 8)) ++
        manifest.entries.flatMap SizeEntry.writeEntry := by
    rw [build, append_assoc, drop_left' hLength]
  rw [parse, ensure_of hEnough, ok_bind, hHeader, ok_bind, hDrop, ← h.numTags,
    readMany_flatMap (hTagsRead _), ok_bind]
  dsimp only
  rw [ensure_of (by simp only [build, length_append]; omega), ok_bind, ← h.numFiles]
  have hEntries := readMany_flatMap hEntriesRead []
  rw [append_nil] at hEntries
  rw [hEntries, ok_bind]

theorem of_parse {data : Bytes} (h : parse data = .ok manifest) :
    manifest.header.totalSize.toNat < 2 ^ 40 ∧
      ∀ tag ∈ manifest.tags, 0 ∉ tag.name.1 ∧ tag.tagType.Canonical := by
  obtain ⟨_, -, h⟩ := bind_eq_ok.mp h
  obtain ⟨header, hHeader, h⟩ := bind_eq_ok.mp h
  obtain ⟨⟨tags, rest⟩, hTags, h⟩ := bind_eq_ok.mp h
  obtain ⟨_, -, h⟩ := bind_eq_ok.mp h
  obtain ⟨⟨entries, rest'⟩, -, h⟩ := bind_eq_ok.mp h
  cases h
  refine ⟨SizeHeader.totalSize_lt_of_parse hHeader, fun tag hTag => ?_⟩
  obtain ⟨_, _, hRead⟩ := (of_readMany hTags).2 tag hTag
  exact of_readSizeTag hRead

end SizeManifest

/-! ## Builder -/

structure SizeManifestBuilder where
  version : UInt8
  ekeySize : UInt8
  tags : List InstallTag
  entries : List SizeEntry
  deriving DecidableEq

namespace SizeManifestBuilder

def new : SizeManifestBuilder where
  version := 1
  ekeySize := 9
  tags := []
  entries := []

def addTag (builder : SizeManifestBuilder) (name : Text) (tagType : TagType) :
    SizeManifestBuilder :=
  { builder with tags := builder.tags ++ [InstallTag.new name tagType 0] }

def addEntry (builder : SizeManifestBuilder) (key : Bytes) (esize : UInt32) : SizeManifestBuilder :=
  { builder with entries := builder.entries ++ [{ key := key, esize := esize }] }

/-- What `build` validates and returns. -/
def manifest (builder : SizeManifestBuilder) : SizeManifest where
  header := {
    version := builder.version
    ekeySize := builder.ekeySize
    numFiles := UInt32.ofNat builder.entries.length
    numTags := UInt16.ofNat builder.tags.length
    totalSize := SizeManifest.totalSize builder.entries }
  tags := builder.tags.map fun tag =>
    { tag with bitMask := resize (divCeil builder.entries.length 8) tag.bitMask }
  entries := builder.entries

def build (builder : SizeManifestBuilder) : Except SizeError SizeManifest := do
  ensure (builder.version ≠ 0) (.unsupportedVersion builder.version)
  ensure (builder.ekeySize ≠ 0 ∧ builder.ekeySize.toNat ≤ 16) (.invalidEKeySize builder.ekeySize)
  builder.manifest.validate
  .ok builder.manifest

variable {builder : SizeManifestBuilder}

theorem build_eq_ok {manifest : SizeManifest} :
    builder.build = .ok manifest ↔ manifest = builder.manifest ∧ builder.manifest.Valid := by
  simp only [build, unit_bind_eq_ok, ensure_eq_ok, SizeManifest.validate_eq_ok, Except.ok.injEq]
  constructor
  · rintro ⟨-, -, hValid, rfl⟩
    exact ⟨rfl, hValid⟩
  · rintro ⟨rfl, hValid⟩
    obtain ⟨hVersion, hKeySize⟩ := SizeHeader.validate_eq_ok.mp hValid.header
    exact ⟨hVersion, hKeySize, hValid, rfl⟩

theorem valid_manifest (hVersion : builder.version ≠ 0)
    (hKeySize : builder.ekeySize ≠ 0 ∧ builder.ekeySize.toNat ≤ 16)
    (hTags : builder.tags.length < 2 ^ 16) (hFiles : builder.entries.length < 2 ^ 32)
    (hKeys : ∀ entry ∈ builder.entries, entry.key.length = builder.ekeySize.toNat) :
    builder.manifest.Valid where
  header := SizeHeader.validate_eq_ok.mpr ⟨hVersion, hKeySize⟩
  numTags := by
    rw [manifest, length_map, UInt16.toNat_ofNat_of_lt' hTags]
  numFiles := (UInt32.toNat_ofNat_of_lt' hFiles).symm
  totalSize := rfl
  entries := hKeys

/-- The inputs whose manifest the format can hold. -/
structure Representable (builder : SizeManifestBuilder) : Prop where
  total : (builder.entries.map (·.esize.toNat)).sum < 2 ^ 40
  names : ∀ tag ∈ builder.tags, 0 ∉ tag.name.1
  types : ∀ tag ∈ builder.tags, tag.tagType.Canonical

theorem parse_build_manifest_iff (h : builder.manifest.Valid) :
    SizeManifest.parse builder.manifest.build = .ok builder.manifest ↔ builder.Representable := by
  have hFiles : builder.entries.length = builder.manifest.header.numFiles.toNat := h.numFiles
  have hFew : builder.entries.length < 2 ^ 32 := by
    rw [hFiles]
    exact builder.manifest.header.numFiles.toNat_lt
  have hTotal : builder.manifest.header.totalSize.toNat =
      (builder.entries.map (·.esize.toNat)).sum := SizeManifest.toNat_totalSize hFew
  constructor
  · intro hParse
    obtain ⟨hFits, hTags⟩ := SizeManifest.of_parse hParse
    have hTags : ∀ tag ∈ builder.tags, 0 ∉ tag.name.1 ∧ tag.tagType.Canonical :=
      fun tag hTag => hTags
        { tag with bitMask := resize (divCeil builder.entries.length 8) tag.bitMask }
        (mem_map.mpr ⟨tag, hTag, rfl⟩)
    exact ⟨hTotal ▸ hFits, fun tag hTag => (hTags tag hTag).1, fun tag hTag => (hTags tag hTag).2⟩
  · intro hRep
    refine SizeManifest.parse_build h (hTotal ▸ hRep.total) fun tag hTag => ?_
    obtain ⟨original, hOriginal, rfl⟩ := mem_map.mp hTag
    refine ⟨hRep.names original hOriginal, hRep.types original hOriginal, ?_⟩
    rw [resize_length, hFiles]

/-- The manifest that is built comes back from its bytes exactly if the builder is
`Representable`. -/
theorem size_parse_build_iff (builder : SizeManifestBuilder) (manifest : SizeManifest)
    (h : builder.build = .ok manifest) :
    SizeManifest.parse manifest.build = .ok manifest ↔ builder.Representable := by
  obtain ⟨rfl, hValid⟩ := build_eq_ok.mp h
  exact parse_build_manifest_iff hValid

def sampleKey : Bytes := List.replicate 9 0xab

def sample : SizeManifestBuilder :=
  ((new.addTag InstallTag.sampleName .locale).addEntry sampleKey 1024).addEntry sampleKey 2048

theorem size_parse_build_sample :
    sample.build = .ok sample.manifest ∧
      SizeManifest.parse sample.manifest.build = .ok sample.manifest :=
  ⟨rfl, (size_parse_build_iff sample sample.manifest rfl).mpr ⟨by decide, by decide, by decide⟩⟩

/-- The sizes add up to more than the header can hold. -/
def largeTotal : SizeManifestBuilder :=
  { new with entries := List.replicate 257 { key := sampleKey, esize := 0xffffffff } }

/-- The name ends early. -/
def zeroName : SizeManifestBuilder := new.addTag InstallTag.zeroText .locale

/-- The type is read as the platform type. -/
def knownAsOther : SizeManifestBuilder := new.addTag InstallTag.sampleName (.other 1)

theorem valid_largeTotal : largeTotal.manifest.Valid := by
  refine valid_manifest (by decide) (by decide) (by decide) ?_ fun entry hEntry => ?_
  · rw [largeTotal, length_replicate]
    decide
  · rw [eq_of_mem_replicate hEntry]
    rfl

theorem size_parse_build_refuted :
    (largeTotal.build = .ok largeTotal.manifest ∧
      SizeManifest.parse largeTotal.manifest.build ≠ .ok largeTotal.manifest) ∧
    (zeroName.build = .ok zeroName.manifest ∧
      SizeManifest.parse zeroName.manifest.build ≠ .ok zeroName.manifest) ∧
    (knownAsOther.build = .ok knownAsOther.manifest ∧
      SizeManifest.parse knownAsOther.manifest.build ≠ .ok knownAsOther.manifest) := by
  have hZero : zeroName.build = .ok zeroName.manifest := rfl
  have hOther : knownAsOther.build = .ok knownAsOther.manifest := rfl
  refine ⟨⟨build_eq_ok.mpr ⟨rfl, valid_largeTotal⟩, fun h => ?_⟩, ⟨hZero, fun h => ?_⟩,
    ⟨hOther, fun h => ?_⟩⟩
  · have hRep := (parse_build_manifest_iff valid_largeTotal).mp h
    have hTotal := hRep.total
    rw [largeTotal, map_replicate, sum_replicate] at hTotal
    exact absurd hTotal (by decide)
  · have hRep := (parse_build_manifest_iff (build_eq_ok.mp hZero).2).mp h
    exact absurd hRep.names (by decide)
  · have hRep := (parse_build_manifest_iff (build_eq_ok.mp hOther).2).mp h
    exact absurd hRep.types (by decide)

end SizeManifestBuilder

end Cascette.Manifest
