import Cascette.Archive.Write
import Cascette.Lib.Merge

/-!
# Building an archive index

The builder sorts its entries by key, keeping the order of equal keys, and writes them in a layout
of its own choice. When the format knows the layout and the layout holds the entries, the file is
read back as the sorted entries (`build_readBack`).
-/

namespace Cascette.Archive

open Lib List ArchiveIndex IndexFooter

def calculateTocHash (md5 : Bytes → Key 16) (tocKeys blockHashes : List Bytes)
    (hashBytes : UInt8) : Checked Bytes :=
  slice (md5 (tocKeys.flatten ++ blockHashes.flatten)).1 0 hashBytes.toNat

variable (md5 : Bytes → Key 16)

theorem calculateTocHash_eight (tocKeys blockHashes : List Bytes) :
    calculateTocHash md5 tocKeys blockHashes 8 =
      .ok ((md5 (tocKeys.flatten ++ blockHashes.flatten)).1.take 8) := by
  rw [calculateTocHash, slice_eq (Nat.zero_le _) (by rw [(md5 _).2]; decide)]
  rfl

structure ArchiveIndexBuilder where
  entries : List IndexEntry
  keySize : UInt8
  offsetBytes : UInt8
  sizeBytes : UInt8
  hashBytes : UInt8

namespace ArchiveIndexBuilder

def withConfig (keySize offsetBytes sizeBytes : UInt8) : ArchiveIndexBuilder where
  entries := []
  keySize
  offsetBytes
  sizeBytes
  hashBytes := 8

def new : ArchiveIndexBuilder := withConfig 16 4 4

def addEntries (builder : ArchiveIndexBuilder) (entries : List IndexEntry) : ArchiveIndexBuilder :=
  { builder with entries := builder.entries ++ entries }

def addEntry (builder : ArchiveIndexBuilder) (encodingKey : Bytes) (size : UInt32)
    (offset : UInt64) : ArchiveIndexBuilder :=
  builder.addEntries [{ encodingKey, size, offset, archiveIndex := none }]

/-- The builder that `from_archive_index` makes of an index. -/
def fromArchiveIndex (index : ArchiveIndex) : ArchiveIndexBuilder :=
  (withConfig index.footer.ekeyLength index.footer.offsetBytes index.footer.sizeBytes).addEntries
    index.entries

/-- The key for the table of contents, padded or cut to the length of the keys. -/
def tocKey (keySize : Nat) (entry : IndexEntry) : Bytes :=
  (padTo keySize entry.encodingKey).take keySize

/-- The stable sort by key. -/
def sorted (builder : ArchiveIndexBuilder) : List IndexEntry :=
  builder.entries.insertionSort fun a b => a.encodingKey ≤ b.encodingKey

def footer (md5 : Bytes → Key 16) (builder : ArchiveIndexBuilder) (tocHash : Bytes) : IndexFooter :=
  let footer := IndexFooter.new md5 tocHash (UInt32.ofNat builder.entries.length)
  IndexFooter.sealed md5 { footer with
    ekeyLength := builder.keySize
    offsetBytes := builder.offsetBytes
    sizeBytes := builder.sizeBytes
    footerHashBytes := builder.hashBytes }

def entrySize (builder : ArchiveIndexBuilder) : Nat :=
  builder.keySize.toNat + builder.sizeBytes.toNat + builder.offsetBytes.toNat

/-- The file and the index that it holds. -/
def build (md5 : Bytes → Key 16) (builder : ArchiveIndexBuilder) :
    Except (Halt ArchiveError) (Bytes × ArchiveIndex) := do
  let entries := builder.sorted
  let perChunk ← (checkedDiv 4096 builder.entrySize).mapError .panic
  let blocks ← (entryBlocks perChunk entries).mapError .panic
  let hashed ← hashedBlocks md5 builder.hashBytes
    (cursorBlock builder.sizeBytes builder.offsetBytes) blocks
  let toc := blocks.filterMap fun block => block.getLast?.map (tocKey builder.keySize.toNat)
  let tocHash ← (calculateTocHash md5 toc (hashed.map Prod.snd) builder.hashBytes).mapError .panic
  let footer := builder.footer md5 tocHash
  .ok (ArchiveIndex.assemble toc footer hashed, { entries, toc, footer })

/-! ## What is written -/

/-- With four bytes for the size and an offset field of a known width, the builder writes its
blocks, whatever the length of its keys. -/
theorem build_written (builder : ArchiveIndexBuilder) (md5 : Bytes → Key 16)
    (hOffset : IndexEntry.Supported builder.offsetBytes) (hSize : builder.sizeBytes = 4)
    (hHash : builder.hashBytes = 8) :
    ∃ tocHash, let toc := (chunks (4096 / builder.entrySize) builder.sorted).filterMap fun block =>
        block.getLast?.map (tocKey builder.keySize.toNat)
      builder.build md5 = .ok (ArchiveIndex.assemble toc (builder.footer md5 tocHash)
        (ArchiveIndex.fileBlocks md5 (4096 / builder.entrySize) builder.offsetBytes builder.sorted),
        { entries := builder.sorted, toc, footer := builder.footer md5 tocHash }) := by
  have hEntry : 4 ≤ builder.entrySize ∧ builder.entrySize ≤ 4096 := by
    have hKeyLt := builder.keySize.toNat_lt
    have hOffsetLt := builder.offsetBytes.toNat_lt
    have hFour : (4 : UInt8).toNat = 4 := rfl
    rw [entrySize, hSize, hFour]
    omega
  have hPos : 0 < 4096 / builder.entrySize := Nat.div_pos hEntry.2 (by omega)
  rw [build, checkedDiv_eq (by omega), mapError_ok, ok_bind, entryBlocks_eq hPos,
    mapError_ok, ok_bind, hHash, hSize,
    hashedBlocks_eq fun block _ => cursorBlock_eq hOffset block, ok_bind]
  dsimp only
  rw [calculateTocHash_eight, mapError_ok, ok_bind]
  exact ⟨_, rfl⟩

/-! ## Layouts that the format knows -/

/-- The layout of the builder is one that the reader accepts, and it holds the entries. -/
structure Ready (builder : ArchiveIndexBuilder) : Prop where
  key_pos : 1 ≤ builder.keySize.toNat
  key_le : builder.keySize.toNat ≤ 16
  offset : IndexEntry.Supported builder.offsetBytes
  size : builder.sizeBytes = 4
  hash : builder.hashBytes = 8
  count : builder.entries.length < 2 ^ 32
  entries : ∀ entry ∈ builder.entries,
    entry.Holds builder.keySize builder.offsetBytes ∧ entry.isZero = false

variable {entry : IndexEntry} {builder : ArchiveIndexBuilder}

theorem sorted_length (builder : ArchiveIndexBuilder) :
    builder.sorted.length = builder.entries.length :=
  (perm_insertionSort _ _).length_eq

section Ready

variable {builder : ArchiveIndexBuilder} (h : builder.Ready) (tocHash : Bytes)

include h

theorem Ready.sorted (hEntry : entry ∈ builder.sorted) :
    entry.Holds builder.keySize builder.offsetBytes ∧ entry.isZero = false :=
  h.entries entry (mem_insertionSort.mp hEntry)

theorem Ready.format : (builder.footer md5 tocHash).Format where
  version := le_refl (1 : UInt8)
  reserved := rfl
  pageSize := rfl
  offset := h.offset
  size := h.size
  ekey_pos := by
    intro hZero
    have hPos := h.key_pos
    have hKey : builder.keySize = 0 := hZero
    rw [hKey] at hPos
    exact absurd hPos (by decide)
  ekey_le := UInt8.le_iff_toNat_le.mpr h.key_le
  hashBytes := h.hash

theorem Ready.toc_eq {perBlock : Nat} (hPer : 0 < perBlock) :
    ((chunks perBlock builder.sorted).filterMap fun block =>
      block.getLast?.map (tocKey builder.keySize.toNat)) =
      (chunks perBlock builder.sorted).map ArchiveIndex.lastKey := by
  rw [← filterMap_eq_map]
  refine filterMap_congr fun block hBlock => ?_
  obtain ⟨entry, hEntry, hLast, hKey⟩ := lastKey_of_ne_nil (ne_nil_of_mem_chunks hPer hBlock)
  have hLength := (h.sorted (mem_of_mem_chunks hBlock hEntry)).1.key
  have hToc : tocKey builder.keySize.toNat entry = entry.encodingKey := by
    rw [tocKey, padTo, hLength, Nat.sub_self, replicate_zero, append_nil, ← hLength, take_length]
  rw [hLast, Option.map_some, hToc, Function.comp_apply, hKey]

theorem Ready.valid :
    ArchiveIndex.Valid md5 {
      entries := builder.sorted
      toc := (chunks (builder.footer md5 tocHash).recordsPerBlock builder.sorted).map
        ArchiveIndex.lastKey
      footer := builder.footer md5 tocHash } where
  hash := isValid_sealed md5 h.hash
  format := h.format md5 tocHash
  sorted := pairwise_insertionSort_key _ _
  toc := rfl

theorem Ready.perBlock_eq :
    (builder.footer md5 tocHash).recordsPerBlock = 4096 / builder.entrySize := by
  rw [IndexFooter.recordsPerBlock, (h.format md5 tocHash).blockSize]
  rfl

theorem Ready.build_eq :
    ∃ tocHash, let footer := builder.footer md5 tocHash
      let toc := (chunks footer.recordsPerBlock builder.sorted).map ArchiveIndex.lastKey
      builder.build md5 = .ok (ArchiveIndex.assemble toc footer
        (ArchiveIndex.fileBlocks md5 footer.recordsPerBlock footer.offsetBytes builder.sorted),
        { entries := builder.sorted, toc, footer }) := by
  obtain ⟨tocHash, hBuild⟩ := builder.build_written md5 h.offset h.size h.hash
  have hPer := h.perBlock_eq md5 tocHash
  refine ⟨tocHash, ?_⟩
  rw [hBuild, ← hPer, h.toc_eq (h.valid md5 tocHash).perBlock_pos]
  rfl

theorem Ready.chunkCount_eq :
    (builder.footer md5 tocHash).chunkCount =
      divCeil builder.sorted.length (builder.footer md5 tocHash).recordsPerBlock := by
  have hCount : (builder.footer md5 tocHash).elementCount.toNat = builder.entries.length :=
    UInt32.toNat_ofNat_of_lt' h.count
  rw [IndexFooter.chunkCount, hCount, sorted_length]

theorem Ready.readBack :
    ∃ data tocHash, let footer := builder.footer md5 tocHash
      let index : ArchiveIndex := {
        entries := builder.sorted
        toc := (chunks footer.recordsPerBlock builder.sorted).map ArchiveIndex.lastKey
        footer }
      builder.build md5 = .ok (data, index) ∧ ArchiveIndex.parse md5 data = .ok index := by
  obtain ⟨tocHash, hBuild⟩ := h.build_eq md5
  have hRead := parse_assemble (h.valid md5 tocHash)
    (calculateFooterHash_length md5 _) (h.chunkCount_eq md5 tocHash)
    fun entry hEntry => h.sorted hEntry
  exact ⟨_, tocHash, hBuild, hRead⟩

end Ready

/-- The file that a builder writes is read back as its entries, sorted by key with equal keys in
the order they were added. -/
theorem build_readBack (md5 : Bytes → Key 16) {builder : ArchiveIndexBuilder} (h : builder.Ready) :
    ∃ data index, builder.build md5 = .ok (data, index) ∧
      ArchiveIndex.parse md5 data = .ok index ∧
      index.entries.Perm builder.entries ∧
      (index.entries.Pairwise fun a b => a.encodingKey ≤ b.encodingKey) ∧
      ∀ key, (index.entries.filter fun entry => entry.encodingKey = key) =
        builder.entries.filter fun entry => entry.encodingKey = key := by
  obtain ⟨data, tocHash, hBuild, hRead⟩ := h.readBack md5
  exact ⟨data, _, hBuild, hRead, perm_insertionSort _ _, pairwise_insertionSort_key _ _,
    filter_insertionSort_key⟩

/-- Two entries in the standard layout, not in order. -/
def sampleBuilder : ArchiveIndexBuilder :=
  (new.addEntry (List.replicate 16 7) 5 9).addEntry (List.replicate 16 3) 6 14

theorem sampleBuilder_ready : sampleBuilder.Ready where
  key_pos := by decide
  key_le := by decide
  offset := .inr (.inl rfl)
  size := rfl
  hash := rfl
  count := by decide
  entries := by
    refine forall_mem_cons.mpr ⟨?_, forall_mem_singleton.mpr ?_⟩
    · exact ⟨⟨rfl, by decide, by decide⟩, by decide⟩
    · exact ⟨⟨rfl, by decide, by decide⟩, by decide⟩

theorem build_readBack_sample :
    ∃ data index, sampleBuilder.build zeroDigest = .ok (data, index) ∧
      ArchiveIndex.parse zeroDigest data = .ok index ∧
      index.entries.Perm sampleBuilder.entries ∧
      (index.entries.Pairwise fun a b => a.encodingKey ≤ b.encodingKey) ∧
      ∀ key, (index.entries.filter fun entry => entry.encodingKey = key) =
        sampleBuilder.entries.filter fun entry => entry.encodingKey = key :=
  build_readBack zeroDigest sampleBuilder_ready

/-! ## Entries that are not read back -/

/-- The keys have the length of the layout, the offsets fit it, and no record is all zeros. -/
def Fits (builder : ArchiveIndexBuilder) : Prop :=
  ∀ entry ∈ builder.entries, entry.encodingKey.length = builder.keySize.toNat ∧
    entry.offset.toNat < 256 ^ builder.offsetBytes.toNat ∧
    ∃ data, entry.toBytes builder.sizeBytes builder.offsetBytes = .ok data ∧ ∃ b ∈ data, b ≠ 0

/-- The file is written, and is not read as the entries. -/
def NotReadBack (md5 : Bytes → Key 16) (builder : ArchiveIndexBuilder) : Prop :=
  ∃ data index, builder.build md5 = .ok (data, index) ∧
    ∀ index', ArchiveIndex.parse md5 data = .ok index' → ¬ index'.entries.Perm builder.entries

theorem notReadBack_of (builder : ArchiveIndexBuilder) (md5 : Bytes → Key 16)
    (hOffset : IndexEntry.Supported builder.offsetBytes) (hSize : builder.sizeBytes = 4)
    (hHash : builder.hashBytes = 8)
    (h : ∀ index' : ArchiveIndex, index'.Valid md5 → index'.entries.Perm builder.entries →
      (∃ tocHash, index'.footer = builder.footer md5 tocHash) →
      (∀ entry ∈ index'.entries,
        entry.Holds builder.keySize builder.offsetBytes ∧ entry.isZero = false) →
      index'.footer.chunkCount = divCeil index'.entries.length index'.footer.recordsPerBlock →
      False) : NotReadBack md5 builder := by
  obtain ⟨tocHash, hBuild⟩ := builder.build_written md5 hOffset hSize hHash
  refine ⟨_, _, hBuild, fun index' hParse hPerm => ?_⟩
  have hFooter : index'.footer = builder.footer md5 tocHash :=
    parse_footer (marked_sealed md5 hHash) hParse
  obtain ⟨hValid, blocks, hashes, hLayout, -⟩ := parse_eq_ok_iff.mp hParse
  refine h index' hValid hPerm ⟨tocHash, hFooter⟩ (fun entry hEntry => ?_) ?_
  · have hHolds := parse_holds hParse hEntry
    rwa [hFooter] at hHolds
  · rw [← hLayout.toc_length, hValid.toc, length_map, chunks_length]

/-- Keys of seventeen bytes, which the reader refuses. -/
def longKeys : ArchiveIndexBuilder :=
  (withConfig 17 4 4).addEntries [⟨List.replicate 17 1, 1, 0, none⟩]

/-- An entry without an archive number in a layout that has one. -/
def unnumbered : ArchiveIndexBuilder :=
  (withConfig 16 6 4).addEntries [⟨List.replicate 16 1, 1, 0, none⟩]

/-- An entry with an archive number in a layout that has none. -/
def numbered : ArchiveIndexBuilder :=
  (withConfig 16 4 4).addEntries [⟨List.replicate 16 1, 1, 0, some 1⟩]

/-- An entry that is not zero only in its archive number, which the reader takes for padding. -/
def onlyNumber : ArchiveIndexBuilder :=
  (withConfig 16 6 4).addEntries [⟨List.replicate 16 0, 0, 0, some 5⟩]

/-- One entry more than the element count can say. -/
def tooMany : ArchiveIndexBuilder :=
  new.addEntries (List.replicate (2 ^ 32) ⟨List.replicate 16 1, 1, 0, none⟩)

theorem fits_of_replicate {n : Nat} (hEntries : builder.entries = replicate n entry)
    (h : entry.encodingKey.length = builder.keySize.toNat ∧
      entry.offset.toNat < 256 ^ builder.offsetBytes.toNat ∧
      ∃ data, entry.toBytes builder.sizeBytes builder.offsetBytes = .ok data ∧ ∃ b ∈ data, b ≠ 0) :
    builder.Fits := by
  intro entry' hEntry
  rw [hEntries] at hEntry
  rw [eq_of_mem_replicate hEntry]
  exact h

theorem longKeys_fails : longKeys.Fits ∧ ∀ md5, NotReadBack md5 longKeys := by
  refine ⟨fits_of_replicate (n := 1) rfl ⟨rfl, by decide, _, rfl, 1, by decide, by decide⟩, ?_⟩
  intro md5
  refine notReadBack_of _ md5 (.inr (.inl rfl)) rfl rfl ?_
  rintro index' hValid - ⟨tocHash, hFooter⟩ - -
  have hLe := hValid.format.ekey_le
  rw [hFooter] at hLe
  exact absurd hLe (by change ¬ (17 : UInt8) ≤ 16; decide)

theorem unnumbered_fails : unnumbered.Fits ∧ ∀ md5, NotReadBack md5 unnumbered := by
  refine ⟨fits_of_replicate (n := 1) rfl ⟨rfl, by decide, _, rfl, 1, by decide, by decide⟩, ?_⟩
  intro md5
  refine notReadBack_of _ md5 (.inr (.inr (.inr rfl))) rfl rfl ?_
  rintro index' - hPerm - hHolds -
  have hEntry := hHolds _ (hPerm.mem_iff.mpr mem_cons_self)
  exact absurd (hEntry.1.archive.mpr rfl) (by decide)

theorem numbered_fails : numbered.Fits ∧ ∀ md5, NotReadBack md5 numbered := by
  refine ⟨fits_of_replicate (n := 1) rfl ⟨rfl, by decide, _, rfl, 1, by decide, by decide⟩, ?_⟩
  intro md5
  refine notReadBack_of _ md5 (.inr (.inl rfl)) rfl rfl ?_
  rintro index' - hPerm - hHolds -
  have hEntry := hHolds _ (hPerm.mem_iff.mpr mem_cons_self)
  exact absurd (hEntry.1.archive.mp rfl) (by decide)

theorem onlyNumber_fails : onlyNumber.Fits ∧ ∀ md5, NotReadBack md5 onlyNumber := by
  refine ⟨fits_of_replicate (n := 1) rfl ⟨rfl, by decide, _, rfl, 5, by decide, by decide⟩, ?_⟩
  intro md5
  refine notReadBack_of _ md5 (.inr (.inr (.inr rfl))) rfl rfl ?_
  rintro index' - hPerm - hHolds -
  have hEntry := hHolds _ (hPerm.mem_iff.mpr mem_cons_self)
  exact absurd hEntry.2 (by decide)

theorem tooMany_fails : tooMany.Fits ∧ ∀ md5, NotReadBack md5 tooMany := by
  refine ⟨fits_of_replicate rfl ⟨rfl, by decide, _, rfl, 1, by decide, by decide⟩, ?_⟩
  intro md5
  refine notReadBack_of _ md5 (.inr (.inl rfl)) rfl rfl ?_
  rintro index' hValid hPerm ⟨tocHash, hFooter⟩ - hCount
  have hLength : tooMany.entries.length = 2 ^ 32 := length_replicate
  have hElements : index'.footer.elementCount = 0 := by
    have hOf : (tooMany.footer md5 tocHash).elementCount =
        UInt32.ofNat tooMany.entries.length := rfl
    rw [hFooter, hOf, hLength]
    decide
  have hPos := hValid.perBlock_pos
  -- the element count has wrapped to zero, but there are blocks
  have hZero : index'.footer.chunkCount = 0 := by
    rw [IndexFooter.chunkCount, hElements, divCeil]
    exact Nat.div_eq_of_lt (by change 0 + _ - 1 < _; omega)
  have hBound := (divCeil_mul_bounds (a := index'.entries.length) hPos).1
  rw [← hCount, hZero, hPerm.length_eq, hLength, Nat.zero_mul] at hBound
  exact absurd hBound (by decide)

/-- Entries that fit their layout and are not all zeros are not always read back. -/
theorem build_not_readBack :
    (longKeys.Fits ∧ ∀ md5, NotReadBack md5 longKeys) ∧
    (unnumbered.Fits ∧ ∀ md5, NotReadBack md5 unnumbered) ∧
    (numbered.Fits ∧ ∀ md5, NotReadBack md5 numbered) ∧
    (onlyNumber.Fits ∧ ∀ md5, NotReadBack md5 onlyNumber) ∧
    (tooMany.Fits ∧ ∀ md5, NotReadBack md5 tooMany) :=
  ⟨longKeys_fails, unnumbered_fails, numbered_fails, onlyNumber_fails, tooMany_fails⟩

end ArchiveIndexBuilder

end Cascette.Archive
