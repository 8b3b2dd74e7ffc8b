import Cascette.Patch.Index

/-!
# Building a patch index

The builder writes the version 1 entries twice, in a block of type 2 and in a block of type 8, and
nothing else. A parsed index is rebuilt without its entries of the other versions, and its keys are
cut to the key size of the block that was read last. So the three lists are kept exactly if there
are no entries of the other versions, every key fits that size and the two copies fit a file of
less than `2 ^ 32` bytes (`Rebuildable`).
-/

namespace Cascette.Patch

open Lib List Nat UInt32 Codec PatchIndexEntry

structure PatchIndexBuilder where
  keySize : UInt8
  entries : List PatchIndexEntry

namespace PatchIndexBuilder

def block1Data : Bytes := [0x03, 0x00, 0x00, 0x00, 0x00, 0x6e, 0x00]

/-- The number of entries is cut to 32 bits. -/
def block2Data (keySize : UInt8) (count : Nat) (body : Bytes) : Bytes :=
  leBytes 4 count ++ keySize :: body

def block8Data (keySize : UInt8) (count : Nat) (body : Bytes) : Bytes :=
  3 :: keySize :: (leBytes 2 14 ++ leBytes 4 count ++ leBytes 4 (entrySize keySize + 1) ++
    0x01 :: 0x02 :: body)

def descriptors (block2 block8 : Bytes) : List BlockDescriptor :=
  [⟨1, UInt32.ofNat block1Data.length⟩, ⟨2, UInt32.ofNat block2.length⟩,
    ⟨8, UInt32.ofNat block8.length⟩]

def headerSize : Nat := 12 + 2 + 1 + 4 + 3 * 8

def header (block2 block8 : Bytes) : PatchIndexHeader where
  headerSize := UInt32.ofNat headerSize
  version := 1
  dataSize := UInt32.ofNat (headerSize + block1Data.length + block2.length + block8.length)
  keySize := 0
  keyData := .fill 16 0
  extraData := []
  blocks := descriptors block2 block8

def build (builder : PatchIndexBuilder) : Checked Bytes := do
  let bodies ← builder.entries.mapM (PatchIndexEntry.build builder.keySize)
  let block2 := block2Data builder.keySize builder.entries.length bodies.flatten
  let block8 := block8Data builder.keySize builder.entries.length bodies.flatten
  let out ← (header block2 block8).build
  .ok (out ++ block1Data ++ block2 ++ block8)

end PatchIndexBuilder

/-- Only the version 1 entries are handed to the builder. -/
def PatchIndex.build (index : PatchIndex) : Checked Bytes :=
  PatchIndexBuilder.build { keySize := index.keySize, entries := index.entries }

/-! ## Entries -/

/-- What is left of a key that is written with a key size and read again. -/
def cutKey (keySize : UInt8) (key : Key 16) : Key 16 := resizeKey 16 (key.1.take keySize.toNat)

namespace PatchIndexEntry

def cut (keySize : UInt8) (entry : PatchIndexEntry) : PatchIndexEntry :=
  { entry with
    sourceEkey := cutKey keySize entry.sourceEkey
    targetEkey := cutKey keySize entry.targetEkey
    patchEkey := cutKey keySize entry.patchEkey }

end PatchIndexEntry

variable {keySize : UInt8}

theorem slice_key (h : keySize.toNat ≤ 16) (key : Key 16) :
    slice key.1 0 keySize.toNat = .ok (key.1.take keySize.toNat) := by
  rw [slice_eq (zero_le _) (h.trans key.2.ge), drop_zero]

theorem copyKey_append (h : keySize.toNat ≤ 16) (key : Key 16) (rest : Bytes) :
    copyKey keySize (key.1.take keySize.toNat ++ rest) = .ok (cutKey keySize key, rest) := by
  have hLength : (key.1.take keySize.toNat).length = keySize.toNat :=
    length_take_of_le (h.trans key.2.ge)
  rw [copyKey, ensure_of h, ok_bind, Format.bytes_read _ hLength, ok_bind]
  rfl

namespace PatchIndexEntry

variable {keySize : UInt8}

/-- The bytes of an entry when its keys can be cut. -/
def bytes (keySize : UInt8) (entry : PatchIndexEntry) : Bytes :=
  entry.sourceEkey.1.take keySize.toNat ++ (leBytes 4 entry.sourceSize.toNat ++
    (entry.targetEkey.1.take keySize.toNat ++ (leBytes 4 entry.targetSize.toNat ++
      (leBytes 4 entry.encodedSize.toNat ++
        (entry.suffixOffset :: entry.patchEkey.1.take keySize.toNat)))))

theorem build_eq (h : keySize.toNat ≤ 16) (entry : PatchIndexEntry) :
    build keySize entry = .ok (entry.bytes keySize) := by
  simp only [build, slice_key h, ok_bind, bytes]

theorem le_of_build {entry : PatchIndexEntry} {body : Bytes}
    (h : build keySize entry = .ok body) : keySize.toNat ≤ 16 := by
  obtain ⟨source, hSource, -⟩ := bind_eq_ok.mp h
  by_contra hLt
  have hLong : ¬ (0 ≤ keySize.toNat ∧ keySize.toNat ≤ entry.sourceEkey.1.length) := by
    rw [entry.sourceEkey.2]
    exact fun hLe => hLt hLe.2
  rw [slice, if_neg hLong] at hSource
  cases hSource

theorem length_bytes (h : keySize.toNat ≤ 16) (entry : PatchIndexEntry) :
    (entry.bytes keySize).length = entrySize keySize := by
  have hKey (key : Key 16) : (key.1.take keySize.toNat).length = keySize.toNat :=
    length_take_of_le (h.trans key.2.ge)
  simp only [bytes, length_append, length_cons, hKey, leBytes_length, entrySize]
  omega

theorem parse_bytes (h : keySize.toNat ≤ 16) (entry : PatchIndexEntry) (rest : Bytes) :
    parse keySize (entry.bytes keySize ++ rest) = .ok (entry.cut keySize) := by
  simp only [parse, bytes, readU32, append_assoc, cons_append, copyKey_append h,
    uint32Le_read, uint8_read, ok_bind]
  rfl

end PatchIndexEntry

variable {entries : List PatchIndexEntry}

theorem parseEntriesFrom_bytes (blockType : UInt32) (available : Nat)
    (h : entries ≠ [] → keySize.toNat ≤ 16) (pos : Nat)
    (rest : Bytes) :
    parseEntriesFrom blockType (entrySize keySize) available (PatchIndexEntry.parse keySize)
        entries.length pos (entries.flatMap (PatchIndexEntry.bytes keySize) ++ rest) =
      .ok (entries.map (PatchIndexEntry.cut keySize)) := by
  induction entries generalizing pos with
  | nil => rfl
  | cons entry entries ih =>
    have hSize := h (cons_ne_nil _ _)
    have hLength := entry.length_bytes hSize
    have hEnough : entrySize keySize ≤ (entry.bytes keySize ++
        (entries.flatMap (PatchIndexEntry.bytes keySize) ++ rest)).length := by
      rw [length_append, hLength]
      omega
    rw [flatMap_cons, append_assoc, length_cons, parseEntriesFrom,
      ensure_of hEnough, ok_bind, parse_bytes hSize, mapError_ok, ok_bind,
      drop_left' hLength, ih fun _ => hSize, ok_bind, map_cons]

/-! ## Header -/

namespace PatchIndexHeader

theorem parseExtra_empty (eof : PatchIndexError) (rest : Bytes) :
    parseExtra eof 1 (0 :: rest) = .ok ((0, .fill 16 0, []), rest) := by
  have hKeyBytes : min (0 : UInt8).toNat 16 ≤ rest.length := zero_le _
  rw [parseExtra, if_neg (by simp), uint8_read, ok_bind]
  dsimp only
  rfl

theorem readDescriptor_write (eof : PatchIndexError) (desc : BlockDescriptor) (rest : Bytes) :
    readDescriptor eof (writeDescriptor desc ++ rest) = .ok (desc, rest) := by
  simp only [readDescriptor, writeDescriptor, append_assoc, uint32Le_read, ok_bind]

theorem parse_front {data rest : Bytes} {headerSize dataSize : UInt32}
    {blocks : List BlockDescriptor}
    (hData : data = leBytes 4 headerSize.toNat ++ (leBytes 4 1 ++ (leBytes 4 dataSize.toNat ++
      (leBytes 2 1 ++ 0 :: (leBytes 4 blocks.length ++ (blocks.flatMap writeDescriptor ++ rest))))))
    (hCount : blocks.length < 2 ^ 32) (hMin : minHeaderSize ≤ data.length)
    (hTotal : headerSize.toNat + totalBlockSize blocks ≤ data.length) :
    parse data = .ok ⟨headerSize, 1, dataSize, 0, .fill 16 0, [], blocks⟩ := by
  have hFirst (eof : PatchIndexError) : (Codec.uint32Le eof).read data =
      .ok (headerSize, leBytes 4 1 ++ (leBytes 4 dataSize.toNat ++ (leBytes 2 1 ++
        0 :: (leBytes 4 blocks.length ++ (blocks.flatMap writeDescriptor ++ rest))))) := by
    rw [hData, uint32Le_read]
  have hVersion (eof : PatchIndexError) (rest : Bytes) :
      (Codec.uint32Le eof).read (leBytes 4 1 ++ rest) = .ok (1, rest) :=
    uint32Le_read eof 1 rest
  have hExtra (eof : PatchIndexError) (rest : Bytes) :
      (Codec.uint16Le eof).read (leBytes 2 1 ++ rest) = .ok (1, rest) :=
    uint16Le_read eof 1 rest
  have hBlockCount (eof : PatchIndexError) (rest : Bytes) :
      (Codec.uint32Le eof).read (leBytes 4 blocks.length ++ rest) =
        .ok (UInt32.ofNat blocks.length, rest) := by
    have hRead := uint32Le_read eof (UInt32.ofNat blocks.length) rest
    rwa [toNat_ofNat_of_lt' hCount] at hRead
  have hBlocks (eof : PatchIndexError) :=
    readMany_flatMap (fun desc (_ : desc ∈ blocks) => readDescriptor_write eof desc) rest
  simp only [parse, ensure_of hMin, hFirst, hVersion, uint32Le_read, hExtra, ok_bind,
    ensure_of trivial, ensure_of ((le_add_right _ _).trans hTotal), parseExtra_empty,
    hBlockCount,
    toNat_ofNat_of_lt' hCount, hBlocks, ensure_of hTotal]

end PatchIndexHeader

/-! ## The file that is built -/

namespace PatchIndexBuilder

variable {builder : PatchIndexBuilder}

def body (builder : PatchIndexBuilder) : Bytes :=
  builder.entries.flatMap (PatchIndexEntry.bytes builder.keySize)

def block2 (builder : PatchIndexBuilder) : Bytes :=
  block2Data builder.keySize builder.entries.length builder.body

def block8 (builder : PatchIndexBuilder) : Bytes :=
  block8Data builder.keySize builder.entries.length builder.body

def totalSize (builder : PatchIndexBuilder) : Nat :=
  69 + 2 * (builder.entries.length * entrySize builder.keySize)

def front (builder : PatchIndexBuilder) : Bytes :=
  leBytes 4 (header builder.block2 builder.block8).headerSize.toNat ++ (leBytes 4 1 ++
    (leBytes 4 (header builder.block2 builder.block8).dataSize.toNat ++ (leBytes 2 1 ++
      0 :: (leBytes 4 3 ++
        (descriptors builder.block2 builder.block8).flatMap PatchIndexHeader.writeDescriptor))))

def file (builder : PatchIndexBuilder) : Bytes :=
  builder.front ++ (block1Data ++ (builder.block2 ++ builder.block8))

theorem length_front : builder.front.length = headerSize := by
  simp [front, descriptors, PatchIndexHeader.writeDescriptor, headerSize]

section

variable (h : builder.entries ≠ [] → builder.keySize.toNat ≤ 16)

include h

theorem length_blocks :
    builder.block2.length = 5 + builder.entries.length * entrySize builder.keySize ∧
      builder.block8.length = 14 + builder.entries.length * entrySize builder.keySize := by
  have hBody : builder.body.length = _ :=
    length_flatten_map fun entry hEntry => entry.length_bytes (h (ne_nil_of_mem hEntry))
  simp only [block2, block2Data, block8, block8Data, length_append, length_cons,
    leBytes_length, hBody]
  omega

theorem length_file : builder.file.length = builder.totalSize := by
  obtain ⟨hBlock2, hBlock8⟩ := length_blocks h
  simp only [file, length_append, length_front, hBlock2, hBlock8, headerSize, block1Data,
    length_cons, length_nil, totalSize]
  omega

end

theorem build_eq_ok {out : Bytes} :
    builder.build = .ok out ↔
      (builder.entries ≠ [] → builder.keySize.toNat ≤ 16) ∧ out = builder.file := by
  have hFile (h : builder.entries ≠ [] → builder.keySize.toNat ≤ 16) :
      builder.build = .ok builder.file := by
    rw [build, mapM_eq_map fun entry hEntry => entry.build_eq (h (ne_nil_of_mem hEntry)), ok_bind]
    rfl
  constructor
  · intro h
    have hKeySize : builder.entries ≠ [] → builder.keySize.toNat ≤ 16 := by
      intro hNe
      obtain ⟨entry, hEntry⟩ := exists_mem_of_ne_nil _ hNe
      obtain ⟨bodies, hBodies, -⟩ := bind_eq_ok.mp h
      obtain ⟨body, hBody⟩ := exists_mapM_iff.mp ⟨bodies, hBodies⟩ entry hEntry
      exact le_of_build hBody
    rw [hFile hKeySize] at h
    exact ⟨hKeySize, (Except.ok.inj h).symm⟩
  · rintro ⟨h, rfl⟩
    exact hFile h

/-! ## Parsing the file -/

section

variable (h : builder.entries ≠ [] → builder.keySize.toNat ≤ 16)
  (hSize : builder.totalSize < 2 ^ 32)

include h hSize

theorem length_lt : builder.block2.length < 2 ^ 32 ∧ builder.block8.length < 2 ^ 32 := by
  obtain ⟨hBlock2, hBlock8⟩ := length_blocks h
  rw [totalSize] at hSize
  omega

theorem totalBlockSize_descriptors :
    headerSize + PatchIndexHeader.totalBlockSize (descriptors builder.block2 builder.block8) =
      builder.totalSize := by
  obtain ⟨hFits2, hFits8⟩ := length_lt h hSize
  obtain ⟨hBlock2, hBlock8⟩ := length_blocks h
  have hBlock1 : (UInt32.ofNat block1Data.length).toNat = 7 := rfl
  simp only [PatchIndexHeader.totalBlockSize, descriptors, map_cons, map_nil,
    sum_cons, sum_nil, toNat_ofNat_of_lt' hFits2,
    toNat_ofNat_of_lt' hFits8, hBlock1, headerSize, totalSize]
  omega

theorem parse_header :
    PatchIndexHeader.parse builder.file = .ok (header builder.block2 builder.block8) := by
  have hLength := length_file h
  have hFront : builder.file = leBytes 4 (UInt32.ofNat headerSize).toNat ++ (leBytes 4 1 ++
      (leBytes 4 (header builder.block2 builder.block8).dataSize.toNat ++ (leBytes 2 1 ++
        0 :: (leBytes 4 (descriptors builder.block2 builder.block8).length ++
          ((descriptors builder.block2 builder.block8).flatMap PatchIndexHeader.writeDescriptor ++
            (block1Data ++ (builder.block2 ++ builder.block8))))))) := by
    rfl
  apply PatchIndexHeader.parse_front hFront
  · exact lt_of_succ_lt (by norm_num [descriptors])
  · rw [hLength, PatchIndexHeader.minHeaderSize, totalSize]
    omega
  · rw [hLength]
    exact (totalBlockSize_descriptors h hSize).le

theorem parseBlock2_block2 :
    parseBlock2 builder.block2 =
      .ok (builder.keySize, builder.entries.map (PatchIndexEntry.cut builder.keySize)) := by
  have hLength := (length_blocks h).1
  have hCount : (UInt32.ofNat builder.entries.length).toNat = builder.entries.length := by
    apply toNat_ofNat_of_lt'
    have hLe : builder.entries.length ≤ builder.entries.length * entrySize builder.keySize :=
      Nat.le_mul_of_pos_right _ (succ_pos _)
    rw [totalSize] at hSize
    exact lt_of_le_of_lt (by omega) hSize
  have hFirst : (Codec.uint32Le blockEof).read builder.block2 =
      .ok (UInt32.ofNat builder.entries.length, builder.keySize :: builder.body) := by
    have hRead := uint32Le_read blockEof (UInt32.ofNat builder.entries.length)
      (builder.keySize :: builder.body)
    rwa [hCount] at hRead
  have hDrop : builder.block2.drop 5 = builder.body := rfl
  have hEntries : parseEntriesFrom 2 (entrySize builder.keySize) builder.block2.length
      (PatchIndexEntry.parse builder.keySize) builder.entries.length 5 builder.body =
        .ok (builder.entries.map (PatchIndexEntry.cut builder.keySize)) := by
    have hRead := parseEntriesFrom_bytes 2 builder.block2.length h 5 []
    rw [append_nil] at hRead
    exact hRead
  rw [parseBlock2, ensure_of (by omega), ok_bind, hFirst, ok_bind]
  dsimp only
  rw [uint8_read, ok_bind]
  rw [parseEntryList, hCount, ensure_of hLength.ge, ok_bind, hDrop, hEntries, ok_bind]

end

theorem slices : slice builder.file headerSize (headerSize + 7) = .ok block1Data ∧
    slice builder.file (headerSize + 7) (headerSize + 7 + builder.block2.length) =
      .ok builder.block2 ∧
    slice builder.file (headerSize + 7 + builder.block2.length)
      (headerSize + 7 + builder.block2.length + builder.block8.length) = .ok builder.block8 := by
  have hBlock1 : (builder.front ++ block1Data).length = headerSize + 7 := by
    rfl
  refine ⟨slice_append length_front rfl, ?_, ?_⟩
  · rw [file, ← append_assoc]
    exact slice_append hBlock1 rfl
  · have hSplit : builder.file =
        builder.front ++ block1Data ++ builder.block2 ++ (builder.block8 ++ []) := by
      simp only [file, append_assoc, append_nil]
    rw [hSplit]
    exact slice_append (by rw [length_append, hBlock1]) rfl

variable (h : builder.entries ≠ [] → builder.keySize.toNat ≤ 16)
include h

/-- The block of type 2 is read, the block of type 8 is left out. -/
theorem parse_file (hSize : builder.totalSize < 2 ^ 32) :
    PatchIndex.parse builder.file =
      .ok ⟨header builder.block2 builder.block8, builder.keySize,
        builder.entries.map (PatchIndexEntry.cut builder.keySize), [], [], none⟩ := by
  obtain ⟨hFits2, hFits8⟩ := length_lt h hSize
  obtain ⟨hSlice1, hSlice2, hSlice8⟩ := @slices builder
  have hDataSize : (header builder.block2 builder.block8).dataSize.toNat = builder.file.length := by
    obtain ⟨hBlock2, hBlock8⟩ := length_blocks h
    have hSum : headerSize + block1Data.length + builder.block2.length + builder.block8.length =
        builder.totalSize := by
      rw [hBlock2, hBlock8, totalSize, headerSize, block1Data]
      simp only [length_cons, length_nil]
      omega
    rw [header, hSum, toNat_ofNat_of_lt' hSize, length_file h]
  have hStart : (header builder.block2 builder.block8).headerSize.toNat = headerSize := rfl
  have hSize1 : (UInt32.ofNat block1Data.length).toNat = 7 := rfl
  rw [PatchIndex.parse, parse_header h hSize, mapError_ok, ok_bind, ensure_of hDataSize, ok_bind,
    hStart]
  change PatchIndex.parseBlocks _ _ (descriptors _ _) _ _ = _
  simp only [descriptors, PatchIndex.parseBlocks, hSize1, toNat_ofNat_of_lt' hFits2,
    toNat_ofNat_of_lt' hFits8, hSlice1, hSlice2, hSlice8, mapError_ok, ok_bind]
  have hSkip (index : PatchIndex) : index.parseBlock false 1 block1Data = .ok (index, false) := rfl
  have hSkip8 (index : PatchIndex) (data : Bytes) :
      index.parseBlock true 8 data = .ok (index, true) := rfl
  have hBlock2 (index : PatchIndex) (found : Bool) : index.parseBlock found 2 builder.block2 =
      .ok ({ index with keySize := builder.keySize
                        entries := builder.entries.map (PatchIndexEntry.cut builder.keySize) },
        true) := by
    rw [PatchIndex.parseBlock, if_pos rfl, parseBlock2_block2 h hSize, ok_bind]
  rw [hSkip, ok_bind]
  rw [hBlock2, ok_bind]
  rfl

theorem lt_of_parse_file {index : PatchIndex} (hParse : PatchIndex.parse builder.file = .ok index) :
    builder.totalSize < 2 ^ 32 := by
  obtain ⟨header', hHeader, hParse⟩ := bind_eq_ok.mp hParse
  obtain ⟨_, hDataSize, -⟩ := bind_eq_ok.mp hParse
  rw [ensure_eq_ok, length_file h] at hDataSize
  rw [← hDataSize]
  exact header'.dataSize.toNat_lt

end PatchIndexBuilder

/-! ## Rebuilding a parsed index -/

/-- The three lists survive. -/
structure PatchIndex.Rebuildable (index : PatchIndex) : Prop where
  v2 : index.entriesV2 = []
  v3 : index.entriesV3 = []
  keySize : index.entries ≠ [] → index.keySize.toNat ≤ 16
  keys : ∀ entry ∈ index.entries, ∀ key ∈ [entry.sourceEkey, entry.targetEkey, entry.patchEkey],
    cutKey index.keySize key = key
  size : 69 + 2 * (index.entries.length * entrySize index.keySize) < 2 ^ 32

namespace PatchIndex

variable {keySize : UInt8}

theorem map_cut_eq_self :
    entries.map (PatchIndexEntry.cut keySize) = entries ↔ ∀ entry ∈ entries,
      ∀ key ∈ [entry.sourceEkey, entry.targetEkey, entry.patchEkey], cutKey keySize key = key := by
  nth_rewrite 2 [← map_id entries]
  rw [map_inj_left]
  refine forall₂_congr fun _ _ => ?_
  simp [PatchIndexEntry.cut, PatchIndexEntry.ext_iff]

/-- Building and parsing an index, in particular one that was parsed, keeps the entries of all
versions exactly if the index is rebuildable. -/
theorem parse_build_iff (index : PatchIndex) :
    (∃ rebuilt, index.build = .ok rebuilt ∧ ∃ index', parse rebuilt = .ok index' ∧
      index'.entries = index.entries ∧ index'.entriesV2 = index.entriesV2 ∧
        index'.entriesV3 = index.entriesV3) ↔ index.Rebuildable := by
  constructor
  · rintro ⟨rebuilt, hBuild, index', hParse, hV1, hV2, hV3⟩
    obtain ⟨hKeySize, rfl⟩ := PatchIndexBuilder.build_eq_ok.mp hBuild
    have hSize := PatchIndexBuilder.lt_of_parse_file hKeySize hParse
    rw [PatchIndexBuilder.parse_file hKeySize hSize] at hParse
    cases hParse
    exact ⟨hV2.symm, hV3.symm, hKeySize, map_cut_eq_self.mp hV1, hSize⟩
  · intro h
    exact ⟨_, PatchIndexBuilder.build_eq_ok.mpr ⟨h.keySize, rfl⟩, _,
      PatchIndexBuilder.parse_file h.keySize h.size, map_cut_eq_self.mpr h.keys, h.v2.symm,
      h.v3.symm⟩

/-- A file with a version 1 entry of two-byte keys, followed by a version 2 entry of one-byte
keys. -/
def mixedFile : Bytes :=
  leBytes 4 35 ++ leBytes 4 1 ++ leBytes 4 100 ++ leBytes 2 1 ++ [0] ++ leBytes 4 2 ++
    leBytes 4 2 ++ leBytes 4 24 ++ leBytes 4 6 ++ leBytes 4 41 ++
    (leBytes 4 1 ++ [2] ++ List.replicate 19 7) ++
    ([2, 1] ++ leBytes 4 1 ++ leBytes 4 0 ++ leBytes 4 0 ++ List.replicate 27 5)

theorem parse_build_refuted : ∃ index, parse mixedFile = .ok index ∧
    ∃ rebuilt, index.build = .ok rebuilt ∧ ∃ index', parse rebuilt = .ok index' ∧
      index'.entries ≠ index.entries ∧ index'.entriesV2 ≠ index.entriesV2 := by
  refine ⟨_, rfl, _, rfl, _, rfl, ?_, ?_⟩
  · decide
  · exact (cons_ne_nil _ _).symm

end PatchIndex

end Cascette.Patch
