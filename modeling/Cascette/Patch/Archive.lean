import Cascette.Lib.Merge
import Cascette.Patch.Block

/-!
# Patch archives

The builder sorts the file entries by target key, cuts them into blocks and writes a header,
optional encoding information, a table with the offset of every block, and the blocks. The parser
follows the offsets. Patch counts, specification length, block count and offsets are cut to their
fields without a check, so the entries come back exactly if they fit (`Representable`), as long as
the blocks start below `2 ^ 32`.
-/

namespace Cascette.Patch

open Lib List Codec PatchArchiveHeader

/-! ## Encoding information -/

structure PatchArchiveEncodingInfo where
  encodingCkey : Key 16
  encodingEkey : Key 16
  decodedSize : UInt32
  encodedSize : UInt32
  espec : Text
  deriving DecidableEq

def parseEncodingInfo (fileKeySize : UInt8) (bytes : Bytes) :
    Except PatchArchiveError (PatchArchiveEncodingInfo × Bytes) := do
  let (encodingCkey, rest) ← readKey fileKeySize bytes
  let (encodingEkey, rest) ← readKey fileKeySize rest
  let (decodedSize, rest) ← (Codec.uint32Be .decompressionError).read rest
  let (encodedSize, rest) ← (Codec.uint32Be .decompressionError).read rest
  let (especLength, rest) ← (Codec.uint8 .decompressionError).read rest
  let (especBuf, rest) ← (Format.bytes .decompressionError especLength.toNat).read rest
  if h : validUtf8 especBuf = true then
    .ok ({ encodingCkey, encodingEkey, decodedSize, encodedSize, espec := ⟨especBuf, h⟩ }, rest)
  else .error .invalidEntry

/-- The low byte of the specification's length is written. -/
def writeEncodingInfo (fileKeySize : UInt8) (info : PatchArchiveEncodingInfo) : Bytes :=
  writeKey fileKeySize info.encodingCkey ++ (writeKey fileKeySize info.encodingEkey ++
    (beBytes 4 info.decodedSize.toNat ++ (beBytes 4 info.encodedSize.toNat ++
      (UInt8.ofNat info.espec.1.length :: info.espec.1))))

def encodingInfoSize (fileKeySize : UInt8) : Option PatchArchiveEncodingInfo → Nat
  | some info => fileKeySize.toNat * 2 + 4 + 4 + 1 + info.espec.1.length
  | none => 0

theorem length_writeEncodingInfo (info : PatchArchiveEncodingInfo) :
    (writeEncodingInfo standardKeySize info).length =
      encodingInfoSize standardKeySize (some info) := by
  simp only [writeEncodingInfo, writeKey_standard, length_append, info.encodingCkey.2,
    info.encodingEkey.2, beBytes_length, length_cons, encodingInfoSize]
  have hSize : standardKeySize.toNat = 16 := rfl
  omega

variable {info : PatchArchiveEncodingInfo}

theorem parseEncodingInfo_write (h : info.espec.1.length < 256) (rest : Bytes) :
    parseEncodingInfo standardKeySize (writeEncodingInfo standardKeySize info ++ rest) =
      .ok (info, rest) := by
  have hLength : info.espec.1.length = (UInt8.ofNat info.espec.1.length).toNat :=
    (UInt8.toNat_ofNat_of_lt' h).symm
  simp only [parseEncodingInfo, writeEncodingInfo, writeKey_standard, append_assoc,
    cons_append, readKey_standard, uint32Be_read, uint8_read,
    Format.bytes_read _ hLength, ok_bind]
  rw [dif_pos info.espec.2]

theorem espec_lt_of_parse {fileKeySize : UInt8} {bytes rest : Bytes}
    (h : parseEncodingInfo fileKeySize bytes = .ok (info, rest)) : info.espec.1.length < 256 := by
  obtain ⟨⟨encodingCkey, rest₁⟩, -, h⟩ := bind_eq_ok.mp h
  obtain ⟨⟨encodingEkey, rest₂⟩, -, h⟩ := bind_eq_ok.mp h
  obtain ⟨⟨decodedSize, rest₃⟩, -, h⟩ := bind_eq_ok.mp h
  obtain ⟨⟨encodedSize, rest₄⟩, -, h⟩ := bind_eq_ok.mp h
  obtain ⟨⟨especLength, rest₅⟩, -, h⟩ := bind_eq_ok.mp h
  obtain ⟨⟨especBuf, rest₆⟩, hBuf, h⟩ := bind_eq_ok.mp h
  dsimp only at h
  split at h
  · cases h
    rw [(Format.bytes_read_eq_ok.mp hBuf).2]
    exact especLength.toNat_lt
  · cases h

/-! ## Parser -/

structure PatchBlock where
  lastFileCkey : Key 16
  blockMd5 : Key 16
  blockOffset : UInt32
  fileEntries : List PatchFileEntry
  deriving DecidableEq

/-- A block of the table, without its entries. -/
def readTableEntry (fileKeySize : UInt8) (bytes : Bytes) :
    Except PatchArchiveError (PatchBlock × Bytes) := do
  let (lastFileCkey, rest) ← readKey fileKeySize bytes
  let (blockMd5, rest) ← (Codec.key .decompressionError 16).read rest
  let (blockOffset, rest) ← (Codec.uint32Be .decompressionError).read rest
  .ok ({ lastFileCkey, blockMd5, blockOffset, fileEntries := [] }, rest)

def writeTableEntry (fileKeySize : UInt8) (block : PatchBlock) : Bytes :=
  writeKey fileKeySize block.lastFileCkey ++ (block.blockMd5.1 ++ beBytes 4 block.blockOffset.toNat)

def parseBlockTable (blockCount : UInt16) (fileKeySize : UInt8) (bytes : Bytes) :
    Except PatchArchiveError (List PatchBlock × Bytes) :=
  readMany (readTableEntry fileKeySize) blockCount.toNat bytes

/-- The entries of a block; an offset beyond the end leaves nothing to read. -/
def loadBlock (header : PatchArchiveHeader) (data : Bytes) (block : PatchBlock) :
    Except PatchArchiveError PatchBlock := do
  let fileEntries ← parseBlockData header (data.drop block.blockOffset.toNat)
  .ok { block with fileEntries }

structure PatchArchive where
  header : PatchArchiveHeader
  encodingInfo : Option PatchArchiveEncodingInfo
  blocks : List PatchBlock
  deriving DecidableEq

namespace PatchArchive

def allFileEntries (archive : PatchArchive) : List PatchFileEntry :=
  archive.blocks.flatMap (·.fileEntries)

def parseExtendedHeader (header : PatchArchiveHeader) (bytes : Bytes) :
    Except PatchArchiveError (Option PatchArchiveEncodingInfo × Bytes) :=
  if header.hasExtendedHeader then do
    let (info, rest) ← parseEncodingInfo header.fileKeySize bytes
    .ok (some info, rest)
  else .ok (none, bytes)

def parse (data : Bytes) : Except PatchArchiveError PatchArchive := do
  let (header, rest) ← PatchArchiveHeader.read data
  header.validate
  let (encodingInfo, rest) ← parseExtendedHeader header rest
  let (table, _) ← parseBlockTable header.blockCount header.fileKeySize rest
  let blocks ← table.mapM (loadBlock header data)
  .ok { header, encodingInfo, blocks }

/-- Every entry that is read has a count and sizes that fit, and so has the specification. -/
theorem fits_of_parse {data : Bytes} {archive : PatchArchive} (h : parse data = .ok archive) :
    (∀ entry ∈ archive.allFileEntries, entry.Writable) ∧
      ∀ info ∈ archive.encodingInfo, info.espec.1.length < 256 := by
  obtain ⟨⟨header, rest⟩, -, h⟩ := bind_eq_ok.mp h
  obtain ⟨_, -, h⟩ := bind_eq_ok.mp h
  obtain ⟨⟨encodingInfo, rest'⟩, hInfo, h⟩ := bind_eq_ok.mp h
  obtain ⟨⟨table, rest''⟩, -, h⟩ := bind_eq_ok.mp h
  obtain ⟨blocks, hBlocks, h⟩ := bind_eq_ok.mp h
  cases h
  constructor
  · intro entry hEntry
    obtain ⟨block, hBlock, hEntry⟩ := mem_flatMap.mp hEntry
    obtain ⟨row, -, hLoad⟩ := exists_of_mem_mapM hBlocks hBlock
    obtain ⟨entries, hEntries, hLoad⟩ := bind_eq_ok.mp hLoad
    cases hLoad
    exact writable_of_parseEntries hEntries entry hEntry
  · intro info hMem
    unfold parseExtendedHeader at hInfo
    split at hInfo
    · obtain ⟨⟨info', rest₁⟩, hRead, hInfo⟩ := bind_eq_ok.mp hInfo
      cases hInfo
      cases hMem
      exact espec_lt_of_parse hRead
    · cases hInfo
      cases hMem

end PatchArchive

/-! ## Builder -/

/-- The blocks that are closed, and the open one with its size. -/
structure BlockGroups where
  blocks : List (List PatchFileEntry)
  currentBlock : List PatchFileEntry
  currentSize : Nat

def fileEntrySize (fileKeySize : UInt8) (entry : PatchFileEntry) : Nat :=
  1 + fileKeySize.toNat + 5 + (16 + 5 + 16 + 4 + 1) * entry.patches.length

def BlockGroups.add (blockSize : Nat) (fileKeySize : UInt8) (groups : BlockGroups)
    (entry : PatchFileEntry) : BlockGroups :=
  let entrySize := fileEntrySize fileKeySize entry
  if groups.currentBlock ≠ [] ∧ blockSize < groups.currentSize + entrySize then
    ⟨groups.blocks ++ [groups.currentBlock], [entry], entrySize⟩
  else ⟨groups.blocks, groups.currentBlock ++ [entry], groups.currentSize + entrySize⟩

def groupIntoBlocks (entries : List PatchFileEntry) (blockSize : Nat) (fileKeySize : UInt8) :
    List (List PatchFileEntry) :=
  if entries = [] then [[]]
  else
    let groups := entries.foldl (BlockGroups.add blockSize fileKeySize) ⟨[], [], 0⟩
    if groups.currentBlock ≠ [] ∨ groups.blocks = [] then groups.blocks ++ [groups.currentBlock]
    else groups.blocks

structure PatchArchiveBuilder where
  version : UInt8
  blockSizeBits : UInt8
  encodingInfo : Option PatchArchiveEncodingInfo
  fileEntries : List PatchFileEntry

/-- The table of blocks whose data starts at `offset`, with the entries they hold. -/
def blockTable (md5 : Bytes → Key 16) (header : PatchArchiveHeader) :
    Nat → List (List PatchFileEntry) → List PatchBlock
  | _, [] => []
  | offset, block :: blocks =>
    let blockData := serializeBlockData header block
    { lastFileCkey := (block.getLast?.map (·.targetCkey)).getD (.fill 16 0)
      blockMd5 := md5 blockData
      blockOffset := UInt32.ofNat offset
      fileEntries := block } :: blockTable md5 header (offset + blockData.length) blocks

namespace PatchArchiveBuilder

def new : PatchArchiveBuilder := ⟨2, standardBlockSizeBits, none, []⟩

def addEntry (builder : PatchArchiveBuilder) (entry : PatchFileEntry) : PatchArchiveBuilder :=
  { builder with fileEntries := builder.fileEntries ++ [entry] }

def sortedEntries (builder : PatchArchiveBuilder) : List PatchFileEntry :=
  builder.fileEntries.insertionSort fun a b => a.targetCkey ≤ b.targetCkey

def blocks (builder : PatchArchiveBuilder) : List (List PatchFileEntry) :=
  groupIntoBlocks builder.sortedEntries (2 ^ builder.blockSizeBits.toNat) standardKeySize

/-- The low 16 bits of the number of blocks are written. -/
def header (builder : PatchArchiveBuilder) : PatchArchiveHeader where
  magic := PatchArchiveHeader.pa
  version := builder.version
  fileKeySize := standardKeySize
  oldKeySize := standardKeySize
  patchKeySize := standardKeySize
  blockSizeBits := builder.blockSizeBits
  blockCount := UInt16.ofNat builder.blocks.length
  flags := if builder.encodingInfo.isSome then 0x02 else 0x00

def blockDataStart (builder : PatchArchiveBuilder) : Nat :=
  10 + encodingInfoSize standardKeySize builder.encodingInfo +
    builder.blocks.length * (standardKeySize.toNat + 16 + 4)

def table (builder : PatchArchiveBuilder) (md5 : Bytes → Key 16) : List PatchBlock :=
  blockTable md5 builder.header builder.blockDataStart builder.blocks

/-- What stands before the table. -/
def front (builder : PatchArchiveBuilder) : Bytes :=
  builder.header.write ++ builder.encodingInfo.elim [] (writeEncodingInfo standardKeySize)

def blockData (builder : PatchArchiveBuilder) : Bytes :=
  builder.blocks.flatMap (serializeBlockData builder.header)

/-- The block size `1 << blockSizeBits` is taken before the header is checked. -/
def build (builder : PatchArchiveBuilder) (md5 : Bytes → Key 16) :
    Except (Halt PatchArchiveError) Bytes := do
  ensure (builder.blockSizeBits.toNat < 64) (.panic .overflow)
  builder.header.validate.mapError .error
  .ok (builder.front ++ ((builder.table md5).flatMap (writeTableEntry standardKeySize) ++
    builder.blockData))

end PatchArchiveBuilder

/-! ## Grouping -/

/-- Closed blocks are not empty, and the blocks are the entries so far. -/
structure BlockGroups.Covers (groups : BlockGroups) (entries : List PatchFileEntry) : Prop where
  flatten : groups.blocks.flatten ++ groups.currentBlock = entries
  nonempty : ∀ block ∈ groups.blocks, block ≠ []

theorem BlockGroups.Covers.add {groups : BlockGroups} {entries : List PatchFileEntry}
    (h : groups.Covers entries) (blockSize : Nat) (fileKeySize : UInt8) (entry : PatchFileEntry) :
    (groups.add blockSize fileKeySize entry).Covers (entries ++ [entry]) ∧
      (groups.add blockSize fileKeySize entry).currentBlock ≠ [] := by
  unfold BlockGroups.add
  dsimp only
  split_ifs with hFull
  · refine ⟨⟨?_, ?_⟩, cons_ne_nil _ _⟩
    · simp [← h.flatten]
    · exact forall_mem_append.mpr ⟨h.nonempty, forall_mem_singleton.mpr hFull.1⟩
  · refine ⟨⟨?_, h.nonempty⟩, by simp⟩
    rw [← h.flatten, append_assoc]

theorem covers_foldl (blockSize : Nat) (fileKeySize : UInt8) (entries : List PatchFileEntry) :
    (entries.foldl (BlockGroups.add blockSize fileKeySize) ⟨[], [], 0⟩).Covers entries ∧
      (entries ≠ [] →
        (entries.foldl (BlockGroups.add blockSize fileKeySize) ⟨[], [], 0⟩).currentBlock ≠ []) := by
  induction entries using reverseRecOn with
  | nil => exact ⟨⟨rfl, nofun⟩, fun h => absurd rfl h⟩
  | append_singleton entries entry ih =>
    rw [foldl_append]
    have hAdd := ih.1.add blockSize fileKeySize entry
    exact ⟨hAdd.1, fun _ => hAdd.2⟩

theorem groupIntoBlocks_spec (entries : List PatchFileEntry) (blockSize : Nat)
    (fileKeySize : UInt8) :
    (groupIntoBlocks entries blockSize fileKeySize).flatten = entries ∧
      (groupIntoBlocks entries blockSize fileKeySize = [[]] ∨
        ∀ block ∈ groupIntoBlocks entries blockSize fileKeySize, block ≠ []) := by
  unfold groupIntoBlocks
  split_ifs with hEmpty
  · exact ⟨hEmpty.symm, .inl rfl⟩
  · obtain ⟨hCovers, hCurrent⟩ := covers_foldl blockSize fileKeySize entries
    have hOpen := hCurrent hEmpty
    rw [if_pos (.inl hOpen)]
    refine ⟨by simpa using hCovers.flatten, .inr ?_⟩
    exact forall_mem_append.mpr ⟨hCovers.nonempty, forall_mem_singleton.mpr hOpen⟩

/-! ## Reading what was built -/

namespace PatchArchiveBuilder

variable (builder : PatchArchiveBuilder)

/-- The counts, sizes and the specification fit their fields. -/
structure Representable : Prop where
  entries : ∀ entry ∈ builder.fileEntries, entry.Writable
  espec : ∀ info ∈ builder.encodingInfo, info.espec.1.length < 256
  blockCount : builder.blocks.length < 2 ^ 16

/-- Every block starts below `2 ^ 32`. -/
def Addressable : Prop :=
  ∀ before after, builder.blocks = before ++ after → after ≠ [] →
    builder.blockDataStart + (before.flatMap (serializeBlockData builder.header)).length < 2 ^ 32

variable {builder} in
theorem addressable_of_length
    (h : builder.blockDataStart + builder.blockData.length < 2 ^ 32) : builder.Addressable := by
  intro before after hBlocks _
  rw [blockData, hBlocks, flatMap_append, length_append] at h
  omega

theorem standard_header : builder.header.Standard := ⟨rfl, rfl, rfl⟩

theorem hasExtendedHeader_header :
    builder.header.hasExtendedHeader = builder.encodingInfo.isSome := by
  unfold PatchArchiveHeader.hasExtendedHeader header
  cases builder.encodingInfo <;> simp

theorem flatten_blocks : builder.blocks.flatten = builder.sortedEntries :=
  (groupIntoBlocks_spec _ _ _).1

end PatchArchiveBuilder

theorem readTableEntry_write (block : PatchBlock) (rest : Bytes) :
    readTableEntry standardKeySize (writeTableEntry standardKeySize block ++ rest) =
      .ok ({ block with fileEntries := [] }, rest) := by
  simp only [readTableEntry, writeTableEntry, writeKey_standard, append_assoc,
    readKey_standard, key_read _ block.blockMd5.2, uint32Be_read, ok_bind]

/-- A row of the table as it is read. -/
def PatchBlock.row (block : PatchBlock) : PatchBlock := { block with fileEntries := [] }

theorem parseBlockTable_write {table : List PatchBlock} {blockCount : UInt16}
    (h : blockCount.toNat ≤ table.length) (rest : Bytes) :
    ∃ rest', parseBlockTable blockCount standardKeySize
        (table.flatMap (writeTableEntry standardKeySize) ++ rest) =
      .ok ((table.take blockCount.toNat).map PatchBlock.row, rest') := by
  set write := writeTableEntry standardKeySize
  have hSplit : table.flatMap write =
      ((table.take blockCount.toNat).map PatchBlock.row).flatMap
          write ++
        (table.drop blockCount.toNat).flatMap write := by
    rw [flatMap_map]
    change _ = (table.take _).flatMap write ++ _
    rw [← flatMap_append, take_append_drop]
  have hRow : ∀ row ∈ (table.take blockCount.toNat).map PatchBlock.row, ∀ rest,
      readTableEntry standardKeySize (write row ++ rest) = .ok (row, rest) := by
    intro row hRow rest
    obtain ⟨block, -, rfl⟩ := mem_map.mp hRow
    exact readTableEntry_write _ rest
  have hLength : ((table.take blockCount.toNat).map PatchBlock.row).length = blockCount.toNat := by
    rw [length_map, length_take, Nat.min_eq_left h]
  have hRead := readMany_flatMap hRow ((table.drop blockCount.toNat).flatMap write ++ rest)
  rw [hLength, ← append_assoc, ← hSplit] at hRead
  exact ⟨_, hRead⟩

theorem mapM_loadBlock {header : PatchArchiveHeader} (hStandard : header.Standard)
    (md5 : Bytes → Key 16) {blocks : List (List PatchFileEntry)}
    (hWritable : ∀ entry ∈ blocks.flatten, entry.Writable) (front : Bytes)
    (hOffsets : ∀ before after, blocks = before ++ after → after ≠ [] →
      front.length + (before.flatMap (serializeBlockData header)).length < 2 ^ 32) :
    ((blockTable md5 header front.length blocks).map PatchBlock.row).mapM
        (loadBlock header (front ++ blocks.flatMap (serializeBlockData header))) =
      .ok (blockTable md5 header front.length blocks) := by
  induction blocks generalizing front with
  | nil => rfl
  | cons block blocks ih =>
    rw [flatten_cons, forall_mem_append] at hWritable
    have hOffset : (UInt32.ofNat front.length).toNat = front.length :=
      UInt32.toNat_ofNat_of_lt' (hOffsets [] (block :: blocks) rfl (cons_ne_nil _ _))
    have hTail := ih hWritable.2 (front ++ serializeBlockData header block) (by
      intro before after hBlocks hAfter
      have hLt := hOffsets (block :: before) after (by rw [hBlocks]; rfl) hAfter
      rw [flatMap_cons, length_append] at hLt
      rw [length_append]
      omega)
    rw [length_append, append_assoc] at hTail
    rw [blockTable, map_cons, mapM_cons, flatMap_cons, hTail]
    have hHead : parseBlockData header
        ((front ++ (serializeBlockData header block ++
          blocks.flatMap (serializeBlockData header))).drop front.length) = .ok block := by
      rw [drop_left]
      exact parseBlockData_serialize hStandard hWritable.1 _
    simp only [loadBlock, PatchBlock.row, hOffset, hHead, ok_bind]
    rfl

theorem length_blockTable (md5 : Bytes → Key 16) (header : PatchArchiveHeader) (offset : Nat)
    (blocks : List (List PatchFileEntry)) :
    (blockTable md5 header offset blocks).length = blocks.length := by
  induction blocks generalizing offset with
  | nil => rfl
  | cons block blocks ih => rw [blockTable, length_cons, length_cons, ih]

theorem fileEntries_blockTable (md5 : Bytes → Key 16) (header : PatchArchiveHeader)
    (offset : Nat) (blocks : List (List PatchFileEntry)) :
    (blockTable md5 header offset blocks).map (·.fileEntries) = blocks := by
  induction blocks generalizing offset with
  | nil => rfl
  | cons block blocks ih => rw [blockTable, map_cons, ih]

namespace PatchArchiveBuilder

variable {builder : PatchArchiveBuilder} {md5 : Bytes → Key 16} {bytes : Bytes}

theorem build_eq_ok (h : builder.build md5 = .ok bytes) :
    builder.header.validate = .ok () ∧
      bytes = builder.front ++ ((builder.table md5).flatMap (writeTableEntry standardKeySize) ++
        builder.blockData) := by
  obtain ⟨_, -, h⟩ := bind_eq_ok.mp h
  obtain ⟨_, hValid, h⟩ := bind_eq_ok.mp h
  cases h
  exact ⟨mapError_eq_ok.mp hValid, rfl⟩

theorem parseExtendedHeader_write
    (h : ∀ info ∈ builder.encodingInfo, info.espec.1.length < 256) (rest : Bytes) :
    PatchArchive.parseExtendedHeader builder.header
        (builder.encodingInfo.elim [] (writeEncodingInfo standardKeySize) ++ rest) =
      .ok (builder.encodingInfo, rest) := by
  rw [PatchArchive.parseExtendedHeader, hasExtendedHeader_header]
  cases hInfo : builder.encodingInfo with
  | none => rfl
  | some info =>
    have hRead := parseEncodingInfo_write (h info hInfo) rest
    change (parseEncodingInfo standardKeySize _ >>= _) = _
    rw [Option.elim_some, hRead, ok_bind]

theorem length_writeTableEntry (block : PatchBlock) :
    (writeTableEntry standardKeySize block).length = standardKeySize.toNat + 16 + 4 := by
  simp only [writeTableEntry, writeKey_standard, length_append, block.lastFileCkey.2,
    block.blockMd5.2, beBytes_length]
  rfl

theorem length_front_table :
    (builder.front ++ (builder.table md5).flatMap (writeTableEntry standardKeySize)).length =
      builder.blockDataStart := by
  have hTable : ((builder.table md5).flatMap (writeTableEntry standardKeySize)).length =
      builder.blocks.length * (standardKeySize.toNat + 16 + 4) := by
    rw [flatMap_def, length_flatten_map fun block _ => length_writeTableEntry block, table,
      length_blockTable]
  have hInfo : (builder.encodingInfo.elim [] (writeEncodingInfo standardKeySize)).length =
      encodingInfoSize standardKeySize builder.encodingInfo := by
    cases builder.encodingInfo with
    | none => rfl
    | some info => exact length_writeEncodingInfo info
  rw [length_append, hTable, front, length_append, hInfo, length_write, blockDataStart]

/-- The parser finds the first blocks, as many as the low 16 bits of their number say. -/
theorem parse_of_build (hBuild : builder.build md5 = .ok bytes) (hAddressable : builder.Addressable)
    (hEntries : ∀ entry ∈ builder.fileEntries, entry.Writable)
    (hEspec : ∀ info ∈ builder.encodingInfo, info.espec.1.length < 256) :
    PatchArchive.parse bytes =
      .ok ⟨builder.header, builder.encodingInfo,
        (builder.table md5).take (builder.blocks.length % 2 ^ 16)⟩ := by
  obtain ⟨hValid, rfl⟩ := build_eq_ok hBuild
  have hCount : builder.header.blockCount.toNat = builder.blocks.length % 2 ^ 16 :=
    UInt16.toNat_ofNat'
  have hLe : builder.header.blockCount.toNat ≤ (builder.table md5).length := by
    rw [hCount, table, length_blockTable]
    exact Nat.mod_le _ _
  obtain ⟨rest, hTable⟩ := parseBlockTable_write hLe builder.blockData
  have hWritable : ∀ entry ∈ builder.blocks.flatten, entry.Writable := by
    intro entry hEntry
    rw [flatten_blocks, sortedEntries, mem_insertionSort] at hEntry
    exact hEntries entry hEntry
  have hLoad := mapM_loadBlock builder.standard_header md5 hWritable
    (builder.front ++ (builder.table md5).flatMap (writeTableEntry standardKeySize)) (by
      rw [length_front_table]
      exact hAddressable)
  rw [length_front_table, append_assoc, ← table, ← blockData] at hLoad
  have hBlocks := mapM_eq_ok.mpr (forall₂_take builder.header.blockCount.toNat
    (mapM_eq_ok.mp hLoad))
  rw [← map_take] at hBlocks
  have hInfo := parseExtendedHeader_write hEspec
    ((builder.table md5).flatMap (writeTableEntry standardKeySize) ++ builder.blockData)
  rw [PatchArchive.parse]
  nth_rewrite 1 [front]
  rw [append_assoc, read_write rfl, ok_bind]
  dsimp only
  rw [hValid, ok_bind, hInfo, ok_bind]
  have hSize : builder.header.fileKeySize = standardKeySize := rfl
  rw [hSize, hTable, ok_bind]
  rw [hBlocks, ok_bind, hCount]

theorem allFileEntries_take (n : Nat) :
    (⟨builder.header, builder.encodingInfo, (builder.table md5).take n⟩ :
      PatchArchive).allFileEntries = (builder.blocks.take n).flatten := by
  rw [PatchArchive.allFileEntries, flatMap_def, map_take, table, fileEntries_blockTable]

theorem le_of_flatten_take {n : Nat} (hn : 0 < n ∨ 1 < builder.blocks.length)
    (h : (builder.blocks.take n).flatten = builder.blocks.flatten) :
    builder.blocks.length ≤ n := by
  by_contra hLt
  have hSplit : builder.blocks = builder.blocks.take n ++ builder.blocks.drop n :=
    (take_append_drop n _).symm
  have hNil : (builder.blocks.drop n).flatten = [] := by
    have hFlatten := congrArg flatten hSplit
    rw [flatten_append, h] at hFlatten
    exact self_eq_append_right.mp hFlatten
  rcases (groupIntoBlocks_spec builder.sortedEntries (2 ^ builder.blockSizeBits.toNat)
    standardKeySize).2 with hOne | hNonempty
  · have hLength : builder.blocks.length = 1 := by rw [blocks, hOne]; rfl
    omega
  · have hGet : builder.blocks[n] ∈ builder.blocks.drop n :=
      mem_drop_iff_getElem.mpr ⟨0, by omega, rfl⟩
    exact hNonempty _ (getElem_mem _) (flatten_eq_nil_iff.mp hNil _ hGet)

/-- The added entries come back in the order of their target keys, those of one key in the order in
which they were added, exactly if the archive is representable. -/
theorem entries_parse_build_iff (hBuild : builder.build md5 = .ok bytes)
    (hAddressable : builder.Addressable) :
    (∃ archive, PatchArchive.parse bytes = .ok archive ∧
        StableSort (·.targetCkey) builder.fileEntries archive.allFileEntries ∧
          archive.encodingInfo = builder.encodingInfo) ↔ builder.Representable := by
  constructor
  · rintro ⟨archive, hParse, hSort, hInfo⟩
    have hSorted := stableSort_iff.mp hSort
    obtain ⟨hWritable, hEspec⟩ := PatchArchive.fits_of_parse hParse
    have hEntries : ∀ entry ∈ builder.fileEntries, entry.Writable := by
      intro entry hEntry
      apply hWritable
      rw [hSorted]
      exact mem_insertionSort.mpr hEntry
    rw [hInfo] at hEspec
    refine ⟨hEntries, hEspec, ?_⟩
    have hFound := parse_of_build hBuild hAddressable hEntries hEspec
    cases hParse.symm.trans hFound
    rw [allFileEntries_take] at hSorted
    by_contra hMany
    have hLe := le_of_flatten_take (.inr (by omega)) (hSorted.trans builder.flatten_blocks.symm)
    have hMod := Nat.mod_lt builder.blocks.length (show 0 < 2 ^ 16 by norm_num)
    omega
  · intro h
    refine ⟨_, parse_of_build hBuild hAddressable h.entries h.espec, ?_, rfl⟩
    rw [allFileEntries_take, Nat.mod_eq_of_lt h.blockCount, take_length, flatten_blocks]
    exact stableSort_iff.mpr rfl

def sampleEntry (byte : UInt8) (patches : List FilePatch) : PatchFileEntry :=
  ⟨.fill 16 byte, 1000, patches⟩

def sample : PatchArchiveBuilder where
  version := 2
  blockSizeBits := standardBlockSizeBits
  encodingInfo := some ⟨.fill 16 0xaa, .fill 16 0xbb, 50, 49, ⟨[0x6e], rfl⟩⟩
  fileEntries := [7, 2].map (sampleEntry · [⟨.fill 16 1, 500, .fill 16 3, 200, 0⟩])

theorem representable_sample : sample.Representable where
  entries := forall_mem_map.mpr fun byte _ =>
    ⟨Nat.one_pos, by simp [sampleEntry], by simp [sampleEntry], by simp [sampleEntry]⟩
  espec := by simp [sample]
  blockCount := by decide +kernel

theorem entries_parse_build_sample : ∃ bytes, sample.build (fun _ => .fill 16 0) = .ok bytes ∧
    ∃ archive, PatchArchive.parse bytes = .ok archive ∧
      StableSort (·.targetCkey) sample.fileEntries archive.allFileEntries ∧
        archive.encodingInfo = sample.encodingInfo := by
  have hBuild : sample.build (fun _ => .fill 16 0) = .ok _ := rfl
  have hAddressable : sample.Addressable := addressable_of_length (by decide +kernel)
  exact ⟨_, hBuild, (entries_parse_build_iff hBuild hAddressable).mpr representable_sample⟩

/-- An entry without patches is written, and its count ends the block. -/
def unpatched : PatchArchiveBuilder := new.addEntry (sampleEntry 2 [])

theorem entries_parse_build_refuted : ∃ bytes, unpatched.build (fun _ => .fill 16 0) = .ok bytes ∧
    ∃ archive, PatchArchive.parse bytes = .ok archive ∧ archive.allFileEntries = [] ∧
      ¬ StableSort (·.targetCkey) unpatched.fileEntries archive.allFileEntries := by
  have hBuild : unpatched.build (fun _ => .fill 16 0) = .ok _ := rfl
  refine ⟨_, hBuild, _, rfl, rfl, fun hSort => ?_⟩
  have hNil : unpatched.fileEntries.insertionSort (·.targetCkey ≤ ·.targetCkey) = [] :=
    (stableSort_iff.mp hSort).symm
  exact cons_ne_nil _ _ hNil

end PatchArchiveBuilder

end Cascette.Patch
