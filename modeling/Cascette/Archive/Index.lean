import Cascette.Archive.Footer
import Cascette.Lib.Search

/-!
# Archive index

An index file is a section of blocks with the entries, the table of contents with the last key of
every block, one hash per block, and the footer. The two writers, the reader with its checks and the
search follow the source; `parse_eq_ok_iff` says which files are read, and as which index. -/

namespace Cascette.Archive

open Lib List Nat IndexFooter

def isSorted (entries : List IndexEntry) : Bool :=
  (entries.zip entries.tail).all fun pair => pair.1.encodingKey ≤ pair.2.encodingKey

def calculateBlockHash (md5 : Bytes → Key 16) (block : Bytes) (hashBytes : UInt8) : Checked Bytes :=
  slice (md5 block).1 0 hashBytes.toNat

/-- A digest function for examples. -/
def zeroDigest (_ : Bytes) : Key 16 := .fill 16 0

structure ArchiveIndex where
  entries : List IndexEntry
  /-- The last key of every block. -/
  toc : List Bytes
  footer : IndexFooter
deriving DecidableEq

/-! ## Writing -/

/-- The entries of each block. The last block takes all that are left. -/
def entryBlocks (perBlock : Nat) (entries : List IndexEntry) : Checked (List (List IndexEntry)) :=
  if perBlock = 0 then .error .divisionByZero
  else
    let chunkCount := divCeil entries.length perBlock
    .ok ((List.range chunkCount).map fun chunkIdx =>
      let left := entries.drop (chunkIdx * perBlock)
      left.take (if chunkIdx = chunkCount - 1 then left.length else min perBlock left.length))

def hashedBlocks (md5 : Bytes → Key 16) (hashBytes : UInt8)
    (blockData : List IndexEntry → Except (Halt ArchiveError) Bytes)
    (blocks : List (List IndexEntry)) : Except (Halt ArchiveError) (List (Bytes × Bytes)) :=
  blocks.mapM fun block => do
    let data ← blockData block
    let hash ← (calculateBlockHash md5 data hashBytes).mapError .panic
    .ok (data, hash)

/-- A block filled through a cursor, which writes the records one after the other. -/
def cursorBlock (sizeBytes offsetBytes : UInt8) (block : List IndexEntry) :
    Except (Halt ArchiveError) Bytes := do
  let records ← Except.mapError Halt.error
    (block.mapM fun entry => entry.toBytes sizeBytes offsetBytes)
  .ok (padTo 4096 records.flatten)

namespace ArchiveIndex

/-- A block filled in place, with the records at multiples of the record size. -/
def blockData (f : IndexFooter) (block : List IndexEntry) : Except (Halt ArchiveError) Bytes := do
  let (chunkData, _) ← block.foldlM (fun (chunkData, pos) entry => do
    let bytes ← (entry.toBytes f.sizeBytes f.offsetBytes).mapError .error
    let chunkData ← (copyAt chunkData pos bytes).mapError .panic
    .ok (chunkData, pos + f.recordSize)) (List.replicate f.blockSize 0, 0)
  .ok chunkData

/-- The file around the blocks. -/
def assemble (toc : List Bytes) (footer : IndexFooter) (blocks : List (Bytes × Bytes)) : Bytes :=
  (blocks.map Prod.fst).flatten ++ toc.flatten ++ (blocks.map Prod.snd).flatten ++ footer.write

def recordsPerBlock (index : ArchiveIndex) : Checked Nat :=
  checkedDiv index.footer.blockSize index.footer.recordSize

def build (md5 : Bytes → Key 16) (index : ArchiveIndex) : Except (Halt ArchiveError) Bytes := do
  let perBlock ← index.recordsPerBlock.mapError .panic
  let blocks ← (entryBlocks perBlock index.entries).mapError .panic
  let hashed ← hashedBlocks md5 index.footer.footerHashBytes (blockData index.footer) blocks
  .ok (assemble index.toc index.footer hashed)

/-- The writer behind `CascFormat::build`: its blocks have room for 170 records of 24 bytes, with
four bytes for the size and for the offset. -/
def writeTo (md5 : Bytes → Key 16) (index : ArchiveIndex) : Except (Halt ArchiveError) Bytes := do
  let blocks ← (entryBlocks 170 index.entries).mapError .panic
  let hashed ← hashedBlocks md5 index.footer.footerHashBytes (cursorBlock 4 4) blocks
  .ok (assemble index.toc index.footer hashed)

/-! ## Validation -/

/-- The last key of a block is the one in the table of contents. -/
def tocEntryOk (entries : List IndexEntry) (perBlock : Nat) (key : Bytes) (chunkIdx : Nat) : Bool :=
  let chunkStart := chunkIdx * perBlock
  let chunkEnd := min (chunkStart + perBlock) entries.length
  if chunkStart < chunkEnd then (entries[chunkEnd - 1]?).map (·.encodingKey) = some key else true

/-- Called after the format was validated, so that records are not empty. -/
def validateTocConsistency (index : ArchiveIndex) : Except ArchiveError Unit :=
  let perBlock := index.footer.recordsPerBlock
  if index.toc.length ≠ divCeil index.entries.length perBlock then .error .tocInconsistent
  else if index.toc.zipIdx.all fun (key, i) => tocEntryOk index.entries perBlock key i then .ok ()
  else .error .tocInconsistent

def validate (md5 : Bytes → Key 16) (index : ArchiveIndex) : Except ArchiveError Unit :=
  if index.footer.isValid md5 = false then .error .footerChecksum
  else do
    index.footer.validateFormat
    if isSorted index.entries = false then .error .unsortedEntries
    else index.validateTocConsistency

/-! ## Reading -/

/-- The records of a block up to the padding. -/
def blockEntries (f : IndexFooter) (chunkData : Bytes) : List IndexEntry :=
  readRecords f.recordSize (IndexEntry.ofRecord f.ekeyLength f.sizeBytes f.offsetBytes) chunkData

/-- The last block may be shorter than the others. -/
def chunkSize (f : IndexFooter) (dataSize chunkIdx : Nat) : Checked Nat :=
  if chunkIdx = f.chunkCount - 1 then do
    let remaining ← checkedSub dataSize (chunkIdx * f.blockSize)
    .ok (min remaining f.blockSize)
  else .ok f.blockSize

def readBlock (f : IndexFooter) (data : Bytes) (dataSize chunkIdx : Nat) :
    Except (Halt ArchiveError) (List IndexEntry) := do
  let size ← (chunkSize f dataSize chunkIdx).mapError .panic
  match readExact size (data.drop (chunkIdx * f.blockSize)) with
  | none => .error (.error .ioError)
  | some (chunkData, _) => .ok (blockEntries f chunkData)

/-- The keys of the table of contents; the hashes behind them are skipped. -/
def readToc (f : IndexFooter) (data : Bytes) : Except ArchiveError (List Bytes) := do
  let (keys, _) ← (Codec.key ArchiveError.ioError f.ekeyLength.toNat).readMany f.chunkCount data
  .ok (keys.map Subtype.val)

/-- The checks at the end of reading. -/
def finish (md5 : Bytes → Key 16) (index : ArchiveIndex) :
    Except (Halt ArchiveError) ArchiveIndex :=
  if isSorted index.entries = false then .error (.error .unsortedEntries)
  else do
    (index.validate md5).mapError .error
    .ok index

def parse (md5 : Bytes → Key 16) (data : Bytes) : Except (Halt ArchiveError) ArchiveIndex := do
  let footer ← (readFooter data).mapError .error
  checkFooter md5 footer
  footer.validateFormat.mapError .error
  (footer.validateFileSize data.length).mapError .error
  let footerSize := minFooterSize + footer.footerHash.length
  let nonFooterSize ← (checkedSub data.length footerSize).mapError .panic
  let tocSize := footer.chunkCount * (footer.ekeyLength.toNat + footer.footerHashBytes.toNat)
  let dataSize ← (checkedSub nonFooterSize tocSize).mapError .panic
  let toc ← (readToc footer (data.drop dataSize)).mapError .error
  let blocks ← (List.range footer.chunkCount).mapM (readBlock footer data dataSize)
  finish md5 { entries := blocks.flatten, toc, footer }

/-! ## What validation checks -/

variable {entries : List IndexEntry} {key : Bytes} {i : Nat}

theorem isSorted_iff :
    isSorted entries = true ↔ entries.Pairwise fun a b => a.encodingKey ≤ b.encodingKey := by
  have hTrans : IsTrans IndexEntry fun a b => a.encodingKey ≤ b.encodingKey :=
    ⟨fun _ _ _ => le_trans⟩
  rw [← isChain_iff_pairwise]
  induction entries with
  | nil => simp [isSorted]
  | cons a entries ih =>
    cases entries with
    | nil => simp [isSorted]
    | cons b entries =>
      refine Iff.trans ?_ (isChain_cons_cons.trans (and_congr_right fun _ => ih.symm)).symm
      simp [isSorted]

def lastKey (block : List IndexEntry) : Bytes := (block.getLast?.map (·.encodingKey)).getD []

theorem lastKey_of_ne_nil {block : List IndexEntry} (h : block ≠ []) :
    ∃ entry ∈ block, block.getLast? = some entry ∧ lastKey block = entry.encodingKey := by
  refine ⟨block.getLast h, getLast_mem h, getLast?_eq_some_getLast h, ?_⟩
  rw [lastKey, getLast?_eq_some_getLast h]
  rfl

theorem tocEntryOk_iff {perBlock : Nat} (hPer : 0 < perBlock)
    (hi : i < divCeil entries.length perBlock) :
    tocEntryOk entries perBlock key i = true ↔
      key = lastKey ((entries.drop (i * perBlock)).take perBlock) := by
  have hLt := lt_of_lt_divCeil hPer hi
  have hLast : ((entries.drop (i * perBlock)).take perBlock).getLast? =
      entries[min (i * perBlock + perBlock) entries.length - 1]? := by
    rw [getLast?_eq_getElem?, getElem?_take, length_take, length_drop,
      if_pos (by omega), getElem?_drop]
    congr 1
    omega
  have hIn : min (i * perBlock + perBlock) entries.length - 1 < entries.length := by omega
  rw [tocEntryOk, if_pos (by omega), lastKey, hLast, getElem?_eq_getElem hIn]
  simp [eq_comm]

variable {index : ArchiveIndex} {md5 : Bytes → Key 16} {f : IndexFooter}
  {data blocks hashes : Bytes} {toc : List Bytes} {entry : IndexEntry}

theorem validateTocConsistency_eq_ok_iff (hPer : 0 < index.footer.recordsPerBlock) :
    index.validateTocConsistency = .ok () ↔
      index.toc = (chunks index.footer.recordsPerBlock index.entries).map lastKey := by
  rw [validateTocConsistency]
  split
  next hLength =>
    refine ⟨fun h => (by cases h), fun h => absurd ?_ hLength⟩
    rw [h, length_map, chunks_length]
  next hLength =>
    rw [not_not] at hLength
    have hAll : (index.toc.zipIdx.all fun (key, i) =>
        tocEntryOk index.entries index.footer.recordsPerBlock key i) = true ↔
        index.toc = (chunks index.footer.recordsPerBlock index.entries).map lastKey := by
      rw [all_eq_true]
      constructor
      · intro h
        refine ext_getElem (by simpa using hLength) fun i hi _ => ?_
        have hOk := h (index.toc[i], i) (mem_zipIdx_iff_getElem?.mpr (by simp))
        rw [tocEntryOk_iff hPer (hLength ▸ hi)] at hOk
        simpa [chunks] using hOk
      · rintro h ⟨key, i⟩ hMem
        have hKey := mem_zipIdx_iff_getElem?.mp hMem
        have hi : i < divCeil index.entries.length index.footer.recordsPerBlock := by
          rw [← hLength]
          exact (List.getElem?_eq_some_iff.mp hKey).1
        rw [tocEntryOk_iff hPer hi]
        rw [h, getElem?_map, getElem?_chunks hi] at hKey
        exact (Option.some.inj hKey).symm
    exact ensure_eq_ok.trans hAll

/-- An index that passes validation. -/
@[mk_iff]
structure Valid (md5 : Bytes → Key 16) (index : ArchiveIndex) : Prop where
  hash : index.footer.isValid md5 = true
  format : index.footer.Format
  sorted : index.entries.Pairwise fun a b => a.encodingKey ≤ b.encodingKey
  toc : index.toc = (chunks index.footer.recordsPerBlock index.entries).map lastKey

variable (h : index.Valid md5)
include h

theorem Valid.perBlock_pos : 0 < index.footer.recordsPerBlock := by
  have := h.format.recordsPerBlock_bounds.1
  omega

theorem Valid.recordsPerBlock_eq : index.recordsPerBlock = .ok index.footer.recordsPerBlock := by
  have := h.format.recordSize_bounds.1
  exact checkedDiv_eq (by omega)

theorem Valid.exists_of_mem_toc (hKey : key ∈ index.toc) :
    ∃ entry ∈ index.entries, entry.encodingKey = key := by
  rw [h.toc] at hKey
  obtain ⟨block, hBlock, rfl⟩ := mem_map.mp hKey
  obtain ⟨entry, hEntry, -, hLast⟩ := lastKey_of_ne_nil (ne_nil_of_mem_chunks h.perBlock_pos hBlock)
  exact ⟨entry, mem_of_mem_chunks hBlock hEntry, hLast.symm⟩

omit h

theorem validate_eq_ok_iff : index.validate md5 = .ok () ↔ index.Valid md5 := by
  simp only [validate, ite_error_eq_ok, unit_bind_eq_ok, validateFormat_eq_ok_iff,
    Bool.not_eq_false, isSorted_iff, valid_iff]
  refine and_congr_right fun _ => and_congr_right fun hFormat => and_congr_right fun _ => ?_
  have hPer := hFormat.recordsPerBlock_bounds.1
  exact validateTocConsistency_eq_ok_iff (by omega)

theorem finish_eq_ok_iff {index' : ArchiveIndex} :
    finish md5 index = .ok index' ↔ index' = index ∧ index.Valid md5 := by
  simp only [finish, ite_error_eq_ok, unit_bind_eq_ok, mapError_eq_ok, validate_eq_ok_iff,
    Bool.not_eq_false, isSorted_iff, Except.ok.injEq]
  constructor
  · rintro ⟨-, hValid, rfl⟩
    exact ⟨rfl, hValid⟩
  · rintro ⟨rfl, hValid⟩
    exact ⟨hValid.sorted, hValid, rfl⟩

/-! ## What a file is read as -/

/-- The records of the blocks of an index. -/
def records {f : IndexFooter} (hFormat : f.Format) : RecordFormat IndexEntry :=
  IndexEntry.recordFormat f.ekeyLength f.offsetBytes hFormat.offset

theorem blockEntries_eq (hFormat : f.Format) (chunkData : Bytes) :
    blockEntries f chunkData =
      readRecords (records hFormat).size (records hFormat).decode chunkData := by
  rw [blockEntries, hFormat.recordSize, hFormat.size]
  rfl

/-- The entries of the blocks that make up the first part of a file. -/
def sectionEntries (f : IndexFooter) (blocks : Bytes) : List IndexEntry :=
  ((List.range f.chunkCount).map fun i =>
    blockEntries f ((blocks.drop (i * f.blockSize)).take f.blockSize)).flatten

/-- The parts of a file: its blocks, the keys of the table of contents, the hashes and the footer.
The blocks give way to a footer hash of more than eight bytes. -/
structure Layout (data : Bytes) (f : IndexFooter) (toc : List Bytes) (blocks hashes : Bytes) :
    Prop where
  eq : data = blocks ++ toc.flatten ++ hashes ++ f.write
  marked : f.Marked
  blocks_length : blocks.length + f.footerHash.length = f.chunkCount * f.blockSize + 8
  hashes_length : hashes.length = f.chunkCount * 8
  toc_length : toc.length = f.chunkCount
  toc_key : ∀ key ∈ toc, key.length = f.ekeyLength.toNat

theorem Layout.length (h : Layout data f toc blocks hashes) :
    data.length = f.chunkCount * f.blockSize + f.chunkCount * (f.ekeyLength.toNat + 8) + 28 ∧
      toc.flatten.length = f.chunkCount * f.ekeyLength.toNat := by
  have hToc : toc.flatten.length = f.chunkCount * f.ekeyLength.toNat := by
    rw [length_flatten h.toc_key, h.toc_length]
  refine ⟨?_, hToc⟩
  have hBlocks := h.blocks_length
  rw [h.eq, length_append, length_append, length_append, hToc, h.hashes_length,
    f.write_length, Nat.mul_add]
  omega

theorem readBlock_eq (hFormat : f.Format) {rest : Bytes}
    (hBlocks : blocks.length + f.footerHash.length = f.chunkCount * f.blockSize + 8)
    (hHash : f.footerHash.length < 256) (hi : i < f.chunkCount) :
    readBlock f (blocks ++ rest) blocks.length i =
      .ok (blockEntries f ((blocks.drop (i * f.blockSize)).take f.blockSize)) := by
  have hLarge : 256 ≤ f.blockSize := by rw [hFormat.blockSize]; decide
  have hMul : i * f.blockSize + f.blockSize ≤ f.chunkCount * f.blockSize := by
    rw [← succ_mul]
    exact mul_le_mul_right _ hi
  have hSize : chunkSize f blocks.length i =
      .ok (min (blocks.length - i * f.blockSize) f.blockSize) := by
    rw [chunkSize]
    split
    · rw [checkedSub_eq (by omega), ok_bind]
    · have hNext : i * f.blockSize + f.blockSize + f.blockSize ≤ f.chunkCount * f.blockSize := by
        rw [← succ_mul, ← succ_mul]
        exact mul_le_mul_right _ (by omega)
      rw [Nat.min_eq_right (by omega)]
  have hDrop : (blocks ++ rest).drop (i * f.blockSize) = blocks.drop (i * f.blockSize) ++ rest :=
    drop_append_of_le_length (by omega)
  have hTake : (blocks.drop (i * f.blockSize) ++ rest).take
      (min (blocks.length - i * f.blockSize) f.blockSize) =
        (blocks.drop (i * f.blockSize)).take f.blockSize := by
    rw [take_append_of_le_length (by rw [length_drop]; omega), take_eq_take_iff, length_drop]
    omega
  rw [readBlock, hSize, mapError_ok, ok_bind, hDrop, readExact, if_pos, hTake]
  rw [length_append, length_drop]
  omega

theorem readToc_eq (hLength : toc.length = f.chunkCount)
    (hKey : ∀ key ∈ toc, key.length = f.ekeyLength.toNat) (rest : Bytes) :
    readToc f (toc.flatten ++ rest) = .ok toc := by
  lift toc to List (Key f.ekeyLength.toNat) using hKey
  rw [length_map] at hLength
  have hRead := (Codec.key ArchiveError.ioError f.ekeyLength.toNat).readMany_writeMany toc rest
  rw [hLength] at hRead
  change (Codec.readMany _ _ (Codec.writeMany (Codec.key ArchiveError.ioError _) toc ++ rest) >>=
    _) = _
  rw [hRead, ok_bind]

theorem parse_of_layout (h : Layout data f toc blocks hashes)
    (hHash : f.isValid md5 = true) (hFormat : f.Format) :
    parse md5 data = finish md5 { entries := sectionEntries f blocks, toc, footer := f } := by
  obtain ⟨hLength, hTocLength⟩ := h.length
  have hBlocks := h.blocks_length
  have hSplit : data = blocks ++ (toc.flatten ++ (hashes ++ f.write)) := by
    rw [h.eq, append_assoc, append_assoc]
  have hFooter : readFooter data = .ok f := readFooter_eq_ok_iff.mpr ⟨_, h.eq, h.marked⟩
  have hSize : f.validateFileSize data.length = .ok () := by
    rw [hFormat.validateFileSize_eq_ok_iff, hLength, hFormat.blockSize]
  have hEight : f.footerHashBytes.toNat = 8 := by rw [hFormat.hashBytes]; rfl
  have hData : data.length - (minFooterSize + f.footerHash.length) -
      f.chunkCount * (f.ekeyLength.toNat + 8) = blocks.length := by
    rw [minFooterSize]
    omega
  have hRead : (range f.chunkCount).mapM (readBlock f data blocks.length) =
      .ok ((range f.chunkCount).map fun i =>
        blockEntries f ((blocks.drop (i * f.blockSize)).take f.blockSize)) := by
    refine mapM_eq_map fun i hi => ?_
    rw [hSplit]
    exact readBlock_eq hFormat hBlocks h.marked.lt (mem_range.mp hi)
  have hToc : readToc f (data.drop blocks.length) = .ok toc := by
    rw [hSplit, drop_left]
    exact readToc_eq h.toc_length h.toc_key _
  rw [parse, hFooter, mapError_ok, ok_bind, checkFooter, if_pos hHash, ok_bind,
    validateFormat_eq_ok_iff.mpr hFormat, mapError_ok, ok_bind, hSize,
    mapError_ok, ok_bind]
  dsimp only
  rw [checkedSub_eq (by rw [minFooterSize]; omega), mapError_ok, ok_bind, hEight,
    checkedSub_eq (by rw [minFooterSize]; omega), mapError_ok, ok_bind, hData, hToc, mapError_ok,
    ok_bind, hRead, ok_bind]
  rfl

theorem exists_layout (h : parse md5 data = .ok index) :
    ∃ f toc blocks hashes, Layout data f toc blocks hashes ∧ f.isValid md5 = true ∧ f.Format := by
  obtain ⟨f, hFooter, h⟩ := bind_eq_ok.mp h
  obtain ⟨⟨⟩, hCheck, h⟩ := bind_eq_ok.mp h
  obtain ⟨⟨⟩, hFormat, h⟩ := bind_eq_ok.mp h
  obtain ⟨⟨⟩, hSize, h⟩ := bind_eq_ok.mp h
  obtain ⟨nonFooterSize, hNonFooter, h⟩ := bind_eq_ok.mp h
  obtain ⟨dataSize, hData, h⟩ := bind_eq_ok.mp h
  obtain ⟨toc, hToc, -⟩ := bind_eq_ok.mp h
  have hFormat := validateFormat_eq_ok_iff.mp (mapError_eq_ok.mp hFormat)
  have hHash : f.isValid md5 = true := by
    unfold checkFooter at hCheck
    split at hCheck
    · assumption
    · split at hCheck <;> cases hCheck
  obtain ⟨body, rfl, hMarked⟩ := readFooter_eq_ok_iff.mp (mapError_eq_ok.mp hFooter)
  have hSize := hFormat.validateFileSize_eq_ok_iff.mp (mapError_eq_ok.mp hSize)
  obtain ⟨⟨keys, rest⟩, hKeys, -⟩ := bind_eq_ok.mp (mapError_eq_ok.mp hToc)
  obtain ⟨hKeys, hCount⟩ := (Codec.readMany_eq_ok _).mp hKeys
  obtain ⟨hFooterLe, hNonFooter⟩ := checkedSub_eq_ok.mp (mapError_eq_ok.mp hNonFooter)
  obtain ⟨hTocLe, hData⟩ := checkedSub_eq_ok.mp (mapError_eq_ok.mp hData)
  have hEight : f.footerHashBytes.toNat = 8 := by rw [hFormat.hashBytes]; rfl
  have hFlat : (keys.map Subtype.val).flatten.length = f.chunkCount * f.ekeyLength.toNat := by
    rw [length_flatten_map fun key _ => key.2, hCount]
  rw [length_append, f.write_length, minFooterSize] at hNonFooter
  rw [length_append, f.write_length, ← hFormat.blockSize] at hSize
  rw [hEight, Nat.mul_add] at hTocLe hData
  rw [Nat.mul_add] at hSize
  have hTail : body.drop dataSize = (keys.map Subtype.val).flatten ++
      (body.drop dataSize).drop (f.chunkCount * f.ekeyLength.toNat) := by
    have hTake := congrArg (List.take (f.chunkCount * f.ekeyLength.toNat)) hKeys
    rw [drop_append_of_le_length (by omega), take_append_of_le_length (by
      rw [length_drop]
      omega)] at hTake
    change _ = ((keys.map Subtype.val).flatten ++ rest).take _ at hTake
    rw [take_left' hFlat] at hTake
    rw [← hTake, take_append_drop]
  refine ⟨f, keys.map Subtype.val, body.take dataSize,
    (body.drop dataSize).drop (f.chunkCount * f.ekeyLength.toNat), ?_, hHash, hFormat⟩
  exact {
    eq := by rw [append_assoc (body.take dataSize), ← hTail, take_append_drop]
    marked := hMarked
    blocks_length := by
      rw [length_take]
      omega
    hashes_length := by
      rw [length_drop, length_drop]
      omega
    toc_length := by rw [length_map, hCount]
    toc_key := by
      intro key hKey
      obtain ⟨key, -, rfl⟩ := mem_map.mp hKey
      exact key.2 }

/-- The files that are read as an index: the index passes validation, and the file is its blocks,
its table of contents, hashes that nothing checks, and its footer. -/
theorem parse_eq_ok_iff :
    parse md5 data = .ok index ↔ index.Valid md5 ∧
      ∃ blocks hashes, Layout data index.footer index.toc blocks hashes ∧
        index.entries = sectionEntries index.footer blocks := by
  constructor
  · intro h
    obtain ⟨f, toc, blocks, hashes, hLayout, hHash, hFormat⟩ := exists_layout h
    rw [parse_of_layout hLayout hHash hFormat] at h
    obtain ⟨rfl, hValid⟩ := finish_eq_ok_iff.mp h
    exact ⟨hValid, blocks, hashes, hLayout, rfl⟩
  · rintro ⟨hValid, blocks, hashes, hLayout, hEntries⟩
    rw [parse_of_layout hLayout hValid.hash hValid.format, ← hEntries]
    exact finish_eq_ok_iff.mpr ⟨rfl, hValid⟩

theorem parse_holds (h : parse md5 data = .ok index) (hEntry : entry ∈ index.entries) :
    entry.Holds index.footer.ekeyLength index.footer.offsetBytes ∧ entry.isZero = false := by
  obtain ⟨hValid, blocks, hashes, -, hEntries⟩ := parse_eq_ok_iff.mp h
  rw [hEntries] at hEntry
  obtain ⟨block, hBlock, hEntry⟩ := mem_flatten.mp hEntry
  obtain ⟨i, -, rfl⟩ := mem_map.mp hBlock
  rw [blockEntries_eq hValid.format] at hEntry
  obtain ⟨rest, -, hAdmits, -⟩ := (records hValid.format).readRecords_spec
    ((blocks.drop (i * index.footer.blockSize)).take index.footer.blockSize)
  exact hAdmits entry hEntry

theorem parse_footer {body : Bytes} (hMarked : f.Marked)
    (h : parse md5 (body ++ f.write) = .ok index) : index.footer = f := by
  obtain ⟨-, blocks, hashes, hLayout, -⟩ := parse_eq_ok_iff.mp h
  have hRead := readFooter_eq_ok_iff.mpr ⟨_, hLayout.eq, hLayout.marked⟩
  rw [readFooter_eq_ok_iff.mpr ⟨body, rfl, hMarked⟩] at hRead
  exact (Except.ok.inj hRead).symm

end ArchiveIndex

end Cascette.Archive
