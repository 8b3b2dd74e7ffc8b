import Cascette.Archive.Rebuild
import Cascette.Archive.Search

/-!
# The lazily loaded archive index

`ChunkedArchiveIndex` keeps the table of contents and loads a block when a lookup needs it. Its
loader does not ask the footer: it always decodes records of 24 bytes with keys of 16 bytes and
offsets of four. A loaded block stays as it is, so the answers do not depend on the lookups before
(`findEntry_run`). They are those of the index that is read as a whole when the file has the layout
of the loader and every block but the last is full.
-/

namespace Cascette.Archive

open Lib ArchiveIndex List IndexFooter

structure ChunkedArchiveIndex where
  /-- The blocks, once they are loaded. -/
  chunks : List (Option (List IndexEntry))
  toc : List Bytes
  footer : IndexFooter
  /-- The content of the file. -/
  file : Bytes

namespace ChunkedArchiveIndex

def openIndex (md5 : Bytes → Key 16) (data : Bytes) :
    Except (Halt ArchiveError) ChunkedArchiveIndex := do
  let footer ← (readFooter data).mapError .error
  checkFooter md5 footer
  footer.validateFormat.mapError .error
  let footerSize := minFooterSize + footer.footerHash.length
  let tocSize := footer.chunkCount * (footer.ekeyLength.toNat + footer.footerHashBytes.toNat)
  let tocData ← (seekEnd (footerSize + tocSize) data).mapError .error
  let toc ← (ArchiveIndex.readToc footer tocData).mapError .error
  .ok { chunks := List.replicate footer.chunkCount none, toc, footer, file := data }

/-- The loop that decodes a block; `fuel` bounds the number of records. -/
def decodeChunk : Nat → Bytes → Except ArchiveError (List IndexEntry)
  | 0, _ => .ok []
  | fuel + 1, data =>
    if 24 ≤ data.length then do
      let entry ← IndexEntry.parse (data.take 24) 16 4 4
      if entry.isZero then .ok []
      else do
        let entries ← decodeChunk fuel (data.drop 24)
        .ok (entry :: entries)
    else .ok []

def loadChunk (index : ChunkedArchiveIndex) (chunkIdx : Nat) :
    Except (Halt ArchiveError) (List IndexEntry × ChunkedArchiveIndex) :=
  match index.chunks[chunkIdx]? with
  | none => .error (.panic .indexOutOfRange)
  | some (some entries) => .ok (entries, index)
  | some none =>
    match readExact 4096 (index.file.drop (chunkIdx * 4096)) with
    | none => .error (.error .ioError)
    | some (chunkData, _) => do
      let entries ← (decodeChunk chunkData.length chunkData).mapError .error
      .ok (entries, { index with chunks := index.chunks.set chunkIdx (some entries) })

/-- The entry found in a block. -/
def searchBlock (block : List IndexEntry) (encodingKey : Bytes) : Option IndexEntry :=
  match binarySearchBy (fun e => compare e.encodingKey encodingKey) block with
  | .ok i => block[i]?
  | .error _ => none

/-- The answer, and the index with what was loaded for it. -/
def findEntry (index : ChunkedArchiveIndex) (encodingKey : Bytes) :
    Except (Halt ArchiveError) (Option IndexEntry × ChunkedArchiveIndex) :=
  match findChunk index.toc encodingKey with
  | none => .ok (none, index)
  | some chunkIdx => do
    let (entries, index) ← index.loadChunk chunkIdx
    .ok (searchBlock entries encodingKey, index)

/-- The index after a lookup; one that failed has loaded nothing. -/
def step (index : ChunkedArchiveIndex) (encodingKey : Bytes) : ChunkedArchiveIndex :=
  match index.findEntry encodingKey with
  | .ok (_, index') => index'
  | .error _ => index

def run (index : ChunkedArchiveIndex) (keys : List Bytes) : ChunkedArchiveIndex :=
  keys.foldl step index

/-! ## What a lookup answers -/

/-- The records of a block as the loader decodes them. -/
def loadedBlock (file : Bytes) (chunkIdx : Nat) : List IndexEntry :=
  readRecords 24 (IndexEntry.ofRecord 16 4 4) ((file.drop (chunkIdx * 4096)).take 4096)

theorem decodeChunk_eq : ∀ fuel (data : Bytes),
    decodeChunk fuel data = .ok (readRecordsLoop 24 (IndexEntry.ofRecord 16 4 4) fuel data) := by
  intro fuel
  induction fuel with
  | zero => intro data; rfl
  | succ fuel ih =>
    intro data
    rw [decodeChunk, readRecordsLoop]
    split_ifs with hLe
    · obtain ⟨entry, hEntry⟩ : ∃ entry, IndexEntry.parse (data.take 24) 16 4 4 = .ok entry :=
        IndexEntry.exists_parse (.inr (.inl rfl)) (length_take_of_le hLe)
      rw [hEntry, ok_bind, IndexEntry.ofRecord, hEntry]
      dsimp only
      cases hZero : entry.isZero with
      | true => rfl
      | false => rw [if_neg (by decide), if_neg (by decide), ih, ok_bind]
    · rfl

/-- The blocks that are loaded are those of the file. -/
structure Coherent (index : ChunkedArchiveIndex) : Prop where
  count : index.chunks.length = index.toc.length
  loaded : ∀ i entries, index.chunks[i]? = some (some entries) → entries = loadedBlock index.file i
  room : index.toc.length * 4096 ≤ index.file.length

variable {index : ChunkedArchiveIndex} {i : Nat}

theorem loadChunk_spec (h : index.Coherent) (hi : i < index.toc.length) :
    ∃ index', index.loadChunk i = .ok (loadedBlock index.file i, index') ∧ index'.Coherent ∧
      index'.toc = index.toc ∧ index'.file = index.file := by
  have hRoom : (i + 1) * 4096 ≤ index.file.length := (Nat.mul_le_mul_right _ hi).trans h.room
  unfold loadChunk
  cases hChunk : index.chunks[i]? with
  | none =>
    rw [getElem?_eq_none_iff, h.count] at hChunk
    omega
  | some chunk =>
    cases chunk with
    | some entries =>
      rw [h.loaded i entries hChunk]
      exact ⟨index, rfl, h, rfl, rfl⟩
    | none =>
      have hRead : readExact 4096 (index.file.drop (i * 4096)) =
          some ((index.file.drop (i * 4096)).take 4096, (index.file.drop (i * 4096)).drop 4096) :=
        if_pos (by rw [length_drop]; omega)
      rw [hRead]
      dsimp only
      rw [decodeChunk_eq, mapError_ok, ok_bind]
      refine ⟨_, rfl, ⟨by rw [length_set, h.count], ?_, h.room⟩, rfl, rfl⟩
      intro j entries hj
      rw [getElem?_set] at hj
      split at hj
      next hij =>
        subst hij
        split at hj
        · cases hj
          rfl
        · cases hj
      · exact h.loaded j entries hj

/-- The answer for a key: the block that the table of contents names, as the loader decodes it, is
searched. -/
def answer (toc : List Bytes) (file encodingKey : Bytes) : Option IndexEntry :=
  match findChunk toc encodingKey with
  | none => none
  | some i => searchBlock (loadedBlock file i) encodingKey

theorem findEntry_spec (h : index.Coherent) (encodingKey : Bytes) :
    ∃ index', index.findEntry encodingKey =
        .ok (answer index.toc index.file encodingKey, index') ∧ index'.Coherent ∧
      index'.toc = index.toc ∧ index'.file = index.file := by
  unfold findEntry answer
  cases hChunk : findChunk index.toc encodingKey with
  | none => exact ⟨index, rfl, h, rfl, rfl⟩
  | some i =>
    obtain ⟨index', hLoad, hSpec⟩ := loadChunk_spec h (findChunk_lt hChunk)
    dsimp only
    rw [hLoad, ok_bind]
    exact ⟨index', rfl, hSpec⟩

theorem coherent_run (h : index.Coherent) (keys : List Bytes) :
    (index.run keys).Coherent ∧ (index.run keys).toc = index.toc ∧
      (index.run keys).file = index.file := by
  induction keys generalizing index with
  | nil => exact ⟨h, rfl, rfl⟩
  | cons key keys ih =>
    obtain ⟨index', hFind, hCoherent, hToc, hFile⟩ := findEntry_spec h key
    have hStep : index.step key = index' := by rw [step, hFind]
    have hTail := ih hCoherent
    rw [hToc, hFile] at hTail
    rwa [run, foldl_cons, hStep]

theorem findEntry_run (h : index.Coherent) (keys : List Bytes) (encodingKey : Bytes) :
    ((index.run keys).findEntry encodingKey).map Prod.fst =
      .ok (answer index.toc index.file encodingKey) := by
  obtain ⟨hCoherent, hToc, hFile⟩ := coherent_run h keys
  obtain ⟨index', hFind, -⟩ := findEntry_spec hCoherent encodingKey
  rw [hFind, hToc, hFile]
  rfl

/-! ## Files that are read as a whole as well -/

section Read

variable {md5 : Bytes → Key 16} {data : Bytes} {index : ArchiveIndex}
  (h : ArchiveIndex.parse md5 data = .ok index)

include h

theorem openIndex_eq : openIndex md5 data = .ok {
    chunks := replicate index.footer.chunkCount none
    toc := index.toc
    footer := index.footer
    file := data } := by
  obtain ⟨hValid, blocks, hashes, hLayout, -⟩ := parse_eq_ok_iff.mp h
  have hFormat := hValid.format
  have hFooter := readFooter_eq_ok_iff.mpr ⟨_, hLayout.eq, hLayout.marked⟩
  have hEight : index.footer.footerHashBytes.toNat = 8 := by rw [hFormat.hashBytes]; rfl
  have hTail : data = blocks ++ (index.toc.flatten ++ (hashes ++ index.footer.write)) := by
    rw [hLayout.eq, append_assoc, append_assoc]
  have hSeek : seekEnd (minFooterSize + index.footer.footerHash.length +
      index.footer.chunkCount * (index.footer.ekeyLength.toNat + 8)) data =
      .ok (index.toc.flatten ++ (hashes ++ index.footer.write)) := by
    refine seekEnd_eq_ok.mpr ⟨blocks, hTail, ?_⟩
    rw [length_append, length_append, hLayout.length.2, hLayout.hashes_length,
      index.footer.write_length, minFooterSize, Nat.mul_add]
    omega
  rw [openIndex, hFooter, mapError_ok, ok_bind, checkFooter, if_pos hValid.hash, ok_bind,
    validateFormat_eq_ok_iff.mpr hFormat, mapError_ok, ok_bind]
  dsimp only
  rw [hEight, hSeek, mapError_ok, ok_bind,
    readToc_eq hLayout.toc_length hLayout.toc_key, mapError_ok, ok_bind]

theorem coherent_open {lazy : ChunkedArchiveIndex} (hOpen : openIndex md5 data = .ok lazy) :
    lazy.Coherent ∧ lazy.toc = index.toc ∧ lazy.file = data := by
  obtain ⟨hValid, blocks, hashes, hLayout, -⟩ := parse_eq_ok_iff.mp h
  rw [openIndex_eq h] at hOpen
  cases hOpen
  refine ⟨⟨?_, ?_, ?_⟩, rfl, rfl⟩
  · rw [length_replicate, hLayout.toc_length]
  · intro i entries hi
    rw [getElem?_replicate] at hi
    split at hi <;> cases hi
  · dsimp only
    rw [hLayout.toc_length, hLayout.length.1, hValid.format.blockSize]
    omega

theorem findEntry_parsed (encodingKey : Bytes) :
    index.findEntry encodingKey = .ok (match findChunk index.toc encodingKey with
      | none => none
      | some i => searchBlock ((index.entries.drop (i * index.footer.recordsPerBlock)).take
          index.footer.recordsPerBlock) encodingKey) := by
  have hValid := parse_valid h
  rw [ArchiveIndex.findEntry, ArchiveIndex.searchPosition, hValid.recordsPerBlock_eq, ok_bind]
  cases hChunk : findChunk index.toc encodingKey with
  | none => rfl
  | some i =>
    dsimp only
    rw [(hValid.slice_eq_block (findChunk_lt hChunk)).1, ok_bind, searchBlock]
    cases hSearch : binarySearchBy (fun e => compare e.encodingKey encodingKey)
        ((index.entries.drop (i * index.footer.recordsPerBlock)).take
          index.footer.recordsPerBlock) with
    | error j => rfl
    | ok j =>
      obtain ⟨hj, -⟩ := binarySearchBy_ok hSearch
      have hGet : index.entries[i * index.footer.recordsPerBlock + j]? =
          ((index.entries.drop (i * index.footer.recordsPerBlock)).take
            index.footer.recordsPerBlock)[j]? := by
        rw [length_take] at hj
        rw [getElem?_take, if_pos (by omega), getElem?_drop]
      rw [ok_bind]
      dsimp only
      rw [getAt, hGet, getElem?_eq_getElem hj]
      rfl

end Read

/-! ## Where the two agree -/

/-- The records that the loader decodes. -/
def loaderFormat : RecordFormat IndexEntry := IndexEntry.recordFormat 16 4 (.inr (.inl rfl))

theorem loadedBlock_eq (file : Bytes) (i : Nat) :
    loadedBlock file i = readRecords loaderFormat.size loaderFormat.decode
      ((file.drop (i * 4096)).take 4096) := rfl

theorem loadedBlock_length_le (file : Bytes) (i : Nat) : (loadedBlock file i).length ≤ 170 := by
  have hMul := loaderFormat.readRecords_length_mul_le ((file.drop (i * 4096)).take 4096)
  have hSize : loaderFormat.size = 24 := rfl
  rw [← loadedBlock_eq, hSize, length_take] at hMul
  omega

variable {entry : IndexEntry} {data : Bytes}

theorem mem_loadedBlock (hEntry : entry ∈ loadedBlock data i) : entry.Holds 16 4 := by
  obtain ⟨rest, -, hAdmits, -⟩ := loaderFormat.readRecords_spec ((data.drop (i * 4096)).take 4096)
  exact (hAdmits entry hEntry).1

/-- Where the data section ends. A hash of more than eight bytes takes from the last block. -/
def dataSize (index : ArchiveIndex) : Nat :=
  index.footer.chunkCount * 4096 + 8 - index.footer.footerHash.length

/-- The loader decodes no record that reaches behind the data section. -/
def Inside (data : Bytes) (index : ArchiveIndex) : Prop :=
  ∀ i < index.footer.chunkCount, i * 4096 + (loadedBlock data i).length * 24 ≤ dataSize index

/-- The file has the layout of the loader, and every block but the last is full. -/
structure Standard (data : Bytes) (index : ArchiveIndex) : Prop where
  key : index.footer.ekeyLength = 16
  offset : index.footer.offsetBytes = 4
  inside : Inside data index
  full : ∀ i, i + 1 < index.footer.chunkCount → (loadedBlock data i).length = 170

section Standard

variable {md5 : Bytes → Key 16} {data : Bytes} {index : ArchiveIndex}
  (h : ArchiveIndex.parse md5 data = .ok index)
  (hKey : index.footer.ekeyLength = 16) (hOffset : index.footer.offsetBytes = 4)

include h hKey hOffset

/-- In the layout of the loader both decode the same records of a block, if those of the loader lie
inside the data section. -/
theorem blockEntries_eq_loadedBlock {blocks hashes : Bytes}
    (hLayout : ArchiveIndex.Layout data index.footer index.toc blocks hashes) {i : Nat}
    (hInside : i * 4096 + (loadedBlock data i).length * 24 ≤ blocks.length) :
    ArchiveIndex.blockEntries index.footer
      ((blocks.drop (i * index.footer.blockSize)).take index.footer.blockSize) =
      loadedBlock data i := by
  have hFormat := (parse_valid h).format
  have hSize : index.footer.recordSize = loaderFormat.size := by
    rw [hFormat.recordSize, hKey, hOffset]
    rfl
  have hDecode (block : Bytes) : ArchiveIndex.blockEntries index.footer block =
      readRecords loaderFormat.size loaderFormat.decode block := by
    rw [ArchiveIndex.blockEntries, hSize, hKey, hOffset, hFormat.size]
    rfl
  have hStart : i * 4096 ≤ blocks.length := Nat.le_of_add_right_le hInside
  -- the block of the reader is the block of the loader up to the end of the data section
  have hBlock : (blocks.drop (i * 4096)).take 4096 =
      ((data.drop (i * 4096)).take 4096).take (blocks.length - i * 4096) := by
    rw [hLayout.eq, append_assoc, append_assoc, drop_append_of_le_length hStart,
      take_take, Nat.min_comm, ← take_take, take_left' (length_drop ..)]
  rw [loadedBlock_eq] at hInside
  have hTake := loaderFormat.readRecords_take (Nat.le_sub_of_add_le' hInside)
  rw [hDecode, hFormat.blockSize, hBlock, hTake, loadedBlock_eq]

theorem entries_eq_loaded (hInside : Inside data index) :
    index.entries = ((range index.footer.chunkCount).map (loadedBlock data)).flatten := by
  obtain ⟨-, blocks, hashes, hLayout, hEntries⟩ := parse_eq_ok_iff.mp h
  have hBlocks := hLayout.blocks_length
  rw [(parse_valid h).format.blockSize] at hBlocks
  rw [hEntries, ArchiveIndex.sectionEntries]
  congr 1
  refine map_congr_left fun i hi => ?_
  have hi := hInside i (mem_range.mp hi)
  rw [dataSize] at hi
  exact blockEntries_eq_loadedBlock h hKey hOffset hLayout (by omega)

end Standard

/-- In a standard file the slices that are searched are the blocks that are loaded. -/
theorem Standard.slice_eq {md5 : Bytes → Key 16} {index : ArchiveIndex}
    (h : ArchiveIndex.parse md5 data = .ok index) (hStandard : Standard data index)
    (hi : i < index.footer.chunkCount) :
    (index.entries.drop (i * index.footer.recordsPerBlock)).take index.footer.recordsPerBlock =
      loadedBlock data i := by
  obtain ⟨hKey, hOffset, hInside, hFull⟩ := hStandard
  have hFormat := (parse_valid h).format
  rw [(perBlock_four hFormat hOffset).mpr hKey,
    entries_eq_loaded h hKey hOffset hInside, take_drop_flatten_last (i := i)]
  · rw [getElem_map, getElem_range]
  · intro j hj hNext
    rw [length_map, length_range] at hNext
    rw [getElem_map, getElem_range]
    exact hFull j hNext
  · intro p hp
    obtain ⟨j, -, rfl⟩ := mem_map.mp hp
    exact loadedBlock_length_le data j
  · rw [length_map, length_range]
    exact hi

theorem slice_unique {entries : List IndexEntry} (hNodup : entries.Nodup) {n j : Nat}
    (hi : entry ∈ (entries.drop (i * n)).take n)
    (hj : entry ∈ (entries.drop (j * n)).take n) : i = j := by
  have hIndex {k : Nat} (hk : entry ∈ (entries.drop (k * n)).take n) :
      ∃ p, ∃ hp : p < entries.length, entries[p] = entry ∧ p / n = k := by
    obtain ⟨q, hq, hEntry⟩ := mem_iff_getElem.mp hk
    rw [length_take, length_drop] at hq
    rw [getElem_take, getElem_drop] at hEntry
    refine ⟨k * n + q, by omega, hEntry, ?_⟩
    rw [Nat.mul_comm, Nat.mul_add_div (by omega), Nat.div_eq_of_lt (by omega), Nat.add_zero]
  obtain ⟨p, hp, hpEntry, rfl⟩ := hIndex hi
  obtain ⟨q, hq, hqEntry, rfl⟩ := hIndex hj
  rw [(hNodup.getElem_inj_iff).mp (hpEntry.trans hqEntry.symm)]

/-- After every series of lookups and for every key both give the same answer. -/
def Agrees (lazy : ChunkedArchiveIndex) (index : ArchiveIndex) : Prop :=
  ∀ (keys : List Bytes) (encodingKey : Bytes), ∃ found,
    index.findEntry encodingKey = .ok found ∧
      ((lazy.run keys).findEntry encodingKey).map Prod.fst = .ok found

section Agrees

variable {md5 : Bytes → Key 16} {data : Bytes} {index : ArchiveIndex} {lazy : ChunkedArchiveIndex}
  (h : ArchiveIndex.parse md5 data = .ok index) (hOpen : openIndex md5 data = .ok lazy)

include h hOpen

theorem agrees_of_standard (hStandard : index.entries = [] ∨ Standard data index) :
    Agrees lazy index := by
  obtain ⟨hCoherent, hToc, hFile⟩ := coherent_open h hOpen
  intro keys encodingKey
  refine ⟨_, findEntry_parsed h encodingKey, ?_⟩
  rw [findEntry_run hCoherent, hToc, hFile, answer]
  cases hChunk : findChunk index.toc encodingKey with
  | none => rfl
  | some i =>
    have hi := findChunk_lt hChunk
    rcases hStandard with hEmpty | hStandard
    · rw [(parse_valid h).toc, hEmpty, chunks_nil] at hi
      exact absurd hi (Nat.not_lt_zero i)
    · obtain ⟨-, blocks, hashes, hLayout, -⟩ := parse_eq_ok_iff.mp h
      rw [hLayout.toc_length] at hi
      dsimp only
      rw [hStandard.slice_eq h hi]

variable (hAgrees : Agrees lazy index)
include hAgrees

theorem exists_mem_loaded (hEntry : entry ∈ index.entries) :
    ∃ i found, findChunk index.toc entry.encodingKey = some i ∧ found ∈ index.entries ∧
      found.encodingKey = entry.encodingKey ∧ found ∈ loadedBlock data i := by
  obtain ⟨hCoherent, hToc, hFile⟩ := coherent_open h hOpen
  obtain ⟨found, hFind, hLazy⟩ := hAgrees [] entry.encodingKey
  rw [findEntry_run hCoherent, hToc, hFile, answer, Except.ok.injEq] at hLazy
  obtain ⟨found', hFind', hSome, hFound⟩ := (parse_valid h).findEntry_scan
    (parse_keys h) entry.encodingKey
  rw [hFind, Except.ok.injEq] at hFind'
  subst hFind'
  obtain ⟨e, rfl⟩ := Option.isSome_iff_exists.mp (hSome.mpr ⟨entry, hEntry, rfl⟩)
  obtain ⟨hMem, hKey⟩ := hFound e rfl
  cases hChunk : findChunk index.toc entry.encodingKey with
  | none =>
    rw [hChunk] at hLazy
    cases hLazy
  | some i =>
    rw [hChunk] at hLazy
    refine ⟨i, e, rfl, hMem, hKey, ?_⟩
    unfold searchBlock at hLazy
    dsimp only at hLazy
    split at hLazy
    · exact mem_of_getElem? hLazy
    · cases hLazy

theorem layout_of_agrees (hSome : index.entries ≠ []) :
    index.footer.ekeyLength = 16 ∧ index.footer.offsetBytes ≠ 6 := by
  obtain ⟨entry, hEntry⟩ := exists_mem_of_ne_nil _ hSome
  obtain ⟨i, found, -, hMem, -, hLoaded⟩ := exists_mem_loaded h hOpen hAgrees hEntry
  have hHolds := (parse_holds h hMem).1
  have hLoader := mem_loadedBlock hLoaded
  constructor
  · exact UInt8.toNat_inj.mp (hHolds.key.symm.trans hLoader.key)
  · intro hSix
    exact absurd (hLoader.archive.mp (hHolds.archive.mpr hSix)) (by decide)

/-- With distinct keys both agree only if every block but the last is full. -/
theorem full_of_agrees (hDistinct : index.entries.Pairwise fun a b => a.encodingKey < b.encodingKey)
    (hKey : index.footer.ekeyLength = 16) (hOffset : index.footer.offsetBytes = 4) {i : Nat}
    (hi : i + 1 < index.footer.chunkCount) : (loadedBlock data i).length = 170 := by
  have hValid := parse_valid h
  have hPer : index.footer.recordsPerBlock = 170 := (perBlock_four hValid.format hOffset).mpr hKey
  have hCount := parse_chunkCount h
  rw [hPer] at hCount
  have hRoom := lt_of_lt_divCeil (b := 170) (by decide) (hCount ▸ hi)
  have hNodup : index.entries.Nodup := hDistinct.imp fun hLt hEq => by
    rw [hEq] at hLt
    exact lt_irrefl _ hLt
  have hInjective {a b : IndexEntry} (ha : a ∈ index.entries) (hb : b ∈ index.entries)
      (hab : a.encodingKey = b.encodingKey) : a = b :=
    inj_on_of_nodup_map (pairwise_map.mpr (hDistinct.imp fun hLt => ne_of_lt hLt))
      ha hb hab
  -- the table of contents leads from an entry of a slice to that slice only
  have hSubset : (index.entries.drop (i * 170)).take 170 ⊆ loadedBlock data i := by
    intro entry hEntry
    have hMem := mem_of_mem_drop (mem_of_mem_take hEntry)
    obtain ⟨j, found, hChunk, hFound, hFoundKey, hLoaded⟩ := exists_mem_loaded h hOpen hAgrees hMem
    rw [hInjective hFound hMem hFoundKey] at hLoaded
    have hSpec := hValid.findChunk_spec (parse_keys h) (parse_keys h entry hMem)
    rw [hChunk] at hSpec
    obtain ⟨block, hBlock, hPage⟩ := hSpec
    obtain ⟨entry', hEntry', hKey'⟩ := hPage ⟨entry, hMem, rfl⟩
    rw [(hValid.slice_eq_block (findChunk_lt hChunk)).2, hPer] at hBlock
    cases hBlock
    have hSame : entry' = entry := hInjective (mem_of_mem_drop (mem_of_mem_take hEntry')) hMem hKey'
    rw [hSame] at hEntry'
    have hij : i = j := slice_unique hNodup hEntry hEntry'
    rwa [hij]
  have hSlice : ((index.entries.drop (i * 170)).take 170).length = 170 := by
    rw [length_take, length_drop]
    omega
  have hLe := ((hNodup.sublist ((take_sublist _ _).trans
    (drop_sublist _ _))).subperm hSubset).length_le
  have hMax := loadedBlock_length_le data i
  omega

end Agrees

/-- For every file that is accepted by both readers: in a standard file, and in one without entries,
the lazily loaded index answers like the index that was read as a whole, after every series of
lookups. If there are entries, agreement needs keys of sixteen bytes and an offset field without an
archive number; with offsets of four bytes, distinct keys and no record of the loader behind the
data section it needs a standard file. -/
theorem findEntry_agrees {md5 : Bytes → Key 16} {data : Bytes} {index : ArchiveIndex}
    {lazy : ChunkedArchiveIndex} (h : ArchiveIndex.parse md5 data = .ok index)
    (hOpen : openIndex md5 data = .ok lazy) :
    (index.entries = [] ∨ Standard data index → Agrees lazy index) ∧
    (Agrees lazy index → index.entries ≠ [] →
      index.footer.ekeyLength = 16 ∧ index.footer.offsetBytes ≠ 6) ∧
    (index.footer.offsetBytes = 4 → Inside data index →
      (index.entries.Pairwise fun a b => a.encodingKey < b.encodingKey) →
      (Agrees lazy index ↔ index.entries = [] ∨ Standard data index)) := by
  refine ⟨agrees_of_standard h hOpen, layout_of_agrees h hOpen, fun hOffset hInside hDistinct =>
    ⟨fun hAgrees => ?_, agrees_of_standard h hOpen⟩⟩
  by_cases hEmpty : index.entries = []
  · exact .inl hEmpty
  · have hKey := (layout_of_agrees h hOpen hAgrees hEmpty).1
    exact .inr ⟨hKey, hOffset, hInside, fun i hi =>
      full_of_agrees h hOpen hAgrees hDistinct hKey hOffset hi⟩

theorem findEntry_agrees_sample :
    ∃ data index lazy, ArchiveIndex.parse zeroDigest data = .ok index ∧
      openIndex zeroDigest data = .ok lazy ∧ Agrees lazy index := by
  have hReady := ArchiveIndexBuilder.sampleBuilder_ready
  obtain ⟨data, tocHash, -, hRead⟩ := hReady.readBack zeroDigest
  have hCount := parse_chunkCount hRead
  rw [(perBlock_four (parse_valid hRead).format rfl).mpr rfl, ArchiveIndexBuilder.sorted_length]
    at hCount
  change _ = 1 at hCount
  refine ⟨data, _, _, hRead, openIndex_eq hRead, (findEntry_agrees hRead (openIndex_eq hRead)).1
    (.inr ⟨rfl, rfl, fun i hi => ?_, fun i hi => ?_⟩)⟩ <;> rw [hCount] at hi
  · have hMax := loadedBlock_length_le data i
    rw [dataSize, hCount]
    change _ ≤ 1 * 4096 + 8 - 8
    omega
  · omega

/-- One entry with a key of nine bytes. -/
def shortKeys : ArchiveIndexBuilder :=
  (ArchiveIndexBuilder.withConfig 9 4 4).addEntry (List.replicate 9 1) 10 0

theorem shortKeys_ready : shortKeys.Ready where
  key_pos := by decide
  key_le := by decide
  offset := .inr (.inl rfl)
  size := rfl
  hash := rfl
  count := by decide
  entries := forall_mem_singleton.mpr ⟨⟨rfl, by decide, by decide⟩, by decide⟩

/-- With keys of nine bytes some lookup is answered differently. -/
theorem findEntry_disagrees :
    ∃ data : (Bytes → Key 16) → Bytes, ∀ md5, ∃ index lazy,
      ArchiveIndex.parse md5 (data md5) = .ok index ∧ openIndex md5 (data md5) = .ok lazy ∧
      ¬ Agrees lazy index := by
  have hRead (md5 : Bytes → Key 16) : ∃ data index lazy,
      ArchiveIndex.parse md5 data = .ok index ∧ openIndex md5 data = .ok lazy ∧
      ¬ Agrees lazy index := by
    obtain ⟨data, tocHash, -, hRead⟩ := shortKeys_ready.readBack md5
    refine ⟨data, _, _, hRead, openIndex_eq hRead, fun hAgrees => ?_⟩
    have hKey := (layout_of_agrees hRead (openIndex_eq hRead) hAgrees (cons_ne_nil _ [])).1
    exact absurd hKey (by change ¬ (9 : UInt8) = 16; decide)
  choose data hData using hRead
  exact ⟨data, hData⟩

end ChunkedArchiveIndex

/-! ## Panics -/

section Panics

variable {md5 : Bytes → Key 16} {data : Bytes} {f : IndexFooter}

/-- The footer is refused, and its hash is too short for the report. -/
def Unreported (md5 : Bytes → Key 16) (data : Bytes) : Prop :=
  ∃ f, readFooter data = .ok f ∧ f.isValid md5 = false ∧ f.footerHash.length < 8

theorem panics_checkFooter_iff :
    Panics (checkFooter md5 f) ↔ f.isValid md5 = false ∧ f.footerHash.length < 8 := by
  unfold checkFooter
  split_ifs <;> simp_all

theorem ArchiveIndex.not_panics_readBlock (hFormat : f.Format) {dataSize i : Nat}
    (hData : dataSize + f.footerHash.length = f.chunkCount * 4096 + 8)
    (hHash : f.footerHash.length < 256) (hi : i < f.chunkCount) :
    ¬ Panics (readBlock f data dataSize i) := by
  have hSize : ∃ n, chunkSize f dataSize i = .ok n := by
    rw [chunkSize, hFormat.blockSize]
    split
    · rw [checkedSub_eq (by omega), ok_bind]
      exact ⟨_, rfl⟩
    · exact ⟨_, rfl⟩
  obtain ⟨n, hSize⟩ := hSize
  rw [readBlock, hSize, mapError_ok, ok_bind]
  split
  · exact not_panics_error _
  · exact not_panics_ok _

theorem ArchiveIndex.panics_parse_iff : Panics (parse md5 data) ↔ Unreported md5 data := by
  rw [parse, panics_bind, or_iff_right (not_panics_mapError _)]
  constructor
  · rintro ⟨f, hFooter, h⟩
    rw [panics_bind, panics_checkFooter_iff] at h
    rcases h with h | ⟨⟨⟩, -, h⟩
    · exact ⟨f, mapError_eq_ok.mp hFooter, h⟩
    exfalso
    rw [panics_bind, or_iff_right (not_panics_mapError _)] at h
    obtain ⟨⟨⟩, hFormat, h⟩ := h
    rw [panics_bind, or_iff_right (not_panics_mapError _)] at h
    obtain ⟨⟨⟩, hSize, h⟩ := h
    have hFormat := validateFormat_eq_ok_iff.mp (mapError_eq_ok.mp hFormat)
    have hSize := hFormat.validateFileSize_eq_ok_iff.mp (mapError_eq_ok.mp hSize)
    obtain ⟨body, rfl, hMarked⟩ := readFooter_eq_ok_iff.mp (mapError_eq_ok.mp hFooter)
    have hHash := hMarked.lt
    have hEight : f.footerHashBytes.toNat = 8 := by rw [hFormat.hashBytes]; rfl
    rw [length_append, f.write_length] at hSize h
    -- a file without blocks is too short for a hash of more than eight bytes
    have hRoom : f.chunkCount * (f.ekeyLength.toNat + 8) ≤ body.length := by
      rcases Nat.eq_zero_or_pos f.chunkCount with hZero | hPos
      · rw [hZero]
        omega
      · omega
    dsimp only [minFooterSize] at h
    rw [hEight, checkedSub_eq (by omega), mapError_ok, ok_bind, checkedSub_eq (by omega),
      mapError_ok, ok_bind, panics_bind, or_iff_right (not_panics_mapError _)] at h
    obtain ⟨toc, -, h⟩ := h
    rw [panics_bind, or_iff_right] at h
    · obtain ⟨blocks, -, h⟩ := h
      unfold finish at h
      split at h
      · exact not_panics_error _ h
      · rw [panics_bind, or_iff_right (not_panics_mapError _)] at h
        obtain ⟨⟨⟩, -, h⟩ := h
        exact not_panics_ok _ h
    · refine not_panics_mapM fun i hi => ?_
      exact not_panics_readBlock hFormat (by omega) hHash (mem_range.mp hi)
  · rintro ⟨f, hFooter, hShort⟩
    refine ⟨f, by rw [hFooter, mapError_ok], panics_bind.mpr (.inl ?_)⟩
    exact panics_checkFooter_iff.mpr hShort

/-- Reading an index, as a whole or lazily, panics on one kind of footer and on no other. -/
theorem reading_panics_iff (md5 : Bytes → Key 16) (data : Bytes) :
    (Panics (ArchiveIndex.parse md5 data) ↔ Unreported md5 data) ∧
      (Panics (ChunkedArchiveIndex.openIndex md5 data) ↔ Unreported md5 data) :=
  ⟨panics_parse_iff, by simp [ChunkedArchiveIndex.openIndex, Unreported, panics_bind,
    mapError_eq_ok, panics_checkFooter_iff]⟩

/-- Twenty zero bytes are a footer with an empty hash. -/
theorem reading_panics : ∃ data : Bytes, ∀ md5, Panics (ArchiveIndex.parse md5 data) ∧
    Panics (ChunkedArchiveIndex.openIndex md5 data) :=
  ⟨replicate 20 0, fun _ => ⟨⟨.indexOutOfRange, rfl⟩, ⟨.indexOutOfRange, rfl⟩⟩⟩

end Panics

end Cascette.Archive
