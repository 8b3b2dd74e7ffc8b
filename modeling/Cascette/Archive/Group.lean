import Cascette.Archive.Rebuild

/-!
# Archive groups

An archive group merges the indexes of many archives into one. It is an archive index with offset
fields of six bytes, which begin with the number of the archive. There are two ways to write one: a
builder that collects the entries by key, and a merge of the sorted indexes that writes as it goes.
Both find the first entry with every key and write blocks of 157 entries; the builder computes the
number of its blocks from the number of bytes.
-/

namespace Cascette.Archive

open Lib List

structure ArchiveGroupEntry where
  encodingKey : Bytes
  archiveIndex : UInt16
  offset : UInt32
  size : UInt32
deriving DecidableEq

namespace ArchiveGroupEntry

def combinedOffset (entry : ArchiveGroupEntry) : Bytes :=
  beBytes 2 entry.archiveIndex.toNat ++ beBytes 4 entry.offset.toNat

def record (entry : ArchiveGroupEntry) : Bytes :=
  entry.encodingKey ++ beBytes 4 entry.size.toNat ++ entry.combinedOffset

/-- An entry of an archive as an entry of the group. -/
def ofArchive (archiveIndex : UInt16) (entry : IndexEntry) : ArchiveGroupEntry where
  encodingKey := entry.encodingKey
  archiveIndex
  offset := entry.offset.toUInt32
  size := entry.size

end ArchiveGroupEntry

structure ArchiveGroup where
  entries : List ArchiveGroupEntry
  footer : IndexFooter
deriving DecidableEq

namespace ArchiveGroup

def parse (md5 : Bytes → Key 16) (data : Bytes) : Except (Halt ArchiveError) ArchiveGroup := do
  let index ← ArchiveIndex.parse md5 data
  if index.footer.offsetBytes ≠ 6 then
    .error (.error (.invalidFormat ("Not an archive-group: offset_bytes = " ++
      toString index.footer.offsetBytes.toNat ++ ", expected 6")))
  else
    .ok {
      entries := index.entries.map fun entry => .ofArchive (entry.archiveIndex.getD 0) entry
      footer := index.footer }

/-! ## Writing -/

def chunkData (block : List ArchiveGroupEntry) : Bytes :=
  resize 4096 (block.map ArchiveGroupEntry.record).flatten

def groupFooter (md5 : Bytes → Key 16) (tocHash : Bytes) (entryCount : Nat) : IndexFooter :=
  IndexFooter.sealed md5
    { IndexFooter.new md5 tocHash (UInt32.ofNat entryCount) with offsetBytes := 6 }

/-- What follows the blocks: the table of contents, the hashes of the blocks and the footer. -/
def finish (md5 : Bytes → Key 16) (entries : List ArchiveGroupEntry) (tocKeys : List Bytes)
    (blocks : List (Bytes × Bytes)) : Checked (Bytes × ArchiveGroup) := do
  let toc := tocKeys.map (resize 16)
  let tocHash ← calculateTocHash md5 toc (blocks.map Prod.snd) 8
  let footer := groupFooter md5 tocHash entries.length
  .ok (ArchiveIndex.assemble toc footer blocks, { entries, footer })

end ArchiveGroup

/-! ## The builder -/

/-- The map from keys to entries, as the list of its values in no particular order. -/
structure ArchiveGroupBuilder where
  entries : List ArchiveGroupEntry

namespace ArchiveGroupBuilder

def new : ArchiveGroupBuilder := ⟨[]⟩

def addArchive (builder : ArchiveGroupBuilder) (archiveIndex : UInt16) (index : ArchiveIndex) :
    ArchiveGroupBuilder where
  entries := (index.entries.map (.ofArchive archiveIndex)).foldl
    (insertNew (·.encodingKey)) builder.entries

/-- One block with its bytes and their hash. -/
def chunk (md5 : Bytes → Key 16) (entries : List ArchiveGroupEntry) (chunkIdx : Nat) :
    Checked (List ArchiveGroupEntry × Bytes × Bytes) := do
  let entriesPerChunk := 4096 / 26
  let startIdx := chunkIdx * entriesPerChunk
  let endIdx := min ((chunkIdx + 1) * entriesPerChunk) entries.length
  let block ← slice entries startIdx endIdx
  let data := ArchiveGroup.chunkData block
  let hash ← calculateBlockHash md5 data 8
  .ok (block, data, hash)

/-- Writes the group. The map hands its values over in some order. -/
def build (md5 : Bytes → Key 16) (values : List ArchiveGroupEntry) :
    Checked (Bytes × ArchiveGroup) := do
  let entries := values.insertionSort fun a b => a.encodingKey ≤ b.encodingKey
  let chunkCount := divCeil (entries.length * 26) 4096
  let chunks ← (List.range chunkCount).mapM (chunk md5 entries)
  let tocKeys := chunks.filterMap fun chunk => chunk.1.getLast?.map (·.encodingKey)
  ArchiveGroup.finish md5 entries tocKeys (chunks.map Prod.snd)

end ArchiveGroupBuilder

/-! ## The merge -/

/-- What the merge has written, and the block that it fills. -/
structure ChunkWriter where
  entries : List ArchiveGroupEntry
  tocKeys : List Bytes
  /-- The blocks that were written, with their hashes. -/
  blocks : List (Bytes × Bytes)
  chunkData : Bytes
  chunkEntryCount : Nat

namespace ChunkWriter

def new : ChunkWriter := ⟨[], [], [], [], 0⟩

def flush (md5 : Bytes → Key 16) (w : ChunkWriter) : Checked ChunkWriter := do
  let data := resize 4096 w.chunkData
  let hash ← calculateBlockHash md5 data 8
  .ok { w with
    tocKeys := w.tocKeys ++ [(w.entries.getLast?.map (·.encodingKey)).getD []]
    blocks := w.blocks ++ [(data, hash)]
    chunkData := []
    chunkEntryCount := 0 }

def write (md5 : Bytes → Key 16) (w : ChunkWriter) (entry : ArchiveGroupEntry) :
    Checked ChunkWriter :=
  let w := { w with
    entries := w.entries ++ [entry]
    chunkData := w.chunkData ++ entry.record
    chunkEntryCount := w.chunkEntryCount + 1 }
  if w.chunkEntryCount = 4096 / 26 then w.flush md5 else .ok w

end ChunkWriter

/-- The entries of every archive, with the number of the archive. -/
def archiveEntries (archives : List (UInt16 × ArchiveIndex)) : List (List ArchiveGroupEntry) :=
  archives.map fun (archiveIndex, index) => index.entries.map (.ofArchive archiveIndex)

def buildMerged (md5 : Bytes → Key 16) (archives : List (UInt16 × ArchiveIndex)) :
    Checked (Bytes × ArchiveGroup) := do
  let sources := archiveEntries archives
  -- every entry of every archive is popped once
  let (_, w) ← mergeLoop (·.encodingKey) sources (emitNew (·.encodingKey) (ChunkWriter.write md5))
    sources.flatten.length (initialHeap sources) (none, ChunkWriter.new)
  let w ← if w.chunkEntryCount > 0 then w.flush md5 else .ok w
  ArchiveGroup.finish md5 w.entries w.tocKeys w.blocks

/-! ## What is written -/

namespace ArchiveGroup

def lastKey (block : List ArchiveGroupEntry) : Bytes := (block.getLast?.map (·.encodingKey)).getD []

/-- The file with the given blocks, and the group that is returned with it. -/
def written (md5 : Bytes → Key 16) (entries : List ArchiveGroupEntry)
    (blocks : List (List ArchiveGroupEntry)) : Bytes × ArchiveGroup :=
  let toc := blocks.map fun block => resize 16 (lastKey block)
  let hashed := withHashes md5 (blocks.map chunkData)
  let footer := groupFooter md5
    ((md5 (toc.flatten ++ (hashed.map Prod.snd).flatten)).1.take 8) entries.length
  (ArchiveIndex.assemble toc footer hashed, { entries, footer })

theorem finish_eq (md5 : Bytes → Key 16) (entries : List ArchiveGroupEntry)
    (blocks : List (List ArchiveGroupEntry)) :
    finish md5 entries (blocks.map lastKey) (withHashes md5 (blocks.map chunkData)) =
      .ok (written md5 entries blocks) := by
  rw [finish, map_map]
  rw [calculateTocHash_eight, ok_bind]
  rfl

end ArchiveGroup

namespace ArchiveGroupBuilder

/-- The bytes of the entries fill no more blocks than the entries do. -/
theorem chunkCount_le (n : Nat) : divCeil (n * 26) 4096 ≤ divCeil n 157 := by
  rw [divCeil, divCeil]
  omega

theorem chunk_eq (md5 : Bytes → Key 16) {entries : List ArchiveGroupEntry} {chunkIdx : Nat}
    (h : chunkIdx * 157 < entries.length) :
    let block := (entries.drop (chunkIdx * 157)).take 157
    chunk md5 entries chunkIdx = .ok (block, ArchiveGroup.chunkData block,
      (md5 (ArchiveGroup.chunkData block)).1.take 8) := by
  have hTake : (entries.take (min ((chunkIdx + 1) * 157) entries.length)).drop (chunkIdx * 157) =
      (entries.drop (chunkIdx * 157)).take 157 := by
    rw [drop_take, take_eq_take_iff, length_drop]
    omega
  have hSlice : slice entries (chunkIdx * 157) (min ((chunkIdx + 1) * 157) entries.length) =
      .ok ((entries.drop (chunkIdx * 157)).take 157) := by
    rw [slice_eq (by omega) (Nat.min_le_right _ _), hTake]
  change (slice entries (chunkIdx * 157) (min ((chunkIdx + 1) * 157) entries.length) >>= _) = _
  rw [hSlice, ok_bind]
  dsimp only
  rw [calculateBlockHash_eight, ok_bind]

/-- The builder writes the first of the blocks, as many as its bytes would fill. -/
theorem build_eq (md5 : Bytes → Key 16) (values : List ArchiveGroupEntry) :
    let entries := values.insertionSort fun a b => a.encodingKey ≤ b.encodingKey
    build md5 values = .ok (ArchiveGroup.written md5 entries
      ((chunks 157 entries).take (divCeil (entries.length * 26) 4096))) := by
  intro entries
  set count := divCeil (entries.length * 26) 4096
  have hCount := chunkCount_le entries.length
  have hLt {i : Nat} (hi : i ∈ range count) : i * 157 < entries.length :=
    lt_of_lt_divCeil (by decide) ((mem_range.mp hi).trans_le hCount)
  have hTake : (chunks 157 entries).take count =
      (range count).map fun i => (entries.drop (i * 157)).take 157 := by
    rw [chunks, ← map_take, take_range, Nat.min_eq_left hCount]
  have hToc : ((range count).filterMap fun i =>
        ((entries.drop (i * 157)).take 157).getLast?.map (·.encodingKey)) =
      ((range count).map fun i => (entries.drop (i * 157)).take 157).map ArchiveGroup.lastKey := by
    rw [map_map, ← filterMap_eq_map]
    refine filterMap_congr fun i hi => ?_
    have hPos := hLt hi
    obtain ⟨last, hLast⟩ := Option.ne_none_iff_exists'.mp
      (mt getLast?_eq_none_iff.mp (ne_nil_of_length_pos (by
        rw [length_take, length_drop]
        omega : 0 < ((entries.drop (i * 157)).take 157).length)))
    rw [hLast, Function.comp_apply, Function.comp_apply, ArchiveGroup.lastKey, hLast]
    rfl
  rw [hTake, ← ArchiveGroup.finish_eq, build]
  rw [mapM_eq_map fun i hi => chunk_eq md5 (hLt hi), ok_bind, filterMap_map, map_map,
    ← hToc, withHashes, map_map, map_map]
  rfl

end ArchiveGroupBuilder

namespace ChunkWriter

/-- The writer has written the blocks of `full` and is filling a block with `part`. -/
structure Filled (md5 : Bytes → Key 16) (w : ChunkWriter) (full part : List ArchiveGroupEntry) :
    Prop where
  entries : w.entries = full ++ part
  full_dvd : 157 ∣ full.length
  part_lt : part.length < 157
  tocKeys : w.tocKeys = (chunks 157 full).map ArchiveGroup.lastKey
  blocks : w.blocks = withHashes md5 ((chunks 157 full).map ArchiveGroup.chunkData)
  chunkData : w.chunkData = (part.map ArchiveGroupEntry.record).flatten
  chunkEntryCount : w.chunkEntryCount = part.length

theorem filled_new (md5 : Bytes → Key 16) : Filled md5 new [] [] where
  entries := rfl
  full_dvd := Nat.dvd_zero 157
  part_lt := by decide
  tocKeys := by rw [chunks_nil]; rfl
  blocks := by rw [chunks_nil]; rfl
  chunkData := rfl
  chunkEntryCount := rfl

variable {md5 : Bytes → Key 16} {w : ChunkWriter} {full part : List ArchiveGroupEntry}

theorem flush_eq (hFull : 157 ∣ full.length) (hPart : part.length ≤ 157) (hNe : part ≠ [])
    (hEntries : w.entries = full ++ part)
    (hTocKeys : w.tocKeys = (chunks 157 full).map ArchiveGroup.lastKey)
    (hBlocks : w.blocks = withHashes md5 ((chunks 157 full).map ArchiveGroup.chunkData))
    (hData : w.chunkData = (part.map ArchiveGroupEntry.record).flatten) :
    w.flush md5 = .ok {
      entries := w.entries
      tocKeys := (chunks 157 w.entries).map ArchiveGroup.lastKey
      blocks := withHashes md5 ((chunks 157 w.entries).map ArchiveGroup.chunkData)
      chunkData := []
      chunkEntryCount := 0 } := by
  have hLast : (full ++ part).getLast? = part.getLast? := by
    rw [getLast?_append]
    cases h : part.getLast? with
    | none => exact absurd (getLast?_eq_none_iff.mp h) hNe
    | some _ => rfl
  rw [flush, calculateBlockHash_eight, ok_bind, hTocKeys, hBlocks, hData, hEntries, hLast,
    chunks_append (by decide) hFull, chunks_of_length_le hPart hNe, map_append,
    map_append, withHashes, withHashes, map_append]
  rfl

variable (h : Filled md5 w full part)
include h

theorem write_spec (entry : ArchiveGroupEntry) :
    ∃ w' full' part', w.write md5 entry = .ok w' ∧ w'.entries = w.entries ++ [entry] ∧
      Filled md5 w' full' part' := by
  have hEntries : w.entries ++ [entry] = full ++ (part ++ [entry]) := by
    rw [h.entries, append_assoc]
  have hData : w.chunkData ++ entry.record =
      ((part ++ [entry]).map ArchiveGroupEntry.record).flatten := by
    rw [h.chunkData, map_append, flatten_append]
    simp
  have hLength : (part ++ [entry]).length = part.length + 1 := length_append
  have hPart := h.part_lt
  rw [write]
  rw [h.chunkEntryCount]
  split_ifs with hCount
  · have hBlock : part.length + 1 = 157 := hCount
    refine ⟨_, w.entries ++ [entry], [], flush_eq h.full_dvd (by omega)
      (append_ne_nil_of_right_ne_nil _ (cons_ne_nil _ _)) hEntries h.tocKeys h.blocks
      hData, rfl, ?_⟩
    refine ⟨(append_nil _).symm, ?_, by decide, rfl, rfl, rfl, rfl⟩
    rw [hEntries, length_append, hLength, hBlock]
    exact Nat.dvd_add h.full_dvd (Nat.dvd_refl 157)
  · have hRoom : part.length + 1 ≠ 157 := hCount
    exact ⟨_, full, part ++ [entry], rfl, rfl, hEntries, h.full_dvd, by omega, h.tocKeys, h.blocks,
      hData, hLength.symm⟩

theorem foldlM_write_spec (xs : List ArchiveGroupEntry) :
    ∃ w' full' part', xs.foldlM (write md5) w = .ok w' ∧ w'.entries = w.entries ++ xs ∧
      Filled md5 w' full' part' := by
  induction xs generalizing w full part with
  | nil => exact ⟨w, full, part, rfl, (append_nil _).symm, h⟩
  | cons x xs ih =>
    obtain ⟨w₁, full₁, part₁, hWrite, hEntries₁, h₁⟩ := write_spec h x
    obtain ⟨w₂, full₂, part₂, hRest, hEntries₂, h₂⟩ := ih h₁
    refine ⟨w₂, full₂, part₂, ?_, ?_, h₂⟩
    · rw [foldlM_cons, hWrite, ok_bind, hRest]
    · rw [hEntries₂, hEntries₁, append_assoc, singleton_append]

theorem finish_of_filled :
    (do let w ← if w.chunkEntryCount > 0 then w.flush md5 else .ok w
        ArchiveGroup.finish md5 w.entries w.tocKeys w.blocks) =
      .ok (ArchiveGroup.written md5 w.entries (chunks 157 w.entries)) := by
  rw [h.chunkEntryCount]
  split_ifs with hPos
  · rw [flush_eq h.full_dvd h.part_lt.le (length_pos_iff.mp hPos) h.entries h.tocKeys h.blocks
      h.chunkData, ok_bind]
    exact ArchiveGroup.finish_eq md5 w.entries _
  · have hEntries := h.entries
    rw [length_eq_zero_iff.mp (by omega : part.length = 0), append_nil] at hEntries
    rw [ok_bind]
    dsimp only
    rw [h.tocKeys, h.blocks, hEntries]
    exact ArchiveGroup.finish_eq md5 full _

end ChunkWriter

theorem buildMerged_eq (md5 : Bytes → Key 16) (archives : List (UInt16 × ArchiveIndex)) :
    let entries := firstOfRuns (·.encodingKey) none
      (merged (·.encodingKey) (archiveEntries archives))
    buildMerged md5 archives = .ok (ArchiveGroup.written md5 entries (chunks 157 entries)) := by
  intro entries
  obtain ⟨w, full, part, hRun, hEntries, h⟩ :=
    ChunkWriter.foldlM_write_spec (ChunkWriter.filled_new md5) entries
  obtain ⟨last, hLoop⟩ := foldlM_emitNew hRun
  rw [buildMerged]
  rw [mergeLoop_eq]
  change ((merged (·.encodingKey) (archiveEntries archives)).foldlM _ _ >>= _) = _
  rw [hLoop, ok_bind]
  have hEnd := ChunkWriter.finish_of_filled h
  rw [hEntries] at hEnd
  exact hEnd

end Cascette.Archive
