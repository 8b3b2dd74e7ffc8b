import Cascette.Archive.Index

/-!
# What the writers of an archive index write

Every writer cuts its entries into blocks, fills each block with records and pads it. For entries
that the layout holds the blocks are `fileBlocks`, whichever way they were filled; a file put
together from them is read back as the index it was written from (`parse_assemble`).
-/

namespace Cascette.Archive

open Lib List Nat IndexEntry

/-! ## Blocks -/

theorem entryBlocks_eq {perBlock : Nat} (hPer : 0 < perBlock) (entries : List IndexEntry) :
    entryBlocks perBlock entries = .ok (chunks perBlock entries) := by
  rw [entryBlocks, if_neg (by omega), chunks]
  refine congrArg Except.ok (map_congr_left fun i hi => ?_)
  have hi := mem_range.mp hi
  have hBounds := divCeil_mul_bounds (a := entries.length) hPer
  rw [take_eq_take_iff, length_drop]
  split_ifs with hLast
  · -- the last block has room for what is left
    have hMul : divCeil entries.length perBlock * perBlock = i * perBlock + perBlock := by
      rw [← succ_mul]
      congr 1
      omega
    omega
  · omega

def paddedBlock (size : Nat) (offsetBytes : UInt8) (block : List IndexEntry) : Bytes :=
  padTo size (block.map (IndexEntry.record offsetBytes)).flatten

theorem cursorBlock_eq {offsetBytes : UInt8} (hSupported : IndexEntry.Supported offsetBytes)
    (block : List IndexEntry) :
    cursorBlock 4 offsetBytes block = .ok (paddedBlock 4096 offsetBytes block) := by
  rw [cursorBlock, mapM_eq_map fun entry _ => toBytes_eq_record hSupported entry,
    mapError_ok, ok_bind]
  rfl

def withHashes (md5 : Bytes → Key 16) (blocks : List Bytes) : List (Bytes × Bytes) :=
  blocks.map fun block => (block, (md5 block).1.take 8)

theorem withHashes_fst (md5 : Bytes → Key 16) (blocks : List Bytes) :
    (withHashes md5 blocks).map Prod.fst = blocks := by
  rw [withHashes, map_map]
  exact map_id _

theorem withHashes_snd_length (md5 : Bytes → Key 16) (blocks : List Bytes) :
    ((withHashes md5 blocks).map Prod.snd).flatten.length = blocks.length * 8 := by
  rw [length_flatten_map (n := 8), withHashes, length_map]
  rintro ⟨block, hash⟩ hBlock
  obtain ⟨_, -, hEq⟩ := mem_map.mp hBlock
  cases hEq
  exact length_take_of_le (by rw [(md5 block).2]; decide)

theorem calculateBlockHash_eight (md5 : Bytes → Key 16) (block : Bytes) :
    calculateBlockHash md5 block 8 = .ok ((md5 block).1.take 8) := by
  rw [calculateBlockHash, slice_eq (zero_le _) (by rw [(md5 block).2]; decide)]
  rfl

variable {md5 : Bytes → Key 16}

theorem hashedBlocks_eq {blockData : List IndexEntry → Except (Halt ArchiveError) Bytes}
    {g : List IndexEntry → Bytes} {blocks : List (List IndexEntry)}
    (h : ∀ block ∈ blocks, blockData block = .ok (g block)) :
    hashedBlocks md5 8 blockData blocks = .ok (withHashes md5 (blocks.map g)) := by
  rw [hashedBlocks, mapM_eq_map (g := fun block => (g block, (md5 (g block)).1.take 8)), withHashes,
    map_map]
  · rfl
  · intro block hBlock
    rw [h block hBlock, ok_bind, calculateBlockHash_eight, mapError_ok, ok_bind]

namespace ArchiveIndex

variable {f : IndexFooter}

theorem blockData_loop (hFormat : f.Format) :
    ∀ (block : List IndexEntry) (front : Bytes),
      (∀ entry ∈ block, entry.encodingKey.length = f.ekeyLength.toNat) →
      front.length + block.length * f.recordSize ≤ f.blockSize →
      block.foldlM (fun (state : Bytes × Nat) entry => do
        let bytes ← (entry.toBytes f.sizeBytes f.offsetBytes).mapError Halt.error
        let chunkData ← (copyAt state.1 state.2 bytes).mapError Halt.panic
        Except.ok (chunkData, state.2 + f.recordSize)) (padTo f.blockSize front, front.length) =
      .ok (padTo f.blockSize (front ++ (block.map (IndexEntry.record f.offsetBytes)).flatten),
        front.length + block.length * f.recordSize) := by
  intro block
  induction block with
  | nil => intro front _ _; simp; rfl
  | cons entry block ih =>
    intro front hKeys hFits
    have hLength : (entry.record f.offsetBytes).length = f.recordSize := by
      rw [hFormat.recordSize]
      exact record_length hFormat.offset (hKeys entry mem_cons_self)
    rw [length_cons, succ_mul] at hFits
    have hAppend : (front ++ entry.record f.offsetBytes).length = front.length + f.recordSize := by
      rw [length_append, hLength]
    have hTail := ih (front ++ entry.record f.offsetBytes)
      (fun e he => hKeys e (mem_cons_of_mem entry he)) (by rw [hAppend]; omega)
    rw [foldlM_cons, hFormat.size, toBytes_eq_record hFormat.offset, mapError_ok, ok_bind]
    dsimp only
    rw [copyAt_padTo (by omega), mapError_ok, ok_bind, ok_bind, ← hAppend]
    rw [hFormat.size] at hTail
    rw [hTail, hAppend, map_cons, flatten_cons, append_assoc, length_cons, succ_mul]
    congr 2
    omega

variable {block : List IndexEntry}

theorem blockData_eq (hFormat : f.Format)
    (hKeys : ∀ entry ∈ block, entry.encodingKey.length = f.ekeyLength.toNat)
    (hLength : block.length ≤ f.recordsPerBlock) :
    blockData f block = .ok (paddedBlock f.blockSize f.offsetBytes block) := by
  have hFits : block.length * f.recordSize ≤ f.blockSize :=
    (mul_le_mul_right _ hLength).trans (div_mul_le_self _ _)
  have hLoop := blockData_loop hFormat block [] hKeys (by simpa using hFits)
  have hZeros : padTo f.blockSize [] = replicate f.blockSize 0 := by simp [padTo]
  rw [hZeros, length_nil] at hLoop
  rw [blockData]
  change (block.foldlM (fun (state : Bytes × Nat) entry => do
    let bytes ← (entry.toBytes f.sizeBytes f.offsetBytes).mapError Halt.error
    let chunkData ← (copyAt state.1 state.2 bytes).mapError Halt.panic
    Except.ok (chunkData, state.2 + f.recordSize)) (replicate f.blockSize 0, 0) >>= _) = _
  rw [hLoop, ok_bind, nil_append]
  rfl

def fileBlocks (md5 : Bytes → Key 16) (perBlock : Nat) (offsetBytes : UInt8)
    (entries : List IndexEntry) : List (Bytes × Bytes) :=
  withHashes md5 ((chunks perBlock entries).map (paddedBlock 4096 offsetBytes))

section Written

variable {md5 : Bytes → Key 16} {index : ArchiveIndex} (hValid : index.Valid md5)

include hValid

theorem build_eq
    (hKeys : ∀ entry ∈ index.entries, entry.encodingKey.length = index.footer.ekeyLength.toNat) :
    index.build md5 = .ok (assemble index.toc index.footer
      (fileBlocks md5 index.footer.recordsPerBlock index.footer.offsetBytes index.entries)) := by
  have hFormat := hValid.format
  rw [build, hValid.recordsPerBlock_eq, mapError_ok, ok_bind, entryBlocks_eq hValid.perBlock_pos,
    mapError_ok, ok_bind, hFormat.hashBytes,
    hashedBlocks_eq (g := paddedBlock 4096 index.footer.offsetBytes), ok_bind]
  · rfl
  · intro block hBlock
    rw [← hFormat.blockSize]
    exact blockData_eq hFormat (fun entry hEntry => hKeys entry (mem_of_mem_chunks hBlock hEntry))
      (length_le_of_mem_chunks hBlock)

theorem writeTo_eq : index.writeTo md5 = .ok (assemble index.toc index.footer
      (fileBlocks md5 170 4 index.entries)) := by
  rw [writeTo, entryBlocks_eq (by decide), mapError_ok, ok_bind, hValid.format.hashBytes,
    hashedBlocks_eq fun block _ => cursorBlock_eq (.inr (.inl rfl)) block, ok_bind]
  rfl

end Written

/-! ## Reading back -/

section ReadBack

variable {f : IndexFooter} (hFormat : f.Format)

include hFormat

theorem paddedBlock_length (hKeys : ∀ entry ∈ block, entry.encodingKey.length = f.ekeyLength.toNat)
    (hLength : block.length ≤ f.recordsPerBlock) :
    (paddedBlock 4096 f.offsetBytes block).length = f.blockSize := by
  have hRecords : (block.map (IndexEntry.record f.offsetBytes)).flatten.length =
      block.length * f.recordSize := by
    refine length_flatten_map fun entry hEntry => ?_
    rw [hFormat.recordSize]
    exact record_length hFormat.offset (hKeys entry hEntry)
  rw [paddedBlock, ← hFormat.blockSize]
  refine padTo_length ?_
  rw [hRecords]
  exact (mul_le_mul_right _ hLength).trans (div_mul_le_self _ _)

/-- The entries of blocks that were written are the entries they were written from. -/
theorem sectionEntries_written {entries : List IndexEntry}
    (h : ∀ entry ∈ entries, entry.Holds f.ekeyLength f.offsetBytes ∧ entry.isZero = false)
    (hCount : f.chunkCount = divCeil entries.length f.recordsPerBlock) :
    sectionEntries f ((chunks f.recordsPerBlock entries).map
      (paddedBlock 4096 f.offsetBytes)).flatten = entries := by
  have hPer := hFormat.recordsPerBlock_bounds.1
  have hLengths : ∀ p ∈ (chunks f.recordsPerBlock entries).map (paddedBlock 4096 f.offsetBytes),
      p.length = f.blockSize := by
    intro p hp
    obtain ⟨block, hBlock, rfl⟩ := mem_map.mp hp
    exact paddedBlock_length hFormat
      (fun entry hEntry => (h entry (mem_of_mem_chunks hBlock hEntry)).1.key)
      (length_le_of_mem_chunks hBlock)
  have hBlocks : ((range f.chunkCount).map fun i => blockEntries f
      ((((chunks f.recordsPerBlock entries).map (paddedBlock 4096 f.offsetBytes)).flatten.drop
        (i * f.blockSize)).take f.blockSize)) = chunks f.recordsPerBlock entries := by
    refine ext_getElem (by rw [length_map, length_range, chunks_length, hCount]) fun i hi hi' => ?_
    rw [getElem_map, getElem_range, take_drop_flatten hLengths (by simpa using hi'), getElem_map]
    rw [blockEntries_eq hFormat]
    exact (records hFormat).readRecords_encoded (fun entry hEntry =>
      h entry (mem_of_mem_chunks (getElem_mem hi') hEntry)) ((records hFormat).stops_zero _)
  rw [sectionEntries, hBlocks, flatten_chunks (by omega)]

end ReadBack

/-- A file that was put together from the blocks of a valid index is read as that index. -/
theorem parse_assemble {index : ArchiveIndex} (hValid : index.Valid md5)
    (hHash : index.footer.footerHash.length = 8)
    (hCount : index.footer.chunkCount = divCeil index.entries.length index.footer.recordsPerBlock)
    (hEntries : ∀ entry ∈ index.entries,
      entry.Holds index.footer.ekeyLength index.footer.offsetBytes ∧ entry.isZero = false) :
    parse md5 (assemble index.toc index.footer (fileBlocks md5 index.footer.recordsPerBlock
      index.footer.offsetBytes index.entries)) = .ok index := by
  have hFormat := hValid.format
  have hTocKey : ∀ key ∈ index.toc, key.length = index.footer.ekeyLength.toNat := by
    intro key hKey
    obtain ⟨entry, hEntry, rfl⟩ := hValid.exists_of_mem_toc hKey
    exact (hEntries entry hEntry).1.key
  have hData : (fileBlocks md5 index.footer.recordsPerBlock index.footer.offsetBytes
      index.entries).map Prod.fst = (chunks index.footer.recordsPerBlock index.entries).map
        (paddedBlock 4096 index.footer.offsetBytes) := withHashes_fst md5 _
  refine parse_eq_ok_iff.mpr ⟨hValid, _, _, {
    eq := rfl
    marked := IndexFooter.marked_of_length hHash hFormat.hashBytes
    blocks_length := ?_
    hashes_length := ?_
    toc_length := by rw [hValid.toc, length_map, chunks_length, hCount]
    toc_key := hTocKey }, ?_⟩
  · rw [hData, length_flatten_map (n := index.footer.blockSize), chunks_length, hHash, hCount]
    intro block hBlock
    exact paddedBlock_length hFormat
      (fun entry hEntry => (hEntries entry (mem_of_mem_chunks hBlock hEntry)).1.key)
      (length_le_of_mem_chunks hBlock)
  · rw [fileBlocks, withHashes_snd_length, length_map, chunks_length, hCount]
  · rw [hData, sectionEntries_written hFormat hEntries hCount]

end ArchiveIndex

end Cascette.Archive
