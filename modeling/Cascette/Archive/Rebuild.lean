import Cascette.Archive.Builder
import Cascette.Lib.Strides

/-!
# The two writers of an archive index

`ArchiveIndex::build` writes the layout of the footer; `write_to`, the writer behind the generic
format interface, always writes four bytes of offset and 170 records to a block. For an index that
was read the two agree exactly in the cases of `Agree`: no entries, the layout of `write_to`, or a
single entry whose offset field is zero. In those cases, and with a footer hash of eight bytes, the
file is read back (`writeTo_iff`).
-/

namespace Cascette.Archive

open Lib IndexEntry List

namespace IndexEntry

/-! ## Records of one entry in two layouts -/

/-- The key and the size, which every layout starts with. -/
def head (entry : IndexEntry) : Bytes := entry.encodingKey ++ beBytes 4 entry.size.toNat

theorem record_zero (entry : IndexEntry) : entry.record 0 = entry.head ++ [] := rfl

theorem record_four (entry : IndexEntry) :
    entry.record 4 = entry.head ++ beBytes 4 entry.offset.toNat := rfl

theorem beBytes_five (v : Nat) : beBytes 5 v = [UInt8.ofNat (v / 256 ^ 4)] ++ beBytes 4 v := by
  simp [beBytes, leBytes, Nat.div_div_eq_div_mul]

theorem record_five (entry : IndexEntry) :
    entry.record 5 = entry.head ++ [UInt8.ofNat (entry.offset.toNat / 256 ^ 4)] ++
      beBytes 4 entry.offset.toNat := by
  have hRecord : entry.record 5 = entry.head ++ beBytes 5 entry.offset.toNat := rfl
  rw [hRecord, beBytes_five, append_assoc]

variable {entry : IndexEntry}

theorem record_six {archiveIndex : UInt16} (h : entry.archiveIndex = some archiveIndex) :
    entry.record 6 = entry.head ++ beBytes 2 archiveIndex.toNat ++
      beBytes 4 entry.offset.toNat := by
  have hField : entry.writeOffset 6 =
      .ok (beBytes 2 archiveIndex.toNat ++ beBytes 4 entry.offset.toNat) := by
    simp only [writeOffset, h]
    rfl
  rw [record, toBytes, hField, ok_bind]
  change entry.head ++ (beBytes 2 archiveIndex.toNat ++ beBytes 4 entry.offset.toNat) = _
  rw [append_assoc]

variable {keyBytes offsetBytes : UInt8}

theorem isZero_of_record (hSupported : Supported offsetBytes) (h : entry.Holds keyBytes offsetBytes)
    (hZero : entry.record offsetBytes = replicate (recordSize keyBytes offsetBytes) 0) :
    entry.isZero = true := by
  by_contra hNot
  have hDecode := (recordFormat keyBytes offsetBytes hSupported).decode_encode (x := entry)
    ⟨h, by simpa using hNot⟩
  change ofRecord keyBytes 4 offsetBytes (entry.record offsetBytes) = some entry at hDecode
  rw [hZero, ofRecord_zero hSupported] at hDecode
  cases hDecode

/-- With five or six bytes of offset the record keeps the bytes of the record with four. -/
theorem embeds_four (hWide : offsetBytes = 5 ∨ offsetBytes = 6)
    (h : entry.Holds keyBytes offsetBytes) :
    Embeds (entry.record 4) (entry.record offsetBytes) := by
  rcases hWide with rfl | rfl
  · have hEmbeds := embeds_of_append entry.head [UInt8.ofNat (entry.offset.toNat / 256 ^ 4)]
      (beBytes 4 entry.offset.toNat) []
    rwa [append_nil, ← record_five, ← record_four] at hEmbeds
  · obtain ⟨archiveIndex, hArchive⟩ := Option.isSome_iff_exists.mp (h.archive.mpr rfl)
    have hEmbeds := embeds_of_append entry.head (beBytes 2 archiveIndex.toNat)
      (beBytes 4 entry.offset.toNat) []
    rwa [append_nil, ← record_six hArchive, ← record_four] at hEmbeds

theorem embeds_zero (entry : IndexEntry) : Embeds (entry.record 0) (entry.record 4) := by
  have hEmbeds := embeds_of_append entry.head [] [] (beBytes 4 entry.offset.toNat)
  rwa [append_nil, append_nil, ← record_four, ← append_nil entry.head, ← record_zero] at hEmbeds

theorem Holds.offset_eq_zero (h : entry.Holds keyBytes 0) : entry.offset = 0 := by
  have hLt : entry.offset.toNat < 1 := h.offset
  exact UInt64.toNat_inj.mp (by simpa using hLt)

theorem Holds.four (h : entry.Holds keyBytes 0) : entry.Holds keyBytes 4 where
  key := h.key
  offset := by
    rw [h.offset_eq_zero]
    decide
  archive := by
    have hArchive := h.archive
    simp only [show ¬ (0 : UInt8) = 6 by decide, show ¬ (4 : UInt8) = 6 by decide] at hArchive ⊢
    exact hArchive

/-- The offset field says nothing. -/
def Bare (entry : IndexEntry) : Prop := entry.offset = 0 ∧ entry.archiveIndex.getD 0 = 0

/-- A block of one entry is the same in both layouts exactly when its offset field is zero. -/
theorem fill_single_iff (hSupported : Supported offsetBytes)
    (hFour : offsetBytes ≠ 4) (h : entry.Holds keyBytes offsetBytes) {n : Nat}
    (hn : recordSize keyBytes 4 ≤ n ∧ recordSize keyBytes offsetBytes ≤ n) :
    fill n (record 4) [entry] = fill n (record offsetBytes) [entry] ↔ entry.Bare := by
  have hLengthFour : (entry.record 4).length = recordSize keyBytes 4 :=
    record_length (.inr (.inl rfl)) h.key
  have hLength : (entry.record offsetBytes).length = recordSize keyBytes offsetBytes :=
    record_length hSupported h.key
  have hFill (f : IndexEntry → Bytes) : fill n f [entry] = padTo n (f entry) := by simp [fill]
  rw [hFill, hFill]
  rcases hSupported with rfl | rfl | rfl | rfl
  · have hNone : entry.archiveIndex = none := by simpa using h.archive
    have hBare : entry.Bare := ⟨h.offset_eq_zero, by rw [hNone]; rfl⟩
    refine ⟨fun _ => hBare, fun _ => ?_⟩
    have hZeros : beBytes 4 (0 : UInt64).toNat = replicate 4 0 := rfl
    rw [record_four, length_append, beBytes_length] at hLengthFour
    rw [record_four, record_zero, h.offset_eq_zero, hZeros, append_nil]
    exact padTo_append_zeros (by omega)
  · exact absurd rfl hFour
  · have hNone : entry.archiveIndex = none := by simpa using h.archive
    have hOffset : entry.offset.toNat < 256 ^ 5 := h.offset
    rw [record_five] at hLength
    rw [record_four, record_five, padTo_shift_iff (cons_ne_nil _ _) (by omega),
      ← beBytes_five, beBytes_length, beBytes_eq_zeros_iff hOffset, Bare, hNone]
    simp [← UInt64.toNat_inj]
  · obtain ⟨archiveIndex, hArchive⟩ := Option.isSome_iff_exists.mp (h.archive.mpr rfl)
    rw [record_six hArchive] at hLength
    have hNe : beBytes 2 archiveIndex.toNat ≠ [] :=
      ne_nil_of_length_pos (by rw [beBytes_length]; decide)
    have hOffset : entry.offset.toNat < 256 ^ 4 := h.offset
    have hSplit : beBytes 2 archiveIndex.toNat ++ beBytes 4 entry.offset.toNat =
        replicate 2 0 ++ replicate 4 0 ↔
        beBytes 2 archiveIndex.toNat = replicate 2 0 ∧
          beBytes 4 entry.offset.toNat = replicate 4 0 :=
      ⟨fun hEq => append_inj hEq (by simp), fun hEq => by rw [hEq.1, hEq.2]⟩
    rw [record_four, record_six hArchive, padTo_shift_iff hNe (by omega), length_append,
      beBytes_length, beBytes_length, ← replicate_append_replicate, hSplit,
      beBytes_eq_zeros_iff archiveIndex.toNat_lt, beBytes_eq_zeros_iff hOffset, Bare, hArchive]
    simp [← UInt64.toNat_inj, ← UInt16.toNat_inj, and_comm]

end IndexEntry

namespace ArchiveIndex

/-! ## When the blocks are the same -/

/-- The indexes for which the two writers fill the same blocks. -/
def Agree (index : ArchiveIndex) : Prop :=
  index.entries = [] ∨
  (index.footer.offsetBytes = 4 ∧ (index.footer.ekeyLength = 16 ∨ index.entries.length ≤ 170)) ∨
  (index.footer.offsetBytes ≠ 4 ∧ ∃ entry, index.entries = [entry] ∧ entry.Bare)

section Agree

variable {index : ArchiveIndex} (hFormat : index.footer.Format)
  (hEntries : ∀ entry ∈ index.entries,
    entry.Holds index.footer.ekeyLength index.footer.offsetBytes ∧ entry.isZero = false)
  {entry : IndexEntry}

include hEntries in
theorem record_length_four (hEntry : entry ∈ index.entries) :
    (entry.record 4).length = IndexEntry.recordSize index.footer.ekeyLength 4 :=
  record_length (.inr (.inl rfl)) (hEntries entry hEntry).1.key

include hFormat hEntries in
theorem record_length_footer (hEntry : entry ∈ index.entries) :
    (entry.record index.footer.offsetBytes).length =
      IndexEntry.recordSize index.footer.ekeyLength index.footer.offsetBytes :=
  record_length hFormat.offset (hEntries entry hEntry).1.key

include hFormat in
theorem record_fits : IndexEntry.recordSize index.footer.ekeyLength 4 ≤ 4096 ∧
    IndexEntry.recordSize index.footer.ekeyLength index.footer.offsetBytes ≤ 4096 := by
  have hKey := hFormat.ekey_bounds.2
  have hOffset := hFormat.offset_le
  have hFour : (4 : UInt8).toNat = 4 := rfl
  rw [IndexEntry.recordSize, IndexEntry.recordSize, hFour]
  omega

include hFormat hEntries in
theorem record_ne_zero (hEntry : entry ∈ index.entries)
    (hZero : entry.record index.footer.offsetBytes = replicate
      (IndexEntry.recordSize index.footer.ekeyLength index.footer.offsetBytes) 0) : False := by
  obtain ⟨hHolds, hNot⟩ := hEntries entry hEntry
  rw [isZero_of_record hFormat.offset hHolds hZero] at hNot
  cases hNot

include hFormat in
theorem perBlock_eq : index.footer.recordsPerBlock =
    4096 / IndexEntry.recordSize index.footer.ekeyLength index.footer.offsetBytes := by
  rw [IndexFooter.recordsPerBlock, hFormat.blockSize, hFormat.recordSize]

include hFormat in
/-- With four bytes of offset a block has room for 170 records exactly when keys have 16 bytes. -/
theorem perBlock_four (hFour : index.footer.offsetBytes = 4) :
    index.footer.recordsPerBlock = 170 ↔ index.footer.ekeyLength = 16 := by
  have hKey : index.footer.ekeyLength = 16 ↔ index.footer.ekeyLength.toNat = 16 :=
    UInt8.toNat_inj.symm
  have hBounds := hFormat.ekey_bounds
  have hOffset : (4 : UInt8).toNat = 4 := rfl
  rw [perBlock_eq hFormat, IndexEntry.recordSize, hFour, hOffset, hKey]
  generalize index.footer.ekeyLength.toNat = n at hBounds
  obtain ⟨hPos, hLe⟩ := hBounds
  interval_cases n <;> decide

include hFormat in
theorem perBlock_four_le (hFour : index.footer.offsetBytes = 4) :
    170 ≤ index.footer.recordsPerBlock := by
  have hBounds := hFormat.ekey_bounds
  have hOffset : (4 : UInt8).toNat = 4 := rfl
  rw [perBlock_eq hFormat, IndexEntry.recordSize, hFour, hOffset]
  exact (Nat.div_le_div_left (by omega) (by omega) :
    4096 / 24 ≤ 4096 / (index.footer.ekeyLength.toNat + 4 + 4))

variable (hEq : (chunks 170 index.entries).map (fill 4096 (IndexEntry.record 4)) =
  (chunks index.footer.recordsPerBlock index.entries).map
    (fill 4096 (IndexEntry.record index.footer.offsetBytes)))

include hFormat hEntries hEq in
/-- Two or more entries in another layout than that of `write_to` are not written the same. -/
theorem length_lt_two_of_blocks (hFour : index.footer.offsetBytes ≠ 4) :
    index.entries.length < 2 := by
  by_contra hTwo
  have hPer := hFormat.recordsPerBlock_bounds.1
  rcases hFormat.offset with hOffset | hOffset | hWide
  · -- the records of `write_to` are the larger ones
    obtain ⟨entry, hEntry, hZero⟩ := exists_zero_of_blocks
      (fun entry hEntry => record_length_footer hFormat hEntries hEntry)
      (fun entry hEntry => record_length_four hEntries hEntry) (by omega) (by decide) hEq.symm
      (by rw [hOffset, IndexEntry.recordSize, IndexEntry.recordSize]; simp)
      (fun entry hEntry => by rw [hOffset]; exact entry.embeds_zero) (by omega) (by omega)
    obtain ⟨hHolds, hNot⟩ := hEntries entry hEntry
    rw [hOffset] at hHolds
    rw [isZero_of_record (.inr (.inl rfl)) hHolds.four hZero] at hNot
    cases hNot
  · exact hFour hOffset
  · obtain ⟨entry, hEntry, hZero⟩ := exists_zero_of_blocks
      (fun entry hEntry => record_length_four hEntries hEntry)
      (fun entry hEntry => record_length_footer hFormat hEntries hEntry) (by decide) (by omega) hEq
      (by rcases hWide with hWide | hWide <;>
            rw [hWide, IndexEntry.recordSize, IndexEntry.recordSize] <;> simp)
      (fun entry hEntry => embeds_four hWide (hEntries entry hEntry).1) (by omega)
      (by decide)
    exact record_ne_zero hFormat hEntries hEntry hZero

include hFormat hEntries hEq in
theorem agree_of_blocks : index.Agree := by
  have hPer := hFormat.recordsPerBlock_bounds.1
  by_cases hFour : index.footer.offsetBytes = 4
  · refine .inr (.inl ⟨hFour, ?_⟩)
    by_contra hNot
    simp only [not_or, not_le] at hNot
    have hCapacity : 170 ≠ index.footer.recordsPerBlock := fun h =>
      hNot.1 ((perBlock_four hFormat hFour).mp h.symm)
    have hMany : 1 < divCeil index.entries.length 170 := by
      have hBound := (divCeil_mul_bounds (a := index.entries.length) (b := 170) (by decide)).1
      omega
    obtain ⟨entry, hEntry, hZero⟩ := exists_zero_of_capacity
      (fun entry hEntry => record_length_four hEntries hEntry)
      (fun entry hEntry => record_length_footer hFormat hEntries hEntry) (by decide) (by omega) hEq
      (by rw [hFour]) hCapacity hMany
    exact record_ne_zero hFormat hEntries hEntry hZero
  · have hShort := length_lt_two_of_blocks hFormat hEntries hEq hFour
    cases hCases : index.entries with
    | nil => exact .inl hCases
    | cons entry rest =>
      have hRest : rest = [] := by
        rw [hCases, length_cons] at hShort
        exact length_eq_zero_iff.mp (by omega)
      subst hRest
      have hEntry : entry ∈ index.entries := hCases ▸ mem_cons_self
      have hFill := fill_eq_fill hEq (i := 0) (by rw [hCases, length_singleton]; decide)
      rw [Nat.zero_mul, Nat.zero_mul, drop_zero, take_of_length_le (by omega),
        take_of_length_le (by omega), hCases,
        fill_single_iff hFormat.offset hFour (hEntries entry hEntry).1
          (record_fits hFormat)] at hFill
      exact .inr (.inr ⟨hFour, entry, hCases, hFill⟩)

include hFormat hEntries in
theorem blocks_of_agree (h : index.Agree) :
    (chunks 170 index.entries).map (fill 4096 (IndexEntry.record 4)) =
      (chunks index.footer.recordsPerBlock index.entries).map
        (fill 4096 (IndexEntry.record index.footer.offsetBytes)) := by
  have hPer := hFormat.recordsPerBlock_bounds.1
  rcases h with hNil | ⟨hFour, hSame⟩ | ⟨hFour, entry, hSingle, hBare⟩
  · rw [hNil, chunks_nil, chunks_nil]
    rfl
  · rw [hFour]
    rcases hSame with hSixteen | hFew
    · rw [(perBlock_four hFormat hFour).mpr hSixteen]
    · cases hCases : index.entries with
      | nil => rw [chunks_nil, chunks_nil]
      | cons entry rest =>
        have hLarge := perBlock_four_le hFormat hFour
        rw [hCases] at hFew
        rw [chunks_of_length_le hFew (cons_ne_nil _ _),
          chunks_of_length_le (hFew.trans hLarge) (cons_ne_nil _ _)]
  · have hEntry : entry ∈ index.entries := hSingle ▸ mem_cons_self
    rw [hSingle, chunks_of_length_le (by simp) (cons_ne_nil _ _),
      chunks_of_length_le (by rw [length_singleton]; omega) (cons_ne_nil _ _),
      map_singleton, map_singleton]
    congr 1
    exact (fill_single_iff hFormat.offset hFour (hEntries entry hEntry).1
      (record_fits hFormat)).mpr hBare

end Agree

/-! ## Files -/

/-- A file of `c` blocks has the blocks, the hashes, the table of contents and the footer. -/
theorem assemble_length (md5 : Bytes → Key 16) (toc : List Bytes) (f : IndexFooter)
    {blocks : List Bytes} {n : Nat} (hLength : ∀ p ∈ blocks, p.length = n) :
    (assemble toc f (withHashes md5 blocks)).length =
      blocks.length * n + toc.flatten.length + blocks.length * 8 + (20 + f.footerHash.length) := by
  rw [assemble, withHashes_fst, length_append, length_append, length_append,
    withHashes_snd_length, f.write_length, length_flatten hLength]

theorem assemble_inj {md5 : Bytes → Key 16} {toc : List Bytes} {f : IndexFooter}
    {blocks blocks' : List Bytes} {n : Nat} (hLength : ∀ p ∈ blocks, p.length = n)
    (hLength' : ∀ p ∈ blocks', p.length = n)
    (h : assemble toc f (withHashes md5 blocks) = assemble toc f (withHashes md5 blocks')) :
    blocks = blocks' := by
  have hTotal := congrArg List.length h
  rw [assemble_length md5 toc f hLength, assemble_length md5 toc f hLength'] at hTotal
  have hCount : blocks.length = blocks'.length := by
    rcases Nat.lt_trichotomy blocks.length blocks'.length with hLt | hEq | hGt
    · have := Nat.mul_le_mul_right n hLt.le
      omega
    · exact hEq
    · have := Nat.mul_le_mul_right n hGt.le
      omega
  rw [assemble, assemble, withHashes_fst, withHashes_fst] at h
  simp only [append_assoc] at h
  have hFlatten := (append_inj h (by
    rw [length_flatten hLength, length_flatten hLength', hCount])).1
  refine ext_getElem hCount fun i hi hi' => ?_
  rw [← take_drop_flatten hLength hi, ← take_drop_flatten hLength' hi', hFlatten]

section Lengths

variable {index : ArchiveIndex} (hFormat : index.footer.Format)
  (hKeys : ∀ entry ∈ index.entries, entry.encodingKey.length = index.footer.ekeyLength.toNat)

include hFormat hKeys

theorem paddedBlock_lengths :
    ∀ p ∈ (chunks index.footer.recordsPerBlock index.entries).map
      (paddedBlock 4096 index.footer.offsetBytes), p.length = 4096 := by
  intro p hp
  obtain ⟨block, hBlock, rfl⟩ := mem_map.mp hp
  rw [paddedBlock_length hFormat
    (fun entry hEntry => hKeys entry (mem_of_mem_chunks hBlock hEntry))
    (length_le_of_mem_chunks hBlock), hFormat.blockSize]

theorem paddedBlock_lengths_four :
    ∀ p ∈ (chunks 170 index.entries).map (paddedBlock 4096 4), p.length = 4096 := by
  intro p hp
  obtain ⟨block, hBlock, rfl⟩ := mem_map.mp hp
  have hRecords : (block.map (IndexEntry.record 4)).flatten.length =
      block.length * IndexEntry.recordSize index.footer.ekeyLength 4 :=
    length_flatten_map fun entry hEntry =>
      record_length (.inr (.inl rfl)) (hKeys entry (mem_of_mem_chunks hBlock hEntry))
  have hSize : IndexEntry.recordSize index.footer.ekeyLength 4 ≤ 24 := by
    have hKey := hFormat.ekey_bounds.2
    have hFour : (4 : UInt8).toNat = 4 := rfl
    rw [IndexEntry.recordSize, hFour]
    omega
  refine padTo_length ?_
  rw [hRecords]
  exact (Nat.mul_le_mul (length_le_of_mem_chunks hBlock) hSize).trans (by decide)

end Lengths

section Read

variable {md5 : Bytes → Key 16} {data : Bytes} {index : ArchiveIndex}
  (h : parse md5 data = .ok index)

include h

theorem parse_valid : index.Valid md5 := (parse_eq_ok_iff.mp h).1

theorem parse_keys : ∀ entry ∈ index.entries,
    entry.encodingKey.length = index.footer.ekeyLength.toNat :=
  fun _ hEntry => (parse_holds h hEntry).1.key

theorem parse_chunkCount : index.footer.chunkCount =
    divCeil index.entries.length index.footer.recordsPerBlock := by
  obtain ⟨hValid, blocks, hashes, hLayout, -⟩ := parse_eq_ok_iff.mp h
  rw [← hLayout.toc_length, hValid.toc, length_map, chunks_length]

theorem blocks_of_written {written : Bytes} (hWritten : index.writeTo md5 = .ok written)
    (hBuilt : index.build md5 = .ok written) :
    (chunks 170 index.entries).map (fill 4096 (IndexEntry.record 4)) =
      (chunks index.footer.recordsPerBlock index.entries).map
        (fill 4096 (IndexEntry.record index.footer.offsetBytes)) := by
  have hValid := parse_valid h
  rw [writeTo_eq hValid] at hWritten
  rw [build_eq hValid (parse_keys h)] at hBuilt
  exact assemble_inj (paddedBlock_lengths_four hValid.format (parse_keys h))
    (paddedBlock_lengths hValid.format (parse_keys h))
    (Except.ok.inj (hWritten.trans hBuilt.symm))

end Read

/-- For every index that was read: the file of `write_to` is the file of `build` and is read back
as the same entries, exactly when the footer hash has eight bytes and the layouts agree. -/
theorem writeTo_iff {md5 : Bytes → Key 16} {data : Bytes} {index : ArchiveIndex}
    (h : parse md5 data = .ok index) :
    (∃ written, index.writeTo md5 = .ok written ∧ index.build md5 = .ok written ∧
      ∃ index', parse md5 written = .ok index' ∧ index'.entries = index.entries) ↔
      index.footer.footerHash.length = 8 ∧ index.Agree := by
  obtain ⟨hValid, blocks, hashes, hLayout, -⟩ := parse_eq_ok_iff.mp h
  have hFormat := hValid.format
  have hEntries : ∀ entry ∈ index.entries,
      entry.Holds index.footer.ekeyLength index.footer.offsetBytes ∧ entry.isZero = false :=
    fun entry hEntry => parse_holds h hEntry
  constructor
  · rintro ⟨written, hWritten, hBuilt, index', hParse, -⟩
    refine ⟨?_, agree_of_blocks hFormat hEntries (blocks_of_written h hWritten hBuilt)⟩
    rw [build_eq hValid (parse_keys h)] at hBuilt
    rw [← Except.ok.inj hBuilt] at hParse
    have hFooter := parse_footer hLayout.marked hParse
    obtain ⟨-, blocks', hashes', hLayout', -⟩ := parse_eq_ok_iff.mp hParse
    -- the reader computes the size of the file for a hash of eight bytes
    have hTotal := hLayout'.length.1
    have hAssembled := assemble_length md5 index.toc index.footer
      (paddedBlock_lengths hFormat (parse_keys h))
    rw [length_map, chunks_length, ← parse_chunkCount h, hLayout.length.2] at hAssembled
    rw [hFooter, fileBlocks, hAssembled, hFormat.blockSize, Nat.mul_add] at hTotal
    omega
  · rintro ⟨hHash, hAgree⟩
    have hSame : fileBlocks md5 170 4 index.entries =
        fileBlocks md5 index.footer.recordsPerBlock index.footer.offsetBytes index.entries :=
      congrArg (withHashes md5) (blocks_of_agree hFormat hEntries hAgree)
    rw [writeTo_eq hValid, build_eq hValid (parse_keys h), hSame]
    exact ⟨_, rfl, rfl, index, parse_assemble hValid hHash (parse_chunkCount h) hEntries, rfl⟩

theorem writeTo_iff_sample :
    ∃ data index, parse zeroDigest data = .ok index ∧
      ((∃ written, index.writeTo zeroDigest = .ok written ∧
        index.build zeroDigest = .ok written ∧
        ∃ index', parse zeroDigest written = .ok index' ∧ index'.entries = index.entries) ↔
        index.footer.footerHash.length = 8 ∧ index.Agree) := by
  obtain ⟨data, tocHash, -, hRead⟩ := ArchiveIndexBuilder.sampleBuilder_ready.readBack zeroDigest
  exact ⟨data, _, hRead, writeTo_iff hRead⟩

/-- An archive group of two entries. -/
def groupBuilder : ArchiveIndexBuilder :=
  (ArchiveIndexBuilder.withConfig 16 6 4).addEntries
    [⟨List.replicate 16 1, 10, 0, some 0⟩, ⟨List.replicate 16 2, 20, 10, some 1⟩]

theorem groupBuilder_ready : groupBuilder.Ready where
  key_pos := by decide
  key_le := by decide
  offset := .inr (.inr (.inr rfl))
  size := rfl
  hash := rfl
  count := by decide
  entries := by
    refine forall_mem_cons.mpr ⟨?_, forall_mem_singleton.mpr ?_⟩
    · exact ⟨⟨rfl, by decide, by decide⟩, by decide⟩
    · exact ⟨⟨rfl, by decide, by decide⟩, by decide⟩

/-- The writers of an archive group of two entries disagree. -/
theorem writeTo_ne_build :
    ∃ data : (Bytes → Key 16) → Bytes, ∀ md5, ∃ index, parse md5 (data md5) = .ok index ∧
      index.footer.offsetBytes = 6 ∧
      ¬ ∃ written, index.writeTo md5 = .ok written ∧ index.build md5 = .ok written := by
  have hRead (md5 : Bytes → Key 16) : ∃ data index, parse md5 data = .ok index ∧
      index.footer.offsetBytes = 6 ∧
      ¬ ∃ written, index.writeTo md5 = .ok written ∧ index.build md5 = .ok written := by
    obtain ⟨data, tocHash, -, hRead⟩ := groupBuilder_ready.readBack md5
    refine ⟨data, _, hRead, rfl, ?_⟩
    rintro ⟨written, hWritten, hBuilt⟩
    have hShort := length_lt_two_of_blocks (parse_valid hRead).format
      (fun entry hEntry => parse_holds hRead hEntry) (blocks_of_written hRead hWritten hBuilt)
      (by change ¬ (6 : UInt8) = 4; decide)
    have hTwo : groupBuilder.sorted.length = 2 := groupBuilder.sorted_length
    exact absurd hShort (by rw [hTwo]; decide)
  choose data hData using hRead
  exact ⟨data, hData⟩

end ArchiveIndex

end Cascette.Archive
