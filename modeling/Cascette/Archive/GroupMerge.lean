import Cascette.Archive.Group

/-!
# The builder and the merge of archive groups

Both ways to write an archive group write the same entries. They write the same file exactly when
the bytes of the entries fill as many blocks as the entries do (`build_eq_buildMerged_iff`). The
file of the merge is read back as the first entry with every key, as long as the element count can
hold their number and none of them looks like padding (`parse_buildMerged_iff`).
-/

namespace Cascette.Archive

open Lib List ArchiveIndex IndexFooter ArchiveGroupBuilder ArchiveGroup ArchiveGroupEntry

/-! ## The entries of all archives -/

/-- The entries of all archives with the numbers of their archives, archive by archive. -/
def numberedEntries (archives : List (UInt16 × ArchiveIndex)) : List (UInt16 × IndexEntry) :=
  archives.flatMap fun (archiveIndex, index) => index.entries.map (archiveIndex, ·)

/-- The number of different keys in all archives. -/
def distinctKeys (archives : List (UInt16 × ArchiveIndex)) : Nat :=
  ((numberedEntries archives).map (·.2.encodingKey)).dedup.length

def ArchiveGroupBuilder.ofArchives (archives : List (UInt16 × ArchiveIndex)) :
    ArchiveGroupBuilder :=
  archives.foldl (fun builder (archiveIndex, index) => builder.addArchive archiveIndex index) .new

def Sorted (archives : List (UInt16 × ArchiveIndex)) : Prop :=
  ∀ archive ∈ archives, archive.2.entries.Pairwise fun a b => a.encodingKey ≤ b.encodingKey

/-- The keys have sixteen bytes, and the offsets fit four. -/
def Standard (archives : List (UInt16 × ArchiveIndex)) : Prop :=
  ∀ archive ∈ archives, ∀ entry ∈ archive.2.entries,
    entry.encodingKey.length = 16 ∧ entry.offset.toNat < 2 ^ 32

theorem flatten_archiveEntries (archives : List (UInt16 × ArchiveIndex)) :
    (archiveEntries archives).flatten = (numberedEntries archives).map fun pair =>
      .ofArchive pair.1 pair.2 := by
  rw [archiveEntries, numberedEntries, map_flatMap, flatMap_def]
  simp only [map_map]
  rfl

theorem entries_ofArchives (archives : List (UInt16 × ArchiveIndex)) :
    (ArchiveGroupBuilder.ofArchives archives).entries =
      (archiveEntries archives).flatten.foldl (insertNew (·.encodingKey)) [] := by
  have hFold : ∀ (archives : List (UInt16 × ArchiveIndex)) (builder : ArchiveGroupBuilder),
      (archives.foldl (fun builder (archiveIndex, index) =>
        builder.addArchive archiveIndex index) builder).entries =
      (archiveEntries archives).flatten.foldl (insertNew (·.encodingKey)) builder.entries := by
    intro archives
    induction archives with
    | nil => intro builder; rfl
    | cons archive archives ih =>
      intro builder
      have hCons : archiveEntries (archive :: archives) =
          archive.2.entries.map (.ofArchive archive.1) :: archiveEntries archives := rfl
      rw [foldl_cons, ih, hCons, flatten_cons, foldl_append]
      rfl
  exact hFold archives .new

variable {archives : List (UInt16 × ArchiveIndex)} {n : Nat}

theorem firstByKey_archives (h : Sorted archives) :
    FirstByKey (·.encodingKey) (archiveEntries archives).flatten
      (firstOfRuns (·.encodingKey) none (merged (·.encodingKey) (archiveEntries archives))) := by
  refine firstByKey_merged fun source hSource => ?_
  obtain ⟨archive, hArchive, rfl⟩ := mem_map.mp hSource
  exact pairwise_map.mpr (h archive hArchive)

theorem length_archives (h : Sorted archives) :
    (firstOfRuns (·.encodingKey) none
      (merged (·.encodingKey) (archiveEntries archives))).length = distinctKeys archives := by
  rw [(firstByKey_archives h).length_eq, flatten_archiveEntries, map_map, distinctKeys]
  congr!

/-! ## One file or two -/

namespace ArchiveGroup

theorem written_length (md5 : Bytes → Key 16) (entries : List ArchiveGroupEntry)
    (blocks : List (List ArchiveGroupEntry)) :
    (written md5 entries blocks).1.length = blocks.length * 4120 + 28 := by
  have hData : ∀ data ∈ blocks.map chunkData, data.length = 4096 := by
    intro data hData
    obtain ⟨block, -, rfl⟩ := mem_map.mp hData
    exact resize_length 4096 _
  have hToc : (blocks.map fun block => resize 16 (lastKey block)).flatten.length =
      blocks.length * 16 := length_flatten_map fun block _ => resize_length 16 _
  rw [written]
  rw [assemble_length md5 _ _ hData, hToc, length_map]
  change _ + (20 + (IndexFooter.calculateFooterHash md5 _).length) = _
  rw [calculateFooterHash_length]
  omega

theorem written_take_iff (md5 : Bytes → Key 16) {entries : List ArchiveGroupEntry} {c : Nat}
    (h : c ≤ divCeil entries.length 157) :
    (written md5 entries ((chunks 157 entries).take c)).1 =
      (written md5 entries (chunks 157 entries)).1 ↔ c = divCeil entries.length 157 := by
  constructor
  · intro hEq
    have hLength := congrArg List.length hEq
    rw [written_length, written_length, length_take, chunks_length] at hLength
    omega
  · intro hEq
    rw [hEq, ← chunks_length, take_length]

end ArchiveGroup

theorem files_eq (md5 : Bytes → Key 16) (h : Sorted archives) {values : List ArchiveGroupEntry}
    (hValues : values.Perm (ArchiveGroupBuilder.ofArchives archives).entries) :
    ∃ entries, entries.length = distinctKeys archives ∧
      ArchiveGroupBuilder.build md5 values = .ok (ArchiveGroup.written md5 entries
        ((chunks 157 entries).take (divCeil (entries.length * 26) 4096))) ∧
      buildMerged md5 archives = .ok (ArchiveGroup.written md5 entries (chunks 157 entries)) := by
  rw [entries_ofArchives] at hValues
  have hSame := (firstByKey_collected hValues).unique (firstByKey_archives h)
  have hBuild := build_eq md5 values
  rw [hSame] at hBuild
  exact ⟨_, length_archives h, hBuild, buildMerged_eq md5 archives⟩

/-- The builder and the merge write the same file exactly when the number of blocks that the
builder computes from the number of bytes is the number of blocks of 157 entries. -/
theorem build_eq_buildMerged_iff (md5 : Bytes → Key 16)
    {archives : List (UInt16 × ArchiveIndex)} (h : Sorted archives)
    {values : List ArchiveGroupEntry}
    (hValues : values.Perm (ArchiveGroupBuilder.ofArchives archives).entries) :
    ∃ built merged, ArchiveGroupBuilder.build md5 values = .ok built ∧
      buildMerged md5 archives = .ok merged ∧
      (built.1 = merged.1 ↔
        divCeil (distinctKeys archives * 26) 4096 = divCeil (distinctKeys archives) 157) := by
  obtain ⟨entries, hCount, hBuild, hMerged⟩ := files_eq md5 h hValues
  refine ⟨_, _, hBuild, hMerged, ?_⟩
  rw [written_take_iff md5 (chunkCount_le _), hCount]

def archiveOf (entries : List IndexEntry) : ArchiveIndex where
  entries
  toc := []
  footer := IndexFooter.new zeroDigest [] 0

/-- Two archives with a key in common. -/
def sampleArchives : List (UInt16 × ArchiveIndex) :=
  [(4, archiveOf [⟨List.replicate 16 1, 10, 0, none⟩, ⟨List.replicate 16 3, 30, 10, none⟩]),
    (2, archiveOf [⟨List.replicate 16 1, 11, 7, none⟩, ⟨List.replicate 16 2, 20, 18, none⟩])]

theorem sampleArchives_sorted : Sorted sampleArchives := by
  refine forall_mem_cons.mpr ⟨?_, forall_mem_singleton.mpr ?_⟩ <;> exact isSorted_iff.mp (by decide)

theorem build_eq_buildMerged_sample :
    Sorted sampleArchives ∧
    ∃ built merged,
      ArchiveGroupBuilder.build zeroDigest (ArchiveGroupBuilder.ofArchives sampleArchives).entries =
        .ok built ∧
      buildMerged zeroDigest sampleArchives = .ok merged ∧
      (built.1 = merged.1 ↔ divCeil (distinctKeys sampleArchives * 26) 4096 =
        divCeil (distinctKeys sampleArchives) 157) :=
  ⟨sampleArchives_sorted, build_eq_buildMerged_iff zeroDigest sampleArchives_sorted (Perm.refl _)⟩

/-- An archive with the keys up to `n`. -/
def countedArchive (n : Nat) : List (UInt16 × ArchiveIndex) :=
  [(0, archiveOf ((List.range n).map fun i => ⟨beBytes 16 i, 1, 0, none⟩))]

theorem countedArchive_strict (hn : n ≤ 256 ^ 16) :
    ∀ archive ∈ countedArchive n,
      archive.2.entries.Pairwise fun a b => a.encodingKey < b.encodingKey := by
  refine forall_mem_singleton.mpr (pairwise_map.mpr ?_)
  refine pairwise_lt_range.imp_of_mem fun {i j} _ hj hij => ?_
  exact beBytes_lt_beBytes hij ((mem_range.mp hj).trans_le hn)

theorem countedArchive_standard (n : Nat) : Standard (countedArchive n) := by
  refine forall_mem_singleton.mpr fun entry hEntry => ?_
  obtain ⟨i, -, rfl⟩ := mem_map.mp hEntry
  exact ⟨beBytes_length 16 i, (by decide : (0 : UInt64).toNat < 2 ^ 32)⟩

theorem countedArchive_sorted (hn : n ≤ 256 ^ 16) : Sorted (countedArchive n) :=
  fun archive hArchive => (countedArchive_strict hn archive hArchive).imp fun hLt => hLt.le

theorem distinctKeys_countedArchive (hn : n ≤ 256 ^ 16) : distinctKeys (countedArchive n) = n := by
  have hKeys : (numberedEntries (countedArchive n)).map (·.2.encodingKey) =
      (range n).map (beBytes 16) := by
    simp [numberedEntries, countedArchive, archiveOf, Function.comp_def]
  have hNodup : ((range n).map (beBytes 16)).Nodup := by
    refine pairwise_map.mpr (pairwise_lt_range.imp_of_mem fun {i j} _ hj hij => ?_)
    exact (beBytes_lt_beBytes hij ((mem_range.mp hj).trans_le hn)).ne
  rw [distinctKeys, hKeys, hNodup.dedup, length_map, length_range]

/-- With 315 keys the builder computes two blocks, and the last entry is in no block. -/
theorem build_ne_buildMerged :
    ∃ archives : List (UInt16 × ArchiveIndex),
      (∀ archive ∈ archives, archive.2.entries.Pairwise fun a b => a.encodingKey < b.encodingKey) ∧
      Standard archives ∧
      ∀ md5 values, values.Perm (ArchiveGroupBuilder.ofArchives archives).entries →
        ∃ built merged, ArchiveGroupBuilder.build md5 values = .ok built ∧
          buildMerged md5 archives = .ok merged ∧ built.1 ≠ merged.1 := by
  have hn : 315 ≤ 256 ^ 16 := by decide
  refine ⟨countedArchive 315, countedArchive_strict hn, countedArchive_standard 315, ?_⟩
  intro md5 values hValues
  obtain ⟨entries, hCount, hBuild, hMerged⟩ := files_eq md5 (countedArchive_sorted hn) hValues
  refine ⟨_, _, hBuild, hMerged, ?_⟩
  rw [ne_eq, written_take_iff md5 (chunkCount_le _), hCount, distinctKeys_countedArchive hn]
  decide

/-! ## Reading the merge back -/

namespace ArchiveGroupEntry

/-- The entry as it stands in an archive index with fields of six bytes. -/
def toIndex (entry : ArchiveGroupEntry) : IndexEntry where
  encodingKey := entry.encodingKey
  size := entry.size
  offset := entry.offset.toUInt64
  archiveIndex := some entry.archiveIndex

theorem ofArchive_toIndex (entry : ArchiveGroupEntry) :
    ofArchive (entry.toIndex.archiveIndex.getD 0) entry.toIndex = entry := by
  simp [ofArchive, toIndex]

theorem holds_toIndex {entry : ArchiveGroupEntry} (h : entry.encodingKey.length = 16) :
    entry.toIndex.Holds 16 6 where
  key := h
  offset := by
    have hLt := entry.offset.toNat_lt
    have hNat : entry.toIndex.offset.toNat = entry.offset.toNat := by simp [toIndex]
    have hWidth : 256 ^ IndexEntry.offsetWidth 6 = 2 ^ 32 := by decide
    exact hLt
  archive := iff_of_true rfl rfl

theorem toUInt64_toUInt32 {offset : UInt64} (h : offset.toNat < 2 ^ 32) :
    offset.toUInt32.toUInt64 = offset := by
  apply UInt64.toNat_inj.mp
  rw [UInt32.toNat_toUInt64, UInt64.toNat_toUInt32, Nat.mod_eq_of_lt h]

theorem toIndex_ofArchive {entry : IndexEntry} {keyBytes : UInt8} (h : entry.Holds keyBytes 6) :
    (ofArchive (entry.archiveIndex.getD 0) entry).toIndex = entry := by
  obtain ⟨archiveIndex, hSome⟩ := Option.isSome_iff_exists.mp (h.archive.mpr rfl)
  have hOffset := toUInt64_toUInt32 (h.offset : entry.offset.toNat < 2 ^ 32)
  obtain ⟨key, size, offset, _⟩ := entry
  cases hSome
  simp only [ofArchive, toIndex, hOffset, Option.getD_some]

end ArchiveGroupEntry

namespace ArchiveGroup

section ReadBack

variable {entries block : List ArchiveGroupEntry}
  (hKeys : ∀ entry ∈ entries, entry.encodingKey.length = 16)

include hKeys

theorem chunkData_eq (hBlock : block ∈ chunks 157 entries) :
    chunkData block = paddedBlock 4096 6 (block.map ArchiveGroupEntry.toIndex) := by
  have hRecords : (block.map ArchiveGroupEntry.record).flatten.length = block.length * 26 := by
    refine length_flatten_map fun entry hEntry => ?_
    rw [ArchiveGroupEntry.record, ArchiveGroupEntry.combinedOffset, length_append,
      length_append, length_append, beBytes_length, beBytes_length, beBytes_length,
      hKeys entry (mem_of_mem_chunks hBlock hEntry)]
  have hFits := length_le_of_mem_chunks hBlock
  rw [chunkData, resize_of_le (by omega), paddedBlock, map_map]
  rfl

theorem lastKey_eq (hBlock : block ∈ chunks 157 entries) :
    resize 16 (lastKey block) = ArchiveIndex.lastKey (block.map ArchiveGroupEntry.toIndex) := by
  have hNe := ne_nil_of_mem_chunks (by decide) hBlock
  have hLast := getLast?_eq_some_getLast hNe
  have hLength := hKeys _ (mem_of_mem_chunks hBlock (getLast_mem hNe))
  rw [lastKey, ArchiveIndex.lastKey, getLast?_map, hLast]
  change resize 16 (block.getLast hNe).encodingKey = (block.getLast hNe).encodingKey
  rw [resize, padTo, hLength, Nat.sub_self, replicate_zero, append_nil, ← hLength, take_length]

theorem written_eq (md5 : Bytes → Key 16) : ∃ tocHash,
    let index := entries.map ArchiveGroupEntry.toIndex
    (written md5 entries (chunks 157 entries)).1 = ArchiveIndex.assemble
      ((chunks 157 index).map ArchiveIndex.lastKey) (groupFooter md5 tocHash entries.length)
      (ArchiveIndex.fileBlocks md5 157 6 index) := by
  have hToc : ((chunks 157 entries).map fun block => resize 16 (lastKey block)) =
      (chunks 157 (entries.map ArchiveGroupEntry.toIndex)).map ArchiveIndex.lastKey := by
    rw [chunks_map, map_map]
    exact map_congr_left fun block hBlock => lastKey_eq hKeys hBlock
  have hBlocks : (chunks 157 entries).map chunkData =
      (chunks 157 (entries.map ArchiveGroupEntry.toIndex)).map (paddedBlock 4096 6) := by
    rw [chunks_map, map_map]
    exact map_congr_left fun block hBlock => chunkData_eq hKeys hBlock
  rw [written]
  rw [hToc, hBlocks]
  exact ⟨_, rfl⟩

end ReadBack

theorem groupFooter_format (md5 : Bytes → Key 16) (tocHash : Bytes) (n : Nat) :
    (groupFooter md5 tocHash n).Format where
  version := le_refl (1 : UInt8)
  reserved := rfl
  pageSize := rfl
  offset := .inr (.inr (.inr rfl))
  size := rfl
  ekey_pos := (by decide : (16 : UInt8) ≠ 0)
  ekey_le := le_refl (16 : UInt8)
  hashBytes := rfl

theorem groupFooter_perBlock (md5 : Bytes → Key 16) (tocHash : Bytes) (n : Nat) :
    (groupFooter md5 tocHash n).recordsPerBlock = 157 := by
  have hSize : (groupFooter md5 tocHash n).recordSize = 26 := rfl
  rw [IndexFooter.recordsPerBlock, (groupFooter_format md5 tocHash n).blockSize, hSize]

theorem parse_of_index {md5 : Bytes → Key 16} {data : Bytes} {index : ArchiveIndex}
    (h : ArchiveIndex.parse md5 data = .ok index) (hSix : index.footer.offsetBytes = 6) :
    parse md5 data = .ok {
      entries := index.entries.map fun entry => .ofArchive (entry.archiveIndex.getD 0) entry
      footer := index.footer } := by
  rw [parse, h, ok_bind, if_neg (not_not.mpr hSix)]

/-- The file of the merge is read as its entries exactly when the element count holds their number
and none of them has a zero key, a zero size and a zero offset. -/
theorem parse_written_iff (md5 : Bytes → Key 16) {entries : List ArchiveGroupEntry}
    (hKeys : ∀ entry ∈ entries, entry.encodingKey.length = 16)
    (hSorted : entries.Pairwise fun a b => a.encodingKey < b.encodingKey) :
    (∃ group, parse md5 (written md5 entries (chunks 157 entries)).1 = .ok group ∧
      group.entries = entries) ↔
      entries.length < 2 ^ 32 ∧ ∀ entry ∈ entries, entry.toIndex.isZero = false := by
  obtain ⟨tocHash, hWritten⟩ := written_eq hKeys md5
  have hFormat := groupFooter_format md5 tocHash entries.length
  have hPer := groupFooter_perBlock md5 tocHash entries.length
  have hElements : (groupFooter md5 tocHash entries.length).elementCount.toNat =
      entries.length % 2 ^ 32 := UInt32.toNat_ofNat'
  rw [hWritten]
  constructor
  · rintro ⟨group, hParse, hEntries⟩
    obtain ⟨index, hIndex, -⟩ := bind_eq_ok.mp hParse
    have hFooter : index.footer = groupFooter md5 tocHash entries.length :=
      parse_footer (marked_sealed md5 rfl) hIndex
    have hSix : index.footer.offsetBytes = 6 := by rw [hFooter]; rfl
    rw [parse_of_index hIndex hSix] at hParse
    cases hParse
    have hHolds {entry : IndexEntry} (hEntry : entry ∈ index.entries) := parse_holds hIndex hEntry
    rw [hSix] at hHolds
    constructor
    · -- the reader computes the number of blocks from the element count
      have hChunks := parse_chunkCount hIndex
      have hLength := congrArg List.length hEntries
      rw [length_map] at hLength
      rw [hLength, hFooter, hPer, IndexFooter.chunkCount, hPer, hElements] at hChunks
      rw [divCeil, divCeil] at hChunks
      omega
    · intro entry hEntry
      rw [← hEntries] at hEntry
      obtain ⟨read, hRead, rfl⟩ := mem_map.mp hEntry
      rw [toIndex_ofArchive (hHolds hRead).1]
      exact (hHolds hRead).2
  · rintro ⟨hCount, hZero⟩
    have hValid : ArchiveIndex.Valid md5 {
        entries := entries.map ArchiveGroupEntry.toIndex
        toc := (chunks 157 (entries.map ArchiveGroupEntry.toIndex)).map ArchiveIndex.lastKey
        footer := groupFooter md5 tocHash entries.length } := {
      hash := isValid_sealed md5 rfl
      format := hFormat
      sorted := pairwise_map.mpr (hSorted.imp fun hLt => hLt.le)
      toc := by rw [hPer] }
    have hRead := parse_assemble hValid
      (calculateFooterHash_length md5 _)
      (by rw [IndexFooter.chunkCount, hElements, length_map, Nat.mod_eq_of_lt hCount])
      (by
        intro read hRead
        obtain ⟨entry, hEntry, rfl⟩ := mem_map.mp hRead
        exact ⟨holds_toIndex (hKeys entry hEntry), hZero entry hEntry⟩)
    have hSix : (groupFooter md5 tocHash entries.length).offsetBytes = 6 := rfl
    rw [hPer, hSix] at hRead
    refine ⟨_, parse_of_index hRead rfl, ?_⟩
    rw [map_map]
    exact (map_congr_left fun entry _ => entry.ofArchive_toIndex).trans (map_id _)

end ArchiveGroup

/-- The first entry with a key, from the first archive that has one. -/
def firstWithKey (archives : List (UInt16 × ArchiveIndex)) (key : Bytes) :
    Option (UInt16 × IndexEntry) :=
  (numberedEntries archives).find? fun pair => pair.2.encodingKey = key

/-- One entry for every key of the archives, in the order of the keys, with the size, the offset
and the archive number of the first entry with that key. -/
structure MergedFrom (archives : List (UInt16 × ArchiveIndex)) (entries : List ArchiveGroupEntry) :
    Prop where
  sorted : entries.Pairwise fun a b => a.encodingKey < b.encodingKey
  mem : ∀ entry, entry ∈ entries ↔ ∃ pair, firstWithKey archives entry.encodingKey = some pair ∧
    entry.size = pair.2.size ∧ entry.offset.toNat = pair.2.offset.toNat ∧
    entry.archiveIndex = pair.1

section MergedFrom

variable {archives : List (UInt16 × ArchiveIndex)} (h : Standard archives)

include h

variable {key : Bytes} {pair : UInt16 × IndexEntry} {entries : List ArchiveGroupEntry}
  {entry : ArchiveGroupEntry}

variable (hFirst : firstWithKey archives key = some pair)
include hFirst

theorem standard_of_first :
    pair.2.encodingKey = key ∧ pair.2.encodingKey.length = 16 ∧ pair.2.offset.toNat < 2 ^ 32 := by
  obtain ⟨archive, hArchive, hPair⟩ := mem_flatMap.mp (mem_of_find?_eq_some hFirst)
  obtain ⟨entry, hEntry, rfl⟩ := mem_map.mp hPair
  exact ⟨by simpa using find?_some hFirst, h archive hArchive entry hEntry⟩

theorem ofArchive_eq_iff (hKey : entry.encodingKey = key) :
    ArchiveGroupEntry.ofArchive pair.1 pair.2 = entry ↔ entry.size = pair.2.size ∧
      entry.offset.toNat = pair.2.offset.toNat ∧ entry.archiveIndex = pair.1 := by
  obtain ⟨hPairKey, -, hOffset⟩ := standard_of_first h hFirst
  have hNat : pair.2.offset.toUInt32.toNat = pair.2.offset.toNat := by
    rw [UInt64.toNat_toUInt32, Nat.mod_eq_of_lt hOffset]
  constructor
  · rintro rfl
    exact ⟨rfl, hNat, rfl⟩
  · rintro ⟨hSize, hNat', hIndex⟩
    obtain ⟨entryKey, archiveIndex, offset, size⟩ := entry
    dsimp only at hKey hSize hNat' hIndex
    rw [ArchiveGroupEntry.ofArchive, hPairKey, hKey, hSize, hIndex,
      UInt32.toNat_inj.mp (hNat'.trans hNat.symm)]

omit hFirst

theorem firstByKey_iff_mergedFrom :
    FirstByKey (·.encodingKey) (archiveEntries archives).flatten entries ↔
      MergedFrom archives entries := by
  have hMem (entry : ArchiveGroupEntry) :
      ((archiveEntries archives).flatten.find? fun e => e.encodingKey = entry.encodingKey) =
        some entry ↔ ∃ pair, firstWithKey archives entry.encodingKey = some pair ∧
          entry.size = pair.2.size ∧ entry.offset.toNat = pair.2.offset.toNat ∧
          entry.archiveIndex = pair.1 := by
    rw [flatten_archiveEntries, find?_map, Option.map_eq_some_iff]
    exact exists_congr fun pair => and_congr_right fun hFirst => ofArchive_eq_iff h hFirst rfl
  constructor
  · intro hFirst
    refine ⟨hFirst.sorted, fun entry => (hFirst.mem entry).trans ?_⟩
    convert hMem entry
  · intro hMerged
    refine ⟨hMerged.sorted, fun entry => (hMerged.mem entry).trans ?_⟩
    convert (hMem entry).symm

theorem MergedFrom.exists_first (hMerged : MergedFrom archives entries) (hEntry : entry ∈ entries) :
    ∃ pair, firstWithKey archives entry.encodingKey = some pair ∧
      ArchiveGroupEntry.ofArchive pair.1 pair.2 = entry := by
  obtain ⟨pair, hFirst, hFields⟩ := (hMerged.mem entry).mp hEntry
  exact ⟨pair, hFirst, (ofArchive_eq_iff h hFirst rfl).mpr hFields⟩

theorem MergedFrom.mem_of_first (hMerged : MergedFrom archives entries)
    (hFirst : firstWithKey archives key = some pair) :
    ArchiveGroupEntry.ofArchive pair.1 pair.2 ∈ entries := by
  have hKey := (standard_of_first h hFirst).1
  rw [hMerged.mem]
  refine ⟨pair, ?_, (ofArchive_eq_iff h hFirst hKey).mp rfl⟩
  rw [ArchiveGroupEntry.ofArchive, hKey]
  exact hFirst

/-- The entry of the group looks like padding when the entry of the archive does. -/
theorem isZero_toIndex (hFirst : firstWithKey archives key = some pair) :
    (ArchiveGroupEntry.ofArchive pair.1 pair.2).toIndex.isZero = pair.2.isZero := by
  have hOffset := toUInt64_toUInt32 (standard_of_first h hFirst).2.2
  rw [IndexEntry.isZero, IndexEntry.isZero, ArchiveGroupEntry.toIndex, ArchiveGroupEntry.ofArchive,
    hOffset]

theorem buildMerged_mergedFrom (md5 : Bytes → Key 16) (hSorted : Sorted archives) :
    ∃ entries, MergedFrom archives entries ∧ entries.length = distinctKeys archives ∧
      buildMerged md5 archives = .ok (ArchiveGroup.written md5 entries (chunks 157 entries)) :=
  ⟨_, (firstByKey_iff_mergedFrom h).mp (firstByKey_archives hSorted), length_archives hSorted,
    buildMerged_eq md5 archives⟩

theorem parse_mergedFrom_iff (md5 : Bytes → Key 16) (hMerged : MergedFrom archives entries) :
    (∃ parsed, ArchiveGroup.parse md5 (ArchiveGroup.written md5 entries
        (chunks 157 entries)).1 = .ok parsed ∧ MergedFrom archives parsed.entries) ↔
      entries.length < 2 ^ 32 ∧
        ∀ key pair, firstWithKey archives key = some pair → pair.2.isZero = false := by
  have hKeys : ∀ entry ∈ entries, entry.encodingKey.length = 16 := by
    intro entry hEntry
    obtain ⟨pair, hFirst, rfl⟩ := hMerged.exists_first h hEntry
    exact (standard_of_first h hFirst).2.1
  have hUnique {parsed : List ArchiveGroupEntry} :
      MergedFrom archives parsed ↔ parsed = entries := by
    refine ⟨fun hParsed => ?_, fun hEq => hEq ▸ hMerged⟩
    exact ((firstByKey_iff_mergedFrom h).mpr hParsed).unique
      ((firstByKey_iff_mergedFrom h).mpr hMerged)
  have hZero : (∀ entry ∈ entries, entry.toIndex.isZero = false) ↔
      ∀ key pair, firstWithKey archives key = some pair → pair.2.isZero = false := by
    constructor
    · intro hEntries key pair hFirst
      rw [← isZero_toIndex h hFirst]
      exact hEntries _ (hMerged.mem_of_first h hFirst)
    · intro hFirsts entry hEntry
      obtain ⟨pair, hFirst, rfl⟩ := hMerged.exists_first h hEntry
      rw [isZero_toIndex h hFirst]
      exact hFirsts _ pair hFirst
  rw [← hZero, ← parse_written_iff md5 hKeys hMerged.sorted]
  exact exists_congr fun parsed => and_congr_right fun _ => hUnique

end MergedFrom

/-- The file of the merge is read back as the first entry with every key, exactly when there are
fewer than `2 ^ 32` keys and none of these entries has a zero key, a zero size and a zero offset. -/
theorem parse_buildMerged_iff (md5 : Bytes → Key 16) {archives : List (UInt16 × ArchiveIndex)}
    (hSorted : Sorted archives) (hStandard : Standard archives) :
    ∃ data group, buildMerged md5 archives = .ok (data, group) ∧
      ((∃ parsed, ArchiveGroup.parse md5 data = .ok parsed ∧
        MergedFrom archives parsed.entries) ↔
        distinctKeys archives < 2 ^ 32 ∧
          ∀ key pair, firstWithKey archives key = some pair → pair.2.isZero = false) := by
  obtain ⟨entries, hMerged, hCount, hWritten⟩ := buildMerged_mergedFrom hStandard md5 hSorted
  refine ⟨_, _, hWritten, ?_⟩
  rw [← hCount]
  exact parse_mergedFrom_iff hStandard md5 hMerged

theorem sampleArchives_standard : Standard sampleArchives := by
  refine forall_mem_cons.mpr ⟨?_, forall_mem_singleton.mpr ?_⟩ <;>
    refine forall_mem_cons.mpr ⟨?_, forall_mem_singleton.mpr ?_⟩ <;>
    exact ⟨rfl, by decide⟩

theorem parse_buildMerged_sample :
    Sorted sampleArchives ∧ Standard sampleArchives ∧
    ∃ data group, buildMerged zeroDigest sampleArchives = .ok (data, group) ∧
      ((∃ parsed, ArchiveGroup.parse zeroDigest data = .ok parsed ∧
        MergedFrom sampleArchives parsed.entries) ↔
        distinctKeys sampleArchives < 2 ^ 32 ∧
          ∀ key pair, firstWithKey sampleArchives key = some pair → pair.2.isZero = false) :=
  ⟨sampleArchives_sorted, sampleArchives_standard,
    parse_buildMerged_iff zeroDigest sampleArchives_sorted sampleArchives_standard⟩

/-- The archives are sorted, keys and offsets fit and no record is all zeros, but the merge is not
read back. -/
def NotReadBack (archives : List (UInt16 × ArchiveIndex)) : Prop :=
  Sorted archives ∧ Standard archives ∧
  (∀ entry ∈ (archiveEntries archives).flatten, ∃ b ∈ entry.record, b ≠ 0) ∧
  ∀ md5, ∃ data group, buildMerged md5 archives = .ok (data, group) ∧
    ¬ ∃ parsed, ArchiveGroup.parse md5 data = .ok parsed ∧ MergedFrom archives parsed.entries

theorem notReadBack_of (hSorted : Sorted archives) (hStandard : Standard archives)
    (hRecords : ∀ entry ∈ (archiveEntries archives).flatten, ∃ b ∈ entry.record, b ≠ 0)
    (h : ¬ (distinctKeys archives < 2 ^ 32 ∧ ∀ key pair, firstWithKey archives key = some pair →
      pair.2.isZero = false)) :
    NotReadBack archives := by
  refine ⟨hSorted, hStandard, hRecords, fun md5 => ?_⟩
  obtain ⟨entries, hMerged, hCount, hWritten⟩ := buildMerged_mergedFrom hStandard md5 hSorted
  refine ⟨_, _, hWritten, fun hParsed => h ?_⟩
  rw [← hCount]
  exact (parse_mergedFrom_iff hStandard md5 hMerged).mp hParsed

/-- One entry that is not zero only in its archive number. -/
def zeroArchive : List (UInt16 × ArchiveIndex) :=
  [(5, archiveOf [⟨List.replicate 16 0, 0, 0, none⟩])]

theorem zeroArchive_fails : NotReadBack zeroArchive := by
  refine notReadBack_of (forall_mem_singleton.mpr (pairwise_singleton _ _))
    (forall_mem_singleton.mpr (forall_mem_singleton.mpr ⟨rfl, by decide⟩))
    (forall_mem_singleton.mpr ⟨5, by decide, by decide⟩) ?_
  rintro ⟨-, hFirst⟩
  have hZero := hFirst (replicate 16 0) (5, ⟨replicate 16 0, 0, 0, none⟩) rfl
  exact absurd hZero (by decide)

theorem countedArchive_record {entry : ArchiveGroupEntry}
    (hEntry : entry ∈ (archiveEntries (countedArchive n)).flatten) : ∃ b ∈ entry.record, b ≠ 0 := by
  rw [flatten_archiveEntries] at hEntry
  obtain ⟨pair, hPair, rfl⟩ := mem_map.mp hEntry
  obtain ⟨archive, hArchive, hFrom⟩ := mem_flatMap.mp hPair
  rw [mem_singleton.mp hArchive] at hFrom
  obtain ⟨source, hSource, rfl⟩ := mem_map.mp hFrom
  obtain ⟨i, -, rfl⟩ := mem_map.mp hSource
  -- the size is not zero
  refine ⟨1, ?_, by decide⟩
  refine mem_append_left _ (mem_append_right _ ?_)
  exact (by decide : (1 : UInt8) ∈ beBytes 4 (1 : UInt32).toNat)

theorem countedArchive_fails : NotReadBack (countedArchive (2 ^ 32)) := by
  have hn : 2 ^ 32 ≤ 256 ^ 16 := by decide
  refine notReadBack_of (countedArchive_sorted hn) (countedArchive_standard _)
    (fun entry hEntry => countedArchive_record hEntry) ?_
  rw [distinctKeys_countedArchive hn]
  exact fun h => lt_irrefl _ h.1

/-- The merge is not read back when an entry is zero but for its archive number, or when there are
more keys than the element count can hold. -/
theorem parse_buildMerged_fails : NotReadBack zeroArchive ∧ NotReadBack (countedArchive (2 ^ 32)) :=
  ⟨zeroArchive_fails, countedArchive_fails⟩

end Cascette.Archive
