import Cascette.Archive.Index
import Cascette.Lib.Paging

/-!
# Searching an archive index

A key is looked up in two levels: in the last keys of the blocks, and then in the block found. The
table of contents is compared on the length that the two keys share, the entries of a block on the
whole key. When the keys of the entries have one length, as they have in every index that was
read, this finds what a scan for the exact key finds (`find_eq_scan`).
-/

namespace Cascette.Archive

open Lib List Option IndexFooter

/-- Comparison on the length that both keys have. -/
def compareShared (a b : Bytes) : Ordering :=
  let compareLen := min a.length b.length
  compare (a.take compareLen) (b.take compareLen)

/-- The block that may hold a key. -/
def findChunk (toc : List Bytes) (searchKey : Bytes) : Option Nat :=
  match binarySearchBy (fun tocKey => compareShared tocKey searchKey) toc with
  | .ok i => some i
  | .error i => if toc.length ≤ i then none else some i

namespace ArchiveIndex

/-- The position of the entry that the search finds. -/
def searchPosition (index : ArchiveIndex) (searchKey : Bytes) : Checked (Option Nat) := do
  let perBlock ← index.recordsPerBlock
  match findChunk index.toc searchKey with
  | none => .ok none
  | some chunkIdx => do
    let chunkStart := chunkIdx * perBlock
    let chunkEnd := min (chunkStart + perBlock) index.entries.length
    let chunkEntries ← slice index.entries chunkStart chunkEnd
    match binarySearchBy (fun e => compare e.encodingKey searchKey) chunkEntries with
    | .ok i => .ok (some (chunkStart + i))
    | .error _ => .ok none

def findEntry (index : ArchiveIndex) (encodingKey : Bytes) : Checked (Option IndexEntry) := do
  match ← index.searchPosition encodingKey with
  | none => .ok none
  | some pos => do
    let entry ← getAt index.entries pos
    .ok (some entry)

/-- The scan backwards from a match: where the run of equal keys starts. -/
def startOfRun (entries : List IndexEntry) (searchKey : Bytes) : Nat → Nat
  | 0 => 0
  | pos + 1 =>
    if (entries[pos]?).map (·.encodingKey) = some searchKey then startOfRun entries searchKey pos
    else pos + 1

def findAllEntries (index : ArchiveIndex) (encodingKey : Bytes) : Checked (List IndexEntry) := do
  match ← index.searchPosition encodingKey with
  | none => .ok []
  | some pos =>
    let startPos := startOfRun index.entries encodingKey pos
    .ok ((index.entries.drop startPos).takeWhile fun entry => entry.encodingKey = encodingKey)

/-! ## The table of contents -/

/-- The entries have keys of one length. -/
def KeyLength (index : ArchiveIndex) (n : Nat) : Prop :=
  ∀ entry ∈ index.entries, entry.encodingKey.length = n

theorem compareShared_eq {a b : Bytes} (h : a.length = b.length) :
    compareShared a b = compare a b := by
  rw [compareShared, ← h, Nat.min_self, take_length, h, take_length]

variable {searchKey : Bytes} {i : Nat}

theorem findChunk_lt {toc : List Bytes} (h : findChunk toc searchKey = some i) :
    i < toc.length := by
  unfold findChunk at h
  cases hSearch : binarySearchBy (fun tocKey => compareShared tocKey searchKey) toc with
  | ok j =>
    rw [hSearch] at h
    cases h
    exact (binarySearchBy_ok hSearch).1
  | error j =>
    rw [hSearch] at h
    dsimp only at h
    split at h
    · cases h
    · cases h
      omega

section Search

variable {md5 : Bytes → Key 16} {index : ArchiveIndex} (hValid : index.Valid md5)

include hValid

theorem Valid.endedBy : Forall₂ (EndedBy IndexEntry.encodingKey) index.toc
    (chunks index.footer.recordsPerBlock index.entries) := by
  rw [hValid.toc, forall₂_map_left_iff, forall₂_same]
  intro block hBlock
  obtain ⟨entry, -, hLast, hKey⟩ :=
    lastKey_of_ne_nil (ne_nil_of_mem_chunks hValid.perBlock_pos hBlock)
  exact ⟨entry, hLast, hKey.symm⟩

variable {n : Nat}

/-- The keys of the table of contents have the length of the keys of the entries. -/
theorem Valid.toc_length (hKeys : index.KeyLength n) {key : Bytes} (hKey : key ∈ index.toc) :
    key.length = n := by
  obtain ⟨entry, hEntry, rfl⟩ := hValid.exists_of_mem_toc hKey
  exact hKeys entry hEntry

/-- For a key of the length of the index, the table of contents leads to a block that holds the key
if any block does. -/
theorem Valid.findChunk_spec (hKeys : index.KeyLength n) {searchKey : Bytes}
    (hLength : searchKey.length = n) :
    match findChunk index.toc searchKey with
    | none => ∀ entry ∈ index.entries, entry.encodingKey ≠ searchKey
    | some i => ∃ block, (chunks index.footer.recordsPerBlock index.entries)[i]? = some block ∧
        ((∃ entry ∈ index.entries, entry.encodingKey = searchKey) →
          ∃ entry ∈ block, entry.encodingKey = searchKey) := by
  have hCompare : binarySearchBy (fun tocKey => compareShared tocKey searchKey) index.toc =
      binarySearchBy (fun tocKey => compare tocKey searchKey) index.toc :=
    binarySearchBy_congr fun tocKey hMem =>
      compareShared_eq ((hValid.toc_length hKeys hMem).trans hLength.symm)
  have hSearch := search_last hValid.endedBy
    (by rw [flatten_chunks hValid.perBlock_pos]; exact hValid.sorted) searchKey
  rw [flatten_chunks hValid.perBlock_pos] at hSearch
  unfold findChunk
  rw [hCompare]
  cases hResult : binarySearchBy (fun tocKey => compare tocKey searchKey) index.toc with
  | ok i =>
    rw [hResult] at hSearch
    obtain ⟨block, hBlock, hMem⟩ := hSearch
    exact ⟨block, hBlock, fun _ => hMem⟩
  | error i =>
    rw [hResult] at hSearch
    dsimp only at hSearch ⊢
    split at hSearch
    · rw [if_neg (by omega)]
      exact hSearch
    · rw [if_pos (by omega)]
      exact hSearch

theorem Valid.slice_eq_block (hi : i < index.toc.length) :
    slice index.entries (i * index.footer.recordsPerBlock)
        (min (i * index.footer.recordsPerBlock + index.footer.recordsPerBlock)
          index.entries.length) =
      .ok ((index.entries.drop (i * index.footer.recordsPerBlock)).take
        index.footer.recordsPerBlock) ∧
    (chunks index.footer.recordsPerBlock index.entries)[i]? =
      some ((index.entries.drop (i * index.footer.recordsPerBlock)).take
        index.footer.recordsPerBlock) := by
  rw [hValid.toc, length_map, chunks_length] at hi
  have hLt := lt_of_lt_divCeil hValid.perBlock_pos hi
  refine ⟨?_, getElem?_chunks hi⟩
  rw [slice_eq (by omega) (by omega), drop_take, Except.ok.injEq, take_eq_take_iff, length_drop]
  omega

theorem Valid.searchPosition_spec (hKeys : index.KeyLength n) (searchKey : Bytes) :
    Returns (index.searchPosition searchKey) fun found =>
      match found with
      | none => ∀ entry ∈ index.entries, entry.encodingKey ≠ searchKey
      | some pos => (index.entries[pos]?).map (·.encodingKey) = some searchKey := by
  rw [searchPosition, hValid.recordsPerBlock_eq, ok_bind]
  -- a key of another length is not in the index, wherever the table of contents leads
  have hOther (hLength : searchKey.length ≠ n) :
      ∀ entry ∈ index.entries, entry.encodingKey ≠ searchKey := by
    rintro entry hEntry rfl
    exact hLength (hKeys entry hEntry)
  cases hChunk : findChunk index.toc searchKey with
  | none =>
    refine returns_ok ?_
    by_cases hLength : searchKey.length = n
    · have hSpec := hValid.findChunk_spec hKeys hLength
      rwa [hChunk] at hSpec
    · exact hOther hLength
  | some i =>
    obtain ⟨hSlice, hBlock⟩ := hValid.slice_eq_block (findChunk_lt hChunk)
    dsimp only
    rw [hSlice, ok_bind]
    set block := (index.entries.drop (i * index.footer.recordsPerBlock)).take
      index.footer.recordsPerBlock with hBlockDef
    have hSorted : block.Pairwise fun a b => a.encodingKey ≤ b.encodingKey :=
      hValid.sorted.sublist ((take_sublist _ _).trans (drop_sublist _ _))
    cases hSearch : binarySearchBy (fun e => compare e.encodingKey searchKey) block with
    | ok j =>
      obtain ⟨hj, hEq⟩ := binarySearchBy_ok hSearch
      refine returns_ok ?_
      have hGet : index.entries[i * index.footer.recordsPerBlock + j]? = some block[j] := by
        rw [← getElem?_drop, ← getElem?_eq_getElem hj, hBlockDef, getElem?_take,
          if_pos (by rw [hBlockDef, length_take] at hj; omega)]
      dsimp only
      rw [hGet, map_some, compare_eq_iff_eq.mp hEq]
    | error j =>
      refine returns_ok ?_
      by_cases hLength : searchKey.length = n
      · have hSpec := hValid.findChunk_spec hKeys hLength
        rw [hChunk] at hSpec
        obtain ⟨block', hBlock', hMem⟩ := hSpec
        rw [hBlock] at hBlock'
        cases hBlock'
        intro entry hEntry hKey
        obtain ⟨entry', hEntry', hKey'⟩ := hMem ⟨entry, hEntry, hKey⟩
        exact binarySearchBy_error_ne (ascending_of_sorted hSorted searchKey) hSearch entry' hEntry'
          (compare_eq_iff_eq.mpr hKey')
      · exact hOther hLength

end Search

/-! ## Runs of equal keys -/

variable {entries : List IndexEntry}

theorem startOfRun_spec :
    ∀ pos, (entries[pos]?).map (·.encodingKey) = some searchKey →
      (entries[startOfRun entries searchKey pos]?).map (·.encodingKey) = some searchKey ∧
      ∀ j, j + 1 = startOfRun entries searchKey pos →
        (entries[j]?).map (·.encodingKey) ≠ some searchKey := by
  intro pos
  induction pos with
  | zero => exact fun h => ⟨h, fun j hj => absurd hj (Nat.succ_ne_zero j)⟩
  | succ pos ih =>
    intro h
    rw [startOfRun]
    split_ifs with hPrev
    · exact ih hPrev
    · refine ⟨h, fun j hj => ?_⟩
      rwa [Nat.succ.inj hj]

/-- From the start of a run on, the entries with the key are all that the index has. -/
theorem run_eq_filter
    (hSorted : entries.Pairwise fun a b => a.encodingKey ≤ b.encodingKey) {pos : Nat}
    (hPos : (entries[pos]?).map (·.encodingKey) = some searchKey) :
    ((entries.drop (startOfRun entries searchKey pos)).takeWhile
        fun entry => entry.encodingKey = searchKey) =
      entries.filter fun entry => entry.encodingKey = searchKey := by
  obtain ⟨hAt, hBefore⟩ := startOfRun_spec pos hPos
  generalize startOfRun entries searchKey pos = start at hAt hBefore
  obtain ⟨first, hFirst, hKey⟩ := map_eq_some_iff.mp hAt
  obtain ⟨hStart, rfl⟩ := List.getElem?_eq_some_iff.mp hFirst
  have hOrder := List.pairwise_iff_getElem.mp hSorted
  have hFront : (entries.take start).filter (fun entry => entry.encodingKey = searchKey) = [] := by
    rw [filter_eq_nil_iff]
    intro entry hEntry hMatch
    obtain ⟨j, hj, rfl⟩ := mem_iff_getElem.mp hEntry
    rw [length_take] at hj
    rw [getElem_take, decide_eq_true_eq] at hMatch
    obtain ⟨prev, rfl⟩ : ∃ prev, start = prev + 1 := ⟨start - 1, by omega⟩
    -- the entry before the run lies between two entries with the key
    refine hBefore prev rfl ?_
    rw [getElem?_eq_getElem (by omega), map_some]
    congr 1
    apply le_antisymm
    · rw [← hKey]
      exact hOrder prev (prev + 1) (by omega) hStart (by omega)
    · rw [← hMatch]
      rcases Nat.lt_or_ge j prev with hLt | hGe
      · exact hOrder j prev (by omega) (by omega) hLt
      · have : j = prev := by omega
        subst this
        exact le_rfl
  have hBack : ∀ entry ∈ entries.drop start, searchKey ≤ entry.encodingKey := by
    intro entry hEntry
    obtain ⟨j, hj, rfl⟩ := mem_iff_getElem.mp hEntry
    rw [length_drop] at hj
    rw [getElem_drop, ← hKey]
    rcases Nat.eq_zero_or_pos j with rfl | hPos
    · exact le_rfl
    · exact hOrder start (start + j) hStart (by omega) (by omega)
  rw [takeWhile_eq_filter (hSorted.sublist (drop_sublist _ _)) hBack]
  conv_rhs => rw [← take_append_drop start entries, filter_append, hFront, nil_append]

section Find

variable {md5 : Bytes → Key 16} {index : ArchiveIndex} (hValid : index.Valid md5) {n : Nat}
  (hKeys : index.KeyLength n) (searchKey : Bytes)

include hValid hKeys

theorem Valid.findEntry_scan : ∃ found, index.findEntry searchKey = .ok found ∧
    (found.isSome ↔ ∃ entry ∈ index.entries, entry.encodingKey = searchKey) ∧
    ∀ entry, found = some entry → entry ∈ index.entries ∧ entry.encodingKey = searchKey := by
  obtain ⟨found, hSearch, hFound⟩ := hValid.searchPosition_spec hKeys searchKey
  cases found with
  | none =>
    refine ⟨none, by rw [findEntry, hSearch, ok_bind], ?_, fun _ h => (by cases h)⟩
    simp only [isSome_none, Bool.false_eq_true, false_iff, not_exists, not_and]
    exact hFound
  | some pos =>
    obtain ⟨entry, hEntry, hKey⟩ := map_eq_some_iff.mp hFound
    have hMem := mem_of_getElem? hEntry
    refine ⟨some entry, ?_, ?_, ?_⟩
    · rw [findEntry, hSearch, ok_bind]
      dsimp only
      rw [getAt, hEntry, ok_bind]
    · simp only [isSome_some, true_iff]
      exact ⟨entry, hMem, hKey⟩
    · rintro entry' h
      cases h
      exact ⟨hMem, hKey⟩

theorem Valid.findAllEntries_scan : index.findAllEntries searchKey =
    .ok (index.entries.filter fun entry => entry.encodingKey = searchKey) := by
  obtain ⟨found, hSearch, hFound⟩ := hValid.searchPosition_spec hKeys searchKey
  rw [findAllEntries, hSearch, ok_bind]
  cases found with
  | none => simpa using hFound
  | some pos =>
    dsimp only
    rw [run_eq_filter hValid.sorted hFound]

end Find

/-- In every index that passes validation and whose entries have keys of one length, the search
answers for the exact key, and finding all entries is filtering by it. -/
theorem find_eq_scan {md5 : Bytes → Key 16} {index : ArchiveIndex}
    (hValid : index.validate md5 = .ok ())
    (hKeys : ∀ a ∈ index.entries, ∀ b ∈ index.entries,
      a.encodingKey.length = b.encodingKey.length) (searchKey : Bytes) :
    (∃ found, index.findEntry searchKey = .ok found ∧
      (found.isSome ↔ ∃ entry ∈ index.entries, entry.encodingKey = searchKey) ∧
      ∀ entry, found = some entry → entry ∈ index.entries ∧ entry.encodingKey = searchKey) ∧
    index.findAllEntries searchKey =
      .ok (index.entries.filter fun entry => entry.encodingKey = searchKey) := by
  rw [validate_eq_ok_iff] at hValid
  obtain ⟨n, hn⟩ : ∃ n, index.KeyLength n := by
    cases hEntries : index.entries with
    | nil => exact ⟨0, fun entry hEntry => absurd (hEntries ▸ hEntry) not_mem_nil⟩
    | cons first rest =>
      refine ⟨first.encodingKey.length, fun entry hEntry => hKeys entry hEntry first ?_⟩
      rw [hEntries]
      exact mem_cons_self
  exact ⟨hValid.findEntry_scan hn searchKey, hValid.findAllEntries_scan hn searchKey⟩

/-- Two entries in the standard layout. -/
def sampleEntries : List IndexEntry :=
  [⟨List.replicate 16 1, 10, 0, none⟩, ⟨List.replicate 16 2, 20, 10, none⟩]

def sampleIndex (md5 : Bytes → Key 16) : ArchiveIndex where
  entries := sampleEntries
  toc := [List.replicate 16 2]
  footer := IndexFooter.new md5 [] 2

variable (md5 : Bytes → Key 16)

theorem sampleIndex_format : (sampleIndex md5).footer.Format := validateFormat_eq_ok_iff.mp rfl

theorem sampleIndex_valid : (sampleIndex md5).Valid md5 where
  hash := isValid_sealed md5 rfl
  format := sampleIndex_format md5
  sorted := isSorted_iff.mp (by decide : isSorted sampleEntries = true)
  toc := by
    have hSize : (sampleIndex md5).footer.recordSize = 24 := rfl
    rw [IndexFooter.recordsPerBlock, (sampleIndex_format md5).blockSize, hSize]
    exact (by decide : [replicate 16 2] = (chunks (4096 / 24) sampleEntries).map lastKey)

theorem find_eq_scan_sample :
    (sampleIndex zeroDigest).validate zeroDigest = .ok () ∧
    (∃ found, (sampleIndex zeroDigest).findEntry (List.replicate 16 2) = .ok found ∧
      (found.isSome ↔ ∃ entry ∈ (sampleIndex zeroDigest).entries,
        entry.encodingKey = List.replicate 16 2) ∧
      ∀ entry, found = some entry → entry ∈ (sampleIndex zeroDigest).entries ∧
        entry.encodingKey = List.replicate 16 2) ∧
    (sampleIndex zeroDigest).findAllEntries (List.replicate 16 2) =
      .ok ((sampleIndex zeroDigest).entries.filter
        fun entry => entry.encodingKey = List.replicate 16 2) := by
  have hValid := validate_eq_ok_iff.mpr (sampleIndex_valid zeroDigest)
  exact ⟨hValid, find_eq_scan hValid (by decide) _⟩

/-- Keys of different lengths: a full block of the key `[97]`, and a second block that holds the
longer key `[97, 98]`. -/
def mixedEntries : List IndexEntry :=
  List.replicate 157 ⟨[97], 1, 0, some 0⟩ ++ [⟨[97, 98], 1, 0, some 0⟩, ⟨[99], 1, 0, some 0⟩]

def mixedIndex (md5 : Bytes → Key 16) : ArchiveIndex where
  entries := mixedEntries
  toc := [[97], [99]]
  footer := IndexFooter.sealed md5 { IndexFooter.new md5 [] 159 with offsetBytes := 6 }

theorem mixedIndex_format : (mixedIndex md5).footer.Format := validateFormat_eq_ok_iff.mp rfl

theorem mixedIndex_perBlock : (mixedIndex md5).footer.recordsPerBlock = 157 := by
  have hSize : (mixedIndex md5).footer.recordSize = 26 := rfl
  rw [IndexFooter.recordsPerBlock, (mixedIndex_format md5).blockSize, hSize]

theorem mixedIndex_validate : (mixedIndex md5).validate md5 = .ok () := by
  refine validate_eq_ok_iff.mpr {
    hash := isValid_sealed md5 rfl
    format := mixedIndex_format md5
    sorted := isSorted_iff.mp (by decide +kernel : isSorted mixedEntries = true)
    toc := ?_ }
  rw [mixedIndex_perBlock]
  exact (by decide +kernel : [[97], [99]] = (chunks 157 mixedEntries).map lastKey)

theorem mixedIndex_findEntry : (mixedIndex md5).findEntry [97, 98] = .ok none := by
  have hPer : (mixedIndex md5).recordsPerBlock = .ok 157 := by
    rw [← mixedIndex_perBlock md5]
    exact (validate_eq_ok_iff.mp (mixedIndex_validate md5)).recordsPerBlock_eq
  have hChunk : findChunk (mixedIndex md5).toc [97, 98] = some 0 :=
    (by decide +kernel : findChunk [[97], [99]] [97, 98] = some 0)
  have hSlice : slice (mixedIndex md5).entries (0 * 157)
      (min (0 * 157 + 157) (mixedIndex md5).entries.length) =
      .ok (replicate 157 ⟨[97], 1, 0, some 0⟩) :=
    (by decide +kernel : slice mixedEntries (0 * 157) (min (0 * 157 + 157) mixedEntries.length) =
      .ok (replicate 157 ⟨[97], 1, 0, some 0⟩))
  have hSearch : binarySearchBy (fun e : IndexEntry => compare e.encodingKey [97, 98])
      (replicate 157 ⟨[97], 1, 0, some 0⟩) = .error 157 := by decide +kernel
  rw [findEntry, searchPosition, hPer, ok_bind, hChunk]
  dsimp only
  rw [hSlice, ok_bind, hSearch]
  rfl

/-- A search key that is only a part of a stored key is not found, although both agree on the
length they share; and among keys of different lengths the table of contents can lead to a block
before the one that holds the key. -/
theorem find_misses :
    (∃ index : (Bytes → Key 16) → ArchiveIndex, ∃ searchKey : Bytes, ∀ md5,
      (index md5).validate md5 = .ok () ∧
      (∃ entry ∈ (index md5).entries, compareShared entry.encodingKey searchKey = .eq) ∧
      (index md5).findEntry searchKey = .ok none ∧
      (index md5).findAllEntries searchKey = .ok []) ∧
    ∃ index : (Bytes → Key 16) → ArchiveIndex, ∃ searchKey : Bytes, ∀ md5,
      (index md5).validate md5 = .ok () ∧
      (∃ entry ∈ (index md5).entries, entry.encodingKey = searchKey) ∧
      (index md5).findEntry searchKey = .ok none := by
  refine ⟨⟨sampleIndex, [1], fun md5 => ?_⟩, mixedIndex, [97, 98], fun md5 => ?_⟩
  · have hValid := sampleIndex_valid md5
    have hLength : (sampleIndex md5).KeyLength 16 :=
      (by decide : ∀ entry ∈ sampleEntries, entry.encodingKey.length = 16)
    have hNone : ∀ entry ∈ (sampleIndex md5).entries, entry.encodingKey ≠ [1] :=
      (by decide : ∀ entry ∈ sampleEntries, entry.encodingKey ≠ [1])
    obtain ⟨found, hSearch, hFound⟩ := hValid.searchPosition_spec hLength [1]
    have hMiss : found = none := by
      cases found with
      | none => rfl
      | some pos =>
        obtain ⟨entry, hEntry, hKey⟩ := map_eq_some_iff.mp hFound
        exact absurd hKey (hNone entry (mem_of_getElem? hEntry))
    rw [hMiss] at hSearch
    refine ⟨validate_eq_ok_iff.mpr hValid, ⟨⟨replicate 16 1, 10, 0, none⟩, ?_, ?_⟩, ?_, ?_⟩
    · exact mem_cons_self
    · decide
    · rw [findEntry, hSearch, ok_bind]
    · rw [findAllEntries, hSearch, ok_bind]
  · refine ⟨mixedIndex_validate md5, ⟨⟨[97, 98], 1, 0, some 0⟩, ?_, rfl⟩, mixedIndex_findEntry md5⟩
    exact (by decide +kernel : (⟨[97, 98], 1, 0, some 0⟩ : IndexEntry) ∈ mixedEntries)

end ArchiveIndex

end Cascette.Archive
