import Cascette.Index.Refinement
import Cascette.Lib.Except
import Cascette.Lib.Merge

/-!
# Flushing a bucket

A flush walks the sorted section and the newest updates together and steps over the one sorted
entry that has the key of an update. This changes no lookup as long as no key occurs twice in the
sorted section. The calls of the manager keep it that way, but a loaded file is sorted and not
searched for repeated keys (`flushed_iff`).
-/

namespace Cascette.Index

open Lib Lsm

/-! ## Iteration -/

/-- What `iter_entries` puts into its map, in this order. -/
def IndexFile.records (index : IndexFile) : List (Key 9 × Option IndexEntry) :=
  index.entries.map (fun entry => (entry.key, some entry)) ++
    index.updateSection.allEntries.map fun update => (update.ekey, update.visible)

def IndexFile.visibleEntries (index : IndexFile) : List IndexEntry :=
  (Lsm.collect Prod.fst index.records).filterMap Prod.snd

def IndexManager.iterEntries (manager : IndexManager) : List (UInt8 × IndexEntry) :=
  manager.iter.flatMap fun (bucket, index) => index.visibleEntries.map (bucket, ·)

variable {index : IndexFile} {manager manager' : IndexManager} {entry : IndexEntry}
  {bucket id : UInt8}

theorem key_of_mem_records {k : Key 9} (h : (k, some entry) ∈ index.records) : entry.key = k := by
  rcases List.mem_append.mp h with h | h
  · obtain ⟨found, -, hEq⟩ := List.mem_map.mp h
    cases hEq
    rfl
  · obtain ⟨update, -, hEq⟩ := List.mem_map.mp h
    obtain ⟨rfl, hVisible⟩ := Prod.mk.inj hEq
    exact visible_key hVisible

theorem newest_records (index : IndexFile) (k : Key 9) :
    Lsm.newest Prod.fst index.records k =
      match Lsm.newest UpdateEntry.ekey index.updateSection.allEntries k with
      | some update => some (update.ekey, update.visible)
      | none => (index.entries.reverse.find? fun entry => entry.key = k).map fun entry =>
          (entry.key, some entry) := by
  rw [Lsm.newest, IndexFile.records, List.reverse_append, List.find?_append, ← List.map_reverse,
    ← List.map_reverse, List.find?_map, List.find?_map, Lsm.newest]
  simp only [Function.comp_def]
  cases index.updateSection.allEntries.reverse.find? fun update => update.ekey = k <;> rfl

variable (h : Lsm.Sorted IndexEntry.key index.entries)
include h

/-- On a sorted section without repeated keys the map holds what a lookup returns. -/
theorem newest_records_bind (k : Key 9) :
    (Lsm.newest Prod.fst index.records k).bind Prod.snd = searchBothSections index k := by
  rw [newest_records, searchBothSections_eq_view h, Lsm.view]
  cases Lsm.newest UpdateEntry.ekey index.updateSection.allEntries k with
  | some update => rfl
  | none =>
    have hReverse : (index.entries.reverse.find? fun entry => entry.key = k) =
        index.entries.find? fun entry => entry.key = k := by
      cases hFind : index.entries.reverse.find? fun entry => entry.key = k with
      | none =>
        symm
        rw [List.find?_eq_none] at hFind ⊢
        exact fun entry hEntry => hFind entry (List.mem_reverse.mpr hEntry)
      | some entry =>
        exact (h.find?_eq_some_iff.mpr ⟨List.mem_reverse.mp (List.mem_of_find?_eq_some hFind),
          by simpa using List.find?_some hFind⟩).symm
    rw [hReverse]
    cases index.entries.find? fun entry => entry.key = k <;> rfl

theorem mem_visibleEntries (entry : IndexEntry) :
    entry ∈ index.visibleEntries ↔ searchBothSections index entry.key = some entry := by
  have hSorted : Lsm.Sorted Prod.fst (Lsm.collect Prod.fst index.records) :=
    collect_sorted index.records
  rw [← newest_records_bind h, ← collect_find, IndexFile.visibleEntries, List.mem_filterMap]
  constructor
  · rintro ⟨⟨k, value⟩, hMem, rfl⟩
    obtain rfl := key_of_mem_records (mem_collect hMem)
    rw [hSorted.find?_eq_some_iff.mpr ⟨hMem, rfl⟩]
    rfl
  · intro hBind
    obtain ⟨record, hFind, hValue⟩ := Option.bind_eq_some_iff.mp hBind
    exact ⟨record, (hSorted.find?_eq_some_iff.mp hFind).1, hValue⟩

omit h

theorem visibleEntries_sorted (index : IndexFile) :
    Lsm.Sorted IndexEntry.key index.visibleEntries := by
  refine List.pairwise_filterMap.mpr ((collect_sorted index.records).imp_of_mem ?_)
  rintro ⟨k, value⟩ ⟨k', value'⟩ hMem hMem' hLt entry rfl entry' rfl
  rw [key_of_mem_records (mem_collect hMem), key_of_mem_records (mem_collect hMem')]
  exact hLt

theorem mem_iterEntries (hIndex : manager.indices bucket = some index) (entry : IndexEntry) :
    (bucket, entry) ∈ manager.iterEntries ↔ entry ∈ index.visibleEntries := by
  rw [IndexManager.iterEntries, List.mem_flatMap]
  constructor
  · rintro ⟨⟨id, found⟩, hFound, hEntry⟩
    obtain ⟨visible, hVisible, hEq⟩ := List.mem_map.mp hEntry
    cases hEq
    cases hIndex.symm.trans (mem_iter.mp hFound)
    exact hVisible
  · intro hEntry
    exact ⟨(bucket, index), mem_iter.mpr hIndex, List.mem_map_of_mem hEntry⟩

/-! ## Runs -/

def IndexManager.clearBucket (manager : IndexManager) (bucket : UInt8) : IndexManager :=
  match manager.indices bucket with
  | some index => manager.insert bucket
      { index with entries := [], updateSection := index.updateSection.clear }
  | none => manager

inductive Operation
  | call (call : Call)
  | loadIndex (id : UInt8) (file : DirEntry)
  | loadV5Index (id : UInt8) (file : DirEntry)
  | clearBucket (bucket : UInt8)

def Operation.loaded : Operation → Option IndexFile
  | .loadIndex _ file => (openFile "Failed to open index" file >>= loadIndexFile).toOption
  | .loadV5Index _ file => (openFile "Failed to read V5 index" file >>= loadV5IndexFile).toOption
  | .call _ => none
  | .clearBucket _ => none

/-- A load that fails leaves the manager as it is. -/
def IndexManager.perform (manager : IndexManager) : Operation → IndexManager
  | .call call => (manager.step call).1
  | .loadIndex id file => (manager.loadIndex id file).toOption.getD manager
  | .loadV5Index id file => (manager.loadV5Index id file).toOption.getD manager
  | .clearBucket bucket => manager.clearBucket bucket

def IndexManager.performAll (manager : IndexManager) (operations : List Operation) : IndexManager :=
  operations.foldl IndexManager.perform manager

/-- A property of the sorted section of every bucket. -/
def IndexManager.AllSorted (P : List IndexEntry → Prop) (manager : IndexManager) : Prop :=
  ∀ id index, manager.indices id = some index → P index.entries

section AllSorted

variable {P : List IndexEntry → Prop} {manager manager' : IndexManager}

theorem IndexManager.AllSorted.insert (h : manager.AllSorted P) {index : IndexFile}
    (hIndex : P index.entries) : (manager.insert id index).AllSorted P := by
  intro id' index' h'
  by_cases hId : id' = id
  · subst hId
    rw [indices_insert_self] at h'
    cases h'
    exact hIndex
  · rw [indices_insert_of_ne _ _ hId] at h'
    exact h id' index' h'

theorem IndexManager.AllSorted.appendUpdate (h : manager.AllSorted P) {entry : UpdateEntry}
    (hAppend : manager.appendUpdate id entry = some manager') : manager'.AllSorted P := by
  obtain ⟨index, log, hIndex, -, rfl⟩ := appendUpdate_some hAppend
  exact h.insert (h id index hIndex)

theorem IndexManager.AllSorted.appendOrKeep (h : manager.AllSorted P) (id : UInt8)
    (entry : UpdateEntry) : (manager.appendOrKeep id entry).1.AllSorted P := by
  unfold IndexManager.appendOrKeep
  split
  next hAppend =>
    exact h.appendUpdate hAppend
  · exact h

variable (hNil : P []) (hFlush : ∀ index : IndexFile, P index.entries → P (mergeUpdates index))
include hFlush

theorem flushUpdatesForBucket_keeps (h : manager.AllSorted P) (disk : Disk) (bucket : UInt8) :
    (manager.flushUpdatesForBucket disk bucket).1.AllSorted P := by
  rcases flushUpdatesForBucket_fst manager disk bucket with hEq | ⟨index, hIndex, hEq⟩
  · rwa [hEq]
  · rw [hEq]
    exact h.insert (hFlush index (h bucket index hIndex))

include hNil

theorem addEntry_keeps (h : manager.AllSorted P) (disk : Disk) (key : EncodingKey)
    (archiveId : UInt16) (archiveOffset size : UInt32) :
    (manager.addEntry disk key archiveId archiveOffset size).1.AllSorted P := by
  have hEnsured : (manager.ensureBucket (getBucketIndex key.1)).AllSorted P := by
    unfold IndexManager.ensureBucket
    split
    · exact h
    · exact h.insert hNil
  have hFlushed := flushUpdatesForBucket_keeps hFlush hEnsured disk (getBucketIndex key.1)
  unfold IndexManager.addEntry
  dsimp only
  split
  next hAppend =>
    exact hEnsured.appendUpdate hAppend
  · split
    next hResult =>
      rwa [hResult] at hFlushed
    next hResult =>
      rw [hResult] at hFlushed
      split
      next hAppend =>
        exact hFlushed.appendUpdate hAppend
      · exact hFlushed

theorem step_keeps (h : manager.AllSorted P) (call : Call) :
    (manager.step call).1.AllSorted P := by
  cases call with
  | addEntry key archiveId archiveOffset size disk =>
    exact addEntry_keeps hNil hFlush h disk key archiveId archiveOffset size
  | updateEntry key archiveId archiveOffset size =>
    rw [IndexManager.step, IndexManager.updateEntry]
    split
    · exact h
    · exact h.appendOrKeep _ _
  | removeEntry key =>
    rw [IndexManager.step, IndexManager.removeEntry]
    split
    · exact h
    · dsimp only
      split
      · exact h
      · cases hAppend : manager.appendUpdate (getBucketIndex key.1) _ with
        | none => exact h
        | some manager' => exact h.appendUpdate hAppend
  | updateEntryStatus key status =>
    rw [IndexManager.step, IndexManager.updateEntryStatus]
    split
    · exact h
    · exact h.appendOrKeep _ _
  | flushUpdatesForBucket bucket disk => exact flushUpdatesForBucket_keeps hFlush h disk bucket
  | clear =>
    intro id index hIndex
    obtain ⟨old, -, rfl⟩ := Option.map_eq_some_iff.mp hIndex
    exact hNil

theorem perform_keeps (h : manager.AllSorted P) {operation : Operation}
    (hLoad : ∀ index, operation.loaded = some index → P index.entries) :
    (manager.perform operation).AllSorted P := by
  have hInsert (id : UInt8) (result : Except Fault IndexFile)
      (hResult : ∀ index, result.toOption = some index → P index.entries) :
      ((result >>= fun index => Except.ok (manager.insert id index)).toOption.getD
        manager).AllSorted P := by
    cases result with
    | error fault => exact h
    | ok index => exact h.insert (hResult index rfl)
  cases operation with
  | call call => exact step_keeps hNil hFlush h call
  | loadIndex id file =>
    rw [IndexManager.perform, IndexManager.loadIndex, ← bind_assoc]
    exact hInsert id _ hLoad
  | loadV5Index id file =>
    rw [IndexManager.perform, IndexManager.loadV5Index, ← bind_assoc]
    exact hInsert id _ hLoad
  | clearBucket bucket =>
    rw [IndexManager.perform, IndexManager.clearBucket]
    split
    · exact h.insert hNil
    · exact h

theorem performAll_keeps {operations : List Operation} (h : manager.AllSorted P)
    (hLoads : ∀ operation ∈ operations, ∀ index, operation.loaded = some index →
      P index.entries) : (manager.performAll operations).AllSorted P := by
  induction operations generalizing manager with
  | nil => exact h
  | cons operation operations ih =>
    obtain ⟨hFirst, hRest⟩ := List.forall_mem_cons.mp hLoads
    exact ih (perform_keeps hNil hFlush h hFirst) hRest

end AllSorted

theorem loaded_ascends {operation : Operation} (h : operation.loaded = some index) :
    Lsm.Ascends IndexEntry.key index.entries := by
  cases operation with
  | call call => cases h
  | loadIndex id file =>
    obtain ⟨data, -, hLoad⟩ := bind_eq_ok.mp (toOption_eq_some.mp h)
    obtain ⟨header, -, hLoad⟩ := bind_eq_ok.mp hLoad
    obtain ⟨block, -, hLoad⟩ := bind_eq_ok.mp hLoad
    cases hLoad
    exact pairwise_insertionSort_key _ _
  | loadV5Index id file =>
    obtain ⟨data, -, hLoad⟩ := bind_eq_ok.mp (toOption_eq_some.mp h)
    obtain ⟨header, -, hLoad⟩ := bind_eq_ok.mp hLoad
    obtain ⟨entries, -, hLoad⟩ := bind_eq_ok.mp hLoad
    cases hLoad
    exact pairwise_insertionSort_key _ _
  | clearBucket bucket => cases h

theorem mergeUpdates_sorted (h : Lsm.Sorted IndexEntry.key index.entries) :
    Lsm.Sorted IndexEntry.key (mergeUpdates index) :=
  merge_sorted (fun _ _ => visible_key) (collect_sorted _) h

theorem performAll_ascends (operations : List Operation) :
    (IndexManager.new.performAll operations).AllSorted (Lsm.Ascends IndexEntry.key) :=
  performAll_keeps List.Pairwise.nil
    (fun _ => merge_ascends (fun _ _ => visible_key) (collect_sorted _)) nofun
    fun _ _ _ => loaded_ascends

/-! ## The flush -/

/-- What a flush of a bucket should do. It does not panic, the other buckets stay as they are, and
every lookup is answered as before. The sorted section of the bucket has each key once, in order,
and only entries that a search finds; the log is empty. The iteration gives the entries that a
lookup in the bucket returns, each once. -/
structure Flushed (manager : IndexManager) (result : IndexManager × Except Fault Unit)
    (bucket : UInt8) (index index' : IndexFile) : Prop where
  returns : ∀ message, result.2 ≠ .error (.panic message)
  indices : result.1.indices bucket = some index'
  others : ∀ id ≠ bucket, result.1.indices id = manager.indices id
  lookup : ∀ key, result.1.lookup key = manager.lookup key
  sorted : Lsm.Sorted IndexEntry.key index'.entries
  live : ∀ entry ∈ index'.entries, searchBothSections index entry.key = some entry
  empty : index'.updateSection.allEntries = []
  iterated : ∀ entry, (bucket, entry) ∈ result.1.iterEntries ↔
    ∃ key, getBucketIndex key.1 = bucket ∧ truncateKey key = entry.key ∧
      result.1.lookup key = some entry
  once : index'.visibleEntries.Nodup

/-- The size of an entry fits a byte, and the size of the segments 64 bits. -/
def IndexHeader.Fits (header : IndexHeader) : Prop :=
  header.keySize.toNat + header.locationSize.toNat + header.lengthSize.toNat < 256 ∧
    header.segmentBits.toNat < 56

/-- No key is there twice, the entries that are found belong to the bucket, and there is nothing to
save or the header has widths that fit. -/
structure Flushable (bucket : UInt8) (index : IndexFile) : Prop where
  nodup : (index.entries.map IndexEntry.key).Nodup
  own : ∀ entry, searchBothSections index entry.key = some entry →
    getBucketIndex entry.key.1 = bucket
  fits : index.updateSection.entryCount = 0 ∨ index.header.Fits

variable {index' : IndexFile}

theorem saveIndex_ne_panic_iff (disk : Disk) (index : IndexFile) :
    (∀ message, (saveIndex disk id index).map (fun _ => ()) ≠ .error (.panic message)) ↔
      index.header.Fits := by
  unfold saveIndex IndexHeader.entrySize IndexHeader.segmentSize IndexHeader.Fits
  dsimp only
  split_ifs <;> simp_all [indexError, Except.map, bind, Except.bind] <;> omega

theorem lookup_eq_of_search (hIndex : manager.indices bucket = some index)
    (hIndices : manager'.indices bucket = some index')
    (hOthers : ∀ id ≠ bucket, manager'.indices id = manager.indices id)
    (hSearch : ∀ k, searchBothSections index' k = searchBothSections index k) (key : EncodingKey) :
    manager'.lookup key = manager.lookup key := by
  unfold IndexManager.lookup
  by_cases hBucket : getBucketIndex key.1 = bucket
  · rw [hBucket, hIndices, hIndex]
    exact hSearch _
  · rw [hOthers _ hBucket]

/-- Lookups in the bucket return the entries that are found in it and belong to it. -/
theorem found_iff (hIndex : manager.indices bucket = some index) (entry : IndexEntry) :
    (∃ key, getBucketIndex key.1 = bucket ∧ truncateKey key = entry.key ∧
      manager.lookup key = some entry) ↔
    searchBothSections index entry.key = some entry ∧ getBucketIndex entry.key.1 = bucket := by
  unfold IndexManager.lookup
  constructor
  · rintro ⟨key, hBucket, hKey, hFound⟩
    rw [hBucket, hIndex, hKey] at hFound
    exact ⟨hFound, by rw [← hKey, getBucketIndex_truncateKey, hBucket]⟩
  · rintro ⟨hFound, hBucket⟩
    let key : EncodingKey := ⟨entry.key.1 ++ List.replicate 7 0, by simp [entry.key.2]⟩
    have hKey : truncateKey key = entry.key := Subtype.ext (List.take_left' entry.key.2)
    rw [← hKey, getBucketIndex_truncateKey] at hBucket
    refine ⟨key, hBucket, hKey, ?_⟩
    rw [hBucket, hIndex, hKey]
    exact hFound

variable {manager : IndexManager} {bucket : UInt8} {index : IndexFile} {entries : List IndexEntry}

/-- The state after a flush of a bucket without repeated keys. -/
theorem flushUpdatesForBucket_spec (hIndex : manager.indices bucket = some index)
    (hSorted : Lsm.Sorted IndexEntry.key index.entries) (disk : Disk) :
    ∃ index', (manager.flushUpdatesForBucket disk bucket).1.indices bucket = some index' ∧
      (∀ id ≠ bucket,
        (manager.flushUpdatesForBucket disk bucket).1.indices id = manager.indices id) ∧
      (∀ k, searchBothSections index' k = searchBothSections index k) ∧
      Lsm.Sorted IndexEntry.key index'.entries ∧ index'.updateSection.allEntries = [] := by
  rw [IndexManager.flushUpdatesForBucket, hIndex]
  dsimp only
  split_ifs with hCount
  · rw [entryCount_eq] at hCount
    exact ⟨index, hIndex, fun _ _ => rfl, fun _ => rfl, hSorted,
      List.eq_nil_of_length_eq_zero hCount⟩
  · refine ⟨index.flush, indices_insert_self _ _ _, fun id hId => indices_insert_of_ne _ _ hId,
      fun k => ?_, mergeUpdates_sorted hSorted, rfl⟩
    rw [searchBothSections_eq_view (mergeUpdates_sorted hSorted),
      searchBothSections_eq_view hSorted]
    exact view_merge (fun _ _ => visible_key) hSorted _ k

theorem flushUpdatesForBucket_ne_panic_iff (hIndex : manager.indices bucket = some index)
    (disk : Disk) : (∀ message,
      (manager.flushUpdatesForBucket disk bucket).2 ≠ .error (.panic message)) ↔
    index.updateSection.entryCount = 0 ∨ index.header.Fits := by
  rw [IndexManager.flushUpdatesForBucket, hIndex]
  dsimp only
  split_ifs with hCount
  · exact iff_of_true nofun (.inl hCount)
  · rw [or_iff_right hCount]
    exact saveIndex_ne_panic_iff disk index.flush

/-- A key that occurs twice stays in the sorted section: twice, or although it was deleted. -/
theorem length_le_one_of_flushed (hAscends : Lsm.Ascends IndexEntry.key index.entries)
    (hSorted : Lsm.Sorted IndexEntry.key (mergeUpdates index))
    (hLive : ∀ entry ∈ mergeUpdates index, searchBothSections index entry.key = some entry)
    (k : Key 9) : (index.entries.filter fun entry => entry.key = k).length ≤ 1 := by
  have hOne := hSorted.length_filter_le_one k
  have hFilter : (mergeUpdates index).filter (fun entry => entry.key = k) = _ :=
    merge_filter (fun _ _ => visible_key) (collect_sorted _) hAscends k
  rw [collect_find] at hFilter
  cases hNewest : Lsm.newest UpdateEntry.ekey index.updateSection.allEntries k with
  | none =>
    rw [hNewest] at hFilter
    rwa [hFilter] at hOne
  | some update =>
    rw [hNewest] at hFilter
    dsimp only at hFilter
    by_contra hLong
    cases hVisible : update.visible with
    | some visible =>
      rw [hFilter, hVisible, List.length_append, List.length_drop] at hOne
      simp only [Option.toList_some, List.length_singleton] at hOne
      omega
    | none =>
      -- The update is a tombstone, and an entry of its key is left.
      rw [hVisible, Option.toList_none, List.nil_append] at hFilter
      obtain ⟨entry, hEntry⟩ := List.exists_mem_of_length_pos
        (l := (index.entries.filter fun entry => entry.key = k).drop 1)
        (by rw [List.length_drop]; omega)
      rw [← hFilter] at hEntry
      obtain ⟨hMem, hKey⟩ := List.mem_filter.mp hEntry
      obtain rfl := of_decide_eq_true hKey
      have hFound := hLive entry hMem
      rw [searchBothSections, search_eq_newest, hNewest] at hFound
      dsimp only at hFound
      rw [hVisible] at hFound
      cases hFound

theorem nodup_keys_iff : (entries.map IndexEntry.key).Nodup ↔
    ∀ k, (entries.filter fun entry => entry.key = k).length ≤ 1 := by
  rw [List.nodup_iff_count_le_one]
  refine forall_congr' fun k => ?_
  rw [List.count, List.countP_map, List.countP_eq_length_filter]
  simp only [Function.comp_def, beq_eq_decide]

theorem sorted_iff_nodup (h : Lsm.Ascends IndexEntry.key entries) :
    Lsm.Sorted IndexEntry.key entries ↔ (entries.map IndexEntry.key).Nodup := by
  rw [List.Nodup, List.pairwise_map]
  constructor
  · exact fun hSorted => hSorted.imp ne_of_lt
  · exact fun hNodup => (h.and hNodup).imp fun hBoth => lt_of_le_of_ne hBoth.1 hBoth.2

theorem nodup_of_flushed (hAscends : Lsm.Ascends IndexEntry.key index.entries)
    (hIndex : manager.indices bucket = some index) {disk : Disk}
    (h : Flushed manager (manager.flushUpdatesForBucket disk bucket) bucket index index') :
    (index.entries.map IndexEntry.key).Nodup := by
  have hAfter := h.indices
  rw [IndexManager.flushUpdatesForBucket, hIndex] at hAfter
  dsimp only at hAfter
  split at hAfter
  · cases hIndex.symm.trans hAfter
    exact (sorted_iff_nodup hAscends).mp h.sorted
  · rw [indices_insert_self] at hAfter
    cases hAfter
    exact nodup_keys_iff.mpr (length_le_one_of_flushed hAscends h.sorted h.live)

theorem flushed_iff_flushable (hAscends : Lsm.Ascends IndexEntry.key index.entries)
    (hIndex : manager.indices bucket = some index) (disk : Disk) :
    (∃ index', Flushed manager (manager.flushUpdatesForBucket disk bucket) bucket index index') ↔
      Flushable bucket index := by
  constructor
  · rintro ⟨index', h⟩
    have hNodup := nodup_of_flushed hAscends hIndex h
    obtain ⟨after, hIndices, -, hSearch, hSorted, -⟩ :=
      flushUpdatesForBucket_spec hIndex ((sorted_iff_nodup hAscends).mpr hNodup) disk
    refine ⟨hNodup, fun entry hFound => ?_, (flushUpdatesForBucket_ne_panic_iff hIndex disk).mp
      h.returns⟩
    rw [← hSearch, ← mem_visibleEntries hSorted, ← mem_iterEntries hIndices, h.iterated,
      found_iff hIndices] at hFound
    exact hFound.2
  · rintro ⟨hNodup, hOwn, hFits⟩
    obtain ⟨index', hIndices, hOthers, hSearch, hSorted, hEmpty⟩ :=
      flushUpdatesForBucket_spec hIndex ((sorted_iff_nodup hAscends).mpr hNodup) disk
    have hOnce : index'.visibleEntries.Nodup := (visibleEntries_sorted index').imp fun hLt hEq =>
      absurd (congrArg IndexEntry.key hEq) (ne_of_lt hLt)
    refine ⟨index', (flushUpdatesForBucket_ne_panic_iff hIndex disk).mpr hFits, hIndices, hOthers,
      lookup_eq_of_search hIndex hIndices hOthers hSearch, hSorted, fun entry hEntry => ?_, hEmpty,
      fun entry => ?_, hOnce⟩
    · rw [← hSearch, searchBothSections_eq_view hSorted, hEmpty]
      exact hSorted.find?_eq_some_iff.mpr ⟨hEntry, rfl⟩
    · rw [mem_iterEntries hIndices, mem_visibleEntries hSorted, found_iff hIndices, hSearch]
      exact (and_iff_left_of_imp (hOwn entry)).symm

/-- After any operations, a bucket is flushed as it should be exactly if it is flushable. Only a
file that holds a key twice can bring a key into its sorted section twice. -/
theorem flushed_iff (operations : List Operation) (disk : Disk) (bucket : UInt8) (index : IndexFile)
    (hIndex : (IndexManager.new.performAll operations).indices bucket = some index) :
    ((∃ index', Flushed (IndexManager.new.performAll operations)
        ((IndexManager.new.performAll operations).flushUpdatesForBucket disk bucket)
        bucket index index') ↔ Flushable bucket index) ∧
    ((∀ operation ∈ operations, ∀ loaded, operation.loaded = some loaded →
        (loaded.entries.map IndexEntry.key).Nodup) →
      (index.entries.map IndexEntry.key).Nodup) := by
  have hAscends := performAll_ascends operations bucket index hIndex
  refine ⟨flushed_iff_flushable hAscends hIndex disk, fun hFiles => ?_⟩
  have hSorted : (IndexManager.new.performAll operations).AllSorted (Lsm.Sorted IndexEntry.key) :=
    performAll_keeps List.Pairwise.nil (fun _ => mergeUpdates_sorted) nofun
      fun operation hOperation loaded hLoaded =>
        (sorted_iff_nodup (loaded_ascends hLoaded)).mpr
          (hFiles operation hOperation loaded hLoaded)
  exact (sorted_iff_nodup hAscends).mp (hSorted bucket index hIndex)

/-- A key whose bucket is the first one. -/
def repeatedKey : EncodingKey := ⟨1 :: List.replicate 15 0, rfl⟩

/-- An insertion. -/
theorem flushed_sample :
    let manager := IndexManager.new.performAll
      [.call (.addEntry repeatedKey 1 0x200 100 workingDisk)]
    ∃ index index', manager.indices 1 = some index ∧
      Flushed manager (manager.flushUpdatesForBucket workingDisk 1) 1 index index' := by
  intro manager
  have hState : (manager.indices 1).map (fun index => (index.entries,
      index.updateSection.allEntries, index.header)) = some ([],
        [UpdateEntry.new (truncateKey repeatedKey) ⟨1, 0x200⟩ 100 .normal],
        (newIndexFile 1).header) := by
    decide +kernel
  obtain ⟨index, hIndex, hParts⟩ := Option.map_eq_some_iff.mp hState
  simp only [Prod.mk.injEq] at hParts
  obtain ⟨hEntries, hLog, hHeader⟩ := hParts
  obtain ⟨hIff, -⟩ := flushed_iff _ workingDisk 1 index hIndex
  have hOwn (entry : IndexEntry) (hFound : searchBothSections index entry.key = some entry) :
      getBucketIndex entry.key.1 = 1 := by
    rw [searchBothSections_eq_view (hEntries ▸ .nil), hLog, hEntries, Lsm.view,
      Lsm.newest] at hFound
    by_cases hKey : truncateKey repeatedKey = entry.key
    · rw [← hKey]
      decide
    · simp [UpdateEntry.new, hKey] at hFound
  obtain ⟨index', hFlushed⟩ := hIff.mpr ⟨by simp [hEntries], hOwn,
    .inr (by rw [hHeader]; exact ⟨by decide, by decide⟩)⟩
  exact ⟨index, index', hIndex, hFlushed⟩

/-- A slot of the entry block with this key. -/
def repeatedSlot (size : UInt8) : Bytes := (1 :: List.replicate 13 0) ++ [size, 0, 0, 0]

/-- An index file that holds the key twice. -/
def repeatedFile : DirEntry where
  name := generateIndexFilename 1 1
  content := .ok (List.replicate 8 0 ++ ([7, 0, 1, 0, 4, 5, 9, 30] ++ (List.replicate 16 0 ++
    ([36, 0, 0, 0, 0, 0, 0, 0] ++ (repeatedSlot 5 ++ repeatedSlot 6)))))

/-- After the file is loaded, the key is removed and is not found. The flush steps over one of the
two entries, and the key is found again. -/
theorem flushed_refuted :
    let manager := IndexManager.new.performAll
      [.loadIndex 1 repeatedFile, .call (.removeEntry repeatedKey)]
    manager.lookup repeatedKey = none ∧
      (manager.flushUpdatesForBucket workingDisk 1).1.lookup repeatedKey =
        some ⟨truncateKey repeatedKey, ⟨0, 0⟩, 6⟩ := by
  decide +kernel

end Cascette.Index
