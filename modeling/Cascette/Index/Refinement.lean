import Cascette.Index.Manager

/-!
# The manager refines a map

A run of the manager is tracked against a map from truncated keys to locations, which changes
only when a call reports success: an insertion or an update sets the key, a removal erases it.

* `step_agrees`: one call keeps the manager and the map in step, unless it is a removal that finds
  its key while the update section of its bucket is full.
* `refinesMap_iff_removalsFit`: a run stays in step throughout exactly when no such removal occurs.
-/

namespace Cascette.Index

open Lib List Option Function Lsm

/-! ## The invariant of a bucket -/

/-- What holds of every bucket that was not loaded from a file. -/
structure IndexFile.Grown (id : UInt8) (index : IndexFile) : Prop where
  header : index.header = (newIndexFile id).header
  sorted : Lsm.Sorted IndexEntry.key index.entries
  guards : ∀ update ∈ index.updateSection.allEntries, update.hashGuard ≠ 0
  packed : index.updateSection.Packed
  capacity : index.updateSection.capacityPages = 12

def IndexManager.Grown (manager : IndexManager) : Prop :=
  ∀ id index, manager.indices id = some index → index.Grown id

theorem newIndexFile_grown (id : UInt8) : (newIndexFile id).Grown id where
  header := rfl
  sorted := List.Pairwise.nil
  guards := by simp [newIndexFile]
  packed := by simp [newIndexFile, UpdateSection.new, UpdateSection.Packed]
  capacity := rfl

variable {index : IndexFile}

theorem flush_grown {id : UInt8} (h : index.Grown id) : index.flush.Grown id where
  header := h.header
  sorted := merge_sorted (fun _ _ => visible_key) (collect_sorted _) h.sorted
  guards := by simp [IndexFile.flush]
  packed := clear_packed _
  capacity := h.capacity

variable {log : UpdateSection}

theorem append_grown {id : UInt8} {entry : UpdateEntry} (h : index.Grown id)
    (hGuard : entry.hashGuard ≠ 0) (hAppend : index.updateSection.append entry = some log) :
    IndexFile.Grown id { index with updateSection := log } where
  header := h.header
  sorted := h.sorted
  guards := by
    intro update hUpdate
    rw [allEntries_append hAppend, mem_append, mem_singleton] at hUpdate
    rcases hUpdate with hUpdate | rfl
    · exact h.guards update hUpdate
    · exact hGuard
  packed := append_packed h.packed hAppend
  capacity := (append_some hAppend).2.trans h.capacity

theorem new_grown : IndexManager.new.Grown := by
  intro id index h
  cases h

variable {manager : IndexManager}

theorem insert_grown {id : UInt8} (h : manager.Grown) (hIndex : index.Grown id) :
    (manager.insert id index).Grown := by
  intro id' index' h'
  by_cases hId : id' = id
  · subst hId
    simp only [IndexManager.insert, update_self, Option.some.injEq] at h'
    exact h' ▸ hIndex
  · simp only [IndexManager.insert, update_of_ne hId] at h'
    exact h id' index' h'

theorem clear_grown (h : manager.Grown) : manager.clear.Grown := by
  intro id index hIndex
  obtain ⟨old, hOld, rfl⟩ := map_eq_some_iff.mp hIndex
  have hOld := h id old hOld
  exact ⟨hOld.header, List.Pairwise.nil, by simp, clear_packed _, hOld.capacity⟩

/-! ## What one call does to lookups -/

theorem searchBothSections_eq_view (h : Lsm.Sorted IndexEntry.key index.entries) (k : Key 9) :
    searchBothSections index k =
      Lsm.view IndexEntry.key UpdateEntry.ekey UpdateEntry.visible index.entries
        index.updateSection.allEntries k := by
  unfold searchBothSections Lsm.view
  rw [search_eq_newest]
  cases Lsm.newest UpdateEntry.ekey index.updateSection.allEntries k with
  | some update => rfl
  | none => exact binarySearchBy_find h k

theorem searchBothSections_flush {id : UInt8} (h : index.Grown id) (k : Key 9) :
    searchBothSections index.flush k = searchBothSections index k := by
  rw [searchBothSections_eq_view (flush_grown h).sorted, searchBothSections_eq_view h.sorted]
  exact view_merge (fun _ _ => visible_key) h.sorted _ k

theorem searchBothSections_append {entry : UpdateEntry}
    (h : index.updateSection.append entry = some log) (k : Key 9) :
    searchBothSections { index with updateSection := log } k =
      if entry.ekey = k then entry.visible else searchBothSections index k := by
  unfold searchBothSections
  rw [search_eq_newest, search_eq_newest, allEntries_append h, newest_append_singleton]
  by_cases hKey : entry.ekey = k
  · simp [hKey]
  · simp [hKey]

theorem lookup_insert (manager : IndexManager) (id : UInt8) (index : IndexFile)
    (key : EncodingKey) :
    (manager.insert id index).lookup key =
      if getBucketIndex key.1 = id then searchBothSections index (truncateKey key)
      else manager.lookup key := by
  unfold IndexManager.lookup IndexManager.insert
  by_cases h : getBucketIndex key.1 = id
  · simp [h]
  · simp [h]

variable {key : EncodingKey}

theorem lookup_of_indices (h : manager.indices (getBucketIndex key.1) = some index) :
    manager.lookup key = searchBothSections index (truncateKey key) := by
  simp [IndexManager.lookup, h]

variable {manager' : IndexManager} {result : IndexManager × Bool} {value : Option IndexEntry}

theorem appendUpdate_some {id : UInt8} {entry : UpdateEntry}
    (h : manager.appendUpdate id entry = some manager') :
    ∃ index log, manager.indices id = some index ∧ index.updateSection.append entry = some log ∧
      manager' = manager.insert id { index with updateSection := log } := by
  simp only [IndexManager.appendUpdate, bind_eq_bind, bind_eq_some_iff] at h
  obtain ⟨index, hIndex, log, hLog, hEq⟩ := h
  exact ⟨index, log, hIndex, hLog, (Option.some.inj hEq).symm⟩

theorem lookup_appendUpdate {entry : UpdateEntry} (hKey : entry.ekey = truncateKey key)
    (h : manager.appendUpdate (getBucketIndex key.1) entry = some manager') (other : EncodingKey) :
    manager'.lookup other =
      if truncateKey other = truncateKey key then entry.visible else manager.lookup other := by
  obtain ⟨index, log, hIndex, hLog, rfl⟩ := appendUpdate_some h
  rw [lookup_insert]
  by_cases hBucket : getBucketIndex other.1 = getBucketIndex key.1
  · rw [if_pos hBucket, searchBothSections_append hLog, hKey,
      lookup_of_indices (by rw [hBucket]; exact hIndex)]
    simp only [eq_comm]
  · have hNe : truncateKey other ≠ truncateKey key := by
      intro hEq
      apply hBucket
      rw [← getBucketIndex_truncateKey, hEq, getBucketIndex_truncateKey]
    rw [if_neg hBucket, if_neg hNe]

theorem flushUpdatesForBucket_fst (manager : IndexManager) (disk : Disk) (bucket : UInt8) :
    (manager.flushUpdatesForBucket disk bucket).1 = manager ∨
      ∃ index, manager.indices bucket = some index ∧
        (manager.flushUpdatesForBucket disk bucket).1 = manager.insert bucket index.flush := by
  unfold IndexManager.flushUpdatesForBucket
  split
  · exact Or.inl rfl
  next index hIndex =>
    split
    · exact Or.inl rfl
    · exact Or.inr ⟨index, hIndex, rfl⟩

theorem flushUpdatesForBucket_grown (h : manager.Grown) (disk : Disk) (bucket : UInt8) :
    (manager.flushUpdatesForBucket disk bucket).1.Grown := by
  rcases flushUpdatesForBucket_fst manager disk bucket with hEq | ⟨index, hIndex, hEq⟩
  · rwa [hEq]
  · rw [hEq]
    exact insert_grown h (flush_grown (h bucket index hIndex))

/-- A flush changes no lookup, whether or not the file can be saved. -/
theorem lookup_flushUpdatesForBucket (h : manager.Grown) (disk : Disk) (bucket : UInt8)
    (key : EncodingKey) :
    (manager.flushUpdatesForBucket disk bucket).1.lookup key = manager.lookup key := by
  rcases flushUpdatesForBucket_fst manager disk bucket with hEq | ⟨index, hIndex, hEq⟩
  · rw [hEq]
  · rw [hEq, lookup_insert]
    split_ifs with hBucket
    · rw [searchBothSections_flush (h bucket index hIndex),
        lookup_of_indices (by rw [hBucket]; exact hIndex)]
    · rfl

theorem ensureBucket_grown (h : manager.Grown) (id : UInt8) : (manager.ensureBucket id).Grown := by
  unfold IndexManager.ensureBucket
  split
  · exact h
  · exact insert_grown h (newIndexFile_grown id)

theorem lookup_ensureBucket (manager : IndexManager) (id : UInt8) (key : EncodingKey) :
    (manager.ensureBucket id).lookup key = manager.lookup key := by
  unfold IndexManager.ensureBucket
  split
  · rfl
  next hNone =>
    rw [lookup_insert]
    split_ifs with hBucket
    · rw [IndexManager.lookup, hBucket, hNone]
      rfl
    · rfl

theorem lookup_clear (manager : IndexManager) (key : EncodingKey) :
    manager.clear.lookup key = none := by
  simp only [IndexManager.lookup, IndexManager.clear]
  cases manager.indices (getBucketIndex key.1) <;> rfl

/-! ## The map and the calls -/

structure Location where
  archiveLocation : ArchiveLocation
  size : UInt32
deriving DecidableEq

def Location.entry (key : Key 9) (location : Location) : IndexEntry :=
  ⟨key, location.archiveLocation, location.size⟩

/-- What the manager is for: at most one location for each truncated key. -/
abbrev KeyMap := Key 9 → Option Location

inductive Call
  | addEntry (key : EncodingKey) (archiveId : UInt16) (archiveOffset size : UInt32) (disk : Disk)
  | updateEntry (key : EncodingKey) (archiveId : UInt16) (archiveOffset size : UInt32)
  | removeEntry (key : EncodingKey)
  | updateEntryStatus (key : EncodingKey) (status : UpdateStatus)
  | flushUpdatesForBucket (bucket : UInt8) (disk : Disk)
  | clear

/-- The manager after a call, and whether the call reported success. -/
def IndexManager.step (manager : IndexManager) : Call → IndexManager × Bool
  | .addEntry key archiveId archiveOffset size disk =>
    (manager.addEntry disk key archiveId archiveOffset size).map id Except.isOk
  | .updateEntry key archiveId archiveOffset size =>
    manager.updateEntry key archiveId archiveOffset size
  | .removeEntry key => manager.removeEntry key
  | .updateEntryStatus key status => manager.updateEntryStatus key status
  | .flushUpdatesForBucket bucket disk =>
    (manager.flushUpdatesForBucket disk bucket).map id Except.isOk
  | .clear => (manager.clear, true)

/-- The effect of a successful call on the map. A status other than the tombstone keeps the
location. -/
def Call.effect (map : KeyMap) : Call → KeyMap
  | .addEntry key archiveId archiveOffset size _ | .updateEntry key archiveId archiveOffset size =>
    Function.update map (truncateKey key) (some ⟨⟨archiveId, archiveOffset⟩, size⟩)
  | .removeEntry key | .updateEntryStatus key .delete => Function.update map (truncateKey key) none
  | .updateEntryStatus _ _ | .flushUpdatesForBucket _ _ => map
  | .clear => fun _ => none

/-- A manager and the map it should agree with. -/
structure Tracked where
  manager : IndexManager
  map : KeyMap

def Tracked.start : Tracked := ⟨IndexManager.new, fun _ => none⟩

def Tracked.step (state : Tracked) (call : Call) : Tracked where
  manager := (state.manager.step call).1
  map := if (state.manager.step call).2 then call.effect state.map else state.map

def Tracked.run (state : Tracked) (calls : List Call) : Tracked := calls.foldl Tracked.step state

/-- Lookups return what the map holds. -/
def Tracked.Agrees (state : Tracked) : Prop :=
  ∀ key, state.manager.lookup key =
    (state.map (truncateKey key)).map (Location.entry (truncateKey key))

/-- The update section of the key's bucket has no room. -/
def IndexManager.bucketFull (manager : IndexManager) (key : EncodingKey) : Bool :=
  (manager.indices (getBucketIndex key.1)).any fun index => index.updateSection.isFull

/-- A removal that finds its key but has no room for the tombstone. -/
def Call.LosesRemoval (manager : IndexManager) : Call → Prop
  | .removeEntry key => (manager.lookup key).isSome ∧ manager.bucketFull key
  | _ => False

/-- No removal of the run is lost. -/
def RemovalsFit (state : Tracked) : List Call → Prop
  | [] => True
  | call :: calls => ¬ call.LosesRemoval state.manager ∧ RemovalsFit (state.step call) calls

/-! ## One call -/

/-- A call that reports success sets the key to `value`; otherwise lookups stay as they are. -/
structure SetsKey (manager : IndexManager) (key : EncodingKey) (value : Option IndexEntry)
    (result : IndexManager × Bool) : Prop where
  grown : result.1.Grown
  lookup : ∀ other, result.1.lookup other =
    if result.2 = true ∧ truncateKey other = truncateKey key then value else manager.lookup other

theorem setsKey_of_failed (hGrown : manager'.Grown)
    (hLookup : ∀ other, manager'.lookup other = manager.lookup other) :
    SetsKey manager key value (manager', false) :=
  ⟨hGrown, by simpa using hLookup⟩

theorem setsKey_of_append {location : ArchiveLocation} {size : UInt32} {status : UpdateStatus}
    (hGrown : manager.Grown)
    (h : manager.appendUpdate (getBucketIndex key.1)
      (UpdateEntry.new (truncateKey key) location size status) = some manager') :
    SetsKey manager key
      (if status = .delete then none else some ⟨truncateKey key, location, size⟩)
      (manager', true) where
  grown := by
    obtain ⟨index, log, hIndex, hLog, rfl⟩ := appendUpdate_some h
    exact insert_grown hGrown
      (append_grown (hGrown _ index hIndex) (new_hashGuard_ne_zero _ _ _ _) hLog)
  lookup := by
    intro other
    simp only [true_and]
    exact lookup_appendUpdate rfl h other

theorem appendOrKeep_setsKey (hGrown : manager.Grown) (key : EncodingKey)
    (location : ArchiveLocation) (size : UInt32) (status : UpdateStatus) :
    SetsKey manager key
      (if status = .delete then none else some ⟨truncateKey key, location, size⟩)
      (manager.appendOrKeep (getBucketIndex key.1)
        (UpdateEntry.new (truncateKey key) location size status)) := by
  unfold IndexManager.appendOrKeep
  cases hAppend : manager.appendUpdate (getBucketIndex key.1)
      (UpdateEntry.new (truncateKey key) location size status) with
  | some manager' => exact setsKey_of_append hGrown hAppend
  | none => exact setsKey_of_failed hGrown fun _ => rfl

theorem SetsKey.of_lookup_eq (h : SetsKey manager' key value result)
    (hLookup : ∀ other, manager'.lookup other = manager.lookup other) :
    SetsKey manager key value result :=
  ⟨h.grown, fun other => by rw [h.lookup, hLookup]⟩

variable (hGrown : manager.Grown)
include hGrown

theorem addEntry_setsKey (disk : Disk) (key : EncodingKey)
    (archiveId : UInt16) (archiveOffset size : UInt32) :
    SetsKey manager key (some ⟨truncateKey key, ⟨archiveId, archiveOffset⟩, size⟩)
      ((manager.addEntry disk key archiveId archiveOffset size).map id Except.isOk) := by
  have hEnsured := ensureBucket_grown hGrown (getBucketIndex key.1)
  have hSame := lookup_ensureBucket manager (getBucketIndex key.1)
  unfold IndexManager.addEntry
  dsimp only
  split
  next manager' hAppend =>
    exact (setsKey_of_append hEnsured hAppend).of_lookup_eq hSame
  · -- the section is full: the bucket is flushed, and a failed save ends the call
    have hFlushed := flushUpdatesForBucket_grown hEnsured disk (getBucketIndex key.1)
    have hKept := lookup_flushUpdatesForBucket hEnsured disk (getBucketIndex key.1)
    split
    next flushed fault hFlush =>
      rw [hFlush] at hFlushed hKept
      exact setsKey_of_failed hFlushed fun other => by rw [← hSame, ← hKept]; rfl
    next flushed hFlush =>
      rw [hFlush] at hFlushed hKept
      split
      next manager' hAppend =>
        exact (setsKey_of_append hFlushed hAppend).of_lookup_eq
          fun other => (hKept other).trans (hSame other)
      · exact setsKey_of_failed hFlushed fun other => (hKept other).trans (hSame other)

theorem updateEntry_setsKey (key : EncodingKey) (archiveId : UInt16) (archiveOffset size : UInt32) :
    SetsKey manager key (some ⟨truncateKey key, ⟨archiveId, archiveOffset⟩, size⟩)
      (manager.updateEntry key archiveId archiveOffset size) := by
  unfold IndexManager.updateEntry
  split
  · exact setsKey_of_failed hGrown fun _ => rfl
  · exact appendOrKeep_setsKey hGrown key _ size .normal

theorem updateEntryStatus_setsKey {entry : IndexEntry}
    (hFound : manager.lookup key = some entry) (status : UpdateStatus) :
    SetsKey manager key
      (if status = .delete then none else some ⟨truncateKey key, entry.archiveLocation, entry.size⟩)
      (manager.updateEntryStatus key status) := by
  simp only [IndexManager.updateEntryStatus, hFound]
  exact appendOrKeep_setsKey hGrown key _ _ status

omit hGrown

theorem indices_of_lookup {entry : IndexEntry} (h : manager.lookup key = some entry) :
    ∃ index, manager.indices (getBucketIndex key.1) = some index := by
  obtain ⟨index, hIndex, -⟩ := bind_eq_some_iff.mp h
  exact ⟨index, hIndex⟩

theorem appendUpdate_none_iff {entry : UpdateEntry}
    (hIndex : manager.indices (getBucketIndex key.1) = some index) :
    manager.appendUpdate (getBucketIndex key.1) entry = none ↔ manager.bucketFull key = true := by
  simp only [IndexManager.appendUpdate, IndexManager.bucketFull, hIndex, bind_eq_bind,
    bind_some, any_some]
  rw [← @append_none_iff entry]
  cases index.updateSection.append entry <;> simp

/-- With no room for the tombstone a removal reports success and changes nothing. -/
theorem removeEntry_of_full (hFound : (manager.lookup key).isSome)
    (hFull : manager.bucketFull key = true) : manager.removeEntry key = (manager, true) := by
  obtain ⟨entry, hEntry⟩ := isSome_iff_exists.mp hFound
  obtain ⟨index, hIndex⟩ := indices_of_lookup hEntry
  simp only [IndexManager.removeEntry, hEntry, hIndex, (appendUpdate_none_iff hIndex).mpr hFull,
    getD_none]

theorem removeEntry_setsKey (hGrown : manager.Grown)
    (hFits : ¬ (Call.removeEntry key).LosesRemoval manager) :
    SetsKey manager key none (manager.removeEntry key) := by
  unfold IndexManager.removeEntry
  split
  · exact setsKey_of_failed hGrown fun _ => rfl
  next entry hEntry =>
    obtain ⟨index, hIndex⟩ := indices_of_lookup hEntry
    simp only [hIndex]
    cases hAppend : manager.appendUpdate (getBucketIndex key.1)
        (UpdateEntry.new (truncateKey key) entry.archiveLocation entry.size .delete) with
    | none => exact absurd ⟨by simp [hEntry], (appendUpdate_none_iff hIndex).mp hAppend⟩ hFits
    | some manager' => exact setsKey_of_append hGrown hAppend

/-! ## Runs -/

variable {state : Tracked}

theorem agrees_of_setsKey (hAgrees : state.Agrees) (location : Option Location)
    (h : SetsKey state.manager key (location.map (Location.entry (truncateKey key))) result) :
    Tracked.Agrees ⟨result.1, if result.2 then
      Function.update state.map (truncateKey key) location else state.map⟩ := by
  intro other
  rw [h.lookup]
  by_cases hOk : result.2 = true
  · by_cases hKey : truncateKey other = truncateKey key
    · simp only [hOk, hKey, and_self, if_true, update_self]
    · simp only [hOk, hKey, and_false, if_false, if_true, update_of_ne hKey]
      exact hAgrees other
  · rw [if_neg fun hBoth => hOk hBoth.1, if_neg hOk]
    exact hAgrees other

theorem updateEntryStatus_of_missing (h : manager.lookup key = none) (status : UpdateStatus) :
    manager.updateEntryStatus key status = (manager, false) := by
  simp only [IndexManager.updateEntryStatus, h]

theorem step_grown (h : manager.Grown) (call : Call) : (manager.step call).1.Grown := by
  cases call with
  | addEntry key archiveId archiveOffset size disk =>
    exact (addEntry_setsKey h disk key archiveId archiveOffset size).grown
  | updateEntry key archiveId archiveOffset size =>
    exact (updateEntry_setsKey h key archiveId archiveOffset size).grown
  | removeEntry key =>
    by_cases hLoses : (Call.removeEntry key).LosesRemoval manager
    · rw [IndexManager.step, removeEntry_of_full hLoses.1 hLoses.2]
      exact h
    · exact (removeEntry_setsKey h hLoses).grown
  | updateEntryStatus key status =>
    cases hFound : manager.lookup key with
    | none =>
      rw [IndexManager.step, updateEntryStatus_of_missing hFound]
      exact h
    | some entry => exact (updateEntryStatus_setsKey h hFound status).grown
  | flushUpdatesForBucket bucket disk => exact flushUpdatesForBucket_grown h disk bucket
  | clear => exact clear_grown h

theorem step_agrees (hGrown : state.manager.Grown) (hAgrees : state.Agrees) {call : Call}
    (hFits : ¬ call.LosesRemoval state.manager) : (state.step call).Agrees := by
  cases call with
  | addEntry key archiveId archiveOffset size disk =>
    exact agrees_of_setsKey hAgrees (some ⟨⟨archiveId, archiveOffset⟩, size⟩)
      (addEntry_setsKey hGrown disk key archiveId archiveOffset size)
  | updateEntry key archiveId archiveOffset size =>
    exact agrees_of_setsKey hAgrees (some ⟨⟨archiveId, archiveOffset⟩, size⟩)
      (updateEntry_setsKey hGrown key archiveId archiveOffset size)
  | removeEntry key => exact agrees_of_setsKey hAgrees none (removeEntry_setsKey hGrown hFits)
  | updateEntryStatus key status =>
    cases hFound : state.manager.lookup key with
    | none =>
      simp only [Tracked.step, IndexManager.step, updateEntryStatus_of_missing hFound]
      exact hAgrees
    | some entry =>
      have h := updateEntryStatus_setsKey hGrown hFound status
      by_cases hStatus : status = .delete
      · subst hStatus
        exact agrees_of_setsKey hAgrees none h
      · -- the location does not change, so the map is updated with what it holds
        have hValue : some ⟨truncateKey key, entry.archiveLocation, entry.size⟩ =
            (state.map (truncateKey key)).map (Location.entry (truncateKey key)) := by
          have hEntry := hAgrees key
          rw [hFound] at hEntry
          obtain ⟨location, hLocation, hEq⟩ := map_eq_some_iff.mp hEntry.symm
          rw [hLocation, ← hEq]
          rfl
        rw [if_neg hStatus, hValue] at h
        have hKeep := agrees_of_setsKey hAgrees _ h
        rw [update_eq_self, ite_self] at hKeep
        cases status with
        | delete => exact absurd rfl hStatus
        | normal | headerNonResident | dataNonResident =>
          simp only [Tracked.step, Call.effect, ite_self]
          exact hKeep
  | flushUpdatesForBucket bucket disk =>
    intro key
    simp only [Tracked.step, Call.effect, ite_self]
    exact (lookup_flushUpdatesForBucket hGrown disk bucket key).trans (hAgrees key)
  | clear => exact fun key => lookup_clear state.manager key

theorem run_grown (h : state.manager.Grown) (calls : List Call) :
    (state.run calls).manager.Grown := by
  induction calls generalizing state with
  | nil => exact h
  | cons call calls ih => exact ih (step_grown h call)

/-- The manager agrees with the map after every call of the run, and a removal that reports
success takes its key away and nothing else. -/
structure RefinesMap (start : Tracked) (calls : List Call) : Prop where
  agrees : ∀ n, (start.run (calls.take n)).Agrees
  removed : ∀ n key, calls[n]? = some (.removeEntry key) →
    let before := (start.run (calls.take n)).manager
    (before.removeEntry key).2 = true →
      (before.removeEntry key).1.lookup key = none ∧
      ∀ other, truncateKey other ≠ truncateKey key →
        (before.removeEntry key).1.lookup other = before.lookup other

variable {calls : List Call} {n : Nat}

theorem run_take_spec (hGrown : state.manager.Grown) (hAgrees : state.Agrees)
    (hFits : RemovalsFit state calls) (n : Nat) :
    (state.run (calls.take n)).Agrees ∧ ∀ call, calls[n]? = some call →
      ¬ call.LosesRemoval (state.run (calls.take n)).manager := by
  induction calls generalizing state n with
  | nil => simpa [Tracked.run] using hAgrees
  | cons call calls ih =>
    cases n with
    | zero =>
      refine ⟨hAgrees, ?_⟩
      rintro call' h
      obtain rfl := Option.some.inj h
      exact hFits.1
    | succ n => exact ih (step_grown hGrown call) (step_agrees hGrown hAgrees hFits.1) hFits.2 n

theorem refinesMap_of_removalsFit (hGrown : state.manager.Grown) (hAgrees : state.Agrees)
    (hFits : RemovalsFit state calls) :
    RefinesMap state calls where
  agrees n := (run_take_spec hGrown hAgrees hFits n).1
  removed := by
    intro n key hCall before hTrue
    have hKeeps := (run_take_spec hGrown hAgrees hFits n).2 _ hCall
    have h := removeEntry_setsKey (run_grown hGrown _) hKeeps
    constructor
    · rw [h.lookup, if_pos ⟨hTrue, rfl⟩]
    · intro other hOther
      rw [h.lookup, if_neg fun hBoth => hOther hBoth.2]

theorem removalsFit_of_refinesMap (h : RefinesMap state calls) : RemovalsFit state calls := by
  induction calls generalizing state with
  | nil => trivial
  | cons call calls ih =>
    refine ⟨?_, ih ⟨fun n => h.agrees (n + 1), fun n => h.removed (n + 1)⟩⟩
    intro hLoses
    cases call with
    | removeEntry key =>
      have hEq := removeEntry_of_full hLoses.1 hLoses.2
      have hRemoved := h.removed 0 key rfl
      change (state.manager.removeEntry key).2 = true →
        (state.manager.removeEntry key).1.lookup key = none ∧ _ at hRemoved
      rw [hEq] at hRemoved
      exact absurd hLoses.1 (by simp [(hRemoved rfl).1])
    | _ => exact hLoses

/-- From an empty manager, a run refines the map exactly when no removal finds its key while the
update section of its bucket is full. -/
theorem refinesMap_iff_removalsFit (calls : List Call) :
    RefinesMap Tracked.start calls ↔ RemovalsFit Tracked.start calls :=
  ⟨removalsFit_of_refinesMap, refinesMap_of_removalsFit new_grown fun _ => rfl⟩

/-! ## A removal that is lost -/

theorem addEntry_of_room
    (hIndex : (manager.ensureBucket (getBucketIndex key.1)).indices (getBucketIndex key.1) =
      some index)
    {archiveId : UInt16} {archiveOffset size : UInt32}
    (hLog : index.updateSection.append
      (UpdateEntry.new (truncateKey key) ⟨archiveId, archiveOffset⟩ size .normal) = some log)
    (disk : Disk) :
    manager.addEntry disk key archiveId archiveOffset size =
      ((manager.ensureBucket (getBucketIndex key.1)).insert (getBucketIndex key.1)
        { index with updateSection := log }, .ok ()) := by
  simp [IndexManager.addEntry, IndexManager.appendUpdate, hIndex, hLog]

theorem run_append_singleton (state : Tracked) (calls : List Call) (call : Call) :
    state.run (calls ++ [call]) = (state.run calls).step call := by
  simp [Tracked.run]

/-- Repeating an insertion fills the update section without a flush. -/
theorem fill_spec (key : EncodingKey) (archiveId : UInt16) (archiveOffset size : UInt32)
    (disk : Disk) (hn : n ≤ 2040) :
    let manager := (Tracked.start.run
      (replicate n (.addEntry key archiveId archiveOffset size disk))).manager
    ∃ index, (manager.ensureBucket (getBucketIndex key.1)).indices (getBucketIndex key.1) =
        some index ∧
      index.Grown (getBucketIndex key.1) ∧ index.updateSection.allEntries.length = n ∧
      (n ≠ 0 → manager.indices (getBucketIndex key.1) = some index ∧
        manager.lookup key = some ⟨truncateKey key, ⟨archiveId, archiveOffset⟩, size⟩) := by
  induction n with
  | zero =>
    refine ⟨newIndexFile (getBucketIndex key.1), ?_, newIndexFile_grown _, rfl, by simp⟩
    simp [Tracked.run, Tracked.start, IndexManager.new, IndexManager.ensureBucket,
      IndexManager.insert]
  | succ n ih =>
    obtain ⟨index, hIndex, hGrown, hLength, -⟩ := ih (by omega)
    have hRoom : ¬ index.updateSection.isFull = true := by
      rw [isFull_iff_length hGrown.packed, hLength, hGrown.capacity]
      have hSlots : entriesPerPage = 170 := rfl
      omega
    rw [← @append_none_iff (UpdateEntry.new (truncateKey key) ⟨archiveId, archiveOffset⟩ size
      .normal)] at hRoom
    obtain ⟨log, hLog⟩ := ne_none_iff_exists'.mp hRoom
    obtain ⟨ensured, hStep⟩ : ∃ ensured : IndexManager, (Tracked.start.run (replicate (n + 1)
        (.addEntry key archiveId archiveOffset size disk))).manager =
        ensured.insert (getBucketIndex key.1) { index with updateSection := log } := by
      rw [replicate_succ', run_append_singleton]
      simp only [Tracked.step, IndexManager.step, addEntry_of_room hIndex hLog]
      exact ⟨_, rfl⟩
    rw [hStep]
    refine ⟨{ index with updateSection := log }, ?_,
      append_grown hGrown (new_hashGuard_ne_zero _ _ _ _) hLog, ?_, fun _ => ⟨?_, ?_⟩⟩
    · simp [IndexManager.ensureBucket, IndexManager.insert]
    · rw [allEntries_append hLog, length_append, hLength]
      rfl
    · simp [IndexManager.insert]
    · rw [lookup_insert, if_pos rfl, searchBothSections_append hLog]
      exact if_pos rfl

/-- After 2040 insertions of a key, its removal reports success and leaves the key in place. -/
theorem removeEntry_lost (key : EncodingKey) (archiveId : UInt16) (archiveOffset size : UInt32)
    (disk : Disk) (hn : n = 2040) :
    let full := (Tracked.start.run
      (replicate n (.addEntry key archiveId archiveOffset size disk))).manager
    (full.removeEntry key).2 = true ∧ (full.removeEntry key).1.lookup key =
      some ⟨truncateKey key, ⟨archiveId, archiveOffset⟩, size⟩ := by
  intro full
  obtain ⟨index, -, hGrown, hLength, hFull⟩ := fill_spec key archiveId archiveOffset size disk hn.le
  obtain ⟨hIndex, hFound⟩ := hFull (by omega)
  have hNoRoom : full.bucketFull key = true := by
    rw [IndexManager.bucketFull, hIndex, any_some, isFull_iff_length hGrown.packed,
      hLength, hGrown.capacity, hn]
    rfl
  rw [removeEntry_of_full (by rw [hFound]; rfl) hNoRoom]
  exact ⟨rfl, hFound⟩

theorem not_refinesMap_of_lost {start : Tracked} {entry : IndexEntry}
    (hTrue : ((start.run calls).manager.removeEntry key).2 = true)
    (hFound : ((start.run calls).manager.removeEntry key).1.lookup key = some entry) :
    ¬ RefinesMap start (calls ++ [.removeEntry key]) := by
  intro h
  have hRemoved := h.removed calls.length key (by simp)
  rw [take_left] at hRemoved
  have hGone := (hRemoved hTrue).1
  rw [hFound] at hGone
  cases hGone

def sampleKey : EncodingKey := ⟨List.replicate 16 1, by simp⟩

/-- A file system on which every write succeeds. -/
def workingDisk : Disk := ⟨.written, .written, .written⟩

theorem not_refinesMap_of_full_section :
    ¬ RefinesMap Tracked.start
      (List.replicate 2040 (.addEntry sampleKey 1 0x200 100 workingDisk) ++
        [.removeEntry sampleKey]) := by
  obtain ⟨hTrue, hFound⟩ := removeEntry_lost sampleKey 1 0x200 100 workingDisk rfl
  exact not_refinesMap_of_lost hTrue hFound

end Cascette.Index
