import Cascette.Index.File

/-!
# The index manager

One index file per bucket, found by folding the nine key bytes. A lookup searches the update
section first and then the sorted section. Mutations only append to the update section;
`flushUpdatesForBucket` merges it into the sorted section and saves the file, and `addEntry` does
so when the section is full. What the file system answers is an argument of each call that
writes or reads.
-/

namespace Cascette.Index

open Lib List

structure IndexManager where
  indices : UInt8 → Option IndexFile

def IndexManager.new : IndexManager := ⟨fun _ => none⟩

def IndexManager.insert (manager : IndexManager) (id : UInt8) (index : IndexFile) : IndexManager :=
  ⟨Function.update manager.indices id (some index)⟩

@[simp]
theorem indices_insert_self (manager : IndexManager) (id : UInt8) (index : IndexFile) :
    (manager.insert id index).indices id = some index := Function.update_self ..

theorem indices_insert_of_ne (manager : IndexManager) {id id' : UInt8} (index : IndexFile)
    (h : id' ≠ id) : (manager.insert id index).indices id' = manager.indices id' :=
  Function.update_of_ne h ..

/-- The map's pairs in ascending order of the bucket. -/
def IndexManager.iter (manager : IndexManager) : List (UInt8 × IndexFile) :=
  ((List.range 256).map UInt8.ofNat).filterMap fun id => (manager.indices id).map (id, ·)

theorem mem_iter {manager : IndexManager} {id : UInt8} {index : IndexFile} :
    (id, index) ∈ manager.iter ↔ manager.indices id = some index := by
  simp only [IndexManager.iter, mem_filterMap, mem_map, mem_range,
    Option.map_eq_some_iff, Prod.mk.injEq]
  constructor
  · rintro ⟨id', ⟨n, hn, rfl⟩, index', hIndex, rfl, rfl⟩
    exact hIndex
  · intro h
    exact ⟨id, ⟨id.toNat, id.toNat_lt, UInt8.ofNat_toNat⟩, index, h, rfl, rfl⟩

def truncateKey (key : EncodingKey) : Key 9 := ⟨key.1.take 9, by simp [key.2]⟩

/-- The exclusive or of the first nine bytes, folded to a nibble. -/
def getBucketIndex (key : Bytes) : UInt8 :=
  if key.length < 9 then 0
  else
    let hash : UInt8 := (key.take 9).foldl (· ^^^ ·) 0
    (hash &&& (0x0f : UInt8)) ^^^ (hash >>> (4 : UInt8))

theorem getBucketIndex_truncateKey (key : EncodingKey) :
    getBucketIndex (truncateKey key).1 = getBucketIndex key.1 := by
  simp [getBucketIndex, truncateKey, key.2, take_take]

/-! ## Lookup -/

def searchBothSections (index : IndexFile) (searchKey : Key 9) : Option IndexEntry :=
  match index.updateSection.search searchKey with
  | some update => update.visible
  | none =>
    match binarySearchBy (fun entry => compare entry.key searchKey) index.entries with
    | .ok i => index.entries[i]?
    | .error _ => none

def IndexManager.lookup (manager : IndexManager) (key : EncodingKey) : Option IndexEntry :=
  (manager.indices (getBucketIndex key.1)).bind (searchBothSections · (truncateKey key))

/-! ## Mutation -/

def newIndexFile (id : UInt8) : IndexFile where
  version := .v7
  header := {
    dataSize := 16
    dataHash := 0
    version := 7
    bucket := id
    unused := 0
    lengthSize := 4
    locationSize := 5
    keySize := 9
    segmentBits := 30 }
  entries := []
  updateSection := UpdateSection.new

/-- The sorted section after a flush: updates in key order, the newest of each key. -/
def mergeUpdates (index : IndexFile) : List IndexEntry :=
  Lsm.merge IndexEntry.key UpdateEntry.ekey UpdateEntry.visible
    (Lsm.collect UpdateEntry.ekey index.updateSection.allEntries) index.entries

def IndexFile.flush (index : IndexFile) : IndexFile :=
  { index with entries := mergeUpdates index, updateSection := index.updateSection.clear }

/-- The merge stays in memory even when the save fails. -/
def IndexManager.flushUpdatesForBucket (manager : IndexManager) (disk : Disk) (bucket : UInt8) :
    IndexManager × Except Fault Unit :=
  match manager.indices bucket with
  | none => (manager, .ok ())
  | some index =>
    if index.updateSection.entryCount = 0 then (manager, .ok ())
    else (manager.insert bucket index.flush, (saveIndex disk bucket index.flush).map fun _ => ())

/-- Appends to the update section of a bucket; `None` when the bucket is missing or full. -/
def IndexManager.appendUpdate (manager : IndexManager) (id : UInt8) (entry : UpdateEntry) :
    Option IndexManager := do
  let index ← manager.indices id
  let log ← index.updateSection.append entry
  some (manager.insert id { index with updateSection := log })

def IndexManager.ensureBucket (manager : IndexManager) (id : UInt8) : IndexManager :=
  match manager.indices id with
  | some _ => manager
  | none => manager.insert id (newIndexFile id)

def IndexManager.addEntry (manager : IndexManager) (disk : Disk) (key : EncodingKey)
    (archiveId : UInt16) (archiveOffset size : UInt32) : IndexManager × Except Fault Unit :=
  let id := getBucketIndex key.1
  let entry := UpdateEntry.new (truncateKey key) ⟨archiveId, archiveOffset⟩ size .normal
  let manager := manager.ensureBucket id
  match manager.appendUpdate id entry with
  | some manager => (manager, .ok ())
  | none =>
    match manager.flushUpdatesForBucket disk id with
    | (manager, .error fault) => (manager, .error fault)
    | (manager, .ok ()) =>
      match manager.appendUpdate id entry with
      | some manager => (manager, .ok ())
      | none => (manager, indexError "update section full after flush")

/-- The result of `append` is dropped: `true` also when the section is full. -/
def IndexManager.removeEntry (manager : IndexManager) (key : EncodingKey) : IndexManager × Bool :=
  match manager.lookup key with
  | none => (manager, false)
  | some entry =>
    let id := getBucketIndex key.1
    let tombstone := UpdateEntry.new (truncateKey key) entry.archiveLocation entry.size .delete
    match manager.indices id with
    | none => (manager, false)
    | some _ => ((manager.appendUpdate id tombstone).getD manager, true)

/-- The common end of `update_entry` and `update_entry_status`: the result of `append`. -/
def IndexManager.appendOrKeep (manager : IndexManager) (id : UInt8) (entry : UpdateEntry) :
    IndexManager × Bool :=
  match manager.appendUpdate id entry with
  | some manager => (manager, true)
  | none => (manager, false)

def IndexManager.updateEntry (manager : IndexManager) (key : EncodingKey) (archiveId : UInt16)
    (archiveOffset size : UInt32) : IndexManager × Bool :=
  match manager.lookup key with
  | none => (manager, false)
  | some _ =>
    manager.appendOrKeep (getBucketIndex key.1)
      (UpdateEntry.new (truncateKey key) ⟨archiveId, archiveOffset⟩ size .normal)

def IndexManager.updateEntryStatus (manager : IndexManager) (key : EncodingKey)
    (status : UpdateStatus) : IndexManager × Bool :=
  match manager.lookup key with
  | none => (manager, false)
  | some entry =>
    manager.appendOrKeep (getBucketIndex key.1)
      (UpdateEntry.new (truncateKey key) entry.archiveLocation entry.size status)

def IndexManager.clear (manager : IndexManager) : IndexManager :=
  ⟨fun id => (manager.indices id).map fun index =>
    { index with entries := [], updateSection := index.updateSection.clear }⟩

/-! ## Saving and loading the directory -/

/-- A file the directory enumerates: its name and what opening it gives. -/
structure DirEntry where
  name : Bytes
  content : Except String Bytes

/-- The files written, one for each bucket. -/
def IndexManager.saveAll (manager : IndexManager) (disk : UInt8 → Disk) :
    Except Fault (List DirEntry) :=
  manager.iter.mapM fun (id, index) => do
    let data ← saveIndex (disk id) id index
    .ok ⟨generateIndexFilename id 1, .ok data⟩

def openFile (context : String) (file : DirEntry) : Except Fault Bytes :=
  match file.content with
  | .ok data => .ok data
  | .error e => indexError (context ++ ": " ++ e)

def IndexManager.loadIndex (manager : IndexManager) (id : UInt8) (file : DirEntry) :
    Except Fault IndexManager := do
  let data ← openFile "Failed to open index" file
  let index ← loadIndexFile data
  .ok (manager.insert id index)

def IndexManager.loadV5Index (manager : IndexManager) (id : UInt8) (file : DirEntry) :
    Except Fault IndexManager := do
  let data ← openFile "Failed to read V5 index" file
  let index ← loadV5IndexFile data
  .ok (manager.insert id index)

/-- One turn of the loop of `load_all`: names that are not UTF-8 or of neither form are skipped. -/
def IndexManager.loadFile (manager : IndexManager) (file : DirEntry) : Except Fault IndexManager :=
  if validUtf8 file.name then do
    match ← parseIndexFilename file.name with
    | some (bucket, _) => manager.loadIndex bucket file
    | none =>
      match ← parseV5IndexFilename file.name with
      | some (bucket, _) => manager.loadV5Index bucket file
      | none => .ok manager
  else .ok manager

def IndexManager.loadListing (manager : IndexManager) :
    List (Except String DirEntry) → IndexManager × Except Fault Unit
  | [] => (manager, .ok ())
  | .error e :: _ => (manager, indexError ("Failed to read entry: " ++ e))
  | .ok file :: rest =>
    match manager.loadFile file with
    | .ok manager => manager.loadListing rest
    | .error fault => (manager, .error fault)

/-- What was loaded before an error stays in the map. -/
def IndexManager.loadAll (manager : IndexManager)
    (directory : Except String (List (Except String DirEntry))) :
    IndexManager × Except Fault Unit :=
  match directory with
  | .error e => (manager, indexError ("Failed to read directory: " ++ e))
  | .ok listing => manager.loadListing listing

end Cascette.Index
