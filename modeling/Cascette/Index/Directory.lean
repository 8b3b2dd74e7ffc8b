import Cascette.Index.RoundTrip
import Cascette.Lib.Except

/-!
# Loading and saving a directory

`load_all` inserts the files of a directory one after another, in the order the directory
enumerates them; the version in a file name is parsed and not used. So the last file of a bucket
decides its lookups (`loadAll_last_enumerated`), and the order does not matter when every bucket
has one file. `save_all` writes one file for each bucket, so loading what it wrote gives the
lookups of the manager that was saved (`lookup_loadAll_saveAll`).
-/

namespace Cascette.Index

open Lib List

/-! ## File names -/

theorem sliceStr_of_ascii {name : Bytes} (h : ∀ b ∈ name, b.toNat < 0x80) (start stop : Nat) :
    sliceStr name start stop = .ok ((name.take stop).drop start) := by
  have hAscii : ∀ i, isContinuation (name.getD i 0) = false := by
    intro i
    rw [getD_eq_getElem?_getD]
    cases hi : name[i]? with
    | none => rfl
    | some b => exact isContinuation_of_ascii (h b (mem_of_getElem? hi))
  simp only [sliceStr, hAscii, Bool.false_eq_true, or_self, if_false]

theorem generateIndexFilename_ascii {bucket : UInt8} {version : Nat} {b : UInt8}
    (h : b ∈ generateIndexFilename bucket version) : b.toNat < 0x80 := by
  rcases mem_append.mp h with h | h
  · exact (hexBytes_range h).2
  · rcases mem_append.mp h with h | h
    · exact (hexBytes_range h).2
    · have hAscii : idxSuffix.all (fun b => decide (b.toNat < 0x80)) = true := rfl
      exact of_decide_eq_true (all_eq_true.mp hAscii b h)

theorem parseIndexFilename_generate (bucket : UInt8) {version : Nat} (hVersion : version < 2 ^ 32) :
    parseIndexFilename (generateIndexFilename bucket version) =
      .ok (some (bucket, UInt32.ofNat version)) := by
  have hAscii := fun b => @generateIndexFilename_ascii bucket version b
  have hLength : (generateIndexFilename bucket version).length = 14 := by
    simp [generateIndexFilename, idxSuffix]
  have hSuffix : (generateIndexFilename bucket version).drop 10 = idxSuffix := by
    simp [generateIndexFilename, drop_append]
  have hFirst : (generateIndexFilename bucket version).take 2 = hexBytes 2 bucket.toNat := by
    simp [generateIndexFilename]
  have hSecond : ((generateIndexFilename bucket version).take 10).drop 2 = hexBytes 8 version := by
    simp [generateIndexFilename, take_append]
  have hLower : idxSuffix.map asciiLower = idxSuffix := by decide
  have hBucket := fromStrRadix16_hexBytes (w := 2) (by norm_num) bucket.toNat_lt
  have hNumber := fromStrRadix16_hexBytes (w := 8) (by norm_num) (show version < 16 ^ 8 by omega)
  simp only [parseIndexFilename, hLength, hSuffix, hLower, ne_eq, not_true_eq_false, or_self,
    if_false, sliceStr_of_ascii hAscii, drop_zero, hFirst, hSecond]
  simp [hBucket, hNumber, bind, Except.bind]

/-! ## What a file contributes -/

/-- The bucket and the index file that `load_all` inserts for a directory entry, if any. -/
def DirEntry.contribution (file : DirEntry) : Except Fault (Option (UInt8 × IndexFile)) :=
  if validUtf8 file.name then do
    match ← parseIndexFilename file.name with
    | some (bucket, _) =>
      let data ← openFile "Failed to open index" file
      let index ← loadIndexFile data
      .ok (some (bucket, index))
    | none =>
      match ← parseV5IndexFilename file.name with
      | some (bucket, _) =>
        let data ← openFile "Failed to read V5 index" file
        let index ← loadV5IndexFile data
        .ok (some (bucket, index))
      | none => .ok none
  else .ok none

/-- A file that `load_all` can read, or that it ignores. -/
def DirEntry.WellFormed (file : DirEntry) : Prop := ∃ loaded, file.contribution = .ok loaded

variable {index : IndexFile} {disk : Disk}

theorem contribution_saved {id : UInt8}
    (hGrown : index.Grown id) {data : Bytes} (hSave : saveIndex disk id index = .ok data)
    (version : Nat) (hVersion : version < 2 ^ 32) :
    ∃ loaded, DirEntry.contribution ⟨generateIndexFilename id version, .ok data⟩ =
        .ok (some (id, loaded)) ∧
      ∀ k, (∀ entry, searchBothSections index k = some entry →
        entry.archiveLocation.Packable ∧ entry.key ≠ zeroKey) →
        searchBothSections loaded k = searchBothSections index k := by
  obtain ⟨loaded, hLoaded, hSearch⟩ := searchBothSections_loaded hGrown hSave
  have hValid : validUtf8 (generateIndexFilename id version) = true :=
    validUtf8_of_ascii fun b => generateIndexFilename_ascii
  refine ⟨loaded, ?_, hSearch⟩
  simp only [DirEntry.contribution, hValid, if_true, parseIndexFilename_generate id hVersion,
    openFile, hLoaded, bind, Except.bind]

def IndexManager.insertLoaded (manager : IndexManager) (loaded : UInt8 × IndexFile) :
    IndexManager :=
  manager.insert loaded.1 loaded.2

theorem loadFile_eq (manager : IndexManager) (file : DirEntry) :
    manager.loadFile file =
      file.contribution.map fun loaded => loaded.elim manager manager.insertLoaded := by
  unfold IndexManager.loadFile DirEntry.contribution
  split
  · cases parseIndexFilename file.name with
    | error fault => rfl
    | ok parsed =>
      cases parsed with
      | some parsed =>
        simp only [IndexManager.loadIndex, bind, Except.bind]
        cases openFile "Failed to open index" file with
        | error fault => rfl
        | ok data =>
          dsimp only
          cases loadIndexFile data <;> rfl
      | none =>
        cases parseV5IndexFilename file.name with
        | error fault => rfl
        | ok parsed =>
          cases parsed with
          | none => rfl
          | some parsed =>
            simp only [IndexManager.loadV5Index, bind, Except.bind]
            cases openFile "Failed to read V5 index" file with
            | error fault => rfl
            | ok data =>
              dsimp only
              cases loadV5IndexFile data <;> rfl
  · rfl

/-- The index files of a listing, in the order of enumeration. -/
def loadedFiles (files : List DirEntry) : List (UInt8 × IndexFile) :=
  files.filterMap fun file => file.contribution.toOption.bind id

variable {files : List DirEntry}

theorem loadListing_eq (h : ∀ file ∈ files, file.WellFormed) (manager : IndexManager) :
    manager.loadListing (files.map .ok) =
      ((loadedFiles files).foldl IndexManager.insertLoaded manager, .ok ()) := by
  induction files generalizing manager with
  | nil => rfl
  | cons file files ih =>
    obtain ⟨loaded, hLoaded⟩ := h file mem_cons_self
    have hRest := ih fun other hOther => h other (mem_cons_of_mem file hOther)
    simp only [map_cons, IndexManager.loadListing, loadFile_eq, hLoaded, Except.map]
    rw [hRest]
    cases loaded with
    | none | some loaded => simp [loadedFiles, hLoaded, Except.toOption]

theorem indices_foldl_insertLoaded (loaded : List (UInt8 × IndexFile)) (manager : IndexManager)
    (id : UInt8) :
    (loaded.foldl IndexManager.insertLoaded manager).indices id =
      ((loaded.reverse.find? fun file => file.1 = id).map Prod.snd).or (manager.indices id) := by
  induction loaded generalizing manager with
  | nil => simp
  | cons file loaded ih =>
    rw [foldl_cons, ih, reverse_cons, find?_append]
    cases loaded.reverse.find? fun file => file.1 = id with
    | some found => simp
    | none =>
      by_cases hId : file.1 = id
      · simp [IndexManager.insertLoaded, IndexManager.insert, hId]
      · simp [IndexManager.insertLoaded, IndexManager.insert, hId, Function.update_of_ne
          (Ne.symm hId)]

variable (h : ∀ file ∈ files, file.WellFormed)
include h

theorem lookup_loadAll (key : EncodingKey) :
    (IndexManager.new.loadAll (.ok (files.map .ok))).1.lookup key =
      ((loadedFiles files).reverse.find? fun file => file.1 = getBucketIndex key.1).bind
        fun file => searchBothSections file.2 (truncateKey key) := by
  simp only [IndexManager.loadAll, loadListing_eq h, IndexManager.lookup,
    indices_foldl_insertLoaded]
  cases (loadedFiles files).reverse.find? fun file => file.1 = getBucketIndex key.1 <;> rfl

/-- When no bucket is loaded twice, the order of enumeration does not matter. -/
theorem lookup_loadAll_perm {files' : List DirEntry}
    (hPerm : files'.Perm files) (hNodup : ((loadedFiles files).map Prod.fst).Nodup)
    (key : EncodingKey) :
    (IndexManager.new.loadAll (.ok (files'.map .ok))).1.lookup key =
      (IndexManager.new.loadAll (.ok (files.map .ok))).1.lookup key := by
  have h' : ∀ file ∈ files', file.WellFormed := fun file hFile => h file (hPerm.mem_iff.mp hFile)
  rw [lookup_loadAll h, lookup_loadAll h']
  have hLoaded : (loadedFiles files').reverse.Perm (loadedFiles files).reverse :=
    ((loadedFiles files').reverse_perm.trans (hPerm.filterMap _)).trans
      (loadedFiles files).reverse_perm.symm
  rw [find?_eq_of_perm hLoaded (by simpa [map_reverse] using hNodup)]

omit h

/-- Each bucket's lookups are decided by its last enumerated file, whatever its version. -/
theorem loadAll_last_enumerated (files : List DirEntry)
    (hWellFormed : ∀ file ∈ files, file.WellFormed) :
    (IndexManager.new.loadAll (.ok (files.map .ok))).2 = .ok () ∧
    (∀ key, (IndexManager.new.loadAll (.ok (files.map .ok))).1.lookup key =
      ((loadedFiles files).reverse.find? fun file => file.1 = getBucketIndex key.1).bind
        fun file => searchBothSections file.2 (truncateKey key)) ∧
    (((loadedFiles files).map Prod.fst).Nodup → ∀ files' : List DirEntry, files'.Perm files → ∀ key,
      (IndexManager.new.loadAll (.ok (files'.map .ok))).1.lookup key =
        (IndexManager.new.loadAll (.ok (files.map .ok))).1.lookup key) := by
  refine ⟨?_, lookup_loadAll hWellFormed, ?_⟩
  · simp only [IndexManager.loadAll, loadListing_eq hWellFormed]
  · intro hNodup files' hPerm
    exact lookup_loadAll_perm hWellFormed hPerm hNodup

/-- A bucket with one sorted entry, in archive `archiveId`. -/
def sampleIndex (archiveId : UInt16) : IndexFile :=
  { newIndexFile (getBucketIndex sampleKey.1) with
    entries := [⟨truncateKey sampleKey, ⟨archiveId, 0x200⟩, 100⟩] }

/-- The file `save_index` writes for it, under a version number. -/
def sampleFile (version : Nat) (archiveId : UInt16) : DirEntry where
  name := generateIndexFilename (getBucketIndex sampleKey.1) version
  content := (saveIndex workingDisk (getBucketIndex sampleKey.1) (sampleIndex archiveId)).mapError
    fun _ => ""

variable {archiveId : UInt16}

theorem sampleFile_contribution {version : Nat} (hVersion : version < 2 ^ 32)
    (hArchive : archiveId.toNat < 1024) :
    ∃ loaded, (sampleFile version archiveId).contribution =
        .ok (some (getBucketIndex sampleKey.1, loaded)) ∧
      searchBothSections loaded (truncateKey sampleKey) =
        some ⟨truncateKey sampleKey, ⟨archiveId, 0x200⟩, 100⟩ := by
  have hGrown : (sampleIndex archiveId).Grown (getBucketIndex sampleKey.1) :=
    { newIndexFile_grown _ with sorted := pairwise_singleton _ _ }
  have hSearch : searchBothSections (sampleIndex archiveId) (truncateKey sampleKey) =
      some ⟨truncateKey sampleKey, ⟨archiveId, 0x200⟩, 100⟩ := by
    rw [searchBothSections_eq_view hGrown.sorted]
    simp [sampleIndex, newIndexFile, Lsm.view, Lsm.newest]
  obtain ⟨data, hData⟩ := saveIndex_of_working hGrown.header (by simp [sampleIndex, entryData])
  obtain ⟨loaded, hLoaded, hSame⟩ := contribution_saved hGrown hData version hVersion
  refine ⟨loaded, ?_, ?_⟩
  · rw [sampleFile, hData]
    exact hLoaded
  · rw [hSame, hSearch]
    intro entry hEntry
    obtain rfl := Option.some.inj hEntry
    have hOffset : (0x200 : UInt32).toNat < 2 ^ 30 := by decide
    have hKey : truncateKey sampleKey ≠ zeroKey := by decide
    exact ⟨⟨hArchive, hOffset⟩, hKey⟩

theorem sampleFile_wellFormed {version : Nat} (hVersion : version < 2 ^ 32)
    (hArchive : archiveId.toNat < 1024) : (sampleFile version archiveId).WellFormed := by
  obtain ⟨loaded, hLoaded, -⟩ := sampleFile_contribution hVersion hArchive
  exact ⟨_, hLoaded⟩

theorem wellFormed_pair {first second : DirEntry} (hFirst : first.WellFormed)
    (hSecond : second.WellFormed) : ∀ file ∈ [first, second], file.WellFormed := by
  simp [hFirst, hSecond]

/-- Two files of one bucket: the second one enumerated is the one that lookups see. -/
theorem lookup_two_samples {version version' : Nat} (hVersion : version < 2 ^ 32)
    (hVersion' : version' < 2 ^ 32) {archiveId' : UInt16} (hArchive : archiveId.toNat < 1024)
    (hArchive' : archiveId'.toNat < 1024) :
    (IndexManager.new.loadAll (.ok
      ([sampleFile version archiveId, sampleFile version' archiveId'].map .ok))).1.lookup
        sampleKey = some ⟨truncateKey sampleKey, ⟨archiveId', 0x200⟩, 100⟩ := by
  obtain ⟨first, hFirst, -⟩ := sampleFile_contribution hVersion hArchive
  obtain ⟨second, hSecond, hSearch⟩ := sampleFile_contribution hVersion' hArchive'
  rw [lookup_loadAll (wellFormed_pair ⟨_, hFirst⟩ ⟨_, hSecond⟩)]
  simp [loadedFiles, hFirst, hSecond, Except.toOption, hSearch]

/-- Two versions of one bucket: the order decides, and the highest version can lose. -/
theorem loadAll_order_matters :
    (sampleFile 1 1).WellFormed ∧ (sampleFile 2 2).WellFormed ∧
    (IndexManager.new.loadAll (.ok ([sampleFile 1 1, sampleFile 2 2].map .ok))).1.lookup
      sampleKey = some ⟨truncateKey sampleKey, ⟨2, 0x200⟩, 100⟩ ∧
    (IndexManager.new.loadAll (.ok ([sampleFile 2 2, sampleFile 1 1].map .ok))).1.lookup
      sampleKey = some ⟨truncateKey sampleKey, ⟨1, 0x200⟩, 100⟩ :=
  ⟨sampleFile_wellFormed (by norm_num) (by decide),
    sampleFile_wellFormed (by norm_num) (by decide),
    lookup_two_samples (by norm_num) (by norm_num) (by decide) (by decide),
    lookup_two_samples (by norm_num) (by norm_num) (by decide) (by decide)⟩

/-- The two versions, loaded with the later one last. -/
theorem loadAll_last_enumerated_two_versions :
    (IndexManager.new.loadAll (.ok ([sampleFile 1 1, sampleFile 2 2].map .ok))).2 = .ok () :=
  (loadAll_last_enumerated [sampleFile 1 1, sampleFile 2 2]
    (wellFormed_pair (sampleFile_wellFormed (by norm_num) (by decide))
      (sampleFile_wellFormed (by norm_num) (by decide)))).1

/-! ## Saving -/

theorem iter_nodup (manager : IndexManager) : (manager.iter.map Prod.fst).Nodup := by
  have hIds : ((range 256).map UInt8.ofNat).Nodup := by
    refine Nodup.map_on ?_ nodup_range
    intro a ha b hb h
    have := congrArg UInt8.toNat h
    simp only [mem_range] at ha hb
    simpa [Nat.mod_eq_of_lt ha, Nat.mod_eq_of_lt hb] using this
  rw [Nodup, pairwise_map, IndexManager.iter, pairwise_filterMap]
  refine hIds.imp ?_
  intro a b hab p hp q hq
  obtain ⟨-, -, rfl⟩ := Option.map_eq_some_iff.mp hp
  obtain ⟨-, -, rfl⟩ := Option.map_eq_some_iff.mp hq
  exact hab

/-- A loaded pair that stands for a pair of the saved manager. -/
def LoadedFrom (manager : IndexManager) (saved loaded : UInt8 × IndexFile) : Prop :=
  loaded.1 = saved.1 ∧ ∀ key : EncodingKey, getBucketIndex key.1 = saved.1 →
    searchBothSections loaded.2 (truncateKey key) = manager.lookup key

theorem loadedFiles_forall₂ {saved : List (UInt8 × IndexFile)}
    {rel : UInt8 × IndexFile → UInt8 × IndexFile → Prop}
    (h : Forall₂ (fun pair file => ∃ loaded, DirEntry.contribution file = .ok (some loaded) ∧
      rel pair loaded) saved files) :
    (∀ file ∈ files, file.WellFormed) ∧ Forall₂ rel saved (loadedFiles files) := by
  induction h with
  | nil => exact ⟨by simp, .nil⟩
  | @cons pair file saved files hHead hTail ih =>
    obtain ⟨loaded, hLoaded, hRel⟩ := hHead
    constructor
    · intro other hOther
      rcases mem_cons.mp hOther with rfl | hOther
      · exact ⟨_, hLoaded⟩
      · exact ih.1 other hOther
    · rw [loadedFiles, filterMap_cons, hLoaded]
      exact .cons hRel ih.2

variable {manager : IndexManager}

theorem saveAll_forall₂ (hGrown : manager.Grown)
    (hFits : ∀ key entry, manager.lookup key = some entry →
      entry.archiveLocation.Packable ∧ entry.key ≠ zeroKey)
    {disk : UInt8 → Disk} (hSave : manager.saveAll disk = .ok files) :
    Forall₂ (fun pair file => ∃ loaded, DirEntry.contribution file = .ok (some loaded) ∧
      LoadedFrom manager pair loaded) manager.iter files := by
  refine (mapM_forall₂ hSave).imp ?_
  rintro ⟨id, index⟩ file ⟨hMem, hFile⟩
  obtain ⟨data, hData, hFile⟩ := bind_eq_ok.mp hFile
  cases hFile
  have hIndex := mem_iter.mp hMem
  obtain ⟨loaded, hLoaded, hSearch⟩ :=
    contribution_saved (hGrown id index hIndex) hData 1 (by norm_num)
  refine ⟨(id, loaded), hLoaded, rfl, ?_⟩
  rintro key rfl
  rw [lookup_of_indices hIndex]
  apply hSearch
  intro entry hEntry
  exact hFits key entry (by rw [lookup_of_indices hIndex, hEntry])

theorem find?_loadedFrom {loaded : List (UInt8 × IndexFile)}
    (h : Forall₂ (LoadedFrom manager) manager.iter loaded)
    (hNodup : (loaded.map Prod.fst).Nodup) (key : EncodingKey) :
    ((loaded.find? fun pair => pair.1 = getBucketIndex key.1).bind fun pair =>
      searchBothSections pair.2 (truncateKey key)) = manager.lookup key := by
  cases hIndex : manager.indices (getBucketIndex key.1) with
  | some index =>
    obtain ⟨pair, hPair, hId, hSearch⟩ := forall₂_mem_left h (mem_iter.mpr hIndex)
    have hFind := find?_of_nodup hNodup hPair
    rw [hId] at hFind
    rw [hFind, Option.bind_some, hSearch key rfl]
  | none =>
    have hFind : (loaded.find? fun pair => pair.1 = getBucketIndex key.1) = none := by
      rw [find?_eq_none]
      intro pair hPair hId
      obtain ⟨⟨id, index⟩, hSaved, hEq, -⟩ := forall₂_mem_right h hPair
      have hSome := mem_iter.mp hSaved
      have hKey : id = getBucketIndex key.1 := hEq.symm.trans (of_decide_eq_true hId)
      rw [hKey, hIndex] at hSome
      cases hSome
    rw [hFind, IndexManager.lookup, hIndex]
    rfl

/-- Loading the files that `save_all` wrote, in any order, gives back every lookup: the
locations that lookups return must fit their five bytes and their keys must not be all zero. -/
theorem lookup_loadAll_saveAll (calls : List Call) (disk : UInt8 → Disk)
    (files listing : List DirEntry)
    (hSave : (Tracked.start.run calls).manager.saveAll disk = .ok files)
    (hFits : ∀ key entry, (Tracked.start.run calls).manager.lookup key = some entry →
      entry.archiveLocation.Packable ∧ entry.key ≠ zeroKey)
    (hListing : listing.Perm files) :
    (IndexManager.new.loadAll (.ok (listing.map .ok))).2 = .ok () ∧
      ∀ key, (IndexManager.new.loadAll (.ok (listing.map .ok))).1.lookup key =
        (Tracked.start.run calls).manager.lookup key := by
  have hGrown : (Tracked.start.run calls).manager.Grown := run_grown new_grown calls
  generalize (Tracked.start.run calls).manager = manager at hSave hFits hGrown ⊢
  obtain ⟨hWellFormed, hLoaded⟩ := loadedFiles_forall₂ (saveAll_forall₂ hGrown hFits hSave)
  have hNodup : ((loadedFiles files).map Prod.fst).Nodup := by
    rw [← forall₂_map_eq (hLoaded.imp fun saved loaded h => h.1.symm)]
    exact iter_nodup manager
  constructor
  · simp only [IndexManager.loadAll,
      loadListing_eq fun file hFile => hWellFormed file (hListing.mem_iff.mp hFile)]
  · intro key
    rw [lookup_loadAll_perm hWellFormed hListing hNodup, lookup_loadAll hWellFormed,
      find?_eq_of_perm (loadedFiles files).reverse_perm hNodup]
    exact find?_loadedFrom hLoaded hNodup key

theorem saveAll_of_working (hGrown : manager.Grown)
    (hSize : ∀ id index, manager.indices id = some index →
      (entryData index.entries).length < 2 ^ 32) :
    ∃ files, manager.saveAll (fun _ => workingDisk) = .ok files := by
  apply mapM_of_forall
  rintro ⟨id, index⟩ hMem
  have hIndex := mem_iter.mp hMem
  obtain ⟨data, hData⟩ := saveIndex_of_working (hGrown id index hIndex).header
    (hSize id index hIndex)
  simp only [hData, bind, Except.bind]
  exact ⟨_, rfl⟩

/-- After one insertion into an empty manager every sorted section is still empty. -/
theorem entries_addEntry_new {key : EncodingKey} {archiveOffset size : UInt32} {id : UInt8}
    (h : (IndexManager.new.addEntry disk key archiveId archiveOffset size).1.indices id =
      some index) : index.entries = [] := by
  have hNew : (IndexManager.new.ensureBucket (getBucketIndex key.1)).indices
      (getBucketIndex key.1) = some (newIndexFile (getBucketIndex key.1)) := by
    simp [IndexManager.ensureBucket, IndexManager.new, IndexManager.insert]
  obtain ⟨log, hLog⟩ := Option.isSome_iff_exists.mp (append_clear_isSome UpdateSection.new
    (UpdateEntry.new (truncateKey key) ⟨archiveId, archiveOffset⟩ size .normal))
  rw [addEntry_of_room hNew hLog] at h
  by_cases hId : id = getBucketIndex key.1
  · subst hId
    simp only [IndexManager.insert, Function.update_self, Option.some.injEq] at h
    rw [← h]
    rfl
  · simp [IndexManager.insert, IndexManager.ensureBucket, IndexManager.new, hId] at h

/-- One insertion, saved and loaded. -/
theorem lookup_loadAll_saveAll_one :
    ∃ files, (Tracked.start.run [.addEntry sampleKey 1 0x200 100 workingDisk]).manager.saveAll
        (fun _ => workingDisk) = .ok files ∧
      ∀ key, (IndexManager.new.loadAll (.ok (files.map .ok))).1.lookup key =
        (Tracked.start.run [.addEntry sampleKey 1 0x200 100 workingDisk]).manager.lookup key := by
  have hSets := addEntry_setsKey new_grown workingDisk sampleKey 1 0x200 100
  have hRun : (Tracked.start.run [.addEntry sampleKey 1 0x200 100 workingDisk]).manager =
      (IndexManager.new.addEntry workingDisk sampleKey 1 0x200 100).1 := rfl
  obtain ⟨files, hFiles⟩ : ∃ files,
      (IndexManager.new.addEntry workingDisk sampleKey 1 0x200 100).1.saveAll
        (fun _ => workingDisk) = .ok files := by
    refine saveAll_of_working hSets.grown fun id index hIndex => ?_
    rw [entries_addEntry_new hIndex]
    norm_num [entryData]
  refine ⟨files, hFiles, (lookup_loadAll_saveAll [.addEntry sampleKey 1 0x200 100 workingDisk]
    (fun _ => workingDisk) files files hFiles ?_ (.refl files)).2⟩
  intro key entry hEntry
  have hLookup := (hSets.lookup key).symm.trans hEntry
  split at hLookup
  · obtain rfl := Option.some.inj hLookup
    decide
  · cases hLookup

end Cascette.Index
