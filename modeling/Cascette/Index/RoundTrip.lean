import Cascette.Index.Refinement

/-!
# Saving and loading one index file

What `load_index` reads from the bytes of `save_index`, for a bucket that grew by the manager's
own calls: the update log with each location as its five bytes give it back, and the sorted
entries whose slot is not empty (`loadIndexFile_saveIndex`). Where the visible entries have
packable locations and non-zero keys, the loaded file answers every search as the saved one did
(`searchBothSections_loaded`).
-/

namespace Cascette.Index

open Lib List

/-! ## Update entries -/

/-- An update entry as its 24 bytes give it back. -/
def UpdateEntry.stored (entry : UpdateEntry) : UpdateEntry :=
  { entry with archiveLocation :=
      unpackLocation (entry.archiveLocation.archiveId >>> 2).toUInt8 entry.archiveLocation.packed }

theorem stored_eq_self {entry : UpdateEntry} (h : entry.archiveLocation.Packable) :
    entry.stored = entry := by
  simp only [UpdateEntry.stored, unpackLocation_packed h]

theorem word_leBytes (x : UInt32) : UInt32.ofNat (ofLe (leBytes 4 x.toNat)) = x := by
  rw [ofLe_leBytes_of_lt (UInt32.toNat_lt _), UInt32.ofNat_toNat]

theorem word_beBytes (x : UInt32) : UInt32.ofNat (ofBe (beBytes 4 x.toNat)) = x := by
  rw [ofBe_beBytes_of_lt (UInt32.toNat_lt _), UInt32.ofNat_toNat]

theorem toBytes_guard (entry : UpdateEntry) (rest : Bytes) :
    UInt32.ofNat (ofLe ((entry.toBytes ++ rest).take 4)) = entry.hashGuard := by
  rw [UpdateEntry.toBytes, append_assoc, take_left' (leBytes_length _ _), word_leBytes]

theorem fromBytes_toBytes (entry : UpdateEntry) :
    UpdateEntry.fromBytes ⟨entry.toBytes, entry.toBytes_length⟩ = entry.stored := by
  obtain ⟨hashGuard, ekey, location, size, status⟩ := entry
  have hKey := ekey.2
  have h4 : (leBytes 4 hashGuard.toNat).length = 4 := leBytes_length _ _
  have hTail : ∀ rest : Bytes, (leBytes 4 hashGuard.toNat ++ (ekey.1 ++ rest)).drop 13 = rest := by
    intro rest
    rw [← append_assoc, drop_left' (by simp [hKey])]
  simp only [UpdateEntry.fromBytes, UpdateEntry.toBytes, UpdateEntry.stored,
    take_left' h4, drop_left' h4, take_left' hKey, word_leBytes]
  congr 1
  · rw [hTail, take_left' (by simp)]
    simp [parseArchiveLocation, word_beBytes]
  · rw [show (18 : Nat) = 13 + 5 from rfl, ← drop_drop, hTail, drop_left' (by simp),
      take_left' (leBytes_length _ _), word_leBytes]
  · rw [show (22 : Nat) = 13 + 9 from rfl, ← drop_drop, hTail, ← append_assoc, drop_left' (by simp)]
    simp

/-! ## Pages -/

theorem readSlots_zeros (slots n : Nat) : readSlots slots (replicate n 0) = [] := by
  cases slots with
  | zero => rfl
  | succ slots => simp [readSlots]

theorem readSlots_flatMap {entries : List UpdateEntry} (hGuards : ∀ u ∈ entries, u.hashGuard ≠ 0)
    {slots : Nat} (hSlots : entries.length ≤ slots) (zeros : Nat) :
    readSlots slots (entries.flatMap UpdateEntry.toBytes ++ replicate zeros 0) =
      entries.map UpdateEntry.stored := by
  induction entries generalizing slots with
  | nil => simpa using readSlots_zeros slots zeros
  | cons entry entries ih =>
    obtain ⟨slots, rfl⟩ : ∃ m, slots = m + 1 := ⟨slots - 1, by simp at hSlots; omega⟩
    have hRest := ih (fun u hu => hGuards u (mem_cons_of_mem entry hu)) (by simpa using hSlots)
    have hGuard := hGuards entry mem_cons_self
    have hLength : 24 ≤ (entry.toBytes ++ (entries.flatMap UpdateEntry.toBytes ++
        replicate zeros 0)).length := by simp
    simp only [flatMap_cons, append_assoc, readSlots, dif_pos hLength, toBytes_guard,
      hGuard, if_false, take_left' entry.toBytes_length,
      drop_left' entry.toBytes_length, hRest, map_cons, fromBytes_toBytes]

theorem flatMap_toBytes_length (entries : List UpdateEntry) :
    (entries.flatMap UpdateEntry.toBytes).length = entries.length * 24 := by
  simp [length_flatMap]

@[simp]
theorem UpdatePage.toBytes_length (page : UpdatePage) : page.toBytes.length = updatePageSize := by
  apply padTo_length
  have hSize := page.size_le
  have hSlots : entriesPerPage = 170 := rfl
  rw [flatMap_toBytes_length, updatePageSize]
  omega

theorem pageFromBytes_toBytes {page : UpdatePage} (hNe : page.entries ≠ [])
    (hGuards : ∀ u ∈ page.entries, u.hashGuard ≠ 0) :
    ∃ loaded, UpdatePage.fromBytes page.toBytes = some loaded ∧
      loaded.entries = page.entries.map UpdateEntry.stored := by
  have hRead : readSlots entriesPerPage page.toBytes = page.entries.map UpdateEntry.stored :=
    readSlots_flatMap hGuards page.size_le _
  have hFirst : UInt32.ofNat (ofLe (page.toBytes.take 4)) ≠ 0 := by
    obtain ⟨entry, rest, hEntries⟩ := exists_cons_of_ne_nil hNe
    rw [UpdatePage.toBytes, padTo, hEntries, flatMap_cons, append_assoc, toBytes_guard]
    exact hGuards entry (by simp [hEntries])
  have hLength : ¬ page.toBytes.length < updatePageSize := by simp
  simp only [UpdatePage.fromBytes, hLength, if_false, hFirst, hRead, List.isEmpty_iff,
    List.map_eq_nil_iff, hNe]
  exact ⟨_, rfl, rfl⟩

theorem readPages_zeros (fuel n : Nat) : readPages fuel (replicate n 0) = [] := by
  cases fuel with
  | zero => rfl
  | succ fuel =>
    unfold readPages
    split
    · have hNone : UpdatePage.fromBytes ((replicate n 0).take updatePageSize) = none := by
        simp [UpdatePage.fromBytes]
      rw [hNone]
    · rfl

theorem readPages_flatMap {pages : List UpdatePage} (hNe : ∀ page ∈ pages, page.entries ≠ [])
    (hGuards : ∀ u ∈ pages.flatMap UpdatePage.entries, u.hashGuard ≠ 0) {fuel : Nat}
    (hFuel : pages.length ≤ fuel) (zeros : Nat) :
    (readPages fuel (pages.flatMap UpdatePage.toBytes ++ replicate zeros 0)).flatMap
        UpdatePage.entries =
      (pages.flatMap UpdatePage.entries).map UpdateEntry.stored := by
  induction pages generalizing fuel with
  | nil => simp [readPages_zeros]
  | cons page pages ih =>
    obtain ⟨fuel, rfl⟩ : ∃ m, fuel = m + 1 := ⟨fuel - 1, by simp at hFuel; omega⟩
    have hRest := ih (fun p hp => hNe p (mem_cons_of_mem page hp))
      (fun u hu => hGuards u (by simpa using Or.inr (by simpa using hu))) (by simpa using hFuel)
    obtain ⟨loaded, hLoaded, hEntries⟩ := pageFromBytes_toBytes (hNe page mem_cons_self)
      (fun u hu => hGuards u (by simp [hu]))
    have hLength : updatePageSize ≤ (page.toBytes ++ (pages.flatMap UpdatePage.toBytes ++
        replicate zeros 0)).length := by simp
    simp only [flatMap_cons, append_assoc, readPages, hLength, if_true,
      take_left' page.toBytes_length, hLoaded, drop_left' page.toBytes_length, hRest,
      hEntries, map_append]

variable {log : UpdateSection} {entry : IndexEntry}

theorem sectionFromBytes_toBytes (hGuards : ∀ u ∈ log.allEntries, u.hashGuard ≠ 0) (zeros : Nat) :
    (UpdateSection.fromBytes (log.toBytes ++ replicate zeros 0)).allEntries =
      log.allEntries.map UpdateEntry.stored := by
  have hPages : (log.pages.flatMap UpdatePage.toBytes).length =
      log.pages.length * updatePageSize := by
    simp [length_flatMap]
  rw [UpdateSection.toBytes, padTo, append_assoc, replicate_append_replicate]
  apply readPages_flatMap log.pages_ne_nil hGuards
  rw [Nat.le_div_iff_mul_le (by decide), length_append, hPages]
  omega

/-! ## Sorted entries -/

/-- A sorted entry as its slot gives it back, if it does. -/
def IndexEntry.stored (entry : IndexEntry) : Option IndexEntry := parseSlot entry.toPacked

theorem stored_key {loaded : IndexEntry} (h : entry.stored = some loaded) :
    loaded.key = entry.key := by
  unfold IndexEntry.stored parseSlot at h
  split at h
  · cases hLocation : writeArchiveLocation entry.archiveLocation with
    | none =>
      rename_i hAny
      simp [IndexEntry.toPacked, hLocation] at hAny
    | some location =>
      rw [fromPacked_of_location hLocation] at h
      split at h
      · cases h
      · rw [← Option.some.inj h]
  · cases h

theorem stored_eq_some (hKey : entry.key ≠ zeroKey)
    (hFit : entry.archiveLocation.Packable) : entry.stored = some entry := by
  have hAny : (entry.toPacked.take 9).any (· ≠ 0) = true := by
    cases hLocation : writeArchiveLocation entry.archiveLocation with
    | none => exact absurd hFit (writeArchiveLocation_none hLocation)
    | some location =>
      rw [IndexEntry.toPacked, hLocation]
      dsimp only
      by_contra hNone
      apply hKey
      apply Subtype.ext
      rw [zeroKey, eq_replicate_iff]
      exact ⟨entry.key.2, by simpa using hNone⟩
  rw [IndexEntry.stored, parseSlot, if_pos hAny, fromPacked_toPacked hKey hFit]
  rfl

theorem entryData_length (entries : List IndexEntry) :
    (entryData entries).length = entries.length * 18 := by
  simp [entryData, length_flatMap]

theorem parseEntries_entryData (entries : List IndexEntry) {fuel : Nat}
    (hFuel : entries.length ≤ fuel) :
    parseEntries 18 fuel (entryData entries) = entries.filterMap IndexEntry.stored := by
  induction entries generalizing fuel with
  | nil => cases fuel <;> simp [parseEntries, entryData]
  | cons entry entries ih =>
    obtain ⟨fuel, rfl⟩ : ∃ m, fuel = m + 1 := ⟨fuel - 1, by simp at hFuel; omega⟩
    have hRest := ih (show entries.length ≤ fuel by simpa using hFuel)
    rw [entryData] at hRest
    simp only [entryData, flatMap_cons, parseEntries, length_append, toPacked_length,
      Nat.le_add_right, if_true, take_left' (toPacked_length entry),
      drop_left' (toPacked_length entry), hRest]
    change entry.stored.toList ++ _ = _
    rw [filterMap_cons]
    cases entry.stored <;> rfl

variable {entries : List IndexEntry} {disk : Disk} {id : UInt8} {index : IndexFile} {data : Bytes}

variable (h : Lsm.Sorted IndexEntry.key entries)
include h

theorem filterMap_stored_sorted :
    Lsm.Sorted IndexEntry.key (entries.filterMap IndexEntry.stored) := by
  refine List.Pairwise.filterMap _ ?_ h
  intro a b hab a' ha b' hb
  rw [stored_key ha, stored_key hb]
  exact hab

theorem sortEntries_of_sorted : sortEntries entries = entries :=
  List.Pairwise.insertionSort_eq (h.imp fun hab => le_of_lt hab)

theorem find?_filterMap_stored (k : Key 9) :
    (entries.filterMap IndexEntry.stored).find? (fun entry => entry.key = k) =
      (entries.find? fun entry => entry.key = k).bind IndexEntry.stored := by
  induction entries with
  | nil => rfl
  | cons entry entries ih =>
    obtain ⟨hHead, hTail⟩ := pairwise_cons.mp h
    rw [filterMap_cons, find?_cons]
    cases hStored : entry.stored with
    | none =>
      by_cases hKey : entry.key = k
      · subst hKey
        have hNone : entries.find? (fun other => other.key = entry.key) = none := by
          rw [find?_eq_none]
          intro other hOther
          simpa using (hHead other hOther).ne'
        simp [hStored, ih hTail, hNone]
      · simp [hKey, ih hTail]
    | some loaded =>
      have hLoaded := stored_key hStored
      by_cases hKey : entry.key = k
      · simp [hKey, hLoaded, hStored]
      · simp [hKey, hLoaded, ih hTail]

omit h

/-! ## The file -/

theorem readOr_append {context : String} {n : Nat} {front rest : Bytes} (h : front.length = n) :
    readOr context n (front ++ rest) = .ok (front, rest) := by
  rw [readOr, readExact_append h]

theorem headerV2Bytes_length (id : UInt8) (header : IndexHeader) (segmentSize : Nat) :
    (headerV2Bytes id header segmentSize).length = 16 := by
  simp [headerV2Bytes]

theorem guardedBlockHeader_length (size : Nat) (hash : UInt32) :
    (guardedBlockHeader size hash).length = 8 := by
  simp [guardedBlockHeader]

theorem readIndexHeader_sortedBytes (id : UInt8) (segmentSize : Nat) (hash : UInt32)
    (entries rest : Bytes) :
    ∃ header, readIndexHeader (sortedBytes
        (headerV2Bytes id (newIndexFile id).header segmentSize) hash entries ++ rest) =
      .ok (header, 18, replicate 8 0 ++
        (guardedBlockHeader entries.length hash ++ (entries ++ rest))) := by
  have hLength := headerV2Bytes_length id (newIndexFile id).header segmentSize
  have hBytes : headerV2Bytes id (newIndexFile id).header segmentSize =
      [7, 0, id, 0, 4, 5, 9, 30] ++ leBytes 8 segmentSize := rfl
  simp only [readIndexHeader, sortedBytes, append_assoc,
    readOr_append (guardedBlockHeader_length _ _), readOr_append hLength, bind, Except.bind]
  simp [hBytes, IndexHeader.entrySize]

theorem readEntryBlock_sortedBytes {entries : Bytes} (hSize : entries.length < 2 ^ 32)
    (hash : UInt32) (rest : Bytes) :
    readEntryBlock (replicate 8 0 ++
      (guardedBlockHeader entries.length hash ++ (entries ++ rest))) = .ok entries := by
  have hBlock : ofLe ((guardedBlockHeader entries.length hash).take 4) = entries.length := by
    rw [guardedBlockHeader, take_left' (leBytes_length _ _), ofLe_leBytes_of_lt (by omega)]
  simp only [readEntryBlock, readOr_append (length_replicate (a := (0 : UInt8))),
    readOr_append (guardedBlockHeader_length _ _), hBlock, readOr_append (rfl : entries.length = _),
    bind, Except.bind]

theorem sortedBytes_length {header : Bytes} (h : header.length = 16) (hash : UInt32)
    (entries : Bytes) : (sortedBytes header hash entries).length =
      8 + 16 + 8 + 8 + entries.length := by
  simp only [sortedBytes, length_append, guardedBlockHeader_length, h, length_replicate]
  omega

/-- The saved bytes: the sorted section, then what is read as the update section. -/
theorem indexFileBytes_drop (sorted : Bytes) (hGuards : ∀ u ∈ log.allEntries, u.hashGuard ≠ 0) :
    let data := indexFileBytes sorted (if 0 < log.entryCount then some log.toBytes else none)
    (∃ rest, data = sorted ++ rest) ∧
    (if alignUp updatePageSize sorted.length < data.length then
        UpdateSection.fromBytes (data.drop (alignUp updatePageSize sorted.length))
      else UpdateSection.new).allEntries = log.allEntries.map UpdateEntry.stored := by
  have hAlign : sorted.length ≤ alignUp updatePageSize sorted.length := le_alignUp (by decide) _
  have hPadded := padTo_length hAlign
  by_cases hEmpty : log.allEntries = []
  · have hCount : ¬ 0 < log.entryCount := by simp [entryCount_eq, hEmpty]
    simp only [hCount, if_false, indexFileBytes, padTo, hEmpty, map_nil]
    refine ⟨⟨_, rfl⟩, ?_⟩
    split
    · rw [drop_append, drop_of_length_le hAlign, nil_append, drop_replicate]
      simp [UpdateSection.allEntries, UpdateSection.fromBytes, readPages_zeros]
    · rfl
  · have hCount : 0 < log.entryCount := by
      rw [entryCount_eq]
      exact length_pos_iff.mpr hEmpty
    have hBytes : 0 < log.toBytes.length := by
      refine lt_of_lt_of_le ?_ (le_padTo_length _ _)
      have hMin : 12 ≤ log.capacityPages := log.capacity_le
      have hPage : updatePageSize = 0x1000 := rfl
      rw [hPage]
      omega
    simp only [hCount, if_true, indexFileBytes]
    rw [padTo, append_assoc]
    refine ⟨⟨replicate _ 0 ++ (log.toBytes ++ _), by rw [padTo, append_assoc]⟩, ?_⟩
    rw [if_pos (by simp only [length_append, hPadded]; omega), drop_left' hPadded]
    exact sectionFromBytes_toBytes hGuards _

theorem saveIndex_eq_ok (hHeader : index.header = (newIndexFile id).header)
    (h : saveIndex disk id index = .ok data) :
    ∃ segmentSize hash, (entryData index.entries).length < 2 ^ 32 ∧
      data = indexFileBytes (sortedBytes (headerV2Bytes id (newIndexFile id).header segmentSize)
        hash (entryData index.entries))
        (if 0 < index.updateSection.entryCount then some index.updateSection.toBytes
          else none) := by
  have hSize : (newIndexFile id).header.entrySize = .ok 18 := rfl
  have hSegment : (newIndexFile id).header.segmentSize = .ok (2 ^ 30 * 256) := rfl
  simp only [saveIndex, hHeader, hSize, hSegment, bind, Except.bind] at h
  split at h
  · cases h
  next hFits =>
    split at h
    · exact ⟨_, _, by omega, (Except.ok.inj h).symm⟩
    · cases h

theorem saveIndex_of_working (hHeader : index.header = (newIndexFile id).header)
    (hSize : (entryData index.entries).length < 2 ^ 32) :
    ∃ data, saveIndex workingDisk id index = .ok data := by
  have hEntry : (newIndexFile id).header.entrySize = .ok 18 := rfl
  have hSegment : (newIndexFile id).header.segmentSize = .ok (2 ^ 30 * 256) := rfl
  have hDisk : workingDisk.first = .written := rfl
  simp only [saveIndex, hHeader, hEntry, hSegment, bind, Except.bind, Nat.not_le.mpr hSize,
    if_false, hDisk, true_or, if_true]
  exact ⟨_, rfl⟩

theorem loadIndexFile_saveIndex (hGrown : index.Grown id) (h : saveIndex disk id index = .ok data) :
    ∃ loaded, loadIndexFile data = .ok loaded ∧
      loaded.entries = index.entries.filterMap IndexEntry.stored ∧
      loaded.updateSection.allEntries = index.updateSection.allEntries.map UpdateEntry.stored := by
  obtain ⟨segmentSize, hash, hFits, hData⟩ := saveIndex_eq_ok hGrown.header h
  set data := entryData index.entries
  have hLength := sortedBytes_length
    (headerV2Bytes_length id (newIndexFile id).header segmentSize) hash data
  obtain ⟨⟨rest, hRest⟩, hUpdate⟩ := indexFileBytes_drop
    (sortedBytes (headerV2Bytes id (newIndexFile id).header segmentSize) hash data) hGrown.guards
  rw [← hData] at hRest hUpdate
  obtain ⟨header, hHeader⟩ := readIndexHeader_sortedBytes id segmentSize hash data rest
  rw [← hRest] at hHeader
  have hEntries : sortEntries (parseEntries 18 data.length
      data) = index.entries.filterMap IndexEntry.stored := by
    rw [parseEntries_entryData _ (by rw [entryData_length]; omega),
      sortEntries_of_sorted (filterMap_stored_sorted hGrown.sorted)]
  rw [hLength] at hUpdate
  simp only [loadIndexFile, hHeader, readEntryBlock_sortedBytes hFits, bind, Except.bind]
  exact ⟨_, rfl, hEntries, hUpdate⟩

/-- The loaded file answers a search as the saved one did, where the entry found is one that a
slot can hold. -/
theorem searchBothSections_loaded (hGrown : index.Grown id)
    (h : saveIndex disk id index = .ok data) :
    ∃ loaded, loadIndexFile data = .ok loaded ∧ ∀ k,
      (∀ entry, searchBothSections index k = some entry →
        entry.archiveLocation.Packable ∧ entry.key ≠ zeroKey) →
      searchBothSections loaded k = searchBothSections index k := by
  obtain ⟨loaded, hLoaded, hEntries, hUpdates⟩ := loadIndexFile_saveIndex hGrown h
  refine ⟨loaded, hLoaded, ?_⟩
  intro k hFits
  have hSorted : Lsm.Sorted IndexEntry.key loaded.entries :=
    hEntries ▸ filterMap_stored_sorted hGrown.sorted
  rw [searchBothSections_eq_view hGrown.sorted] at hFits ⊢
  rw [searchBothSections_eq_view hSorted, hEntries, hUpdates]
  unfold Lsm.view at hFits ⊢
  have hNewest : Lsm.newest UpdateEntry.ekey
      (index.updateSection.allEntries.map UpdateEntry.stored) k =
      (Lsm.newest UpdateEntry.ekey index.updateSection.allEntries k).map UpdateEntry.stored := by
    rw [Lsm.newest, ← map_reverse, find?_map]
    rfl
  rw [hNewest]
  cases hLog : Lsm.newest UpdateEntry.ekey index.updateSection.allEntries k with
  | some update =>
    rw [hLog] at hFits
    by_cases hStatus : update.status = .delete
    · simp [UpdateEntry.visible, UpdateEntry.stored, hStatus]
    · have hFit := (hFits update.toIndexEntry (by simp [UpdateEntry.visible, hStatus])).1
      simp only [Option.map_some, stored_eq_self hFit]
  | none =>
    rw [hLog] at hFits
    simp only [Option.map_none, find?_filterMap_stored hGrown.sorted]
    cases hFind : index.entries.find? fun entry => entry.key = k with
    | none => rfl
    | some entry =>
      obtain ⟨hFit, hKey⟩ := hFits entry hFind
      exact stored_eq_some hKey hFit

end Cascette.Index
