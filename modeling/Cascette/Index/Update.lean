import Cascette.Crypto.Jenkins
import Cascette.Index.Entry
import Cascette.Lib.Lsm

/-!
# The update section

The second part of an `.idx` file is an append-only log of 24-byte entries in 4 KB pages, at
most 170 entries a page and a fixed number of pages. A section carries its shape: no page is
empty or overfull, the pages fit the capacity, and the capacity is at least the minimum of twelve
pages. An empty section takes entries until all slots are used (`appends_fill_section`); `search`
returns the newest entry of a key (`search_eq_newest`).
-/

namespace Cascette.Index

open Lib Crypto List Option

/-! ## Entries -/

inductive UpdateStatus
  | normal
  | delete
  | headerNonResident
  | dataNonResident
deriving DecidableEq

def UpdateStatus.toByte : UpdateStatus → UInt8
  | normal => 0
  | delete => 3
  | headerNonResident => 6
  | dataNonResident => 7

def UpdateStatus.fromByte (b : UInt8) : UpdateStatus :=
  if b = 3 then delete
  else if b = 6 then headerNonResident
  else if b = 7 then dataNonResident
  else normal

@[simp]
theorem UpdateStatus.fromByte_toByte (status : UpdateStatus) : fromByte status.toByte = status := by
  cases status <;> rfl

structure UpdateEntry where
  hashGuard : UInt32
  ekey : Key 9
  archiveLocation : ArchiveLocation
  encodedSize : UInt32
  status : UpdateStatus
deriving DecidableEq

/-- The high byte is a cast here: an archive id that does not fit loses its top bits. -/
def UpdateEntry.toBytes (entry : UpdateEntry) : Bytes :=
  leBytes 4 entry.hashGuard.toNat ++ (entry.ekey.1 ++
    ((entry.archiveLocation.archiveId >>> 2).toUInt8 ::
        beBytes 4 entry.archiveLocation.packed.toNat ++
      (leBytes 4 entry.encodedSize.toNat ++ [entry.status.toByte, 0])))

def computeHashGuard (bytes : Bytes) : UInt32 :=
  hashlittle ((bytes.take 23).drop 4) 0 ||| 0x80000000

def UpdateEntry.new (ekey : Key 9) (archiveLocation : ArchiveLocation) (encodedSize : UInt32)
    (status : UpdateStatus) : UpdateEntry :=
  let entry : UpdateEntry := ⟨0, ekey, archiveLocation, encodedSize, status⟩
  { entry with hashGuard := computeHashGuard entry.toBytes }

def UpdateEntry.fromBytes (data : Key 24) : UpdateEntry where
  hashGuard := UInt32.ofNat (ofLe (data.1.take 4))
  ekey := ⟨(data.1.drop 4).take 9, by simp [data.2]⟩
  archiveLocation := parseArchiveLocation ((data.1.drop 13).take 5)
  encodedSize := UInt32.ofNat (ofLe ((data.1.drop 18).take 4))
  status := UpdateStatus.fromByte ((data.1.drop 22).headD 0)

def UpdateEntry.toIndexEntry (entry : UpdateEntry) : IndexEntry :=
  ⟨entry.ekey, entry.archiveLocation, entry.encodedSize⟩

/-- The sorted-section entry an update leaves behind; a tombstone leaves none. -/
def UpdateEntry.visible (entry : UpdateEntry) : Option IndexEntry :=
  if entry.status = .delete then none else some entry.toIndexEntry

@[simp]
theorem UpdateEntry.toBytes_length (entry : UpdateEntry) : entry.toBytes.length = 24 := by
  simp [UpdateEntry.toBytes, entry.ekey.2]

variable {entry : UpdateEntry} {page : UpdatePage} {log log' : UpdateSection} {capacity : Nat}

theorem visible_key {visible : IndexEntry} (h : entry.visible = some visible) :
    visible.key = entry.ekey := by
  unfold UpdateEntry.visible at h
  split at h
  · cases h
  · rw [← Option.some.inj h]
    rfl

/-- The guard bit keeps every new entry apart from an empty slot. -/
theorem new_hashGuard_ne_zero (ekey : Key 9) (location : ArchiveLocation) (size : UInt32)
    (status : UpdateStatus) : (UpdateEntry.new ekey location size status).hashGuard ≠ 0 :=
  or_high_ne_zero _

/-! ## Pages -/

def updateEntrySize : Nat := 24

def updatePageSize : Nat := 0x1000

def entriesPerPage : Nat := updatePageSize / updateEntrySize

def minUpdateSectionSize : Nat := 12 * updatePageSize

structure UpdatePage where
  entries : List UpdateEntry
  size_le : entries.length ≤ entriesPerPage

def UpdatePage.isFull (page : UpdatePage) : Bool := entriesPerPage ≤ page.entries.length

def UpdatePage.single (entry : UpdateEntry) : UpdatePage := ⟨[entry], by simp [entriesPerPage,
  updatePageSize, updateEntrySize]⟩

def UpdatePage.push (page : UpdatePage) (entry : UpdateEntry) : Option UpdatePage :=
  if h : page.entries.length < entriesPerPage then
    some ⟨page.entries ++ [entry], by simpa using h⟩
  else none

def UpdatePage.toBytes (page : UpdatePage) : Bytes :=
  padTo updatePageSize (page.entries.flatMap UpdateEntry.toBytes)

/-- The slots of a page up to the first one whose hash guard is zero. -/
def readSlots : Nat → Bytes → List UpdateEntry
  | 0, _ => []
  | slots + 1, data =>
    if h : 24 ≤ data.length then
      if UInt32.ofNat (ofLe (data.take 4)) = 0 then []
      else
        UpdateEntry.fromBytes ⟨data.take 24, by simp [h]⟩ :: readSlots slots (data.drop 24)
    else []

theorem readSlots_length (slots : Nat) (data : Bytes) : (readSlots slots data).length ≤ slots := by
  induction slots generalizing data with
  | zero => simp [readSlots]
  | succ slots ih =>
    unfold readSlots
    split
    · split
      · simp
      · simpa using ih _
    · simp

/-- `None` for a page whose first hash guard is zero. -/
def UpdatePage.fromBytes (data : Bytes) : Option UpdatePage :=
  if data.length < updatePageSize then none
  else if UInt32.ofNat (ofLe (data.take 4)) = 0 then none
  else
    let entries := readSlots entriesPerPage data
    if entries.isEmpty then none else some ⟨entries, readSlots_length _ _⟩

theorem fromBytes_entries_ne_nil {data : Bytes} (h : UpdatePage.fromBytes data = some page) :
    page.entries ≠ [] := by
  unfold UpdatePage.fromBytes at h
  split at h
  · cases h
  · split at h
    · cases h
    · dsimp only at h
      split at h
      · cases h
      next hNe =>
        rw [← Option.some.inj h]
        simpa using hNe

theorem push_none_iff : page.push entry = none ↔ page.isFull = true := by
  unfold UpdatePage.push UpdatePage.isFull
  split
  · simp; omega
  · simp; omega

theorem push_some {page' : UpdatePage} (h : page.push entry = some page') :
    page'.entries = page.entries ++ [entry] := by
  unfold UpdatePage.push at h
  split at h
  · rw [← Option.some.inj h]
  · cases h

/-! ## Sections -/

structure UpdateSection where
  pages : List UpdatePage
  capacityPages : Nat
  pages_ne_nil : ∀ page ∈ pages, page.entries ≠ []
  pages_le : pages.length ≤ capacityPages
  capacity_le : minUpdateSectionSize / updatePageSize ≤ capacityPages

def UpdateSection.new : UpdateSection where
  pages := []
  capacityPages := minUpdateSectionSize / updatePageSize
  pages_ne_nil := by simp
  pages_le := by simp
  capacity_le := le_rfl

def UpdateSection.isFull (log : UpdateSection) : Bool :=
  match log.pages.getLast? with
  | none => false
  | some last => decide (log.capacityPages ≤ log.pages.length) && last.isFull

/-- All entries, oldest first. -/
def UpdateSection.allEntries (log : UpdateSection) : List UpdateEntry :=
  log.pages.flatMap UpdatePage.entries

def UpdateSection.entryCount (log : UpdateSection) : Nat :=
  (log.pages.map fun page => page.entries.length).sum

/-- The pages after an append: the last page if it has room, else a new page if one is left. -/
def appendPages (capacity : Nat) (pages : List UpdatePage) (entry : UpdateEntry) :
    Option (List UpdatePage) :=
  match pages.getLast?.bind (·.push entry) with
  | some page => some (pages.dropLast ++ [page])
  | none => if capacity ≤ pages.length then none else some (pages ++ [UpdatePage.single entry])

theorem appendPages_shape {pages pages' : List UpdatePage}
    (h : appendPages capacity pages entry = some pages') (hNe : ∀ page ∈ pages, page.entries ≠ [])
    (hLe : pages.length ≤ capacity) :
    (∀ page ∈ pages', page.entries ≠ []) ∧ pages'.length ≤ capacity := by
  unfold appendPages at h
  split at h
  next page hPush =>
    obtain ⟨last, hLast, hPush⟩ := bind_eq_some_iff.mp hPush
    have hPages : pages ≠ [] := by rintro rfl; cases hLast
    obtain rfl := Option.some.inj h
    constructor
    · intro p hp
      rcases mem_append.mp hp with hp | hp
      · exact hNe p (mem_of_mem_dropLast hp)
      · rw [mem_singleton.mp hp, push_some hPush]
        simp
    · have := length_pos_iff.mpr hPages
      simp only [length_append, length_dropLast, length_singleton]
      omega
  · split at h
    · cases h
    · obtain rfl := Option.some.inj h
      constructor
      · intro p hp
        rcases mem_append.mp hp with hp | hp
        · exact hNe p hp
        · rw [mem_singleton.mp hp]
          simp [UpdatePage.single]
      · simp only [length_append, length_singleton]
        omega

theorem appendPages_entries {pages pages' : List UpdatePage}
    (h : appendPages capacity pages entry = some pages') :
    pages'.flatMap UpdatePage.entries = pages.flatMap UpdatePage.entries ++ [entry] := by
  unfold appendPages at h
  split at h
  next page hPush =>
    obtain ⟨last, hLast, hPush⟩ := bind_eq_some_iff.mp hPush
    obtain rfl := Option.some.inj h
    have hSplit : pages = pages.dropLast ++ [last] := (dropLast_append_getLast? _ hLast).symm
    rw [flatMap_append, flatMap_singleton, push_some hPush]
    conv_rhs => rw [hSplit, flatMap_append, flatMap_singleton]
    simp
  · split at h
    · cases h
    · obtain rfl := Option.some.inj h
      simp [UpdatePage.single]

/-- `Some` with the longer section, `None` where the source returns `false`. -/
def UpdateSection.append (log : UpdateSection) (entry : UpdateEntry) : Option UpdateSection :=
  match h : appendPages log.capacityPages log.pages entry with
  | none => none
  | some pages =>
    some {
      pages
      capacityPages := log.capacityPages
      pages_ne_nil := (appendPages_shape h log.pages_ne_nil log.pages_le).1
      pages_le := (appendPages_shape h log.pages_ne_nil log.pages_le).2
      capacity_le := log.capacity_le }

def UpdateSection.search (log : UpdateSection) (ekey : Key 9) : Option UpdateEntry :=
  log.pages.reverse.findSome? fun page => page.entries.reverse.find? fun entry => entry.ekey = ekey

def UpdateSection.clear (log : UpdateSection) : UpdateSection where
  pages := []
  capacityPages := log.capacityPages
  pages_ne_nil := by simp
  pages_le := by simp
  capacity_le := log.capacity_le

theorem append_some (h : log.append entry = some log') :
    appendPages log.capacityPages log.pages entry = some log'.pages ∧
      log'.capacityPages = log.capacityPages := by
  unfold UpdateSection.append at h
  split at h
  · cases h
  next pages hPages =>
    rw [← Option.some.inj h]
    exact ⟨hPages, rfl⟩

theorem allEntries_append (h : log.append entry = some log') :
    log'.allEntries = log.allEntries ++ [entry] :=
  appendPages_entries (append_some h).1

@[simp]
theorem allEntries_clear (log : UpdateSection) : log.clear.allEntries = [] := rfl

@[simp]
theorem allEntries_new : UpdateSection.new.allEntries = [] := rfl

theorem append_none_iff : log.append entry = none ↔ log.isFull = true := by
  have hAppend : log.append entry = none ↔
      appendPages log.capacityPages log.pages entry = none := by
    unfold UpdateSection.append
    split <;> simp_all
  have hCapacity : 0 < log.capacityPages := lt_of_lt_of_le (by decide) log.capacity_le
  rw [hAppend, UpdateSection.isFull, appendPages]
  cases hLast : log.pages.getLast? with
  | none =>
    have hPages : log.pages = [] := getLast?_eq_none_iff.mp hLast
    simp [hPages, hCapacity.ne']
  | some last =>
    cases hPush : last.push entry with
    | none => simp [hPush, push_none_iff.mp hPush]
    | some page =>
      have hRoom : last.isFull = false := by
        by_contra hFull
        rw [push_none_iff.mpr (by simpa using hFull)] at hPush
        cases hPush
      simp [hPush, hRoom]

theorem append_clear_isSome (log : UpdateSection) (entry : UpdateEntry) :
    (log.clear.append entry).isSome := by
  rw [isSome_iff_ne_none, ne_eq, append_none_iff]
  simp [UpdateSection.isFull, UpdateSection.clear]

/-- All pages but the last are full, as in a section that only grew by `append`. -/
def UpdateSection.Packed (log : UpdateSection) : Prop :=
  ∀ page ∈ log.pages.dropLast, page.isFull = true

theorem clear_packed (log : UpdateSection) : log.clear.Packed := by
  simp [UpdateSection.Packed, UpdateSection.clear]

theorem append_packed (hPacked : log.Packed) (h : log.append entry = some log') : log'.Packed := by
  have hPages := (append_some h).1
  unfold UpdateSection.Packed
  unfold appendPages at hPages
  split at hPages
  · rw [← Option.some.inj hPages, dropLast_concat]
    exact hPacked
  next hPush =>
    split at hPages
    · cases hPages
    · rw [← Option.some.inj hPages, dropLast_concat]
      intro page hPage
      cases hLast : log.pages.getLast? with
      | none => simp [getLast?_eq_none_iff.mp hLast] at hPage
      | some last =>
        rw [hLast, bind_some] at hPush
        rw [← dropLast_append_getLast? _ hLast, mem_append, mem_singleton] at hPage
        rcases hPage with hPage | rfl
        · exact hPacked page hPage
        · exact push_none_iff.mp hPush

/-- A packed section is full when it holds as many entries as its pages have slots. -/
theorem isFull_iff_length (hPacked : log.Packed) :
    log.isFull = true ↔ log.allEntries.length = log.capacityPages * entriesPerPage := by
  have hLe := log.pages_le
  have hCapacity : 0 < log.capacityPages := lt_of_lt_of_le (by decide) log.capacity_le
  have hSlots : entriesPerPage = 170 := rfl
  unfold UpdateSection.isFull UpdateSection.allEntries
  cases hLast : log.pages.getLast? with
  | none =>
    rw [getLast?_eq_none_iff.mp hLast]
    simp [hSlots, hCapacity.ne']
  | some last =>
    have hSplit := dropLast_append_getLast? _ hLast
    have hCount : (log.pages.dropLast.flatMap UpdatePage.entries).length =
        log.pages.dropLast.length * 170 := by
      rw [length_flatMap, sum_eq_card_nsmul _ 170, length_map, smul_eq_mul]
      intro n hn
      obtain ⟨page, hPage, rfl⟩ := mem_map.mp hn
      have hFull := hPacked page hPage
      have hSize := page.size_le
      simp only [UpdatePage.isFull, decide_eq_true_eq] at hFull
      omega
    have hLength : log.pages.length = log.pages.dropLast.length + 1 := by
      conv_lhs => rw [← hSplit]
      simp
    have hEntries : (log.pages.flatMap UpdatePage.entries).length =
        log.pages.dropLast.length * 170 + last.entries.length := by
      conv_lhs => rw [← hSplit]
      rw [flatMap_append, flatMap_singleton, length_append, hCount]
    have hSize := last.size_le
    simp only [UpdatePage.isFull, Bool.and_eq_true, decide_eq_true_eq]
    rw [hSlots] at *
    omega

theorem length_allEntries_le (log : UpdateSection) :
    log.allEntries.length ≤ log.capacityPages * entriesPerPage := by
  rw [UpdateSection.allEntries, length_flatMap]
  refine (sum_le_card_nsmul _ entriesPerPage fun n hn => ?_).trans ?_
  · obtain ⟨page, -, rfl⟩ := mem_map.mp hn
    exact page.size_le
  · rw [length_map]
    exact Nat.mul_le_mul_right _ log.pages_le

theorem foldlM_append_iff (hPacked : log.Packed) (entries : List UpdateEntry) :
    (∃ log', entries.foldlM UpdateSection.append log = some log' ∧
      log'.allEntries = log.allEntries ++ entries) ↔
        log.allEntries.length + entries.length ≤ log.capacityPages * entriesPerPage := by
  induction entries generalizing log with
  | nil => exact iff_of_true ⟨log, rfl, (append_nil _).symm⟩ (length_allEntries_le log)
  | cons entry entries ih =>
    rw [foldlM_cons, length_cons]
    cases hAppend : log.append entry with
    | none =>
      have hFull := (isFull_iff_length hPacked).mp (append_none_iff.mp hAppend)
      exact iff_of_false (by rintro ⟨_, h, -⟩; cases h) (by omega)
    | some next =>
      have hNext := ih (append_packed hPacked hAppend)
      rw [allEntries_append hAppend, (append_some hAppend).2, append_assoc, singleton_append,
        length_append, length_singleton, Nat.add_assoc, Nat.add_comm 1] at hNext
      exact hNext

/-- An empty section takes entries one by one until all slots of its pages are used. -/
theorem appends_fill_section (log : UpdateSection) (entries : List UpdateEntry) :
    (∃ log', entries.foldlM UpdateSection.append log.clear = some log' ∧
      log'.allEntries = entries) ↔ entries.length ≤ log.capacityPages * entriesPerPage := by
  have h := foldlM_append_iff (clear_packed log) entries
  rwa [allEntries_clear, nil_append, length_nil, Nat.zero_add] at h

theorem search_eq_newest (log : UpdateSection) (ekey : Key 9) :
    log.search ekey = Lsm.newest UpdateEntry.ekey log.allEntries ekey := by
  unfold UpdateSection.search Lsm.newest UpdateSection.allEntries
  induction log.pages using reverseRecOn with
  | nil => rfl
  | append_singleton pages page ih =>
    rw [reverse_append, reverse_singleton, singleton_append, findSome?_cons,
      flatMap_append, flatMap_singleton, reverse_append, find?_append, ← ih]
    cases page.entries.reverse.find? fun entry => entry.ekey = ekey <;> rfl

theorem entryCount_eq (log : UpdateSection) : log.entryCount = log.allEntries.length := by
  simp [UpdateSection.entryCount, UpdateSection.allEntries, length_flatMap]

/-! ## The section on disk -/

def UpdateSection.toBytes (log : UpdateSection) : Bytes :=
  padTo (max log.capacityPages log.pages.length * updatePageSize)
    (log.pages.flatMap UpdatePage.toBytes)

/-- The pages up to the first empty one. -/
def readPages : Nat → Bytes → List UpdatePage
  | 0, _ => []
  | fuel + 1, data =>
    if updatePageSize ≤ data.length then
      match UpdatePage.fromBytes (data.take updatePageSize) with
      | some page => page :: readPages fuel (data.drop updatePageSize)
      | none => []
    else []

theorem readPages_ne_nil (fuel : Nat) (data : Bytes) :
    ∀ page ∈ readPages fuel data, page.entries ≠ [] := by
  induction fuel generalizing data with
  | zero => simp [readPages]
  | succ fuel ih =>
    unfold readPages
    split
    · split
      next page hPage =>
        intro p hp
        rcases mem_cons.mp hp with rfl | hp
        · exact fromBytes_entries_ne_nil hPage
        · exact ih _ p hp
      · simp
    · simp

theorem readPages_length (fuel : Nat) (data : Bytes) : (readPages fuel data).length ≤ fuel := by
  induction fuel generalizing data with
  | zero => simp [readPages]
  | succ fuel ih =>
    unfold readPages
    split
    · split
      · simpa using ih _
      · simp
    · simp

def UpdateSection.fromBytes (data : Bytes) : UpdateSection where
  pages := readPages (data.length / updatePageSize) data
  capacityPages := max (data.length / updatePageSize) (minUpdateSectionSize / updatePageSize)
  pages_ne_nil := readPages_ne_nil _ _
  pages_le := (readPages_length _ _).trans (le_max_left _ _)
  capacity_le := le_max_right _ _

end Cascette.Index
