import Cascette.Index.Update
import Cascette.Lib.Records

/-!
# Key mapping tables

A table is a section of entries that are sorted by their key and a log of updates in pages. A lookup
scans the pages from the newest to the oldest, but each page from its first entry on, and it does
not look at the status of an update. It answers with the newest update of a key only if the first
update of the last page that has one stands for the same place, and if the newest one is no deletion
(`lookup_iff`).
-/

namespace Cascette.Storage

open List

open Crypto Index Lib

def kmtV8UpdateEntrySize : ℕ := 40

def kmtV8UpdatePageSize : ℕ := 1024

def kmtV8EntriesPerPage : ℕ := kmtV8UpdatePageSize / kmtV8UpdateEntrySize

/-! ## Entries -/

/-- Where the data of a key is: the two halves of the offset, and the sizes. -/
structure KmtV8SortedEntry where
  ekey : Key 16
  storageOffsetLow : UInt32
  storageOffsetHigh : UInt32
  encodedSize : UInt32
  decodedSize : UInt32
deriving DecidableEq

/-- The 64-bit offset of two halves. -/
def joinOffset (high low : UInt32) : UInt64 := high.toUInt64 <<< 32 ||| low.toUInt64

namespace KmtV8SortedEntry

def new (ekey : Key 16) (storageOffset : UInt64) (encodedSize decodedSize : UInt32) :
    KmtV8SortedEntry where
  ekey
  storageOffsetLow := storageOffset.toUInt32
  storageOffsetHigh := (storageOffset >>> 32).toUInt32
  encodedSize
  decodedSize

end KmtV8SortedEntry

structure KmtV8UpdateEntry where
  hashGuard : UInt32
  ekey : Key 16
  storageOffsetLow : UInt32
  storageOffsetHigh : UInt32
  encodedSize : UInt32
  decodedSize : UInt32
  status : UInt8
  padding : Key 3
deriving DecidableEq

namespace KmtV8UpdateEntry

def toBytes (entry : KmtV8UpdateEntry) : Bytes :=
  leBytes 4 entry.hashGuard.toNat ++ entry.ekey.1 ++ leBytes 4 entry.storageOffsetLow.toNat ++
    leBytes 4 entry.storageOffsetHigh.toNat ++ leBytes 4 entry.encodedSize.toNat ++
    leBytes 4 entry.decodedSize.toNat ++ [entry.status] ++ entry.padding.1

def computeHashGuard (entryBytes : Bytes) : UInt32 :=
  (hashlittle2 ((entryBytes.take 37).drop 4) 0 0).1 ||| 0x80000000

def new (ekey : Key 16) (storageOffset : UInt64) (encodedSize decodedSize : UInt32)
    (status : UInt8) : KmtV8UpdateEntry :=
  let entry : KmtV8UpdateEntry :=
    { hashGuard := 0
      ekey
      storageOffsetLow := storageOffset.toUInt32
      storageOffsetHigh := (storageOffset >>> 32).toUInt32
      encodedSize
      decodedSize
      status
      padding := Key.fill 3 0 }
  { entry with hashGuard := computeHashGuard entry.toBytes }

def storageOffset (entry : KmtV8UpdateEntry) : UInt64 :=
  joinOffset entry.storageOffsetHigh entry.storageOffsetLow

/-- The entry that a lookup answers with. -/
def toSorted (entry : KmtV8UpdateEntry) : KmtV8SortedEntry :=
  .new entry.ekey entry.storageOffset entry.encodedSize entry.decodedSize

end KmtV8UpdateEntry

/-! ## Pages -/

structure KmtV8UpdatePage where
  entries : List KmtV8UpdateEntry
  length_le : entries.length ≤ kmtV8EntriesPerPage

namespace KmtV8UpdatePage

def new : KmtV8UpdatePage := ⟨[], Nat.zero_le _⟩

/-- A page that is full stays as it is. -/
def push (page : KmtV8UpdatePage) (entry : KmtV8UpdateEntry) : Bool × KmtV8UpdatePage :=
  if h : page.entries.length < kmtV8EntriesPerPage then
    (true, ⟨page.entries ++ [entry], by rwa [List.length_append, List.length_singleton]⟩)
  else (false, page)

end KmtV8UpdatePage

/-! ## The table -/

/-- The pages are a log, the newest page is the last one. A lookup does not read the headers. -/
structure KmtV8File where
  sortedEntries : List KmtV8SortedEntry
  updatePages : List KmtV8UpdatePage

namespace KmtV8File

/-- The newest page that has the key is searched from its first entry on. -/
def lookup (file : KmtV8File) (ekey : Key 16) : Option KmtV8SortedEntry :=
  let update := file.updatePages.reverse.findSome? fun page =>
    page.entries.find? fun entry => entry.ekey = ekey
  match update with
  | some entry => some entry.toSorted
  | none =>
    match binarySearchBy (fun entry => compare entry.ekey ekey) file.sortedEntries with
    | .ok i => file.sortedEntries[i]?
    | .error _ => none

/-! ## What a lookup should answer -/

/-- The updates in the order in which they were appended. -/
def updates (file : KmtV8File) : List KmtV8UpdateEntry :=
  (file.updatePages.map KmtV8UpdatePage.entries).flatten

end KmtV8File

/-- A deletion leaves no entry. -/
def KmtV8UpdateEntry.visible (entry : KmtV8UpdateEntry) : Option KmtV8SortedEntry :=
  if UpdateStatus.fromByte entry.status = .delete then none else some entry.toSorted

namespace KmtV8File

/-- The newest update of the key decides. If there is none, an entry of the sorted section does. -/
def Answers (file : KmtV8File) (ekey : Key 16) (result : Option KmtV8SortedEntry) : Prop :=
  match Lsm.newest KmtV8UpdateEntry.ekey file.updates ekey with
  | some update => result = update.visible
  | none =>
    (∃ entry ∈ file.sortedEntries, entry.ekey = ekey ∧ result = some entry) ∨
      result = none ∧ ∀ entry ∈ file.sortedEntries, entry.ekey ≠ ekey

/-- The newest page that has an update of the key. -/
def lastPage (file : KmtV8File) (ekey : Key 16) : Option KmtV8UpdatePage :=
  file.updatePages.reverse.find? fun page => page.entries.any fun entry => entry.ekey = ekey

/-- In that page, the last update of the key is no deletion, and the first one stands for the same
place. -/
def FirstIsCurrent (file : KmtV8File) (ekey : Key 16) : Prop :=
  ∀ page, file.lastPage ekey = some page → ∃ first last,
    page.entries.find? (fun entry => entry.ekey = ekey) = some first ∧
    Lsm.newest KmtV8UpdateEntry.ekey page.entries ekey = some last ∧
    UpdateStatus.fromByte last.status ≠ .delete ∧ first.toSorted = last.toSorted

/-! ## What a lookup answers -/

theorem findSome?_eq_bind {α β : Type} {f : α → Option β} {p : α → Bool}
    (h : ∀ a, (f a).isSome = p a) (xs : List α) : xs.findSome? f = (xs.find? p).bind f := by
  induction xs with
  | nil => rfl
  | cons x xs ih =>
    rw [findSome?_cons, find?_cons, ← h x, ih]
    cases hValue : f x with
    | none => rfl
    | some value => exact hValue.symm

theorem isSome_find? {α : Type} (p : α → Bool) (xs : List α) : (xs.find? p).isSome = xs.any p := by
  rw [Bool.eq_iff_iff, find?_isSome, any_eq_true]

theorem isSome_newest (entries : List KmtV8UpdateEntry) (ekey : Key 16) :
    (Lsm.newest KmtV8UpdateEntry.ekey entries ekey).isSome =
      entries.any fun entry => entry.ekey = ekey := by
  rw [Lsm.newest, isSome_find?, any_reverse]

theorem newest_updates (file : KmtV8File) (ekey : Key 16) :
    Lsm.newest KmtV8UpdateEntry.ekey file.updates ekey = (file.lastPage ekey).bind fun page =>
      Lsm.newest KmtV8UpdateEntry.ekey page.entries ekey := by
  have hPages := findSome?_eq_bind
    (fun page : KmtV8UpdatePage => isSome_newest page.entries ekey) file.updatePages.reverse
  rw [updates, Lsm.newest_flatten, ← map_reverse, findSome?_map]
  exact hPages

theorem find_update (file : KmtV8File) (ekey : Key 16) :
    (file.updatePages.reverse.findSome? fun page =>
      page.entries.find? fun entry => entry.ekey = ekey) = (file.lastPage ekey).bind fun page =>
        page.entries.find? fun entry => entry.ekey = ekey :=
  findSome?_eq_bind (fun page : KmtV8UpdatePage => isSome_find? _ page.entries) _

theorem exists_of_lastPage {file : KmtV8File} {ekey : Key 16} {page : KmtV8UpdatePage}
    (h : file.lastPage ekey = some page) :
    ∃ first last, page.entries.find? (fun entry => entry.ekey = ekey) = some first ∧
      Lsm.newest KmtV8UpdateEntry.ekey page.entries ekey = some last := by
  have hAny := find?_some h
  have hFirst := hAny
  rw [← isSome_find?] at hFirst
  rw [← isSome_newest] at hAny
  obtain ⟨first, hFirst⟩ := Option.isSome_iff_exists.mp hFirst
  obtain ⟨last, hLast⟩ := Option.isSome_iff_exists.mp hAny
  exact ⟨first, last, hFirst, hLast⟩

theorem sorted_answers {entries : List KmtV8SortedEntry}
    (hSorted : Lsm.Ascends KmtV8SortedEntry.ekey entries) (ekey : Key 16) :
    let result :=
      match binarySearchBy (fun entry => compare entry.ekey ekey) entries with
      | .ok i => entries[i]?
      | .error _ => none
    (∃ entry ∈ entries, entry.ekey = ekey ∧ result = some entry) ∨
      result = none ∧ ∀ entry ∈ entries, entry.ekey ≠ ekey := by
  cases hSearch : binarySearchBy (fun entry => compare entry.ekey ekey) entries with
  | ok i =>
    obtain ⟨hi, hEq⟩ := binarySearchBy_ok hSearch
    exact .inl ⟨entries[i], getElem_mem hi, compare_eq_iff_eq.mp hEq, getElem?_eq_getElem hi⟩
  | error i =>
    refine .inr ⟨rfl, fun entry hEntry hEkey => ?_⟩
    exact binarySearchBy_error_ne (ascending_of_sorted hSorted ekey) hSearch entry hEntry
      (compare_eq_iff_eq.mpr hEkey)

/-- A lookup answers with the newest update of the key, or with the sorted entry if there is none,
exactly if the page that it searches has no newer update of the key. -/
theorem lookup_iff (file : KmtV8File) (ekey : Key 16)
    (hSorted : Lsm.Ascends KmtV8SortedEntry.ekey file.sortedEntries) :
    file.Answers ekey (file.lookup ekey) ↔ file.FirstIsCurrent ekey := by
  rw [Answers, lookup, find_update, newest_updates]
  cases hPage : file.lastPage ekey with
  | none =>
    refine iff_of_true (sorted_answers hSorted ekey) fun page hSome => ?_
    cases hPage.symm.trans hSome
  | some page =>
    obtain ⟨first, last, hFirst, hLast⟩ := exists_of_lastPage hPage
    rw [Option.bind_some, Option.bind_some, hFirst, hLast]
    dsimp only
    constructor
    · intro hEq other hOther
      cases hPage.symm.trans hOther
      rw [KmtV8UpdateEntry.visible] at hEq
      split at hEq
      · cases hEq
      next hStatus =>
        exact ⟨first, last, hFirst, hLast, hStatus, Option.some.inj hEq⟩
    · intro hCurrent
      obtain ⟨first', last', hFirst', hLast', hStatus, hSame⟩ := hCurrent page hPage
      cases hFirst.symm.trans hFirst'
      cases hLast.symm.trans hLast'
      rw [KmtV8UpdateEntry.visible, if_neg hStatus, hSame]

/-- One page with the updates of a list, in front of which there are sorted entries. -/
def ofUpdates (sortedEntries : List KmtV8SortedEntry) (page : KmtV8UpdatePage) : KmtV8File where
  sortedEntries
  updatePages := [page]

theorem lookup_iff_sample :
    Lsm.Ascends KmtV8SortedEntry.ekey [KmtV8SortedEntry.new (Key.fill 16 1) 7 5 5] ∧
      (ofUpdates [.new (Key.fill 16 1) 7 5 5]
        (KmtV8UpdatePage.new.push (.new (Key.fill 16 1) 9 5 5 1)).2).Answers (Key.fill 16 1)
          (some (.new (Key.fill 16 1) 9 5 5)) := by
  have hSorted : Lsm.Ascends KmtV8SortedEntry.ekey [KmtV8SortedEntry.new (Key.fill 16 1) 7 5 5] :=
    pairwise_singleton _ _
  refine ⟨hSorted, (lookup_iff (ofUpdates [.new (Key.fill 16 1) 7 5 5]
    (KmtV8UpdatePage.new.push (.new (Key.fill 16 1) 9 5 5 1)).2) _ hSorted).mpr ?_⟩
  intro page hPage
  cases hPage
  exact ⟨_, _, rfl, rfl, by decide, rfl⟩

/-- A key that is inserted and then deleted in the same page is still found. -/
theorem lookup_refuted :
    ¬ ∀ (file : KmtV8File) (ekey : Key 16),
      Lsm.Ascends KmtV8SortedEntry.ekey file.sortedEntries →
        file.Answers ekey (file.lookup ekey) := by
  intro h
  let page := (KmtV8UpdatePage.new.push (.new (Key.fill 16 1) 9 5 5 1)).2
  have hFile := h (ofUpdates [] (page.push (.new (Key.fill 16 1) 0 0 0 3)).2) (Key.fill 16 1)
    List.Pairwise.nil
  have hAnswer : (some (KmtV8SortedEntry.new (Key.fill 16 1) 9 5 5)) = none := hFile
  cases hAnswer

end KmtV8File

end Cascette.Storage
