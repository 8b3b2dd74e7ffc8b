import Cascette.Lib.Bytes
import Cascette.Lib.Links
import Mathlib.Logic.Function.Basic

/-!
# LRU cache

The entries of the cache are slots of an array that are linked by their numbers, with the most
recently used entry at the head. A map finds the slot of a key, and slots that are not linked wait
in a free list. Indexing out of bounds ends a call with `none`.
-/

namespace Cascette.Storage

open Lib List Option

def lruSentinel : UInt32 := 0xffffffff

/-- `prev` is the entry that was used before, `next` the one that was used after. -/
structure LruFileEntry where
  prev : UInt32
  next : UInt32
  ekey : Key 9
  flags : UInt8

def LruFileEntry.empty : LruFileEntry :=
  { prev := lruSentinel, next := lruSentinel, ekey := ⟨List.replicate 9 0, rfl⟩, flags := 0 }

/-- The manager with the two fields of its file header. The free list ends with its top. -/
structure LruManager where
  mruHead : UInt32
  lruTail : UInt32
  entries : List LruFileEntry
  keyMap : Key 9 → Option UInt32
  freeList : List UInt32

namespace LruManager

def new (capacity : UInt32) : LruManager where
  mruHead := lruSentinel
  lruTail := lruSentinel
  entries := List.replicate capacity.toNat .empty
  keyMap _ := none
  freeList := (List.range capacity.toNat).map UInt32.ofNat

def modifyEntry (lru : LruManager) (idx : UInt32) (f : LruFileEntry → LruFileEntry) :
    Option LruManager :=
  if idx.toNat < lru.entries.length then
    some { lru with entries := lru.entries.modify idx.toNat f }
  else none

/-- The entry `prev` gets the entry after it; if there is none, that entry becomes the tail. -/
def relinkPrev (lru : LruManager) (prev next : UInt32) : Option LruManager :=
  if prev = lruSentinel then some { lru with lruTail := next }
  else lru.modifyEntry prev fun entry => { entry with next }

/-- The entry `next` gets the entry before it; if there is none, that entry becomes the head. -/
def relinkNext (lru : LruManager) (prev next : UInt32) : Option LruManager :=
  if next = lruSentinel then some { lru with mruHead := prev }
  else lru.modifyEntry next fun entry => { entry with prev }

def unlink (lru : LruManager) (idx : UInt32) : Option LruManager := do
  let entry ← lru.entries[idx.toNat]?
  let lru ← lru.relinkPrev entry.prev entry.next
  let lru ← lru.relinkNext entry.prev entry.next
  lru.modifyEntry idx fun entry => { entry with prev := lruSentinel, next := lruSentinel }

def linkAtHead (lru : LruManager) (idx : UInt32) : Option LruManager := do
  let oldHead := lru.mruHead
  let lru ← lru.modifyEntry idx fun entry => { entry with next := lruSentinel, prev := oldHead }
  let lru ← lru.relinkPrev oldHead idx
  some { lru with mruHead := idx }

/-- The number of the slot that was freed, if there was an entry. -/
def evictTail (lru : LruManager) : Option (Option UInt32 × LruManager) :=
  let tail := lru.lruTail
  if tail = lruSentinel then some (none, lru)
  else do
    let entry ← lru.entries[tail.toNat]?
    let lru ← { lru with keyMap := Function.update lru.keyMap entry.ekey none }.unlink tail
    let lru ← lru.modifyEntry tail fun _ => .empty
    some (some tail, lru)

/-- The slot of a new entry: the top of the free list, or the slot of the tail. -/
def allocateSlot (lru : LruManager) : Option (Option UInt32 × LruManager) :=
  match lru.freeList.getLast? with
  | some idx => some (some idx, { lru with freeList := lru.freeList.dropLast })
  | none => lru.evictTail

/-- A key gets a slot and becomes the head. -/
def insertAt (lru : LruManager) (ekey : Key 9) (idx : UInt32) : Option LruManager := do
  let lru ← lru.modifyEntry idx fun _ =>
    { prev := lruSentinel, next := lruSentinel, ekey, flags := 0 }
  { lru with keyMap := Function.update lru.keyMap ekey (some idx) }.linkAtHead idx

def touch (lru : LruManager) (ekey : Key 9) : Option (Bool × LruManager) :=
  match lru.keyMap ekey with
  | some idx => do
    let lru ← lru.unlink idx
    let lru ← lru.linkAtHead idx
    some (true, lru)
  | none => do
    let (slot, lru) ← lru.allocateSlot
    match slot with
    | none => some (false, lru)
    | some idx =>
      let lru ← lru.insertAt ekey idx
      some (true, lru)

def remove (lru : LruManager) (ekey : Key 9) : Option (Bool × LruManager) :=
  match lru.keyMap ekey with
  | none => some (false, lru)
  | some idx => do
    let lru ← { lru with keyMap := Function.update lru.keyMap ekey none }.unlink idx
    let lru ← lru.modifyEntry idx fun _ => .empty
    some (true, { lru with freeList := lru.freeList ++ [idx] })

/-! ## The links of the entries -/

def link (idx : UInt32) : Option UInt32 := if idx = lruSentinel then none else some idx

/-- The next entry is above, the previous one below. -/
def links (lru : LruManager) : Links UInt32 where
  up idx := lru.entries[idx.toNat]?.bind fun entry => link entry.next
  down idx := lru.entries[idx.toNat]?.bind fun entry => link entry.prev

def ekeyAt (lru : LruManager) (idx : UInt32) : Option (Key 9) :=
  lru.entries[idx.toNat]?.map (·.ekey)

variable {idx : UInt32} {lru : LruManager} {entry : LruFileEntry}

theorem link_eq_some {other : UInt32} (h : link idx = some other) :
    idx ≠ lruSentinel ∧ idx = other := by
  unfold link at h
  split at h
  · cases h
  next hNe =>
    exact ⟨hNe, Option.some.inj h⟩

theorem link_eq_none (h : link idx = none) : idx = lruSentinel := by
  unfold link at h
  split at h
  · assumption
  · cases h

theorem link_of_ne (h : idx ≠ lruSentinel) : link idx = some idx := if_neg h

theorem modifyEntry_eq (h : idx.toNat < lru.entries.length) (f : LruFileEntry → LruFileEntry) :
    lru.modifyEntry idx f = some { lru with entries := lru.entries.modify idx.toNat f } :=
  if_pos h

theorem getElem?_modifyEntry (entries : List LruFileEntry) (idx other : UInt32)
    (f : LruFileEntry → LruFileEntry) :
    (entries.modify idx.toNat f)[other.toNat]? =
      if other = idx then entries[other.toNat]?.map f else entries[other.toNat]? := by
  rw [getElem?_modify]
  by_cases hEq : other = idx
  · rw [if_pos hEq, hEq]
    cases entries[idx.toNat]? with
    | none => rfl
    | some entry => exact congrArg some (if_pos rfl)
  · rw [if_neg hEq]
    have hNe : idx.toNat ≠ other.toNat := fun h => hEq (UInt32.toNat_inj.mp h).symm
    cases entries[other.toNat]? with
    | none => rfl
    | some entry => exact congrArg some (if_neg hNe)

theorem links_modify (h : lru.entries[idx.toNat]? = some entry) (f : LruFileEntry → LruFileEntry) :
    (LruManager.links { lru with entries := lru.entries.modify idx.toNat f }) =
      { up := fun y => if y = idx then link (f entry).next else lru.links.up y
        down := fun y => if y = idx then link (f entry).prev else lru.links.down y } := by
  rw [links, Links.mk.injEq]
  constructor
  all_goals
    funext y
    dsimp only [links]
    rw [getElem?_modifyEntry]
    by_cases hEq : y = idx
    · rw [if_pos hEq, if_pos hEq, hEq, h]
      rfl
    · rw [if_neg hEq, if_neg hEq]

theorem ekeyAt_modify (lru : LruManager) (idx y : UInt32) (f : LruFileEntry → LruFileEntry) :
    (LruManager.ekeyAt { lru with entries := lru.entries.modify idx.toNat f }) y =
      if y = idx then (lru.entries[y.toNat]?.map f).map (·.ekey) else lru.ekeyAt y := by
  rw [ekeyAt, getElem?_modifyEntry]
  split <;> rfl

/-- Only links are different. -/
structure Relinked (lru lru' : LruManager) : Prop where
  length : lru'.entries.length = lru.entries.length
  ekey : ∀ idx, lru'.ekeyAt idx = lru.ekeyAt idx
  keyMap : lru'.keyMap = lru.keyMap
  freeList : lru'.freeList = lru.freeList

theorem Relinked.trans {lru' lru'' : LruManager} (h : Relinked lru lru')
    (h' : Relinked lru' lru'') : Relinked lru lru'' :=
  ⟨h'.length.trans h.length, fun idx => (h'.ekey idx).trans (h.ekey idx),
    h'.keyMap.trans h.keyMap, h'.freeList.trans h.freeList⟩

theorem relinked_modify (lru : LruManager) (idx : UInt32) {f : LruFileEntry → LruFileEntry}
    (hf : ∀ entry, (f entry).ekey = entry.ekey) :
    Relinked lru { lru with entries := lru.entries.modify idx.toNat f } := by
  refine ⟨length_modify .., fun y => ?_, rfl, rfl⟩
  rw [ekeyAt_modify, ekeyAt]
  split
  · cases lru.entries[y.toNat]? with
    | none => rfl
    | some entry => exact congrArg some (hf entry)
  · rfl

variable (h : lru.entries[idx.toNat]? = some entry)
include h

theorem up_eq : lru.links.up idx = link entry.next := by
  dsimp only [links]
  rw [h, bind_some]

theorem down_eq : lru.links.down idx = link entry.prev := by
  dsimp only [links]
  rw [h, bind_some]

omit h

theorem relinkPrev_spec {prev : UInt32} (next : UInt32)
    (h : ∀ idx, link prev = some idx → idx.toNat < lru.entries.length) :
    ∃ lru', lru.relinkPrev prev next = some lru' ∧ Relinked lru lru' ∧
      (∀ y, lru'.links.up y = if link prev = some y then link next else lru.links.up y) ∧
      (∀ y, lru'.links.down y = lru.links.down y) ∧ lru'.mruHead = lru.mruHead ∧
      link lru'.lruTail = if link prev = none then link next else link lru.lruTail := by
  unfold relinkPrev
  by_cases hPrev : prev = lruSentinel
  · have hNone : link prev = none := if_pos hPrev
    rw [if_pos hPrev, hNone]
    exact ⟨_, rfl, ⟨rfl, fun _ => rfl, rfl, rfl⟩, fun _ => (if_neg nofun).symm, fun _ => rfl, rfl,
      (if_pos rfl).symm⟩
  · have hSome : link prev = some prev := link_of_ne hPrev
    have hLt := h prev hSome
    have hEntry := getElem?_eq_getElem hLt
    rw [if_neg hPrev, modifyEntry_eq hLt, hSome]
    refine ⟨_, rfl, relinked_modify lru prev fun _ => rfl, fun y => ?_, fun y => ?_, rfl,
      (if_neg nofun).symm⟩
    · rw [links_modify hEntry]
      exact if_congr (by rw [Option.some.injEq, eq_comm]) rfl rfl
    · rw [links_modify hEntry]
      exact ite_eq_right_iff.mpr fun hEq => hEq ▸ (down_eq hEntry).symm

theorem relinkNext_spec (prev : UInt32) {next : UInt32}
    (h : ∀ idx, link next = some idx → idx.toNat < lru.entries.length) :
    ∃ lru', lru.relinkNext prev next = some lru' ∧ Relinked lru lru' ∧
      (∀ y, lru'.links.up y = lru.links.up y) ∧
      (∀ y, lru'.links.down y = if link next = some y then link prev else lru.links.down y) ∧
      link lru'.mruHead = (if link next = none then link prev else link lru.mruHead) ∧
      lru'.lruTail = lru.lruTail := by
  unfold relinkNext
  by_cases hNext : next = lruSentinel
  · have hNone : link next = none := if_pos hNext
    rw [if_pos hNext, hNone]
    exact ⟨_, rfl, ⟨rfl, fun _ => rfl, rfl, rfl⟩, fun _ => rfl, fun _ => (if_neg nofun).symm,
      (if_pos rfl).symm, rfl⟩
  · have hSome : link next = some next := link_of_ne hNext
    have hLt := h next hSome
    have hEntry := getElem?_eq_getElem hLt
    rw [if_neg hNext, modifyEntry_eq hLt, hSome]
    refine ⟨_, rfl, relinked_modify lru next fun _ => rfl, fun y => ?_, fun y => ?_,
      (if_neg nofun).symm, rfl⟩
    · rw [links_modify hEntry]
      exact ite_eq_right_iff.mpr fun hEq => hEq ▸ (up_eq hEntry).symm
    · rw [links_modify hEntry]
      exact if_congr (by rw [Option.some.injEq, eq_comm]) rfl rfl

theorem unlink_spec (hIdx : idx.toNat < lru.entries.length)
    (hUp : ∀ y, lru.links.up idx = some y → y.toNat < lru.entries.length)
    (hDown : ∀ y, lru.links.down idx = some y → y.toNat < lru.entries.length) :
    ∃ lru', lru.unlink idx = some lru' ∧ Relinked lru lru' ∧
      lru'.links = lru.links.unlink idx ∧
      link lru'.mruHead =
        (if lru.links.up idx = none then lru.links.down idx else link lru.mruHead) ∧
      link lru'.lruTail =
        (if lru.links.down idx = none then lru.links.up idx else link lru.lruTail) := by
  have hEntry := getElem?_eq_getElem hIdx
  rw [up_eq hEntry] at hUp
  rw [down_eq hEntry] at hDown
  obtain ⟨lru₁, hRun₁, hSame₁, hUp₁, hDown₁, hHead₁, hTail₁⟩ :=
    relinkPrev_spec lru.entries[idx.toNat].next hDown
  rw [← hSame₁.length] at hUp hIdx
  obtain ⟨lru₂, hRun₂, hSame₂, hUp₂, hDown₂, hHead₂, hTail₂⟩ :=
    relinkNext_spec lru.entries[idx.toNat].prev hUp
  rw [← hSame₂.length] at hIdx
  refine ⟨_, ?_, (hSame₁.trans hSame₂).trans (relinked_modify lru₂ idx (f := fun entry =>
    { entry with prev := lruSentinel, next := lruSentinel }) fun _ => rfl), ?_, ?_, ?_⟩
  · unfold unlink
    rw [hEntry]
    dsimp only [bind_eq_bind, bind_some]
    rw [hRun₁, bind_some, hRun₂, bind_some, modifyEntry_eq hIdx]
  · rw [links_modify (getElem?_eq_getElem hIdx), Links.unlink, Links.mk.injEq, up_eq hEntry,
      down_eq hEntry]
    constructor
    · funext y
      rw [hUp₂, hUp₁]
      rfl
    · funext y
      rw [hDown₂, hDown₁]
      rfl
  · rw [up_eq hEntry, down_eq hEntry]
    rw [hHead₂, hHead₁]
  · rw [up_eq hEntry, down_eq hEntry]
    rw [hTail₂, hTail₁]

theorem linkAtHead_spec (hIdx : idx.toNat < lru.entries.length) (hNe : idx ≠ lruSentinel)
    (hHead : ∀ y, link lru.mruHead = some y → y.toNat < lru.entries.length) :
    ∃ lru', lru.linkAtHead idx = some lru' ∧ Relinked lru lru' ∧
      lru'.links = lru.links.linkAtHead (link lru.mruHead) idx ∧ lru'.mruHead = idx ∧
      link lru'.lruTail = (if link lru.mruHead = none then link idx else link lru.lruTail) := by
  have hEntry := getElem?_eq_getElem hIdx
  have hSame := relinked_modify lru idx (f := fun entry =>
    { entry with next := lruSentinel, prev := lru.mruHead }) fun _ => rfl
  have hLinks := links_modify hEntry (fun entry =>
    { entry with next := lruSentinel, prev := lru.mruHead })
  rw [← hSame.length] at hHead
  obtain ⟨lru₁, hRun₁, hSame₁, hUp₁, hDown₁, -, hTail₁⟩ := relinkPrev_spec idx hHead
  refine ⟨{ lru₁ with mruHead := idx }, ?_, hSame.trans ⟨hSame₁.length, hSame₁.ekey, hSame₁.keyMap,
    hSame₁.freeList⟩, ?_, rfl, hTail₁⟩
  · unfold linkAtHead
    dsimp only [bind_eq_bind]
    rw [modifyEntry_eq hIdx, bind_some, hRun₁, bind_some]
  · have hLinks₁ : lru₁.links = ⟨lru₁.links.up, lru₁.links.down⟩ := rfl
    change lru₁.links = _
    rw [hLinks₁, Links.linkAtHead, Links.mk.injEq]
    constructor
    · funext y
      rw [hUp₁, hLinks, link_of_ne hNe]
      rfl
    · funext y
      rw [hDown₁, hLinks]

end LruManager

end Cascette.Storage
