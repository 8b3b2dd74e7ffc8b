import Cascette.Storage.Lru

/-!
# The LRU cache as a list of recent keys

Every run of the cache keeps its links, its key map and its free list together (`Inv`). What the
cache holds is a list of keys, the most recent one first. A slot that `evict_tail` frees is not put
back on the free list, so that each call of it takes one slot away from the cache
(`refines_recent_iff`).
-/

namespace Cascette.Storage

open Lib List Function

namespace LruManager

/-! ## Links through the slots -/

/-- The slots are linked from the head to the tail. -/
structure Threaded (lru : LruManager) (slots : List UInt32) : Prop where
  size : lru.entries.length < 2 ^ 32
  chain : lru.links.Chain none slots none
  nodup : slots.Nodup
  range : ∀ idx ∈ slots, idx.toNat < lru.entries.length
  head : link lru.mruHead = slots.head?
  tail : link lru.lruTail = slots.getLast?

variable {lru : LruManager} {idx : UInt32} {before after slots : List UInt32} {ekey : Key 9}
  {recent : List (Key 9)} {evicted : Nat}

theorem ne_sentinel (hSize : lru.entries.length < 2 ^ 32) (hIdx : idx.toNat < lru.entries.length) :
    idx ≠ lruSentinel := by
  rintro rfl
  have hMax : lruSentinel.toNat = 2 ^ 32 - 1 := rfl
  omega

theorem Threaded.unlink (h : lru.Threaded (before ++ idx :: after)) :
    ∃ lru', lru.unlink idx = some lru' ∧ Relinked lru lru' ∧ lru'.Threaded (before ++ after) := by
  obtain ⟨hUp, hDown⟩ := h.chain.neighbours
  have hRange : ∀ y ∈ before ++ after, y.toNat < lru.entries.length := by
    intro y hy
    refine h.range y ?_
    rw [mem_append, mem_cons]
    exact (mem_append.mp hy).imp_right .inr
  obtain ⟨lru', hRun, hSame, hLinks, hHead, hTail⟩ := unlink_spec
    (h.range idx (mem_append_right _ mem_cons_self))
    (fun y hy => hRange y (mem_append_left _ (mem_of_getLast? (hUp ▸ hy))))
    (fun y hy => hRange y (mem_append_right _ (mem_of_mem_head? (hDown ▸ hy))))
  refine ⟨lru', hRun, hSame, ?_⟩
  constructor
  · exact hSame.length ▸ h.size
  · exact hLinks ▸ h.chain.unlink h.nodup
  · exact h.nodup.sublist ((sublist_cons_self idx after).append_left before)
  · exact hSame.length ▸ hRange
  · rw [hHead, hUp, hDown, h.head]
    cases before with
    | nil => rfl
    | cons x before =>
      rw [if_neg (by rw [getLast?_cons]; nofun)]
      rfl
  · rw [hTail, hUp, hDown, h.tail, getLast?_append, getLast?_append]
    cases after with
    | nil => rfl
    | cons x after => exact if_neg nofun

theorem Threaded.linkAtHead (h : lru.Threaded slots) (hIdx : idx.toNat < lru.entries.length)
    (hNot : idx ∉ slots) :
    ∃ lru', lru.linkAtHead idx = some lru' ∧ Relinked lru lru' ∧ lru'.Threaded (idx :: slots) := by
  have hNe := ne_sentinel h.size hIdx
  have hNodup : (idx :: slots).Nodup := nodup_cons.mpr ⟨hNot, h.nodup⟩
  obtain ⟨lru', hRun, hSame, hLinks, hHead, hTail⟩ := linkAtHead_spec hIdx hNe
    (fun y hy => h.range y (mem_of_mem_head? (h.head ▸ hy)))
  refine ⟨lru', hRun, hSame, ?_⟩
  constructor
  · exact hSame.length ▸ h.size
  · rw [hLinks, h.head]
    exact h.chain.linkAtHead hNodup
  · exact hNodup
  · rw [hSame.length]
    exact forall_mem_cons.mpr ⟨hIdx, h.range⟩
  · rw [hHead]
    exact link_of_ne hNe
  · rw [hTail, h.head, h.tail, link_of_ne hNe, getLast?_cons]
    cases slots with
    | nil => rfl
    | cons x slots => exact if_neg nofun

theorem Threaded.setKeyMap (h : lru.Threaded slots) (keyMap : Key 9 → Option UInt32) :
    Threaded { lru with keyMap } slots :=
  ⟨h.size, h.chain, h.nodup, h.range, h.head, h.tail⟩

theorem Threaded.modifyEntry (h : lru.Threaded slots) (hIdx : idx.toNat < lru.entries.length)
    (hNot : idx ∉ slots) (entry : LruFileEntry) :
    ∃ lru', lru.modifyEntry idx (fun _ => entry) = some lru' ∧ lru'.Threaded slots ∧
      lru'.entries.length = lru.entries.length ∧ lru'.keyMap = lru.keyMap ∧
      lru'.freeList = lru.freeList ∧ lru'.ekeyAt idx = some entry.ekey ∧
      ∀ y ≠ idx, lru'.ekeyAt y = lru.ekeyAt y := by
  have hNe : ∀ y ∈ slots, y ≠ idx := by
    rintro y hy rfl
    exact hNot hy
  have hEntry := getElem?_eq_getElem hIdx
  have hLength : (lru.entries.modify idx.toNat fun _ => entry).length = lru.entries.length :=
    length_modify ..
  refine ⟨_, modifyEntry_eq hIdx _, ⟨hLength ▸ h.size, h.chain.congr fun y hy => ?_, h.nodup,
    hLength ▸ h.range, h.head, h.tail⟩, hLength, rfl, rfl, ?_, fun y hy => ?_⟩
  · rw [links_modify hEntry]
    exact ⟨if_neg (hNe y hy), if_neg (hNe y hy)⟩
  · rw [ekeyAt_modify, if_pos rfl, hEntry]
    rfl
  · rw [ekeyAt_modify, if_neg hy]

/-! ## The key map and the free list -/

/-- The state of a cache whose linked slots are `slots`, each of them with a key of its own. -/
structure Inv (lru : LruManager) (slots : List UInt32) : Prop where
  threaded : lru.Threaded slots
  free : lru.freeList.Nodup
  freeRange : ∀ idx ∈ lru.freeList, idx.toNat < lru.entries.length ∧ idx ∉ slots
  keys : ∀ ekey idx, lru.keyMap ekey = some idx ↔ idx ∈ slots ∧ lru.ekeyAt idx = some ekey

theorem Inv.exists_ekey (h : lru.Inv slots) (hIdx : idx ∈ slots) :
    ∃ ekey, lru.ekeyAt idx = some ekey ∧ lru.keyMap ekey = some idx := by
  have hEntry := getElem?_eq_getElem (h.threaded.range idx hIdx)
  have hKey := congrArg (Option.map LruFileEntry.ekey) hEntry
  exact ⟨_, hKey, (h.keys _ _).mpr ⟨hIdx, hKey⟩⟩

theorem Inv.moveToHead (h : lru.Inv (before ++ idx :: after)) :
    ∃ lru₁ lru', lru.unlink idx = some lru₁ ∧ lru₁.linkAtHead idx = some lru' ∧
      Relinked lru lru' ∧ lru'.Inv (idx :: (before ++ after)) := by
  have hIdx := h.threaded.range idx (mem_append_right _ mem_cons_self)
  have hNot : idx ∉ before ++ after := (nodup_cons.mp (nodup_middle.mp h.threaded.nodup)).1
  obtain ⟨lru₁, hRun₁, hSame₁, hThreaded₁⟩ := h.threaded.unlink
  obtain ⟨lru', hRun, hSame, hThreaded⟩ := hThreaded₁.linkAtHead (hSame₁.length.symm ▸ hIdx) hNot
  have hAll := hSame₁.trans hSame
  have hMem : ∀ y, y ∈ idx :: (before ++ after) ↔ y ∈ before ++ idx :: after :=
    fun y => perm_middle.symm.mem_iff
  refine ⟨lru₁, lru', hRun₁, hRun, hAll, hThreaded, hAll.freeList ▸ h.free, fun y hy => ?_, ?_⟩
  · rw [hAll.length, hMem]
    exact h.freeRange y (hAll.freeList ▸ hy)
  · intro ekey y
    rw [hAll.keyMap, hAll.ekey, hMem]
    exact h.keys ekey y

theorem Inv.clearSlot (h : lru.Inv (before ++ idx :: after)) (hKey : lru.ekeyAt idx = some ekey) :
    ∃ lru₁ lru', LruManager.unlink
        { lru with keyMap := Function.update lru.keyMap ekey none } idx = some lru₁ ∧
      lru₁.modifyEntry idx (fun _ => .empty) = some lru' ∧ lru'.Inv (before ++ after) ∧
      lru'.entries.length = lru.entries.length ∧ lru'.freeList = lru.freeList ∧
      lru'.keyMap = Function.update lru.keyMap ekey none ∧
      lru'.ekeyAt idx = some LruFileEntry.empty.ekey ∧
      ∀ y ≠ idx, lru'.ekeyAt y = lru.ekeyAt y := by
  have hIn : idx ∈ before ++ idx :: after := mem_append_right _ mem_cons_self
  have hIdx := h.threaded.range idx hIn
  have hNot : idx ∉ before ++ after := (nodup_cons.mp (nodup_middle.mp h.threaded.nodup)).1
  have hMem : ∀ y, y ∈ before ++ idx :: after ↔ y = idx ∨ y ∈ before ++ after :=
    fun y => perm_middle.mem_iff.trans mem_cons
  obtain ⟨lru₁, hRun₁, hSame₁, hThreaded₁⟩ :=
    (h.threaded.setKeyMap (Function.update lru.keyMap ekey none)).unlink
  have hIdx₁ : idx.toNat < lru₁.entries.length := hSame₁.length.symm ▸ hIdx
  obtain ⟨lru', hRun, hThreaded, hLength, hMap, hFree, hSelf, hKeys⟩ :=
    hThreaded₁.modifyEntry hIdx₁ hNot .empty
  replace hLength : lru'.entries.length = lru.entries.length := hLength.trans hSame₁.length
  replace hMap : lru'.keyMap = Function.update lru.keyMap ekey none := hMap.trans hSame₁.keyMap
  replace hFree : lru'.freeList = lru.freeList := hFree.trans hSame₁.freeList
  replace hKeys : ∀ y ≠ idx, lru'.ekeyAt y = lru.ekeyAt y :=
    fun y hNe => (hKeys y hNe).trans (hSame₁.ekey y)
  refine ⟨lru₁, lru', hRun₁, hRun, ⟨hThreaded, hFree ▸ h.free, ?_, ?_⟩, hLength, hFree, hMap,
    hSelf, hKeys⟩
  · intro y hy
    obtain ⟨hRange, hOut⟩ := h.freeRange y (hFree ▸ hy)
    rw [hMem, not_or] at hOut
    exact ⟨hLength.symm ▸ hRange, hOut.2⟩
  · intro key y
    have hSlot := (h.keys ekey idx).mpr ⟨hIn, hKey⟩
    constructor
    · intro hy
      rw [hMap, update_apply] at hy
      split at hy
      · cases hy
      next hNe =>
        obtain ⟨hIn, hEkey⟩ := (h.keys key y).mp hy
        have hOther : y ≠ idx := by
          rintro rfl
          exact hNe (Option.some.inj (hEkey.symm.trans hKey))
        exact ⟨((hMem y).mp hIn).resolve_left hOther, (hKeys y hOther).trans hEkey⟩
    · rintro ⟨hy, hEkey⟩
      have hNe : y ≠ idx := fun hEq => hNot (hEq ▸ hy)
      rw [hKeys y hNe] at hEkey
      have hOld := (h.keys key y).mpr ⟨(hMem y).mpr (.inr hy), hEkey⟩
      -- no other slot has the key that is taken out
      have hKeyNe : key ≠ ekey := by
        rintro rfl
        exact hNe (Option.some.inj (hOld.symm.trans hSlot))
      rw [hMap, update_of_ne hKeyNe, hOld]

theorem Inv.insertAt (h : lru.Inv slots) (hIdx : idx.toNat < lru.entries.length)
    (hNot : idx ∉ slots) (hFree : idx ∉ lru.freeList) (hNew : lru.keyMap ekey = none) :
    ∃ lru', lru.insertAt ekey idx = some lru' ∧ lru'.Inv (idx :: slots) ∧
      lru'.entries.length = lru.entries.length ∧ lru'.freeList = lru.freeList ∧
      lru'.ekeyAt idx = some ekey ∧ ∀ y ≠ idx, lru'.ekeyAt y = lru.ekeyAt y := by
  obtain ⟨lru₁, hRun₁, hThreaded₁, hLength₁, hMap₁, hFree₁, hSelf₁, hOther₁⟩ :=
    h.threaded.modifyEntry hIdx hNot
      { prev := lruSentinel, next := lruSentinel, ekey, flags := 0 }
  obtain ⟨lru', hRun, hSame, hThreaded⟩ :=
    (hThreaded₁.setKeyMap (Function.update lru₁.keyMap ekey (some idx))).linkAtHead
      (hLength₁.symm ▸ hIdx) hNot
  have hLength : lru'.entries.length = lru.entries.length := hSame.length.trans hLength₁
  have hMap : lru'.keyMap = Function.update lru.keyMap ekey (some idx) := by
    rw [hSame.keyMap, hMap₁]
  have hList : lru'.freeList = lru.freeList := hSame.freeList.trans hFree₁
  have hSelf : lru'.ekeyAt idx = some ekey := (hSame.ekey idx).trans hSelf₁
  have hOther : ∀ y ≠ idx, lru'.ekeyAt y = lru.ekeyAt y :=
    fun y hNe => (hSame.ekey y).trans (hOther₁ y hNe)
  refine ⟨lru', ?_, ⟨hThreaded, hList ▸ h.free, fun y hy => ?_, fun key y => ?_⟩, hLength, hList,
    hSelf, hOther⟩
  · rw [LruManager.insertAt, hRun₁]
    exact hRun
  · rw [hList] at hy
    obtain ⟨hRange, hOut⟩ := h.freeRange y hy
    rw [hLength, mem_cons, not_or]
    exact ⟨hRange, fun hEq => hFree (hEq ▸ hy), hOut⟩
  · rw [hMap, update_apply]
    by_cases hy : y = idx
    · subst hy
      have hOld : lru.keyMap key ≠ some y := fun hKey => hNot ((h.keys key y).mp hKey).1
      split
      · simp_all
      · simp_all [eq_comm]
    · rw [hOther y hy, mem_cons, or_iff_right hy, ← h.keys]
      split_ifs with hEq
      · simp [hEq, hNew, Ne.symm hy]
      · rfl

/-! ## Recent keys -/

/-- The list of recent keys with room for `room` of them: the key comes first, and the last key is
dropped if there is no room. -/
def touchRecent (room : Nat) (recent : List (Key 9)) (ekey : Key 9) : List (Key 9) :=
  if ekey ∈ recent then ekey :: recent.erase ekey
  else if recent.length < room then ekey :: recent
  else if room = 0 then recent
  else ekey :: recent.dropLast

/-- The cache holds the keys, and `evicted` slots are neither linked nor free. -/
def Holds (lru : LruManager) (recent : List (Key 9)) (evicted : Nat) : Prop :=
  ∃ slots, lru.Inv slots ∧ slots.map lru.ekeyAt = recent.map some ∧
    recent.length + lru.freeList.length + evicted = lru.entries.length

section

variable (h : lru.Inv slots) (hKeys : slots.map lru.ekeyAt = recent.map some)

include h hKeys

theorem Inv.mem_iff (ekey : Key 9) : ekey ∈ recent ↔ ∃ idx, lru.keyMap ekey = some idx := by
  have hMem : ekey ∈ recent ↔ some ekey ∈ recent.map some :=
    (mem_map_of_injective (Option.some_injective _)).symm
  rw [hMem, ← hKeys, mem_map]
  exact exists_congr fun idx => (h.keys ekey idx).symm

theorem Inv.nodup_recent : recent.Nodup := by
  rw [← nodup_map_iff (Option.some_injective _), ← hKeys]
  refine h.threaded.nodup.map_on fun idx hIdx other hOther hEq => ?_
  obtain ⟨ekey, hEkey, hMap⟩ := h.exists_ekey hIdx
  exact Option.some.inj (hMap.symm.trans ((h.keys ekey other).mpr ⟨hOther, hEq ▸ hEkey⟩))

theorem Inv.split (hIdx : lru.keyMap ekey = some idx) :
    ∃ before after, slots = before ++ idx :: after ∧
      (before ++ after).map lru.ekeyAt = (recent.erase ekey).map some := by
  obtain ⟨hIn, hEkey⟩ := (h.keys ekey idx).mp hIdx
  obtain ⟨before, after, rfl⟩ := append_of_mem hIn
  have hNodup : ((before ++ idx :: after).map lru.ekeyAt).Nodup := by
    rw [hKeys, nodup_map_iff (Option.some_injective _)]
    exact h.nodup_recent hKeys
  rw [map_append, map_cons, hEkey] at hKeys hNodup
  have hNot : some ekey ∉ before.map lru.ekeyAt := fun hMem =>
    (nodup_append.mp hNodup).2.2 _ hMem _ mem_cons_self rfl
  refine ⟨before, after, rfl, ?_⟩
  rw [map_erase (Option.some_injective _), ← hKeys, erase_append_right _ hNot,
    erase_cons_head, map_append]

end

theorem map_ekeyAt_congr {lru' : LruManager} (hNot : idx ∉ slots)
    (h : ∀ y ≠ idx, lru'.ekeyAt y = lru.ekeyAt y) : slots.map lru'.ekeyAt = slots.map lru.ekeyAt :=
  map_congr_left fun y hy => h y fun hEq => hNot (hEq ▸ hy)

theorem Holds.touch_mem (h : lru.Holds recent evicted) (hMem : ekey ∈ recent) :
    ∃ lru', lru.touch ekey = some (true, lru') ∧ lru'.entries.length = lru.entries.length ∧
      lru'.Holds (ekey :: recent.erase ekey) evicted := by
  obtain ⟨slots, hInv, hKeys, hCount⟩ := h
  obtain ⟨idx, hIdx⟩ := (hInv.mem_iff hKeys ekey).mp hMem
  obtain ⟨before, after, rfl, hErase⟩ := hInv.split hKeys hIdx
  obtain ⟨lru₁, lru', hRun₁, hRun, hSame, hInv'⟩ := hInv.moveToHead
  have hEkey := ((hInv.keys ekey idx).mp hIdx).2
  refine ⟨lru', ?_, hSame.length, _, hInv', ?_, ?_⟩
  · rw [touch, hIdx]
    dsimp only [Option.bind_eq_bind]
    rw [hRun₁, Option.bind_some, hRun, Option.bind_some]
  · rw [map_cons, map_cons, ← hErase, hSame.ekey, hEkey]
    exact congrArg _ (map_congr_left fun y _ => hSame.ekey y)
  · have hPos := length_pos_of_mem hMem
    rw [length_cons, length_erase_of_mem hMem, hSame.freeList, hSame.length]
    omega

theorem evictTail_nil (h : lru.Holds [] evicted) : lru.evictTail = some (none, lru) := by
  obtain ⟨slots, hInv, hKeys, -⟩ := h
  refine if_pos (link_eq_none (hInv.threaded.tail.trans ?_))
  rw [map_eq_nil_iff.mp hKeys]
  rfl

theorem Holds.evictTail (h : lru.Holds recent evicted) (hRecent : recent ≠ []) :
    ∃ idx lru', lru.evictTail = some (some idx, lru') ∧
      lru'.entries.length = lru.entries.length ∧ lru'.freeList = lru.freeList ∧
      idx.toNat < lru.entries.length ∧ idx ∉ lru.freeList ∧
      (∀ ekey ∉ recent, lru'.keyMap ekey = none) ∧
      ∃ slots, lru'.Inv slots ∧ idx ∉ slots ∧ slots.map lru'.ekeyAt = recent.dropLast.map some := by
  obtain ⟨slots, hInv, hKeys, hCount⟩ := h
  have hSlots : slots ≠ [] := by
    rintro rfl
    exact hRecent (map_eq_nil_iff.mp hKeys.symm)
  obtain ⟨before, idx, rfl⟩ := (eq_nil_or_concat' slots).resolve_left hSlots
  have hIn : idx ∈ before ++ [idx] := mem_append_right _ mem_cons_self
  obtain ⟨ekey, hEkey, hMap⟩ := hInv.exists_ekey hIn
  obtain ⟨hTail, rfl⟩ := link_eq_some (hInv.threaded.tail.trans getLast?_concat)
  obtain ⟨entry, hEntry, rfl⟩ := Option.map_eq_some_iff.mp hEkey
  obtain ⟨lru₁, lru', hRun₁, hRun, hInv', hLength, hFree, hMap', -, hOther⟩ := hInv.clearSlot hEkey
  rw [append_nil] at hInv'
  have hNot : lru.lruTail ∉ before :=
    fun hMem => (nodup_append.mp hInv.threaded.nodup).2.2 _ hMem _ mem_cons_self rfl
  refine ⟨lru.lruTail, lru', ?_, hLength, hFree, hInv.threaded.range _ hIn,
    fun hIdx => (hInv.freeRange _ hIdx).2 hIn, fun key hKey => ?_, before, hInv', hNot, ?_⟩
  · unfold LruManager.evictTail
    dsimp only [Option.bind_eq_bind]
    rw [if_neg hTail, hEntry, Option.bind_some, hRun₁, Option.bind_some, hRun, Option.bind_some]
  · rw [hMap', update_apply]
    split
    · rfl
    · rw [Option.eq_none_iff_forall_ne_some]
      exact fun y hy => hKey ((hInv.mem_iff hKeys key).mpr ⟨y, hy⟩)
  · rw [map_ekeyAt_congr hNot hOther, map_dropLast, ← hKeys, map_append,
      map_singleton, dropLast_concat]

/-- Slots may be taken off the free list or put on it as long as they are not linked. -/
theorem Inv.setFreeList {freeList : List UInt32} (h : lru.Inv slots) (hNodup : freeList.Nodup)
    (hRange : ∀ idx ∈ freeList, idx.toNat < lru.entries.length ∧ idx ∉ slots) :
    Inv { lru with freeList } slots :=
  ⟨⟨h.threaded.size, h.threaded.chain, h.threaded.nodup, h.threaded.range, h.threaded.head,
    h.threaded.tail⟩, hNodup, hRange, h.keys⟩

theorem Inv.holds_insertAt (evicted : Nat) (h : lru.Inv slots)
    (hKeys : slots.map lru.ekeyAt = recent.map some) (hIdx : idx.toNat < lru.entries.length)
    (hNot : idx ∉ slots) (hFree : idx ∉ lru.freeList) (hNew : lru.keyMap ekey = none)
    (hCount : recent.length + 1 + lru.freeList.length + evicted = lru.entries.length) :
    ∃ lru', lru.insertAt ekey idx = some lru' ∧ lru'.entries.length = lru.entries.length ∧
      lru'.Holds (ekey :: recent) evicted := by
  obtain ⟨lru', hRun, hInv, hLength, hList, hSelf, hOther⟩ := h.insertAt hIdx hNot hFree hNew
  refine ⟨lru', hRun, hLength, _, hInv, ?_, ?_⟩
  · rw [map_cons, map_cons, hSelf, map_ekeyAt_congr hNot hOther, hKeys]
  · rw [length_cons, hList, hLength]
    exact hCount

variable (h : lru.Holds recent evicted)
include h

theorem Holds.touch_new (hMem : ekey ∉ recent) :
    ∃ ok lru', lru.touch ekey = some (ok, lru') ∧ lru'.entries.length = lru.entries.length ∧
      lru'.Holds (touchRecent (lru.entries.length - evicted) recent ekey) evicted := by
  obtain ⟨slots, hInv, hKeys, hCount⟩ := h
  have hNew : lru.keyMap ekey = none := by
    rw [Option.eq_none_iff_forall_ne_some]
    exact fun y hy => hMem ((hInv.mem_iff hKeys ekey).mpr ⟨y, hy⟩)
  unfold touch touchRecent
  rw [hNew, if_neg hMem]
  dsimp only [Option.bind_eq_bind]
  cases hTop : lru.freeList.getLast? with
  | some idx =>
    obtain ⟨rest, hList⟩ := getLast?_eq_some_iff.mp hTop
    have hFree := hInv.free
    have hRange := hInv.freeRange
    rw [hList] at hCount hFree hRange
    rw [length_append, length_singleton] at hCount
    obtain ⟨hRest, -, hApart⟩ := nodup_append.mp hFree
    obtain ⟨hIdx, hNot⟩ := hRange idx (mem_append_right _ mem_cons_self)
    have hPopped := hInv.setFreeList hRest fun y hy => hRange y (mem_append_left _ hy)
    obtain ⟨lru', hRun, hLength, hHolds⟩ := hPopped.holds_insertAt evicted hKeys hIdx hNot
      (fun hIn => hApart idx hIn idx mem_cons_self rfl) hNew
      (by dsimp only; omega)
    refine ⟨true, lru', ?_, hLength, ?_⟩
    · have hSlot : lru.allocateSlot = some (some idx, { lru with freeList := rest }) := by
        rw [allocateSlot, hTop, hList, dropLast_concat]
      rw [hSlot, Option.bind_some]
      dsimp only
      rw [hRun, Option.bind_some]
    · rwa [if_pos (by omega)]
  | none =>
    have hSlot : lru.allocateSlot = lru.evictTail := by rw [allocateSlot, hTop]
    have hList : lru.freeList = [] := getLast?_eq_none_iff.mp hTop
    have hHolds : lru.Holds recent evicted := ⟨slots, hInv, hKeys, hCount⟩
    rw [hSlot]
    rw [hList, length_nil] at hCount
    rw [if_neg (by omega)]
    by_cases hRecent : recent = []
    · -- All slots were taken away.
      subst hRecent
      rw [length_nil] at hCount
      refine ⟨false, lru, ?_, rfl, ?_⟩
      · rw [evictTail_nil hHolds]
        rfl
      · rwa [if_pos (by omega)]
    · obtain ⟨idx, lru₁, hRun₁, hLength₁, hList₁, hIdx, hFree, hMap, slots₁, hInv₁, hNot, hKeys₁⟩ :=
        hHolds.evictTail hRecent
      have hPos := length_pos_iff.mpr hRecent
      obtain ⟨lru', hRun, hLength, hHolds'⟩ := hInv₁.holds_insertAt evicted hKeys₁
        (hLength₁.symm ▸ hIdx) hNot (hList₁.symm ▸ hFree) (hMap ekey hMem)
        (by rw [length_dropLast, hList₁, hList, hLength₁, length_nil]; omega)
      refine ⟨true, lru', ?_, hLength.trans hLength₁, ?_⟩
      · rw [hRun₁, Option.bind_some]
        dsimp only
        rw [hRun, Option.bind_some]
      · rwa [if_neg (by omega)]

theorem Holds.touch (ekey : Key 9) :
    ∃ ok lru', lru.touch ekey = some (ok, lru') ∧ lru'.entries.length = lru.entries.length ∧
      lru'.Holds (touchRecent (lru.entries.length - evicted) recent ekey) evicted := by
  by_cases hMem : ekey ∈ recent
  · rw [touchRecent, if_pos hMem]
    exact ⟨true, h.touch_mem hMem⟩
  · exact h.touch_new hMem

theorem Holds.remove (ekey : Key 9) :
    ∃ found lru', lru.remove ekey = some (found, lru') ∧
      lru'.entries.length = lru.entries.length ∧ lru'.Holds (recent.erase ekey) evicted := by
  obtain ⟨slots, hInv, hKeys, hCount⟩ := h
  unfold LruManager.remove
  cases hIdx : lru.keyMap ekey with
  | none =>
    have hMem : ekey ∉ recent := fun hMem => by
      obtain ⟨idx, hSome⟩ := (hInv.mem_iff hKeys ekey).mp hMem
      cases hIdx.symm.trans hSome
    rw [erase_of_not_mem hMem]
    exact ⟨false, lru, rfl, rfl, slots, hInv, hKeys, hCount⟩
  | some idx =>
    have hMem : ekey ∈ recent := (hInv.mem_iff hKeys ekey).mpr ⟨idx, hIdx⟩
    have hPos := length_pos_of_mem hMem
    obtain ⟨before, after, rfl, hErase⟩ := hInv.split hKeys hIdx
    have hIn : idx ∈ before ++ idx :: after := mem_append_right _ mem_cons_self
    have hNot : idx ∉ before ++ after := (nodup_cons.mp (nodup_middle.mp hInv.threaded.nodup)).1
    obtain ⟨lru₁, lru', hRun₁, hRun, hInv', hLength, hList, -, -, hOther⟩ :=
      hInv.clearSlot ((hInv.keys ekey idx).mp hIdx).2
    have hFree : idx ∉ lru'.freeList := hList ▸ fun hIn' => (hInv.freeRange idx hIn').2 hIn
    refine ⟨true, { lru' with freeList := lru'.freeList ++ [idx] }, ?_, hLength, _,
      hInv'.setFreeList ?_ ?_, (map_ekeyAt_congr hNot hOther).trans hErase, ?_⟩
    · dsimp only [Option.bind_eq_bind]
      rw [hRun₁, Option.bind_some, hRun, Option.bind_some]
    · exact nodup_append.mpr ⟨hInv'.free, nodup_singleton idx, fun y hy z hz hEq =>
        hFree (mem_singleton.mp hz ▸ hEq ▸ hy)⟩
    · intro y hy
      rcases mem_append.mp hy with hy | hy
      · exact hInv'.freeRange y hy
      · rw [mem_singleton.mp hy]
        exact ⟨hLength.symm ▸ hInv.threaded.range idx hIn, hNot⟩
    · dsimp only
      rw [length_append, length_singleton, length_erase_of_mem hMem, hList, hLength]
      omega

omit h

/-! ## Runs -/

inductive Op
  | touch (ekey : Key 9)
  | remove (ekey : Key 9)
  | evictTail
deriving DecidableEq

def step (lru : LruManager) : Op → Option LruManager
  | .touch ekey => (lru.touch ekey).map (·.2)
  | .remove ekey => (lru.remove ekey).map (·.2)
  | .evictTail => lru.evictTail.map (·.2)

def run (lru : LruManager) (ops : List Op) : Option LruManager := ops.foldlM step lru

/-- The recent keys, and how many keys were dropped by `evict_tail`. -/
structure Recency where
  recent : List (Key 9)
  evicted : Nat

namespace Recency

/-- What a call does to the recent keys. The room for keys may depend on those that were evicted. -/
def step (room : Nat → Nat) (state : Recency) : Op → Recency
  | .touch ekey => { state with recent := touchRecent (room state.evicted) state.recent ekey }
  | .remove ekey => { state with recent := state.recent.erase ekey }
  | .evictTail =>
    if state.recent = [] then state
    else { recent := state.recent.dropLast, evicted := state.evicted + 1 }

def run (room : Nat → Nat) (state : Recency) (ops : List Op) : Recency :=
  ops.foldl (step room) state

end Recency

/-- The recent keys of a cache with a constant number of slots. -/
def recency (capacity : Nat) (ops : List Op) : Recency :=
  Recency.run (fun _ => capacity) { recent := [], evicted := 0 } ops

theorem holds_new (capacity : UInt32) : (new capacity).Holds [] 0 := by
  have hSize : (new capacity).entries.length = capacity.toNat := length_replicate
  have hSmall : ∀ i < capacity.toNat, (UInt32.ofNat i).toNat = i := fun i hi =>
    UInt32.toNat_ofNat_of_lt' (hi.trans capacity.toNat_lt)
  refine ⟨[], ⟨⟨hSize ▸ capacity.toNat_lt, trivial, nodup_nil, nofun, rfl, rfl⟩, ?_, ?_, ?_⟩,
    rfl, ?_⟩
  · refine nodup_range.map_on fun i hi j hj hEq => ?_
    rw [← hSmall i (mem_range.mp hi), ← hSmall j (mem_range.mp hj), hEq]
  · intro idx hIdx
    obtain ⟨i, hi, rfl⟩ := mem_map.mp hIdx
    rw [hSize, hSmall i (mem_range.mp hi)]
    exact ⟨mem_range.mp hi, not_mem_nil⟩
  · exact fun ekey idx => ⟨nofun, nofun⟩
  · rw [hSize, new, length_map, length_range, length_nil]
    omega

theorem Holds.step (state : Recency) (h : lru.Holds state.recent state.evicted) (op : Op) :
    ∃ lru', lru.step op = some lru' ∧ lru'.entries.length = lru.entries.length ∧
      lru'.Holds (state.step (lru.entries.length - ·) op).recent
        (state.step (lru.entries.length - ·) op).evicted := by
  cases op with
  | touch ekey =>
    obtain ⟨ok, lru', hRun, hLength, hHolds⟩ := h.touch ekey
    refine ⟨lru', ?_, hLength, hHolds⟩
    rw [LruManager.step, hRun]
    rfl
  | remove ekey =>
    obtain ⟨found, lru', hRun, hLength, hHolds⟩ := h.remove ekey
    refine ⟨lru', ?_, hLength, hHolds⟩
    rw [LruManager.step, hRun]
    rfl
  | evictTail =>
    rw [LruManager.step, Recency.step]
    split_ifs with hNil
    · have hTail := evictTail_nil (hNil ▸ h)
      exact ⟨lru, congrArg _ hTail, rfl, h⟩
    · obtain ⟨idx, lru', hRun, hLength, hList, -, -, -, slots, hInv, -, hKeys⟩ :=
        h.evictTail hNil
      obtain ⟨-, -, -, hCount⟩ := h
      have hPos := length_pos_iff.mpr hNil
      refine ⟨lru', congrArg _ hRun, hLength, slots, hInv, hKeys, ?_⟩
      rw [length_dropLast, hList, hLength]
      dsimp only
      omega

/-- No call indexes out of bounds, and the cache holds the recent keys it has slots for. -/
theorem Holds.run (state : Recency) (h : lru.Holds state.recent state.evicted) (ops : List Op) :
    ∃ lru', lru.run ops = some lru' ∧
      lru'.Holds (state.run (lru.entries.length - ·) ops).recent
        (state.run (lru.entries.length - ·) ops).evicted := by
  induction ops generalizing lru state with
  | nil => exact ⟨lru, rfl, h⟩
  | cons op ops ih =>
    obtain ⟨lru₁, hStep, hLength, hHolds⟩ := h.step state op
    obtain ⟨lru', hRun, hHolds'⟩ := ih _ hHolds
    rw [hLength] at hHolds'
    refine ⟨lru', ?_, hHolds'⟩
    rw [LruManager.run, foldlM_cons, hStep]
    exact hRun

/-! ## Refinement -/

/-- The key that `evict_tail` drops. -/
def evictionKey (lru : LruManager) : Option (Key 9) := (link lru.lruTail).bind lru.ekeyAt

/-- The cache is a list of keys: the links lead through one slot for each key, the key map finds
these slots, and the last key is the one to be evicted. -/
structure Refines (lru : LruManager) (recent : List (Key 9)) : Prop where
  walk : ∃ slots, lru.links.Walk (link lru.mruHead) slots ∧ slots.Nodup ∧
    slots.map lru.ekeyAt = recent.map some ∧
    ∀ ekey idx, lru.keyMap ekey = some idx ↔ idx ∈ slots ∧ lru.ekeyAt idx = some ekey
  nodup : recent.Nodup
  present : ∀ ekey, ekey ∈ recent ↔ lru.keyMap ekey ≠ none
  eviction : lru.evictionKey = recent.getLast?

theorem Holds.refines (h : lru.Holds recent evicted) : lru.Refines recent := by
  obtain ⟨slots, hInv, hKeys, -⟩ := h
  refine ⟨⟨slots, ?_, hInv.threaded.nodup, hKeys, hInv.keys⟩, hInv.nodup_recent hKeys, ?_, ?_⟩
  · rw [hInv.threaded.head]
    exact hInv.threaded.chain.walk
  · intro ekey
    rw [hInv.mem_iff hKeys, ← Option.isSome_iff_exists, ← Option.isSome_iff_ne_none]
  · have hLast := congrArg getLast? hKeys
    rw [getLast?_map, getLast?_map] at hLast
    rw [evictionKey, hInv.threaded.tail]
    cases hSlot : slots.getLast? with
    | none =>
      rw [hSlot] at hLast
      exact (Option.map_eq_none_iff.mp hLast.symm).symm
    | some idx =>
      rw [hSlot] at hLast
      obtain ⟨ekey, hEkey, hEq⟩ := Option.map_eq_some_iff.mp hLast.symm
      rw [hEkey, hEq]
      rfl

theorem Refines.unique {recent' : List (Key 9)} (h : lru.Refines recent)
    (h' : lru.Refines recent') : recent = recent' := by
  obtain ⟨slots, hWalk, -, hKeys, -⟩ := h.walk
  obtain ⟨slots', hWalk', -, hKeys', -⟩ := h'.walk
  rw [hWalk.unique hWalk', hKeys'] at hKeys
  exact (map_injective_iff.mpr (Option.some_injective _) hKeys).symm

/-! ## Slots that are lost -/

theorem length_touchRecent_le {room : Nat} (h : recent.length ≤ room) (ekey : Key 9) :
    (touchRecent room recent ekey).length ≤ room := by
  unfold touchRecent
  split
  next hMem =>
    have hPos := length_pos_of_mem hMem
    rw [length_cons, length_erase_of_mem hMem]
    omega
  · split
    · rw [length_cons]
      omega
    · split
      · exact h
      · rw [length_cons, length_dropLast]
        omega

theorem touchRecent_sub_eq_iff {capacity : Nat} (h : recent.length + evicted ≤ capacity)
    (ekey : Key 9) :
    touchRecent (capacity - evicted) recent ekey = touchRecent capacity recent ekey ↔
      ekey ∈ recent ∨ evicted = 0 ∨ recent.length + evicted < capacity := by
  by_cases hMem : ekey ∈ recent
  · rw [touchRecent, touchRecent, if_pos hMem, if_pos hMem]
    exact iff_of_true rfl (.inl hMem)
  by_cases hZero : evicted = 0
  · rw [hZero, Nat.sub_zero]
    exact iff_of_true rfl (.inr (.inl rfl))
  have hRoom : touchRecent capacity recent ekey = ekey :: recent := by
    rw [touchRecent, if_neg hMem, if_pos (by omega)]
  rw [hRoom, or_iff_right hMem, or_iff_right hZero]
  constructor
  · -- The list grows only if a slot is left.
    intro hEq
    have hLength : (touchRecent (capacity - evicted) recent ekey).length ≤ capacity - evicted :=
      length_touchRecent_le (by omega) ekey
    rw [hEq, length_cons] at hLength
    omega
  · intro hLt
    rw [touchRecent, if_neg hMem, if_pos (by omega)]

namespace Recency

/-- A call that finds a slot if it needs one. -/
def FindsSlot (capacity : Nat) (state : Recency) : Op → Prop
  | .touch ekey => ekey ∈ state.recent ∨ state.evicted = 0 ∨
      state.recent.length + state.evicted < capacity
  | _ => True

variable {capacity : Nat} {state : Recency}

theorem length_step_le (h : state.recent.length + state.evicted ≤ capacity) (op : Op) :
    (state.step (capacity - ·) op).recent.length + (state.step (capacity - ·) op).evicted ≤
      capacity := by
  cases op with
  | touch ekey =>
    have hLe := length_touchRecent_le (Nat.le_sub_of_add_le h) ekey
    dsimp only [step]
    omega
  | remove ekey =>
    have hLe := (erase_sublist (a := ekey) (l := state.recent)).length_le
    dsimp only [step]
    omega
  | evictTail =>
    dsimp only [step]
    split_ifs with hRecent
    · exact h
    · have hPos := length_pos_iff.mpr hRecent
      rw [length_dropLast]
      dsimp only
      omega

/-- Both ways of counting the slots agree in a call that finds one. -/
theorem step_eq_iff (h : state.recent.length + state.evicted ≤ capacity) (op : Op) :
    (state.step (capacity - ·) op).recent = (state.step (fun _ => capacity) op).recent ↔
      state.FindsSlot capacity op := by
  cases op with
  | touch ekey => exact touchRecent_sub_eq_iff h ekey
  | remove ekey | evictTail => exact iff_of_true rfl trivial

theorem step_eq {op : Op}
    (h : (state.step (capacity - ·) op).recent = (state.step (fun _ => capacity) op).recent) :
    state.step (capacity - ·) op = state.step (fun _ => capacity) op := by
  cases op with
  | touch ekey => exact congrArg (Recency.mk · state.evicted) h
  | remove ekey => rfl
  | evictTail => rfl

/-- Both ways of counting agree along a run exactly if every call finds its slot. -/
theorem run_eq_iff (state : Recency) (h : state.recent.length + state.evicted ≤ capacity)
    (ops : List Op) :
    (∀ before after, ops = before ++ after →
      (state.run (capacity - ·) before).recent = (state.run (fun _ => capacity) before).recent) ↔
    ∀ before op after, ops = before ++ op :: after →
      (state.run (fun _ => capacity) before).FindsSlot capacity op := by
  induction ops generalizing state with
  | nil =>
    refine iff_of_true (fun before after hOps => ?_) fun before op after hOps => ?_
    · obtain ⟨rfl, -⟩ := append_eq_nil_iff.mp hOps.symm
      rfl
    · cases (append_eq_nil_iff.mp hOps.symm).2
  | cons op ops ih =>
    constructor
    · intro hAll
      have hFirst := hAll [op] ops rfl
      have hEq := step_eq hFirst
      have hRest := (ih _ (hEq ▸ length_step_le h op)).mp fun before after hOps => by
        have hNext := hAll (op :: before) after (congrArg _ hOps)
        rw [run, run, foldl_cons, foldl_cons, hEq] at hNext
        exact hNext
      intro before other after hOps
      rcases cons_eq_append_iff.mp hOps with ⟨rfl, hHead⟩ | ⟨before', rfl, hTail⟩
      · cases hHead
        exact (step_eq_iff h op).mp hFirst
      · exact hRest before' other after hTail
    · intro hAll
      have hEq := step_eq ((step_eq_iff h op).mpr (hAll [] op ops rfl))
      have hRest := (ih _ (hEq ▸ length_step_le h op)).mpr fun before other after hOps =>
        hAll (op :: before) other after (congrArg _ hOps)
      intro before after hOps
      rcases cons_eq_append_iff.mp hOps with ⟨rfl, -⟩ | ⟨before', rfl, hTail⟩
      · rfl
      · rw [run, run, foldl_cons, foldl_cons, hEq]
        exact hRest before' after hTail

end Recency

/-- Whatever the calls, no index is out of bounds, and the cache is a list of recent keys whose room
shrinks by one slot with every key that `evict_tail` drops. -/
theorem run_refines_shrinking (capacity : UInt32) (ops : List Op) :
    let state := Recency.run (capacity.toNat - ·) ⟨[], 0⟩ ops
    ∃ lru, (new capacity).run ops = some lru ∧ lru.Refines state.recent ∧
      state.recent.length + state.evicted ≤ capacity.toNat := by
  obtain ⟨lru, hRun, hHolds⟩ := Holds.run ⟨[], 0⟩ (holds_new capacity) ops
  have hSize : (new capacity).entries.length = capacity.toNat := length_replicate
  rw [hSize] at hHolds
  refine ⟨lru, hRun, hHolds.refines, ?_⟩
  exact foldlRecOn ops _ (motive := fun state : Recency =>
    state.recent.length + state.evicted ≤ capacity.toNat) (Nat.zero_le _) fun _ hLe op _ =>
      Recency.length_step_le hLe op

/-- The cache is a list of recent keys in all moments of a run exactly if no call needs a slot that
`evict_tail` took away. -/
theorem refines_recent_iff (capacity : UInt32) (ops : List Op) :
    (∀ before after, ops = before ++ after → ∃ lru, (new capacity).run before = some lru ∧
      lru.Refines (recency capacity.toNat before).recent) ↔
    ∀ before op after, ops = before ++ op :: after →
      (recency capacity.toNat before).FindsSlot capacity.toNat op := by
  have hSize : (new capacity).entries.length = capacity.toNat := length_replicate
  have hHolds := Holds.run ⟨[], 0⟩ (holds_new capacity)
  rw [hSize] at hHolds
  refine Iff.trans ?_ (Recency.run_eq_iff ⟨[], 0⟩ (Nat.zero_le _) ops)
  refine forall_congr' fun before => forall_congr' fun after => imp_congr_right fun _ => ?_
  obtain ⟨lru, hRun, hHolds⟩ := hHolds before
  constructor
  · rintro ⟨lru', hRun', hRefines⟩
    cases hRun.symm.trans hRun'
    exact hHolds.refines.unique hRefines
  · intro hEq
    exact ⟨lru, hRun, hEq ▸ hHolds.refines⟩

/-- A cache with one slot has no slot left after `evict_tail`. -/
theorem refines_recent_refuted :
    ¬ ∀ before after, [Op.touch ⟨List.replicate 9 1, rfl⟩, .evictTail,
      .touch ⟨List.replicate 9 2, rfl⟩] = before ++ after →
      ∃ lru, (new 1).run before = some lru ∧ lru.Refines (recency 1 before).recent := by
  intro h
  obtain ⟨lru, hRun, hRefines⟩ := h _ [] (append_nil _).symm
  have hNone : ((new 1).run [.touch ⟨replicate 9 1, rfl⟩, .evictTail,
      .touch ⟨replicate 9 2, rfl⟩]).map (·.keyMap ⟨replicate 9 2, rfl⟩) = some none := by
    decide
  rw [hRun] at hNone
  have hMem : (⟨replicate 9 2, rfl⟩ : Key 9) ∈ (recency 1 [.touch ⟨replicate 9 1, rfl⟩,
      .evictTail, .touch ⟨replicate 9 2, rfl⟩]).recent := by decide
  exact (hRefines.present _).mp hMem (Option.some.inj hNone)

end LruManager

end Cascette.Storage
