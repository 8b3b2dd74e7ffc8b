import Mathlib.Data.List.Sort
import Mathlib.Data.Prod.Lex
import Mathlib.Data.List.Nodup
import Mathlib.Data.List.Dedup

/-!
# Merging sorted lists through a queue

A merge of many sorted lists keeps the front of each list in a priority queue and takes the least of
them, the earlier list first among equal keys. What it takes is the stable sort of the lists put
together (`drain_perm`, `drain_sorted`, `filter_drain`). Leaving out repeated keys then gives the
first element with every key, in strictly increasing order (`FirstByKey`), and such a list is unique
(`FirstByKey.unique`).
-/

namespace Cascette.Lib

open List

/-! ## Sorting by key -/

section Sorting

variable {α κ : Type} [LinearOrder κ] (key : α → κ) (xs : List α)

theorem pairwise_insertionSort_key :
    (xs.insertionSort fun a b => key a ≤ key b).Pairwise fun a b => key a ≤ key b := by
  exact pairwise_insertionSort _ xs

variable {key xs}

theorem mem_insertionSort {r : α → α → Prop} [DecidableRel r] {a : α} :
    a ∈ xs.insertionSort r ↔ a ∈ xs :=
  (perm_insertionSort r xs).mem_iff

theorem insertionSort_strict (hDistinct : (xs.map key).Nodup) :
    (xs.insertionSort fun a b => key a ≤ key b).Pairwise fun a b => key a < key b := by
  have hNodup : ((xs.insertionSort fun a b => key a ≤ key b).map key).Nodup :=
    ((perm_insertionSort _ xs).map key).nodup_iff.mpr hDistinct
  rw [nodup_iff_pairwise_ne, pairwise_map] at hNodup
  exact (pairwise_insertionSort_key key xs).and hNodup |>.imp fun h => lt_of_le_of_ne h.1 h.2

variable {ys : List α}

theorem eq_of_strict (hxs : xs.Pairwise fun a b => key a < key b)
    (hys : ys.Pairwise fun a b => key a < key b) (hMem : ∀ a, a ∈ xs ↔ a ∈ ys) : xs = ys := by
  have hNodup {l : List α} (hl : l.Pairwise fun a b => key a < key b) : l.Nodup :=
    hl.imp fun hLt hEq => hLt.ne (congrArg key hEq)
  have hPerm : xs.Perm ys := (perm_ext_iff_of_nodup (hNodup hxs) (hNodup hys)).mpr hMem
  exact hPerm.eq_of_pairwise (fun a b _ _ hab hba => absurd hab hba.asymm) hxs hys

theorem filter_insertionSort_key [DecidableEq κ] (k : κ) :
    ((xs.insertionSort fun a b => key a ≤ key b).filter fun a => key a = k) =
      xs.filter fun a => key a = k := by
  have hEqual : (xs.filter fun a => key a = k).Pairwise fun a b => key a ≤ key b := by
    refine pairwise_of_forall_mem_list fun a ha b hb => ?_
    have hKeyA : key a = k := by simpa using (mem_filter.mp ha).2
    have hKeyB : key b = k := by simpa using (mem_filter.mp hb).2
    rw [hKeyA, hKeyB]
  have hSublist := (sublist_insertionSort hEqual filter_sublist).filter fun a => decide (key a = k)
  rw [filter_filter] at hSublist
  simp only [Bool.and_self] at hSublist
  refine (hSublist.eq_of_length ?_).symm
  exact ((perm_insertionSort _ xs).filter _).length_eq.symm

theorem eq_of_filter_key [DecidableEq κ] (hxs : xs.Pairwise fun a b => key a ≤ key b)
    (hys : ys.Pairwise fun a b => key a ≤ key b)
    (h : ∀ k, (xs.filter fun a => key a = k) = ys.filter fun a => key a = k) : xs = ys := by
  have hMem : ∀ {as bs : List α} {a : α},
      ((as.filter fun b => key b = key a) = bs.filter fun b => key b = key a) → a ∈ as →
        a ∈ bs := by
    intro as bs a hEq ha
    have haFilter : a ∈ as.filter fun b => key b = key a := mem_filter.mpr ⟨ha, decide_eq_true rfl⟩
    exact mem_of_mem_filter (hEq ▸ haFilter)
  induction xs generalizing ys with
  | nil =>
    cases ys with
    | nil => rfl
    | cons y ys => exact absurd (hMem (h _).symm mem_cons_self) not_mem_nil
  | cons x xs ih =>
    cases ys with
    | nil => exact absurd (hMem (h _) mem_cons_self) not_mem_nil
    | cons y ys =>
      obtain ⟨hxLe, hxTail⟩ := pairwise_cons.mp hxs
      obtain ⟨hyLe, hyTail⟩ := pairwise_cons.mp hys
      have hxy : key y ≤ key x := by
        rcases mem_cons.mp (hMem (h _) mem_cons_self) with rfl | hx
        · exact le_refl _
        · exact hyLe x hx
      have hyx : key x ≤ key y := by
        rcases mem_cons.mp (hMem (h _).symm mem_cons_self) with rfl | hy
        · exact le_refl _
        · exact hxLe y hy
      have hKey : key y = key x := le_antisymm hxy hyx
      have hHead := h (key x)
      rw [filter_cons, if_pos (decide_eq_true rfl), filter_cons,
        if_pos (decide_eq_true hKey)] at hHead
      obtain ⟨rfl, -⟩ := List.cons.inj hHead
      refine congrArg (x :: ·) (ih hxTail hyTail fun k => ?_)
      have hk := h k
      rw [filter_cons, filter_cons] at hk
      split at hk
      · exact (List.cons.inj hk).2
      · exact hk

/-- `ys` has the elements of `xs` in the order of their keys, those of one key in the order of
`xs`. -/
structure StableSort [DecidableEq κ] (key : α → κ) (xs ys : List α) : Prop where
  sorted : ys.Pairwise fun a b => key a ≤ key b
  filter : ∀ k, (ys.filter fun a => key a = k) = xs.filter fun a => key a = k

theorem stableSort_iff [DecidableEq κ] :
    StableSort key xs ys ↔ ys = xs.insertionSort fun a b => key a ≤ key b := by
  constructor
  · intro h
    apply eq_of_filter_key h.sorted (pairwise_insertionSort_key key xs)
    intro k
    rw [h.filter, filter_insertionSort_key]
  · rintro rfl
    exact ⟨pairwise_insertionSort_key key xs, filter_insertionSort_key⟩

end Sorting

/-! ## Priority queue -/

section Queue

variable {β : Type} (le : β → β → Bool)

/-- Takes a least element out of the queue. -/
def popMin : List β → Option (β × List β)
  | [] => none
  | x :: xs =>
    match popMin xs with
    | none => some (x, [])
    | some (y, ys) => if le x y then some (x, xs) else some (y, x :: ys)

variable {le}

theorem popMin_eq_none {xs : List β} : popMin le xs = none ↔ xs = [] := by
  cases xs with
  | nil => exact iff_of_true rfl rfl
  | cons x xs =>
    refine iff_of_false ?_ (cons_ne_nil x xs)
    rw [popMin]
    split
    · exact Option.some_ne_none _
    · split <;> exact Option.some_ne_none _

/-- The queue keeps the other elements, and none of them is before the one that was taken. -/
theorem popMin_spec (hTotal : ∀ a b, le a b = false → le b a = true)
    (hTrans : ∀ a b c, le a b = true → le b c = true → le a c = true) :
    ∀ {xs : List β} {y : β} {ys : List β}, popMin le xs = some (y, ys) →
      xs.Perm (y :: ys) ∧ ∀ z ∈ ys, le y z = true := by
  intro xs
  induction xs with
  | nil => intro y ys h; cases h
  | cons x xs ih =>
    intro y ys h
    rw [popMin] at h
    cases hPop : popMin le xs with
    | none =>
      rw [hPop] at h
      cases h
      rw [popMin_eq_none.mp hPop]
      exact ⟨Perm.refl _, fun z hz => absurd hz not_mem_nil⟩
    | some res =>
      obtain ⟨hPerm, hLeast⟩ := ih hPop
      rw [hPop] at h
      dsimp only at h
      split_ifs at h with hLe
      · cases h
        refine ⟨Perm.refl _, fun z hz => ?_⟩
        rcases mem_cons.mp (hPerm.mem_iff.mp hz) with rfl | hz
        · exact hLe
        · exact hTrans _ _ _ hLe (hLeast z hz)
      · cases h
        refine ⟨(hPerm.cons x).trans (Perm.swap _ _ _), fun z hz => ?_⟩
        rcases mem_cons.mp hz with rfl | hz
        · exact hTotal _ _ (by simpa using hLe)
        · exact hLeast z hz

end Queue

/-! ## The merge -/

/-- An element in the queue, with the list and the position it comes from. -/
structure HeapEntry (α : Type) where
  item : α
  sourceIdx : Nat
  cursor : Nat

section Merge

variable {α κ σ ε : Type} [LinearOrder κ] (key : α → κ) (sources : List (List α))

/-- The order of the queue: by key, and by list among equal keys. -/
def HeapEntry.before (a b : HeapEntry α) : Bool :=
  key a.item < key b.item ∨ (key a.item = key b.item ∧ a.sourceIdx ≤ b.sourceIdx)

def entryAt (sourceIdx cursor : Nat) : Option (HeapEntry α) :=
  ((sources[sourceIdx]?).bind (·[cursor]?)).map fun item => { item, sourceIdx, cursor }

/-- The first element of every list. -/
def initialHeap : List (HeapEntry α) :=
  (List.range sources.length).filterMap fun sourceIdx => entryAt sources sourceIdx 0

/-- Puts the element behind the one that was taken into the queue. -/
def advance (entry : HeapEntry α) (heap : List (HeapEntry α)) : List (HeapEntry α) :=
  (entryAt sources entry.sourceIdx (entry.cursor + 1)).toList ++ heap

/-- The merge loop: every element that is taken from the queue is handed on. -/
def mergeLoop (emit : σ → α → Except ε σ) : Nat → List (HeapEntry α) → σ → Except ε σ
  | 0, _, state => .ok state
  | fuel + 1, heap, state =>
    match popMin (HeapEntry.before key) heap with
    | none => .ok state
    | some (entry, heap) =>
      match emit state entry.item with
      | .error e => .error e
      | .ok state => mergeLoop emit fuel (advance sources entry heap) state

/-- The elements in the order in which they are taken. -/
def drain : Nat → List (HeapEntry α) → List (HeapEntry α)
  | 0, _ => []
  | fuel + 1, heap =>
    match popMin (HeapEntry.before key) heap with
    | none => []
    | some (entry, heap) => entry :: drain fuel (advance sources entry heap)

theorem mergeLoop_eq (emit : σ → α → Except ε σ) (fuel : Nat) (heap : List (HeapEntry α))
    (state : σ) : mergeLoop key sources emit fuel heap state =
      ((drain key sources fuel heap).map (·.item)).foldlM emit state := by
  induction fuel generalizing heap state with
  | zero => rfl
  | succ fuel ih =>
    rw [mergeLoop, drain]
    cases popMin (HeapEntry.before key) heap with
    | none => rfl
    | some res =>
      obtain ⟨entry, heap⟩ := res
      dsimp only
      rw [map_cons, foldlM_cons]
      cases emit state entry.item with
      | error e => rfl
      | ok state => exact ih _ _

/-! ## What waits -/

/-- The part of a list from a position on. -/
def entriesFrom (sourceIdx : Nat) : Nat → List α → List (HeapEntry α)
  | _, [] => []
  | cursor, item :: items => { item, sourceIdx, cursor } :: entriesFrom sourceIdx (cursor + 1) items

/-- What is left of a list. -/
def remaining (sourceIdx cursor : Nat) : List (HeapEntry α) :=
  entriesFrom sourceIdx cursor (((sources[sourceIdx]?).getD []).drop cursor)

/-- All elements that are still to come. -/
def pending (heap : List (HeapEntry α)) : List (HeapEntry α) :=
  heap.flatMap fun entry => remaining sources entry.sourceIdx entry.cursor

/-- The entries of the queue come from different lists and are at the positions they name. -/
structure Queued (heap : List (HeapEntry α)) : Prop where
  nodup : (heap.map (·.sourceIdx)).Nodup
  entry : ∀ e ∈ heap, entryAt sources e.sourceIdx e.cursor = some e

/-- The place of an element in the merged order. -/
def HeapEntry.rank (e : HeapEntry α) : κ ×ₗ ℕ ×ₗ ℕ :=
  toLex (key e.item, toLex (e.sourceIdx, e.cursor))

variable {sources}

theorem map_item_entriesFrom (sourceIdx : Nat) :
    ∀ (cursor : Nat) (items : List α), (entriesFrom sourceIdx cursor items).map (·.item) = items
  | _, [] => rfl
  | cursor, item :: items =>
    congrArg (item :: ·) (map_item_entriesFrom sourceIdx (cursor + 1) items)

variable {e entry : HeapEntry α} {heap heap' : List (HeapEntry α)} {sourceIdx : Nat}

theorem mem_entriesFrom :
    ∀ {cursor : Nat} {items : List α}, e ∈ entriesFrom sourceIdx cursor items →
      e.item ∈ items ∧ e.sourceIdx = sourceIdx ∧ cursor ≤ e.cursor
  | _, [], h => absurd h not_mem_nil
  | cursor, item :: items, h => by
    rcases mem_cons.mp h with rfl | h
    · exact ⟨mem_cons_self, rfl, le_refl cursor⟩
    · obtain ⟨hItem, hSource, hCursor⟩ := mem_entriesFrom h
      exact ⟨mem_cons_of_mem item hItem, hSource, by omega⟩

theorem entryAt_eq_some {cursor : Nat} (h : entryAt sources sourceIdx cursor = some e) :
    e.sourceIdx = sourceIdx ∧ e.cursor = cursor := by
  obtain ⟨item, -, rfl⟩ := Option.map_eq_some_iff.mp h
  exact ⟨rfl, rfl⟩

theorem remaining_eq (sourceIdx cursor : Nat) : remaining sources sourceIdx cursor =
    match entryAt sources sourceIdx cursor with
    | none => []
    | some e => e :: remaining sources sourceIdx (cursor + 1) := by
  rw [remaining, remaining, entryAt]
  cases sources[sourceIdx]? with
  | none => simp [entriesFrom]
  | some source =>
    by_cases hCursor : cursor < source.length
    · simp only [Option.getD_some, Option.bind_some, getElem?_eq_getElem hCursor, Option.map_some]
      rw [drop_eq_getElem_cons hCursor, entriesFrom]
    · have hNone : source[cursor]? = none := getElem?_eq_none (by omega)
      simp only [Option.getD_some, Option.bind_some, hNone, Option.map_none]
      rw [drop_eq_nil_of_le (by omega), entriesFrom]

theorem remaining_of_entryAt (h : entryAt sources e.sourceIdx e.cursor = some e) :
    remaining sources e.sourceIdx e.cursor = e :: remaining sources e.sourceIdx (e.cursor + 1) := by
  rw [remaining_eq, h]

theorem pending_advance (entry : HeapEntry α) (heap : List (HeapEntry α)) :
    pending sources (advance sources entry heap) =
      remaining sources entry.sourceIdx (entry.cursor + 1) ++ pending sources heap := by
  rw [advance, remaining_eq]
  cases hNext : entryAt sources entry.sourceIdx (entry.cursor + 1) with
  | none => rfl
  | some next =>
    obtain ⟨hSource, hCursor⟩ := entryAt_eq_some hNext
    rw [← hSource, ← hCursor] at hNext ⊢
    rw [Option.toList_some, singleton_append, pending, flatMap_cons, remaining_of_entryAt hNext]
    rfl

theorem Queued.perm (h : Queued sources heap) (hPerm : heap.Perm heap') : Queued sources heap' where
  nodup := (hPerm.map _).nodup_iff.mp h.nodup
  entry e he := h.entry e (hPerm.mem_iff.mpr he)

theorem Queued.advance (h : Queued sources (entry :: heap)) :
    Queued sources (advance sources entry heap) := by
  have hNodup := h.nodup
  rw [map_cons, nodup_cons] at hNodup
  have hEntry : ∀ e ∈ heap, entryAt sources e.sourceIdx e.cursor = some e :=
    fun e he => h.entry e (mem_cons_of_mem entry he)
  rw [Lib.advance]
  cases hNext : entryAt sources entry.sourceIdx (entry.cursor + 1) with
  | none => exact ⟨hNodup.2, hEntry⟩
  | some next =>
    obtain ⟨hSource, hCursor⟩ := entryAt_eq_some hNext
    constructor
    · rw [Option.toList_some, singleton_append, map_cons, hSource]
      exact nodup_cons.mpr hNodup
    · intro e he
      rcases mem_cons.mp he with rfl | he
      · rw [hSource, hCursor]
        exact hNext
      · exact hEntry e he

theorem pending_pop (h : Queued sources heap) (hPerm : heap.Perm (entry :: heap')) :
    (pending sources heap).Perm (entry :: pending sources (advance sources entry heap')) := by
  have hEntry := h.entry entry (hPerm.mem_iff.mpr mem_cons_self)
  have hSplit : pending sources (entry :: heap') =
      entry :: pending sources (advance sources entry heap') := by
    rw [pending_advance, pending, flatMap_cons, remaining_of_entryAt hEntry]
    rfl
  exact hSplit ▸ hPerm.flatMap_right _

/-! ## The order of the merge -/

theorem before_total (a b : HeapEntry α) (h : HeapEntry.before key a b = false) :
    HeapEntry.before key b a = true := by
  simp only [HeapEntry.before, decide_eq_false_iff_not, not_or, not_and, not_lt, not_le] at h
  simp only [HeapEntry.before, decide_eq_true_iff]
  rcases h.1.lt_or_eq with hLt | hEq
  · exact .inl hLt
  · exact .inr ⟨hEq, (h.2 hEq.symm).le⟩

theorem before_trans (a b c : HeapEntry α) (hab : HeapEntry.before key a b = true)
    (hbc : HeapEntry.before key b c = true) : HeapEntry.before key a c = true := by
  simp only [HeapEntry.before, decide_eq_true_iff] at hab hbc ⊢
  rcases hab with hab | ⟨hab, hab'⟩ <;> rcases hbc with hbc | ⟨hbc, hbc'⟩
  · exact .inl (hab.trans hbc)
  · exact .inl (hbc ▸ hab)
  · exact .inl (hab ▸ hbc)
  · exact .inr ⟨hab.trans hbc, hab'.trans hbc'⟩

theorem rank_lt {a b : HeapEntry α} (hKey : key a.item ≤ key b.item)
    (hPlace : toLex (a.sourceIdx, a.cursor) < toLex (b.sourceIdx, b.cursor)) :
    a.rank key < b.rank key := by
  rw [HeapEntry.rank, HeapEntry.rank, Prod.Lex.toLex_lt_toLex]
  rcases hKey.lt_or_eq with hLt | hEq
  · exact .inl hLt
  · exact .inr ⟨hEq, hPlace⟩

variable (hSorted : ∀ source ∈ sources, source.Pairwise fun a b => key a ≤ key b) {f : HeapEntry α}

include hSorted

theorem key_le_of_remaining (he : entryAt sources e.sourceIdx e.cursor = some e)
    (hf : f ∈ remaining sources e.sourceIdx e.cursor) :
    key e.item ≤ key f.item ∧ f.sourceIdx = e.sourceIdx := by
  have hRemaining := remaining_of_entryAt he
  rw [hRemaining] at hf
  rcases mem_cons.mp hf with rfl | hf
  · exact ⟨le_refl _, rfl⟩
  · obtain ⟨hItem, hSource, -⟩ := mem_entriesFrom hf
    refine ⟨?_, hSource⟩
    have hPairwise : (((sources[e.sourceIdx]?).getD []).drop e.cursor).Pairwise
        fun a b => key a ≤ key b := by
      cases hAt : sources[e.sourceIdx]? with
      | none => simp
      | some source => exact (hSorted source (mem_of_getElem? hAt)).drop
    have hItems := congrArg (List.map (·.item)) hRemaining
    rw [map_cons, remaining, map_item_entriesFrom, remaining, map_item_entriesFrom] at hItems
    rw [hItems] at hPairwise
    exact rel_of_pairwise_cons hPairwise hItem

theorem rank_lt_pending (h : Queued sources heap)
    (hPop : popMin (HeapEntry.before key) heap = some (entry, heap'))
    (hf : f ∈ pending sources (advance sources entry heap')) : entry.rank key < f.rank key := by
  obtain ⟨hPerm, hLeast⟩ := popMin_spec (before_total key) (before_trans key) hPop
  have hQueued := h.perm hPerm
  rw [pending_advance, mem_append] at hf
  rcases hf with hf | hf
  · have hEntry := hQueued.entry entry mem_cons_self
    obtain ⟨-, hSource, hCursor⟩ := mem_entriesFrom hf
    obtain ⟨hKey, -⟩ := key_le_of_remaining key hSorted hEntry
      (remaining_of_entryAt hEntry ▸ mem_cons_of_mem entry hf)
    exact rank_lt key hKey (Prod.Lex.toLex_lt_toLex.mpr (.inr ⟨hSource.symm, hCursor⟩))
  · obtain ⟨other, hOther, hf⟩ := mem_flatMap.mp hf
    obtain ⟨hKey, hSource⟩ := key_le_of_remaining key hSorted
      (hQueued.entry other (mem_cons_of_mem entry hOther)) hf
    have hNe : entry.sourceIdx ≠ other.sourceIdx := by
      have hNodup := hQueued.nodup
      rw [map_cons, nodup_cons] at hNodup
      exact fun hEq => hNodup.1 (hEq ▸ mem_map_of_mem hOther)
    have hBefore := hLeast other hOther
    simp only [HeapEntry.before, decide_eq_true_iff] at hBefore
    rcases hBefore with hLt | ⟨hEq, hLe⟩
    · exact Prod.Lex.toLex_lt_toLex.mpr (.inl (hLt.trans_le hKey))
    · refine rank_lt key (hEq ▸ hKey) (Prod.Lex.toLex_lt_toLex.mpr (.inl ?_))
      omega

/-- With enough fuel all elements that wait are taken, in order. -/
theorem drain_spec (fuel : Nat) (h : Queued sources heap)
    (hFuel : (pending sources heap).length ≤ fuel) :
    (drain key sources fuel heap).Perm (pending sources heap) ∧
      (drain key sources fuel heap).Pairwise fun a b => a.rank key < b.rank key := by
  induction fuel generalizing heap with
  | zero =>
    rw [length_eq_zero_iff.mp (Nat.le_zero.mp hFuel)]
    exact ⟨Perm.refl _, List.Pairwise.nil⟩
  | succ fuel ih =>
    rw [drain]
    cases hPop : popMin (HeapEntry.before key) heap with
    | none =>
      rw [popMin_eq_none.mp hPop]
      exact ⟨Perm.refl _, List.Pairwise.nil⟩
    | some res =>
      obtain ⟨entry, heap'⟩ := res
      obtain ⟨hPerm, -⟩ := popMin_spec (before_total key) (before_trans key) hPop
      have hStep := pending_pop h hPerm
      have hLength := hStep.length_eq
      rw [length_cons] at hLength
      obtain ⟨hRest, hPairwise⟩ := ih (h.perm hPerm).advance (by omega)
      refine ⟨(hRest.cons entry).trans hStep.symm, pairwise_cons.mpr ⟨?_, hPairwise⟩⟩
      intro f hf
      exact rank_lt_pending key hSorted h hPop (hRest.mem_iff.mp hf)

omit hSorted

/-! ## The merge of whole lists -/

variable (sources) in
/-- The elements of all lists in the order of the merge. -/
def merged : List α := (drain key sources sources.flatten.length (initialHeap sources)).map (·.item)

variable (sources) in
theorem pending_initialHeap : pending sources (initialHeap sources) =
    (range sources.length).flatMap fun sourceIdx => remaining sources sourceIdx 0 := by
  rw [pending, initialHeap]
  induction range sources.length with
  | nil => rfl
  | cons sourceIdx rest ih =>
    rw [filterMap_cons, flatMap_cons, remaining_eq]
    cases hEntry : entryAt sources sourceIdx 0 with
    | none => exact ih
    | some e =>
      obtain ⟨hSource, hCursor⟩ := entryAt_eq_some hEntry
      rw [flatMap_cons, ih, remaining_eq, hSource, hCursor, hEntry]

variable (sources) in
theorem queued_initialHeap : Queued sources (initialHeap sources) where
  nodup := by
    have hSublist : ((initialHeap sources).map (·.sourceIdx)).Sublist (range sources.length) := by
      rw [initialHeap]
      induction range sources.length with
      | nil => exact Sublist.refl _
      | cons sourceIdx rest ih =>
        rw [filterMap_cons]
        cases hEntry : entryAt sources sourceIdx 0 with
        | none => exact ih.cons sourceIdx
        | some e =>
          rw [map_cons, (entryAt_eq_some hEntry).1]
          exact ih.cons_cons sourceIdx
    exact nodup_range.sublist hSublist
  entry e he := by
    obtain ⟨sourceIdx, -, hEntry⟩ := mem_filterMap.mp he
    obtain ⟨hSource, hCursor⟩ := entryAt_eq_some hEntry
    rw [hSource, hCursor]
    exact hEntry

variable (sources) in
theorem map_item_pending :
    (pending sources (initialHeap sources)).map (·.item) = sources.flatten := by
  have hSources : (range sources.length).map (fun i => (sources[i]?).getD []) = sources :=
    ext_getElem (by simp) fun i hi hi' => by simp [hi']
  rw [pending_initialHeap, map_flatMap, flatMap_def]
  simp only [remaining, map_item_entriesFrom, drop_zero]
  rw [hSources]

theorem pending_place : (pending sources (initialHeap sources)).Pairwise fun a b =>
    toLex (a.sourceIdx, a.cursor) < toLex (b.sourceIdx, b.cursor) := by
  have hFrom (sourceIdx cursor : Nat) (items : List α) :
      (entriesFrom sourceIdx cursor items).Pairwise fun a b =>
        toLex (a.sourceIdx, a.cursor) < toLex (b.sourceIdx, b.cursor) := by
    induction items generalizing cursor with
    | nil => exact List.Pairwise.nil
    | cons item items ih =>
      refine pairwise_cons.mpr ⟨fun e he => ?_, ih (cursor + 1)⟩
      obtain ⟨-, hSource, hCursor⟩ := mem_entriesFrom he
      exact Prod.Lex.toLex_lt_toLex.mpr (.inr ⟨hSource.symm, hCursor⟩)
  rw [pending_initialHeap, pairwise_flatMap]
  refine ⟨fun sourceIdx _ => hFrom sourceIdx 0 _, ?_⟩
  refine pairwise_lt_range.imp fun {i j} hij a ha b hb => ?_
  obtain ⟨-, hSourceA, -⟩ := mem_entriesFrom ha
  obtain ⟨-, hSourceB, -⟩ := mem_entriesFrom hb
  refine Prod.Lex.toLex_lt_toLex.mpr (.inl ?_)
  rw [hSourceA, hSourceB]
  exact hij

include hSorted

theorem drain_all : (drain key sources sources.flatten.length (initialHeap sources)).Perm
      (pending sources (initialHeap sources)) ∧
    (drain key sources sources.flatten.length (initialHeap sources)).Pairwise
      fun a b => a.rank key < b.rank key := by
  refine drain_spec key hSorted _ (queued_initialHeap sources) ?_
  rw [← map_item_pending sources, length_map]

theorem merged_sorted : (merged key sources).Pairwise fun a b => key a ≤ key b := by
  rw [merged, pairwise_map]
  refine (drain_all key hSorted).2.imp fun hRank => ?_
  rcases Prod.Lex.toLex_lt_toLex.mp hRank with hLt | ⟨hEq, -⟩
  · exact hLt.le
  · exact hEq.le

theorem filter_merged (k : κ) : ((merged key sources).filter fun x => key x = k) =
    sources.flatten.filter fun x => key x = k := by
  obtain ⟨hPerm, hRank⟩ := drain_all key hSorted
  have hKey (e : HeapEntry α) (l : List (HeapEntry α))
      (he : e ∈ l.filter fun e => key e.item = k) : key e.item = k := by
    simpa using (mem_filter.mp he).2
  have hPending : ((pending sources (initialHeap sources)).filter fun e => key e.item = k).Pairwise
      fun a b => a.rank key < b.rank key := by
    refine (pending_place.filter _).imp_of_mem fun {a b} ha hb hPlace => ?_
    exact rank_lt key ((hKey a _ ha).trans (hKey b _ hb).symm).le hPlace
  have hSame := (hPerm.filter fun e => key e.item = k).eq_of_pairwise
    (fun a b _ _ hab hba => absurd hab hba.asymm) (hRank.filter _) hPending
  have hItems := congrArg (List.map (·.item)) hSame
  rw [← map_item_pending sources, merged, filter_map, filter_map]
  exact hItems

end Merge

/-! ## The first element with every key -/

section FirstByKey

variable {α κ σ ε : Type} [LinearOrder κ] (key : α → κ)

/-- One element for every key of a list, the first with that key, in the order of the keys. -/
structure FirstByKey (all out : List α) : Prop where
  sorted : out.Pairwise fun a b => key a < key b
  mem : ∀ x, x ∈ out ↔ all.find? (fun y => key y = key x) = some x

variable {key}

variable {all out xs : List α} {prev : Option κ}

theorem FirstByKey.unique {out' : List α} (h : FirstByKey key all out)
    (h' : FirstByKey key all out') : out = out' :=
  eq_of_strict h.sorted h'.sorted fun x => (h.mem x).trans (h'.mem x).symm

theorem FirstByKey.length_eq (h : FirstByKey key all out) :
    out.length = (all.map key).dedup.length := by
  have hNodup : (out.map key).Nodup := pairwise_map.mpr (h.sorted.imp fun hLt => hLt.ne)
  rw [← length_map (f := key)]
  refine ((perm_ext_iff_of_nodup hNodup (nodup_dedup _)).mpr fun k => ?_).length_eq
  rw [mem_dedup, mem_map, mem_map]
  constructor
  · rintro ⟨x, hx, rfl⟩
    exact ⟨x, mem_of_find?_eq_some ((h.mem x).mp hx), rfl⟩
  · rintro ⟨x, hx, rfl⟩
    obtain ⟨y, hy⟩ := Option.isSome_iff_exists.mp
      (find?_isSome.mpr ⟨x, hx, decide_eq_true rfl⟩ : (all.find? fun y => key y = key x).isSome)
    have hKey : key y = key x := by simpa using find?_some hy
    exact ⟨y, (h.mem y).mpr (by rw [hKey]; exact hy), hKey⟩

/-- Leaves out the elements with the key of the one before. -/
def firstOfRuns (key : α → κ) : Option κ → List α → List α
  | _, [] => []
  | prev, x :: xs =>
    if prev = some (key x) then firstOfRuns key prev xs
    else x :: firstOfRuns key (some (key x)) xs

theorem firstOfRuns_spec (hSorted : xs.Pairwise fun a b => key a ≤ key b)
    (hPrev : ∀ p, prev = some p → ∀ x ∈ xs, p ≤ key x) :
    (firstOfRuns key prev xs).Pairwise (fun a b => key a < key b) ∧
    ∀ x, x ∈ firstOfRuns key prev xs ↔
      prev ≠ some (key x) ∧ xs.find? (fun y => key y = key x) = some x := by
  induction xs generalizing prev with
  | nil => exact ⟨List.Pairwise.nil, fun x => by simp [firstOfRuns]⟩
  | cons a xs ih =>
    rw [pairwise_cons] at hSorted
    rw [firstOfRuns]
    split_ifs with hSame
    · obtain ⟨hPairwise, hMem⟩ := ih hSorted.2 fun p hp x hx => hPrev p hp x (mem_cons_of_mem a hx)
      refine ⟨hPairwise, fun x => (hMem x).trans (and_congr_right fun hNe => ?_)⟩
      have hKey : key a ≠ key x := fun hEq => hNe (hEq ▸ hSame)
      rw [find?_cons_of_neg (by simpa using hKey)]
    · have hAfter : ∀ p, some (key a) = some p → ∀ x ∈ xs, p ≤ key x := by
        rintro p hp x hx
        cases hp
        exact hSorted.1 x hx
      obtain ⟨hPairwise, hMem⟩ := ih hSorted.2 hAfter
      constructor
      · refine pairwise_cons.mpr ⟨fun x hx => ?_, hPairwise⟩
        obtain ⟨hNe, hFind⟩ := (hMem x).mp hx
        exact lt_of_le_of_ne (hSorted.1 x (mem_of_find?_eq_some hFind))
          fun hEq => hNe (congrArg some hEq)
      · intro x
        rw [mem_cons, hMem]
        by_cases hKey : key a = key x
        · rw [find?_cons_of_pos (by simpa using hKey), ← hKey]
          exact ⟨fun h => h.elim (fun hEq => ⟨hSame, hEq ▸ rfl⟩) fun h => absurd rfl h.1,
            fun h => .inl (Option.some.inj h.2).symm⟩
        · rw [find?_cons_of_neg (by simpa using hKey)]
          constructor
          · rintro (rfl | ⟨-, hFind⟩)
            · exact absurd rfl hKey
            · refine ⟨fun hp => ?_, hFind⟩
              -- the key before is below the key of the first element
              have hLe := hPrev _ hp a mem_cons_self
              have hGe := hSorted.1 x (mem_of_find?_eq_some hFind)
              exact hKey (le_antisymm hGe hLe)
          · rintro ⟨-, hFind⟩
            exact .inr ⟨fun hEq => hKey (Option.some.inj hEq), hFind⟩

theorem firstByKey_merged {sources : List (List α)}
    (hSorted : ∀ source ∈ sources, source.Pairwise fun a b => key a ≤ key b) :
    FirstByKey key sources.flatten (firstOfRuns key none (merged key sources)) := by
  obtain ⟨hPairwise, hMem⟩ := firstOfRuns_spec (merged_sorted key hSorted)
    (fun p hp => absurd hp (Option.some_ne_none p).symm : ∀ p, none = some p → _)
  refine ⟨hPairwise, fun x => (hMem x).trans ?_⟩
  rw [← head?_filter, filter_merged key hSorted, head?_filter]
  exact and_iff_right (Option.some_ne_none _).symm

/-- Hands an element on unless it has the key of the one before. -/
def emitNew (key : α → κ) (write : σ → α → Except ε σ) (state : Option κ × σ) (x : α) :
    Except ε (Option κ × σ) :=
  if state.1 = some (key x) then .ok state
  else
    match write state.2 x with
    | .error e => .error e
    | .ok s => .ok (some (key x), s)

theorem foldlM_emitNew {write : σ → α → Except ε σ} {s w : σ}
    (h : (firstOfRuns key prev xs).foldlM write s = .ok w) :
    ∃ last, xs.foldlM (emitNew key write) (prev, s) = .ok (last, w) := by
  induction xs generalizing prev s with
  | nil => exact ⟨prev, congrArg (Except.map (Prod.mk prev)) h⟩
  | cons x xs ih =>
    rw [firstOfRuns] at h
    rw [foldlM_cons, emitNew]
    split_ifs at h with hSame
    · rw [if_pos hSame]
      exact ih h
    · rw [if_neg hSame]
      rw [foldlM_cons] at h
      cases hWrite : write s x with
      | error e =>
        rw [hWrite] at h
        cases h
      | ok s' =>
        rw [hWrite] at h
        exact ih h

/-! ## Collecting by key -/

/-- Adds an element unless there is one with its key. -/
def insertNew (key : α → κ) (entries : List α) (x : α) : List α :=
  if entries.any fun y => key y = key x then entries else entries ++ [x]

theorem foldl_insertNew (xs : List α) {entries : List α} (hNodup : (entries.map key).Nodup) :
    ((xs.foldl (insertNew key) entries).map key).Nodup ∧
    ∀ x, x ∈ xs.foldl (insertNew key) entries ↔
      x ∈ entries ∨ ((∀ y ∈ entries, key y ≠ key x) ∧
        xs.find? (fun y => key y = key x) = some x) := by
  induction xs generalizing entries with
  | nil => exact ⟨hNodup, fun x => by simp⟩
  | cons a xs ih =>
    rw [foldl_cons, insertNew]
    split_ifs with hAny
    · obtain ⟨b, hb, hKey⟩ := any_eq_true.mp hAny
      have hKey : key b = key a := by simpa using hKey
      obtain ⟨hRest, hMem⟩ := ih hNodup
      refine ⟨hRest, fun x => (hMem x).trans (or_congr_right (and_congr_right fun hNew => ?_))⟩
      rw [find?_cons_of_neg (by simpa [← hKey] using hNew b hb)]
    · have hNew : ∀ y ∈ entries, key y ≠ key a := by simpa using hAny
      have hNodup' : ((entries ++ [a]).map key).Nodup := by
        rw [map_append, map_singleton, nodup_append]
        refine ⟨hNodup, nodup_singleton _, fun k hk k' hk' => ?_⟩
        obtain ⟨y, hy, rfl⟩ := mem_map.mp hk
        rw [mem_singleton.mp hk']
        exact hNew y hy
      obtain ⟨hRest, hMem⟩ := ih hNodup'
      refine ⟨hRest, fun x => (hMem x).trans ?_⟩
      rw [mem_append, mem_singleton, or_assoc]
      refine or_congr_right ?_
      by_cases hKey : key a = key x
      · rw [find?_cons_of_pos (by simpa using hKey)]
        constructor
        · rintro (rfl | ⟨hNone, -⟩)
          · exact ⟨hNew, rfl⟩
          · exact absurd hKey (hNone a (mem_append_right _ (mem_singleton_self a)))
        · rintro ⟨-, hEq⟩
          exact .inl (Option.some.inj hEq).symm
      · rw [find?_cons_of_neg (by simpa using hKey)]
        constructor
        · rintro (rfl | ⟨hNone, hFind⟩)
          · exact absurd rfl hKey
          · exact ⟨fun y hy => hNone y (mem_append_left _ hy), hFind⟩
        · rintro ⟨hNone, hFind⟩
          refine .inr ⟨fun y hy => ?_, hFind⟩
          rcases mem_append.mp hy with hy | hy
          · exact hNone y hy
          · rw [mem_singleton.mp hy]
            exact hKey

theorem firstByKey_collected {values : List α} (hPerm : values.Perm
    (all.foldl (insertNew key) [])) :
    FirstByKey key all (values.insertionSort fun a b => key a ≤ key b) := by
  have hEmpty : (([] : List α).map key).Nodup := nodup_nil
  obtain ⟨hNodup, hMem⟩ := foldl_insertNew all hEmpty
  refine ⟨insertionSort_strict ((hPerm.map key).nodup_iff.mpr hNodup), fun x => ?_⟩
  rw [mem_insertionSort, hPerm.mem_iff, hMem]
  simp

end FirstByKey

end Cascette.Lib
