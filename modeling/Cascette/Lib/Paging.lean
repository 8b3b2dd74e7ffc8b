import Cascette.Lib.Search

/-!
# Pages

Elements are packed greedily into pages: an element goes on the open page unless it would exceed
the limit, in which case the page is closed first. The pages cut the list into consecutive
non-empty groups that fit (`packPages_spec`). When the list is sorted, a key is looked up by
searching the first keys of the pages and scanning one page (`find?_page`).
-/

namespace Cascette.Lib

open List

variable {α τ π ε : Type}

/-! ## Greedy packing -/

/-- The closed pages, and the open page with the space it uses. -/
structure Packing (τ π : Type) where
  pages : List π
  current : List τ
  used : Nat

def Packing.close (finish : List τ → π) (st : Packing τ π) : Packing τ π :=
  { pages := st.pages ++ [finish st.current], current := [], used := 0 }

def packStep (limit : Nat) (size : α → Nat) (convert : α → Except ε τ) (finish : List τ → π)
    (st : Packing τ π) (a : α) : Except ε (Packing τ π) :=
  let st := if limit < st.used + size a ∧ st.current ≠ [] then st.close finish else st
  match convert a with
  | .error e => .error e
  | .ok x => .ok { st with current := st.current ++ [x], used := st.used + size a }

def packPages (limit : Nat) (size : α → Nat) (convert : α → Except ε τ) (finish : List τ → π)
    (xs : List α) : Except ε (List π) :=
  match xs.foldlM (packStep limit size convert finish) ⟨[], [], 0⟩ with
  | .error e => .error e
  | .ok st => .ok (if st.current = [] then st.pages else (st.close finish).pages)

/-- A group fits a page when it is not empty and its elements do not exceed the limit. -/
def Fits (limit : Nat) (width : τ → Nat) (group : List τ) : Prop :=
  group ≠ [] ∧ (group.map width).sum ≤ limit

/-- What packing has done after the elements `done`. -/
structure Packed (limit : Nat) (width : τ → Nat) (finish : List τ → π) (done : List τ)
    (st : Packing τ π) (groups : List (List τ)) : Prop where
  pages : st.pages = groups.map finish
  flatten : groups.flatten ++ st.current = done
  used : st.used = (st.current.map width).sum
  used_le : st.used ≤ limit
  fits : ∀ g ∈ groups, Fits limit width g

section Packing

variable {limit : Nat} {width : τ → Nat} {finish : List τ → π} {done : List τ}
  {st : Packing τ π} {groups : List (List τ)}

theorem Packed.close (h : Packed limit width finish done st groups) (hNe : st.current ≠ []) :
    Packed limit width finish done (st.close finish) (groups ++ [st.current]) where
  pages := by simp [Packing.close, h.pages]
  flatten := by simp [Packing.close, h.flatten]
  used := rfl
  used_le := Nat.zero_le _
  fits := by
    intro g hg
    rcases mem_append.mp hg with hg | hg
    · exact h.fits g hg
    · rw [mem_singleton.mp hg]
      exact ⟨hNe, h.used ▸ h.used_le⟩

theorem Packed.push (h : Packed limit width finish done st groups) {x : τ}
    (hx : st.used + width x ≤ limit) :
    Packed limit width finish (done ++ [x])
      { st with current := st.current ++ [x], used := st.used + width x } groups where
  pages := h.pages
  flatten := by simp [← h.flatten]
  used := by simp [h.used]
  used_le := hx
  fits := h.fits

variable {size : α → Nat} {convert : α → Except ε τ} {xs : List α} {f : α → τ}

theorem packStep_packed {a : α} {x : τ} (hConvert : convert a = .ok x) (hWidth : width x = size a)
    (hFits : size a ≤ limit) (h : Packed limit width finish done st groups) :
    ∃ st' groups', packStep limit size convert finish st a = .ok st' ∧
      Packed limit width finish (done ++ [x]) st' groups' := by
  simp only [packStep, hConvert, ← hWidth]
  split_ifs with hFull
  · refine ⟨_, _, rfl, (h.close hFull.2).push ?_⟩
    simpa [Packing.close, hWidth] using hFits
  · refine ⟨_, groups, rfl, h.push ?_⟩
    -- an empty page always has room for an element that fits a page
    by_cases hEmpty : st.current = []
    · have hUsed := h.used
      simp only [hEmpty, map_nil, sum_nil] at hUsed
      omega
    · simp only [hEmpty, ne_eq, not_false_eq_true, and_true] at hFull
      omega

theorem foldlM_packStep (hConvert : ∀ a ∈ xs, convert a = .ok (f a))
    (hWidth : ∀ a ∈ xs, width (f a) = size a) (hFits : ∀ a ∈ xs, size a ≤ limit)
    (h : Packed limit width finish done st groups) :
    ∃ st' groups', xs.foldlM (packStep limit size convert finish) st = .ok st' ∧
      Packed limit width finish (done ++ xs.map f) st' groups' := by
  induction xs generalizing done st groups with
  | nil => exact ⟨st, groups, rfl, by simpa using h⟩
  | cons a xs ih =>
    obtain ⟨st₁, groups₁, hStep, h₁⟩ := packStep_packed (hConvert a mem_cons_self)
      (hWidth a mem_cons_self) (hFits a mem_cons_self) h
    obtain ⟨st₂, groups₂, hRun, h₂⟩ := ih (fun b hb => hConvert b (mem_cons_of_mem a hb))
      (fun b hb => hWidth b (mem_cons_of_mem a hb))
      (fun b hb => hFits b (mem_cons_of_mem a hb)) h₁
    refine ⟨st₂, groups₂, ?_, by simpa using h₂⟩
    rw [foldlM_cons, hStep]
    exact hRun

theorem packPages_spec (width : τ → Nat) (finish : List τ → π)
    (hConvert : ∀ a ∈ xs, convert a = .ok (f a)) (hWidth : ∀ a ∈ xs, width (f a) = size a)
    (hFits : ∀ a ∈ xs, size a ≤ limit) :
    ∃ groups : List (List τ), packPages limit size convert finish xs = .ok (groups.map finish) ∧
      groups.flatten = xs.map f ∧ ∀ g ∈ groups, Fits limit width g := by
  have hStart : Packed limit width finish [] ⟨[], [], 0⟩ [] :=
    ⟨rfl, rfl, rfl, Nat.zero_le _, by simp⟩
  obtain ⟨st, groups, hRun, h⟩ := foldlM_packStep hConvert hWidth hFits hStart
  simp only [packPages, hRun]
  by_cases hEmpty : st.current = []
  · refine ⟨groups, ?_, ?_, h.fits⟩
    · rw [if_pos hEmpty, h.pages]
    · simpa [hEmpty] using h.flatten
  · have hClosed := h.close hEmpty
    refine ⟨_, ?_, ?_, hClosed.fits⟩
    · rw [if_neg hEmpty, hClosed.pages]
    · simpa [Packing.close] using hClosed.flatten

theorem foldlM_packStep_ok {seen : List α} {st' : Packing τ π}
    (hRun : xs.foldlM (packStep limit size convert finish) st = .ok st')
    (hPages : st.pages = groups.map finish)
    (hSeen : Forall₂ (fun a x => convert a = .ok x) seen (groups.flatten ++ st.current)) :
    ∃ groups' : List (List τ), st'.pages = groups'.map finish ∧
      Forall₂ (fun a x => convert a = .ok x) (seen ++ xs)
        (groups'.flatten ++ st'.current) := by
  induction xs generalizing seen st groups with
  | nil =>
    cases hRun
    exact ⟨groups, hPages, by simpa using hSeen⟩
  | cons a xs ih =>
    rw [foldlM_cons] at hRun
    cases hConvert : convert a with
    | error e =>
      rw [packStep, hConvert] at hRun
      cases hRun
    | ok x =>
      have hLast : Forall₂ (fun a x => convert a = .ok x) (seen ++ [a])
          ((groups.flatten ++ st.current) ++ [x]) :=
        rel_append hSeen (.cons hConvert .nil)
      simp only [packStep, hConvert] at hRun
      rw [append_cons]
      split at hRun
      · -- the open page is closed first
        have hClosed : (st.close finish).pages = (groups ++ [st.current]).map finish := by
          simp [Packing.close, hPages]
        exact ih hRun hClosed (by simpa [Packing.close] using hLast)
      · exact ih hRun hPages (by simpa using hLast)

/-- Whatever their sizes, the elements are spread over the pages in their order. -/
theorem packPages_ok {pages : List π} (h : packPages limit size convert finish xs = .ok pages) :
    ∃ groups : List (List τ), pages = groups.map finish ∧
      Forall₂ (fun a x => convert a = .ok x) xs groups.flatten := by
  unfold packPages at h
  split at h
  · cases h
  next st hRun =>
    have hStart : ([] : List π) = ([] : List (List τ)).map finish := rfl
    obtain ⟨groups, hPages, hAll⟩ := foldlM_packStep_ok hRun hStart .nil
    cases h
    split_ifs with hEmpty
    · exact ⟨groups, hPages, by simpa [hEmpty] using hAll⟩
    · exact ⟨groups ++ [st.current], by simp [Packing.close, hPages], by simpa using hAll⟩

theorem length_of_fits_alone (hFits : ∀ g ∈ groups, Fits limit width g)
    (hAlone : ∀ x ∈ groups.flatten, ∀ y ∈ groups.flatten, limit < width x + width y) :
    groups.length = groups.flatten.length := by
  have hOne : ∀ g ∈ groups, g.length = 1 := by
    intro g hg
    obtain ⟨hNe, hSum⟩ := hFits g hg
    match g, hg, hNe, hSum with
    | [_], _, _, _ => rfl
    | x :: y :: rest, hg, _, hSum =>
      have hx : x ∈ groups.flatten := mem_flatten.mpr ⟨_, hg, by simp⟩
      have hy : y ∈ groups.flatten := mem_flatten.mpr ⟨_, hg, by simp⟩
      have := hAlone x hx y hy
      simp only [map_cons, sum_cons] at hSum
      omega
  rw [List.length_flatten, List.map_congr_left hOne]
  simp

end Packing

/-! ## Looking up a key -/

variable {group : List τ} {κ : Type}

theorem find?_eq_none_of_ne [DecidableEq κ] {key : τ → κ} {k : κ} (h : ∀ x ∈ group, key x ≠ k) :
    group.find? (fun x => key x = k) = none := by
  rw [find?_eq_none]
  intro x hx
  simpa using h x hx

section Lookup

variable {κ ι : Type} [LinearOrder κ] {key : τ → κ} {first : ι → κ}

/-- The index of a page holds its first key. -/
def IndexedBy (key : τ → κ) (first : ι → κ) (i : ι) (group : List τ) : Prop :=
  ∃ x rest, group = x :: rest ∧ first i = key x

variable {index : List ι} {groups : List (List τ)}

section

variable (hIndex : List.Forall₂ (IndexedBy key first) index groups)
  (hSorted : groups.flatten.Pairwise fun a b => key a < key b)

include hIndex hSorted

/-- In sorted pages every key of an earlier page is below the first key of a later one. -/
theorem pairwise_first : index.Pairwise fun i j => first i < first j := by
  induction hIndex with
  | nil => exact .nil
  | @cons i g index groups hHead hTail ih =>
    rw [flatten_cons, pairwise_append] at hSorted
    obtain ⟨x, rest, rfl, hFirst⟩ := hHead
    refine pairwise_cons.mpr ⟨?_, ih hSorted.2.1⟩
    intro j hj
    obtain ⟨g', hg', y, rest', rfl, hFirst'⟩ := forall₂_mem_left hTail hj
    rw [hFirst, hFirst']
    exact hSorted.2.2 x mem_cons_self y (mem_flatten.mpr ⟨_, hg', mem_cons_self⟩)

variable [DecidableEq κ]

theorem find?_above {k : κ} (hAbove : ∀ i ∈ index, k < first i) :
    groups.flatten.find? (fun x => key x = k) = none := by
  refine find?_eq_none_of_ne ?_
  intro y hy
  obtain ⟨g, hg, hyg⟩ := mem_flatten.mp hy
  obtain ⟨i, hi, x, rest, rfl, hFirst⟩ := forall₂_mem_right hIndex hg
  have hGroup := (pairwise_flatten.mp hSorted).1 _ hg
  have hLe : key x ≤ key y := by
    rcases mem_cons.mp hyg with rfl | hy
    · exact le_rfl
    · exact le_of_lt ((pairwise_cons.mp hGroup).1 y hy)
  exact ne_of_gt (lt_of_lt_of_le (hFirst ▸ hAbove i hi) hLe)

theorem find?_page (k : κ) :
    (partitionPoint (fun i => first i ≤ k) index = 0 ∧
        groups.flatten.find? (fun x => key x = k) = none) ∨
      ∃ p g, partitionPoint (fun i => first i ≤ k) index = p + 1 ∧ groups[p]? = some g ∧
        g.find? (fun x => key x = k) = groups.flatten.find? fun x => key x = k := by
  have hFirsts := pairwise_first hIndex hSorted
  obtain ⟨hLe, hBelow, hAbove⟩ := partitionPoint_spec (p := fun i => decide (first i ≤ k))
    (hFirsts.imp fun {i j} hij hj => by simpa using (le_of_lt hij).trans (by simpa using hj))
  generalize partitionPoint (fun i => decide (first i ≤ k)) index = n at hLe hBelow hAbove
  simp only [decide_eq_true_eq, decide_eq_false_iff_not, not_le] at hBelow hAbove
  have hLength := hIndex.length_eq
  cases n with
  | zero =>
    refine .inl ⟨rfl, find?_above hIndex hSorted ?_⟩
    intro i hi
    obtain ⟨j, hj, rfl⟩ := mem_iff_getElem.mp hi
    exact hAbove j hj (Nat.zero_le j)
  | succ p =>
    have hp : p < groups.length := by omega
    refine .inr ⟨p, groups[p], rfl, getElem?_eq_getElem hp, ?_⟩
    -- the pages before, the page found, and the pages after it
    have hSplit : groups = groups.take p ++ groups[p] :: groups.drop (p + 1) := by
      rw [← drop_eq_getElem_cons hp, take_append_drop]
    obtain ⟨x, rest, hGroup, hFirst⟩ := hIndex.get (i := p) (by omega) hp
    have hx : key x ≤ k := hFirst ▸ hBelow p (by omega) (by omega)
    have hSorted' := hSorted
    rw [hSplit, flatten_append, flatten_cons, pairwise_append] at hSorted'
    obtain ⟨-, hRight, hCross⟩ := hSorted'
    have hBefore : (groups.take p).flatten.find? (fun y => key y = k) = none := by
      refine find?_eq_none_of_ne fun y hy => ne_of_lt ?_
      refine lt_of_lt_of_le (hCross y hy x (mem_append_left _ ?_)) hx
      simp only [get_eq_getElem] at hGroup
      simp [hGroup]
    have hAfter : (groups.drop (p + 1)).flatten.find? (fun y => key y = k) = none := by
      refine find?_above (forall₂_drop (p + 1) hIndex) (pairwise_append.mp hRight).2.1 ?_
      intro i hi
      obtain ⟨j, hj, rfl⟩ := mem_iff_getElem.mp hi
      rw [length_drop] at hj
      rw [getElem_drop]
      exact hAbove (p + 1 + j) (by omega) (by omega)
    conv_rhs => rw [hSplit]
    rw [flatten_append, flatten_cons, find?_append, find?_append, hBefore, hAfter]
    simp

end

end Lookup

/-! ## Pages known by their last keys -/

section LastKeys

variable {κ : Type} [LinearOrder κ] {key : τ → κ} {toc : List κ} {groups : List (List τ)}

/-- The table of contents holds the last key of a page. -/
def EndedBy (key : τ → κ) (k : κ) (group : List τ) : Prop :=
  ∃ x, group.getLast? = some x ∧ key x = k

variable {k : κ}

theorem EndedBy.le (h : EndedBy key k group)
    (hSorted : group.Pairwise fun a b => key a ≤ key b) {x : τ} (hx : x ∈ group) : key x ≤ k := by
  obtain ⟨y, hLast, rfl⟩ := h
  obtain ⟨front, rfl⟩ := getLast?_eq_some_iff.mp hLast
  rcases mem_append.mp hx with hx | hx
  · exact (pairwise_append.mp hSorted).2.2 x hx y (mem_singleton_self y)
  · rw [mem_singleton.mp hx]

omit [LinearOrder κ] in
theorem EndedBy.exists_mem (h : EndedBy key k group) : ∃ x ∈ group, key x = k := by
  obtain ⟨x, hLast, hKey⟩ := h
  exact ⟨x, mem_of_getLast? hLast, hKey⟩

section

variable (hIndex : List.Forall₂ (EndedBy key) toc groups)
  (hSorted : groups.flatten.Pairwise fun a b => key a ≤ key b)

include hIndex hSorted

theorem pairwise_last : toc.Pairwise (· ≤ ·) := by
  induction hIndex with
  | nil => exact .nil
  | @cons k g toc groups hHead hTail ih =>
    rw [flatten_cons, pairwise_append] at hSorted
    refine pairwise_cons.mpr ⟨?_, ih hSorted.2.1⟩
    intro k' hk'
    obtain ⟨x, hx, rfl⟩ := hHead.exists_mem
    obtain ⟨g', hg', hEnd⟩ := forall₂_mem_left hTail hk'
    obtain ⟨y, hy, rfl⟩ := hEnd.exists_mem
    exact hSorted.2.2 x hx y (mem_flatten.mpr ⟨g', hg', hy⟩)

theorem exists_mem_page {i : Nat} (hi : i < toc.length)
    (hBelow : ∀ j (hj : j < toc.length), j < i → toc[j] < k) (hAt : k ≤ toc[i]) {x : τ}
    (hx : x ∈ groups.flatten) (hKey : key x = k) :
    ∃ g, groups[i]? = some g ∧ ∃ y ∈ g, key y = k := by
  have hLength := hIndex.length_eq
  obtain ⟨hGroups, hCross⟩ := pairwise_flatten.mp hSorted
  obtain ⟨g, hg, hxg⟩ := mem_flatten.mp hx
  obtain ⟨j, hj, rfl⟩ := mem_iff_getElem.mp hg
  have hPage : EndedBy key toc[i] groups[i] := hIndex.get hi (by omega)
  refine ⟨groups[i], getElem?_eq_getElem (by omega), ?_⟩
  rcases Nat.lt_trichotomy j i with hji | rfl | hij
  · have hEnd : EndedBy key toc[j] groups[j] := hIndex.get (by omega) hj
    have hLe := hEnd.le (hGroups _ hg) hxg
    exact absurd (hBelow j (by omega) hji) (by rw [← hKey]; exact not_lt.mpr hLe)
  · exact ⟨x, hxg, hKey⟩
  · obtain ⟨y, hy, hyKey⟩ := hPage.exists_mem
    have hLe := pairwise_iff_getElem.mp hCross i j (by omega) hj hij y hy x hxg
    refine ⟨y, hy, le_antisymm (hKey ▸ hLe) ?_⟩
    rw [hyKey]
    exact hAt

theorem search_last (k : κ) :
    match binarySearchBy (fun t => compare t k) toc with
    | .ok i => ∃ g, groups[i]? = some g ∧ ∃ y ∈ g, key y = k
    | .error i =>
      if i < toc.length then
        ∃ g, groups[i]? = some g ∧ ((∃ x ∈ groups.flatten, key x = k) → ∃ y ∈ g, key y = k)
      else ∀ x ∈ groups.flatten, key x ≠ k := by
  have hLength := hIndex.length_eq
  have hAsc : Ascending (fun t => compare (id t) k) toc :=
    ascending_of_sorted (pairwise_last hIndex hSorted) k
  cases hSearch : binarySearchBy (fun t => compare t k) toc with
  | ok i =>
    obtain ⟨hi, hEq⟩ := binarySearchBy_ok hSearch
    have hPage : EndedBy key toc[i] groups[i] := hIndex.get hi (by omega)
    rw [compare_eq_iff_eq.mp hEq] at hPage
    exact ⟨groups[i], getElem?_eq_getElem (by omega), hPage.exists_mem⟩
  | error i =>
    obtain ⟨hLe, hLeft, hRight⟩ := binarySearchBy_error hAsc hSearch
    simp only [id, compare_lt_iff_lt, compare_gt_iff_gt] at hLeft hRight
    dsimp only
    split_ifs with hi
    · refine ⟨groups[i], getElem?_eq_getElem (by omega), ?_⟩
      rintro ⟨x, hx, hKey⟩
      obtain ⟨g, hg, hMem⟩ := exists_mem_page hIndex hSorted hi hLeft
        (le_of_lt (hRight i hi le_rfl)) hx hKey
      rw [getElem?_eq_getElem (by omega)] at hg
      cases hg
      exact hMem
    · rintro x hx hKey
      obtain ⟨g, hg, hxg⟩ := mem_flatten.mp hx
      obtain ⟨j, hj, rfl⟩ := mem_iff_getElem.mp hg
      have hEnd : EndedBy key toc[j] groups[j] := hIndex.get (by omega) hj
      have hxLe := hEnd.le ((pairwise_flatten.mp hSorted).1 _ hg) hxg
      exact absurd (hLeft j (by omega) (by omega)) (not_lt.mpr (hKey ▸ hxLe))

end

end LastKeys

/-! ## Runs of equal keys -/

theorem takeWhile_eq_filter [LinearOrder κ] [DecidableEq κ] {key : τ → κ}
    {xs : List τ} (h : xs.Pairwise fun a b => key a ≤ key b) {k : κ} (hk : ∀ x ∈ xs, k ≤ key x) :
    (xs.takeWhile fun x => key x = k) = xs.filter fun x => key x = k := by
  induction xs with
  | nil => rfl
  | cons x xs ih =>
    obtain ⟨hHead, hTail⟩ := pairwise_cons.mp h
    rw [takeWhile_cons, filter_cons]
    split_ifs with hNe
    · rw [ih hTail fun y hy => hk y (mem_cons_of_mem x hy)]
    · have hLt : k < key x := lt_of_le_of_ne (hk x mem_cons_self) (by
        simpa [eq_comm] using hNe)
      symm
      rw [filter_eq_nil_iff]
      intro y hy
      simpa using ne_of_gt (hLt.trans_le (hHead y hy))

end Cascette.Lib
