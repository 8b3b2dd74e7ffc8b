import Cascette.Lib.Bytes

/-!
# Binary search of the standard library

`binarySearchBy` follows `slice::binary_search_by` of the toolchain's standard library: the
interval is halved without an early exit, and one last comparison decides between a hit and an
insertion point. The comparison is only ever asked about indices, so the loop is stated for a
comparison of indices; what the search promises is stated once, for comparisons that are
`lt` first, then `eq`, then `gt` (`Ordered`).
-/

namespace Cascette.Lib

open List Option

/-- The halving loop: `size` candidates are left, the first of them at `base`. -/
def searchLoop (cmp : Nat → Ordering) : Nat → Nat → Nat → Nat
  | 0, _, base => base
  | fuel + 1, size, base =>
    if 1 < size then
      let half := size / 2
      let mid := base + half
      searchLoop cmp fuel (size - half) (if cmp mid = .gt then base else mid)
    else base

/-- `Ok` is an index that compares equal, `Err` the place where such an element could be
inserted. -/
def searchIndex (n : Nat) (cmp : Nat → Ordering) : Except Nat Nat :=
  if n = 0 then .error 0
  else
    let base := searchLoop cmp n n 0
    match cmp base with
    | .eq => .ok base
    | .lt => .error (base + 1)
    | .gt => .error base

variable {α : Type}

/-- The comparison of the element at an index; indices past the end are never asked. -/
def compareAt (f : α → Ordering) (xs : List α) (i : Nat) : Ordering := (xs[i]?.map f).getD .gt

def binarySearchBy (f : α → Ordering) (xs : List α) : Except Nat Nat :=
  searchIndex xs.length (compareAt f xs)

/-- The number of leading elements that satisfy `p`, found by bisection. -/
def partitionPoint (p : α → Bool) (xs : List α) : Nat :=
  match binarySearchBy (fun x => if p x then .lt else .gt) xs with
  | .ok i => i
  | .error i => i

/-! ## What every search promises -/

/-- The comparisons below `n` are `lt` up to some index, then `eq`, then `gt`. -/
structure Ordered (n : Nat) (cmp : Nat → Ordering) : Prop where
  lt_left : ∀ i j, i ≤ j → j < n → cmp j = .lt → cmp i = .lt
  gt_right : ∀ i j, i ≤ j → j < n → cmp i = .gt → cmp j = .gt

theorem searchLoop_lt (cmp : Nat → Ordering) {n : Nat} :
    ∀ fuel size base, 0 < size → base + size ≤ n → searchLoop cmp fuel size base < n := by
  intro fuel
  induction fuel with
  | zero => intro size base _ _; rw [searchLoop]; omega
  | succ fuel ih =>
    intro size base hSize hBound
    rw [searchLoop]
    split
    · dsimp only
      split
      · exact ih _ _ (by omega) (by omega)
      · exact ih _ _ (by omega) (by omega)
    · omega

variable {cmp : Nat → Ordering}

/-- The loop ends between an index that is not `gt` and one that is, in whatever order the
comparisons are. -/
theorem searchLoop_boundary {n : Nat} :
    ∀ fuel size base, size ≤ fuel → 0 < size → base + size ≤ n →
      (base = 0 ∨ cmp base ≠ .gt) →
      (base + size = n ∨ cmp (base + size) = .gt ∨ (2 ≤ size ∧ cmp (base + size - 1) = .gt)) →
      (searchLoop cmp fuel size base = 0 ∨ cmp (searchLoop cmp fuel size base) ≠ .gt) ∧
      (searchLoop cmp fuel size base + 1 = n ∨ cmp (searchLoop cmp fuel size base + 1) = .gt) := by
  intro fuel
  induction fuel with
  | zero => intro size base hFuel hSize; omega
  | succ fuel ih =>
    intro size base hFuel hSize hBound hBase hEnd
    rw [searchLoop]
    split
    · dsimp only
      split_ifs with hMid
      · refine ih _ _ (by omega) (by omega) (by omega) hBase (.inr ?_)
        -- What is left ends at the middle or right behind it.
        by_cases hEven : size - size / 2 = size / 2
        · rw [hEven]
          exact .inl hMid
        · have hLast : base + (size - size / 2) - 1 = base + size / 2 := by omega
          exact .inr ⟨by omega, hLast ▸ hMid⟩
      · have hSame : base + size / 2 + (size - size / 2) = base + size := by omega
        refine ih _ _ (by omega) (by omega) (by omega) (.inr hMid) ?_
        rw [hSame]
        refine hEnd.imp_right (.imp_right ?_)
        rintro ⟨-, hLast⟩
        refine ⟨?_, hLast⟩
        by_contra hOne
        have hMidLast : base + size - 1 = base + size / 2 := by omega
        exact hMid (hMidLast ▸ hLast)
    · have hOne : size = 1 := by omega
      subst hOne
      refine ⟨hBase, hEnd.imp_right ?_⟩
      rintro (hGt | ⟨hTwo, -⟩)
      · exact hGt
      · omega

variable {i : Nat}

theorem searchIndex_ok {n : Nat} (h : searchIndex n cmp = .ok i) : i < n ∧ cmp i = .eq := by
  unfold searchIndex at h
  split at h
  · cases h
  · have hBase := searchLoop_lt cmp (n := n) n n 0 (by omega) (by omega)
    dsimp only at h
    split at h
    next hEq =>
      cases h
      exact ⟨hBase, hEq⟩
    · cases h
    · cases h

theorem searchIndex_error_le {n : Nat} (h : searchIndex n cmp = .error i) : i ≤ n := by
  unfold searchIndex at h
  split at h
  · cases h; omega
  · have hBase := searchLoop_lt cmp (n := n) n n 0 (by omega) (by omega)
    dsimp only at h
    split at h <;> cases h <;> omega

/-- A miss of an ordered search splits the indices: `lt` below the insertion point, `gt` from
it on. -/
theorem searchIndex_error {n : Nat} (hOrdered : Ordered n cmp) (h : searchIndex n cmp = .error i) :
    (∀ j, j < i → cmp j = .lt) ∧ ∀ j, i ≤ j → j < n → cmp j = .gt := by
  unfold searchIndex at h
  split at h
  · cases h
    exact ⟨fun j hj => absurd hj (by omega), fun j _ hj => absurd hj (by omega)⟩
  · have hLt := searchLoop_lt cmp (n := n) n n 0 (by omega) (by omega)
    obtain ⟨hBase, hNext⟩ := @searchLoop_boundary cmp n n n 0 le_rfl (by omega) (by omega)
      (.inl rfl) (.inl (Nat.zero_add n))
    have hRight : ∀ j, searchLoop cmp n n 0 < j → j < n → cmp j = .gt := by
      intro j hj hjn
      rcases hNext with hEnd | hGt
      · omega
      · exact hOrdered.gt_right _ j hj hjn hGt
    generalize searchLoop cmp n n 0 = base at h hLt hBase hRight
    dsimp only at h
    split at h
    · cases h
    next hCmp =>
      have hi : base + 1 = i := Except.error.inj h
      exact ⟨fun j hj => hOrdered.lt_left j base (by omega) hLt hCmp,
        fun j hj hjn => hRight j (by omega) hjn⟩
    next hCmp =>
      have hi : base = i := Except.error.inj h
      subst hi
      have hZero : base = 0 := by
        rcases hBase with h0 | hNe
        · exact h0
        · exact absurd hCmp hNe
      exact ⟨fun j hj => absurd hj (by omega), fun j hj hjn => hOrdered.gt_right base j hj hjn hCmp⟩

/-! ## Searching a list -/

/-- Later elements never compare below earlier ones. -/
def Ascending (f : α → Ordering) (xs : List α) : Prop :=
  xs.Pairwise fun a b => (f b = .lt → f a = .lt) ∧ (f a = .gt → f b = .gt)

variable {xs : List α}

variable {f : α → Ordering}

theorem compareAt_eq (hi : i < xs.length) : compareAt f xs i = f xs[i] := by
  simp [compareAt, hi]

theorem Ascending.ordered (h : Ascending f xs) : Ordered xs.length (compareAt f xs) := by
  have hPair := pairwise_iff_getElem.mp h
  constructor
  · intro i j hij hj hLt
    rcases Nat.lt_or_eq_of_le hij with hlt | rfl
    · rw [compareAt_eq hj] at hLt
      rw [compareAt_eq (by omega)]
      exact (hPair i j (by omega) hj hlt).1 hLt
    · exact hLt
  · intro i j hij hj hGt
    rcases Nat.lt_or_eq_of_le hij with hlt | rfl
    · rw [compareAt_eq (by omega)] at hGt
      rw [compareAt_eq hj]
      exact (hPair i j (by omega) hj hlt).2 hGt
    · exact hGt

variable {κ γ : Type} {key : α → κ} {ys : List α}

theorem ascending_of_sorted [LinearOrder κ] (h : xs.Pairwise fun a b => key a ≤ key b)
    (k : κ) : Ascending (fun x => compare (key x) k) xs := by
  refine h.imp ?_
  intro a b hab
  rw [compare_lt_iff_lt, compare_lt_iff_lt, compare_gt_iff_gt, compare_gt_iff_gt]
  exact ⟨fun hb => hab.trans_lt hb, fun ha => ha.trans_le hab⟩

theorem binarySearchBy_congr {g : α → Ordering} (h : ∀ x ∈ xs, f x = g x) :
    binarySearchBy f xs = binarySearchBy g xs := by
  have hCompare : compareAt f xs = compareAt g xs := by
    funext i
    cases hi : xs[i]? with
    | none => simp [compareAt, hi]
    | some x => simp [compareAt, hi, h x (mem_of_getElem? hi)]
  rw [binarySearchBy, hCompare, binarySearchBy]

theorem binarySearchBy_ok (h : binarySearchBy f xs = .ok i) :
    ∃ hi : i < xs.length, f xs[i] = .eq := by
  obtain ⟨hi, hEq⟩ := searchIndex_ok h
  exact ⟨hi, by rwa [compareAt_eq hi] at hEq⟩

theorem binarySearchBy_error (hAsc : Ascending f xs) (h : binarySearchBy f xs = .error i) :
    i ≤ xs.length ∧ (∀ j (hj : j < xs.length), j < i → f xs[j] = .lt) ∧
      ∀ j (hj : j < xs.length), i ≤ j → f xs[j] = .gt := by
  obtain ⟨hLeft, hRight⟩ := searchIndex_error hAsc.ordered h
  refine ⟨searchIndex_error_le h, ?_, ?_⟩
  · intro j hj hji
    have := hLeft j hji
    rwa [compareAt_eq hj] at this
  · intro j hj hij
    have := hRight j hij hj
    rwa [compareAt_eq hj] at this

theorem binarySearchBy_error_ne (hAsc : Ascending f xs) (h : binarySearchBy f xs = .error i) :
    ∀ x ∈ xs, f x ≠ .eq := by
  obtain ⟨-, hLeft, hRight⟩ := binarySearchBy_error hAsc h
  intro x hx hEq
  obtain ⟨j, hj, rfl⟩ := mem_iff_getElem.mp hx
  rcases Nat.lt_or_ge j i with hji | hij
  · rw [hLeft j hj hji] at hEq
    cases hEq
  · rw [hRight j hj hij] at hEq
    cases hEq

/-- On strictly increasing keys the element found by bisection is the one a scan finds. -/
theorem binarySearchBy_find [LinearOrder κ] [DecidableEq κ]
    (h : xs.Pairwise fun a b => key a < key b) (k : κ) :
    (match binarySearchBy (fun x => compare (key x) k) xs with
      | .ok i => xs[i]?
      | .error _ => none) = xs.find? (fun x => key x = k) := by
  have hAsc := ascending_of_sorted (h.imp fun hab => le_of_lt hab) k
  cases hs : binarySearchBy (fun x => compare (key x) k) xs with
  | ok i =>
    obtain ⟨hi, hEq⟩ := binarySearchBy_ok hs
    rw [compare_eq_iff_eq] at hEq
    symm
    dsimp only
    rw [getElem?_eq_getElem hi, find?_eq_some_iff_getElem]
    refine ⟨by simpa using hEq, i, hi, rfl, ?_⟩
    intro j hj
    have hLess := pairwise_iff_getElem.mp h j i (by omega) hi hj
    simp only [decide_eq_false_iff_not, Bool.not_eq_true', ← hEq]
    exact ne_of_lt hLess
  | error i =>
    symm
    rw [find?_eq_none]
    intro x hx
    have hNe := binarySearchBy_error_ne hAsc hs x hx
    rw [ne_eq, compare_eq_iff_eq] at hNe
    simpa using hNe

/-- In any list `partitionPoint` is behind an element that satisfies `p` and before one that does
not. -/
theorem partitionPoint_boundary (p : α → Bool) (xs : List α) :
    partitionPoint p xs ≤ xs.length ∧
      (∀ i, partitionPoint p xs = i + 1 → ∃ x, xs[i]? = some x ∧ p x = true) ∧
      ∀ x, xs[partitionPoint p xs]? = some x → p x = false := by
  set f := fun x => if p x then Ordering.lt else .gt
  have hCompare : ∀ {i : Nat} {x : α}, xs[i]? = some x →
      compareAt f xs i = if p x then .lt else .gt := by
    intro i x hx
    rw [compareAt, hx]
    rfl
  rw [partitionPoint, binarySearchBy, searchIndex]
  by_cases hEmpty : xs.length = 0
  · have hNil := eq_nil_of_length_eq_zero hEmpty
    subst hNil
    exact ⟨le_refl _, nofun, nofun⟩
  · rw [if_neg hEmpty]
    have hBoundary := @searchLoop_boundary
      (compareAt f xs) xs.length xs.length xs.length 0
      (le_refl _) (by omega) (by omega) (.inl rfl) (.inl (by omega))
    obtain ⟨hLeft, hRight⟩ := hBoundary
    have hLt := searchLoop_lt (n := xs.length)
      (compareAt f xs) xs.length xs.length 0
      (by omega) (by omega)
    dsimp only
    generalize searchLoop (compareAt f xs) xs.length
      xs.length 0 = r at hLeft hRight hLt
    obtain ⟨x, hx⟩ : ∃ x, xs[r]? = some x := ⟨xs[r], getElem?_eq_getElem hLt⟩
    rw [hCompare hx] at hLeft ⊢
    cases hp : p x with
    | true =>
      change r + 1 ≤ xs.length ∧ (∀ i, r + 1 = i + 1 → ∃ x, xs[i]? = some x ∧ p x = true) ∧
        ∀ x, xs[r + 1]? = some x → p x = false
      refine ⟨hLt, ?_, ?_⟩
      · rintro i ⟨⟩
        exact ⟨x, hx, hp⟩
      · intro y hy
        rcases hRight with hEnd | hGt
        · rw [getElem?_eq_none (by omega)] at hy
          cases hy
        · rw [hCompare hy] at hGt
          by_contra hpy
          rw [if_pos (by simpa using hpy)] at hGt
          cases hGt
    | false =>
      rw [hp, if_neg Bool.false_ne_true] at hLeft
      have hZero : r = 0 := hLeft.resolve_right fun h => h rfl
      subst hZero
      refine ⟨Nat.zero_le _, nofun, ?_⟩
      intro y hy
      change xs[0]? = some y at hy
      rw [hx] at hy
      cases hy
      exact hp

/-- On a list whose elements satisfy `p` first and then do not, `partitionPoint` is the
boundary. -/
theorem partitionPoint_spec {p : α → Bool} (h : xs.Pairwise fun a b => p b = true → p a = true) :
    partitionPoint p xs ≤ xs.length ∧
      (∀ j (hj : j < xs.length), j < partitionPoint p xs → p xs[j] = true) ∧
      ∀ j (hj : j < xs.length), partitionPoint p xs ≤ j → p xs[j] = false := by
  have hAsc : Ascending (fun x => if p x then Ordering.lt else .gt) xs := by
    refine h.imp ?_
    intro a b hab
    cases ha : p a <;> cases hb : p b <;> simp_all
  unfold partitionPoint
  cases hs : binarySearchBy (fun x => if p x then Ordering.lt else .gt) xs with
  | ok i =>
    obtain ⟨hi, hEq⟩ := binarySearchBy_ok hs
    split at hEq <;> cases hEq
  | error i =>
    obtain ⟨hLe, hLeft, hRight⟩ := binarySearchBy_error hAsc hs
    refine ⟨hLe, ?_, ?_⟩
    · intro j hj hji
      have := hLeft j hj hji
      by_contra hp
      simp [hp] at this
    · intro j hj hij
      have := hRight j hj hij
      by_contra hp
      simp [hp] at this

/-! ## Scanning for a key -/

theorem find?_of_nodup [DecidableEq κ] (h : (xs.map key).Nodup) {x : α} (hx : x ∈ xs) :
    xs.find? (fun y => key y = key x) = some x := by
  cases hFind : xs.find? (fun y => key y = key x) with
  | none => exact absurd (find?_eq_none.mp hFind x hx) (by simp)
  | some y =>
    have hKey : key y = key x := by simpa using find?_some hFind
    rw [inj_on_of_nodup_map h (mem_of_find?_eq_some hFind) hx hKey]

theorem find?_eq_of_perm [DecidableEq κ] (hPerm : xs.Perm ys) (h : (ys.map key).Nodup) (k : κ) :
    xs.find? (fun x => key x = k) = ys.find? fun x => key x = k := by
  cases hFind : xs.find? (fun x => key x = k) with
  | none =>
    symm
    rw [find?_eq_none] at hFind ⊢
    exact fun x hx => hFind x (hPerm.mem_iff.mpr hx)
  | some x =>
    have hKey : key x = k := by simpa using find?_some hFind
    subst hKey
    exact (find?_of_nodup h (hPerm.mem_iff.mp (mem_of_find?_eq_some hFind))).symm

/-- Scans of one collection in two orders agree when no query finds elements that differ: of two
such elements that it asks for, an earlier element in one of the orders is also asked for. -/
theorem find?_map_agree_iff {δ : Type} {p : γ → α → Bool} {f : α → δ} (hPerm : xs.Perm ys) :
    (∀ q, (xs.find? (p q)).map f = (ys.find? (p q)).map f) ↔
      ∀ front a back front' b back', xs = front ++ a :: back → ys = front' ++ b :: back' →
        f a ≠ f b → ∀ q, p q a = true → p q b = true → ∃ c ∈ front ++ front', p q c = true := by
  constructor
  · intro h front a back front' b back' hxs hys hNe q ha hb
    by_contra hNone
    push Not at hNone
    have hFirst : ∀ {zs front back : List α} {c : α}, zs = front ++ c :: back → p q c = true →
        (∀ d ∈ front, p q d ≠ true) → zs.find? (p q) = some c := by
      rintro zs front back c rfl hc hFront
      exact find?_eq_some_iff_append.mpr ⟨hc, front, back, rfl, fun d hd => by
        simpa using hFront d hd⟩
    have hq := h q
    rw [hFirst hxs ha fun d hd => hNone d (mem_append_left _ hd),
      hFirst hys hb fun d hd => hNone d (mem_append_right _ hd)] at hq
    exact hNe (Option.some.inj hq)
  · intro h q
    cases hx : xs.find? (p q) with
    | none =>
      have hy : ys.find? (p q) = none := by
        rw [find?_eq_none] at hx ⊢
        exact fun a ha => hx a (hPerm.mem_iff.mpr ha)
      rw [hy]
    | some a =>
      obtain ⟨ha, front, back, hxs, hFront⟩ := find?_eq_some_iff_append.mp hx
      have hSome : (ys.find? (p q)).isSome := find?_isSome.mpr
        ⟨a, hPerm.mem_iff.mp (mem_of_find?_eq_some hx), ha⟩
      obtain ⟨b, hy⟩ := isSome_iff_exists.mp hSome
      obtain ⟨hb, front', back', hys, hFront'⟩ := find?_eq_some_iff_append.mp hy
      rw [hy, map_some, map_some]
      by_contra hNe
      obtain ⟨c, hc, hMatch⟩ := h front a back front' b back' hxs hys
        (fun hEq => hNe (congrArg some hEq)) q ha hb
      rcases mem_append.mp hc with hc | hc
      · exact absurd hMatch (by simpa using hFront c hc)
      · exact absurd hMatch (by simpa using hFront' c hc)

/-! ## Lists that correspond element by element -/

section Forall₂

variable {β : Type} {rel : α → β → Prop} {xs : List α} {ys : List β}

theorem forall₂_mem_left (h : Forall₂ rel xs ys) {x : α} (hx : x ∈ xs) : ∃ y ∈ ys, rel x y := by
  induction h with
  | nil => cases hx
  | @cons x' y' xs ys hRel _ ih =>
    rcases mem_cons.mp hx with rfl | hx
    · exact ⟨y', mem_cons_self, hRel⟩
    · obtain ⟨y, hy, hRel⟩ := ih hx
      exact ⟨y, mem_cons_of_mem y' hy, hRel⟩

theorem forall₂_mem_right (h : Forall₂ rel xs ys) {y : β} (hy : y ∈ ys) : ∃ x ∈ xs, rel x y :=
  forall₂_mem_left (Forall₂.flip h) hy

theorem forall₂_map_eq {f : α → γ} {g : β → γ}
    (h : Forall₂ (fun x y => f x = g y) xs ys) : xs.map f = ys.map g := by
  induction h with
  | nil => rfl
  | cons hEq _ ih => rw [map_cons, map_cons, hEq, ih]

end Forall₂

/-! ## Pairs that are not related -/

theorem exists_append_of_not_pairwise {rel : α → α → Prop} (h : ¬ xs.Pairwise rel) :
    ∃ front a middle b back, xs = front ++ a :: (middle ++ b :: back) ∧ ¬ rel a b := by
  induction xs with
  | nil => exact absurd .nil h
  | cons x xs ih =>
    by_cases hTail : xs.Pairwise rel
    · have hHead : ¬ ∀ b ∈ xs, rel x b := fun hAll => h (pairwise_cons.mpr ⟨hAll, hTail⟩)
      simp only [not_forall] at hHead
      obtain ⟨b, hb, hRel⟩ := hHead
      obtain ⟨middle, back, rfl⟩ := append_of_mem hb
      exact ⟨[], x, middle, b, back, rfl, hRel⟩
    · obtain ⟨front, a, middle, b, back, rfl, hRel⟩ := ih hTail
      exact ⟨x :: front, a, middle, b, back, rfl, hRel⟩

end Cascette.Lib
