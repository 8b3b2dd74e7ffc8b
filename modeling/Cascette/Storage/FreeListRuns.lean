import Cascette.Lib.Intervals
import Cascette.Storage.Segment

/-!
# Runs of a free list

The spans of a free list are separated intervals: an insertion joins the spans that it touches, and
an allocation cuts the front of a span off. A run of insertions and allocations keeps the bytes that
are free as such a list, and a request is refused exactly when no stretch of free bytes is long
enough (`FreeRun.run_spec`).
-/

namespace Cascette.Storage

open Lib List UInt32 SegmentAllocator

/-- The first byte of a span and the byte behind it. -/
def FreeSpan.interval (span : FreeSpan) : Nat × Nat :=
  (span.offset.toNat, span.offset.toNat + span.length.toNat)

/-- The span begins at `low` or behind it and ends at `high` or before it. -/
def FreeSpan.Within (low high : Nat) (span : FreeSpan) : Prop :=
  low ≤ span.offset.toNat ∧ span.offset.toNat + span.length.toNat ≤ high

/-- The end of the span is an offset. A span that ends at 2 ^ 32 is not in range: its end saturates,
and a merge loses its last byte. -/
def FreeSpan.InRange (span : FreeSpan) : Prop := span.offset.toNat + span.length.toNat < 2 ^ 32

namespace FreeList

def intervals (spans : List FreeSpan) : List (Nat × Nat) := spans.map FreeSpan.interval

/-- The spans are in the order of their offsets, none of them is empty, and between two of them is
at least one byte. -/
structure Coalesced (spans : List FreeSpan) : Prop where
  separated : Separated (intervals spans)
  inRange : ∀ span ∈ spans, span.InRange

def bytes (spans : List FreeSpan) : Set Nat := {x | ∃ span ∈ spans, x ∈ span.bytes}

theorem mem_intervals {spans : List FreeSpan} {i : Nat × Nat} :
    i ∈ intervals spans ↔ ∃ span ∈ spans, span.interval = i := mem_map

theorem intervals_append (front back : List FreeSpan) :
    intervals (front ++ back) = intervals front ++ intervals back := map_append

theorem intervals_cons (span : FreeSpan) (spans : List FreeSpan) :
    intervals (span :: spans) = span.interval :: intervals spans := rfl

end FreeList

variable {span : FreeSpan}

theorem FreeSpan.InRange.bytes_eq (h : span.InRange) :
    span.bytes = Set.Ico span.offset.toNat (span.offset.toNat + span.length.toNat) := by
  ext x
  exact FreeSpan.mem_bytes_iff (le_of_lt h)

theorem FreeSpan.InRange.toNat_stop (h : span.InRange) :
    span.stop.toNat = span.offset.toNat + span.length.toNat := by
  rw [stop, toNat_saturatingAdd, Nat.min_eq_left]
  exact Nat.le_pred_of_lt h

theorem FreeSpan.InRange.within (h : span.InRange) :
    span.Within 0 (2 ^ 32 - 1) := ⟨Nat.zero_le _, Nat.le_pred_of_lt h⟩

namespace FreeList

theorem offset_le_newEnd (offset length : UInt32) : offset ≤ saturatingAdd offset length := by
  have hLt := offset.toNat_lt
  rw [le_iff_toNat_le, toNat_saturatingAdd]
  omega

variable {newEnd offset : UInt32} {spans : List FreeSpan}

theorem interval_joined (first : FreeSpan) {last : FreeSpan}
    (hEnd : offset ≤ newEnd) (hLast : last.InRange) :
    (⟨min first.offset offset, max last.stop newEnd - min first.offset offset⟩ :
        FreeSpan).interval =
      (min first.interval.1 offset.toNat, max last.interval.2 newEnd.toNat) := by
  have hLow := toNat_min first.offset offset
  have hHigh := toNat_max last.stop newEnd
  rw [le_iff_toNat_le] at hEnd
  have hOrder : min first.offset offset ≤ max last.stop newEnd := le_iff_toNat_le.mpr (by omega)
  have hLength := UInt32.toNat_sub_of_le _ _ hOrder
  rw [hLast.toNat_stop] at hHigh
  refine Prod.ext hLow ?_
  dsimp only [FreeSpan.interval] at *
  omega

theorem mem_of_mem_touching {span : FreeSpan}
    (hSpan : span ∈ touchingLeft spans offset ++ touchingRight spans offset newEnd) :
    span ∈ spans :=
  (perm_touching spans offset newEnd).mem_iff.mpr (mem_append_left _ hSpan)

/-! ## Spans between two bounds -/

section Within

variable {low high : Nat} {spans : List FreeSpan}

theorem within_insert (hHigh : high < 2 ^ 32) (h : ∀ span ∈ spans, span.Within low high)
    {length : UInt32} (hNew : length ≠ 0 → (⟨offset, length⟩ : FreeSpan).Within low high) :
    ∀ span ∈ insert spans offset length, span.Within low high := by
  intro span hSpan
  rw [insert] at hSpan
  split at hSpan
  · exact h span hSpan
  rename_i hPos
  dsimp only at hSpan
  split at hSpan
  next first last hFirst hLast =>
    rcases mem_append.mp hSpan with hSpan | hSpan
    · exact h span (mem_of_mem_take hSpan)
    rcases mem_cons.mp hSpan with rfl | hSpan
    · obtain ⟨hFirstLow, -⟩ := h first (mem_of_mem_touching (mem_of_mem_head? hFirst))
      obtain ⟨-, hLastHigh⟩ := h last (mem_of_mem_touching (mem_of_getLast? hLast))
      obtain ⟨hNewLow, hNewHigh⟩ := hNew hPos
      have hInterval := interval_joined first (offset_le_newEnd offset length)
        (show last.InRange from lt_of_le_of_lt hLastHigh hHigh)
      have hNewEnd := toNat_saturatingAdd offset length
      have hStart := congrArg Prod.fst hInterval
      have hStop := congrArg Prod.snd hInterval
      dsimp only [FreeSpan.Within, FreeSpan.interval] at *
      omega
    · exact h span (mem_of_mem_drop hSpan)
  · rcases mem_append.mp hSpan with hSpan | hSpan
    · exact h span (mem_of_mem_take hSpan)
    rcases mem_cons.mp hSpan with rfl | hSpan
    · exact hNew hPos
    · exact h span (mem_of_mem_drop hSpan)

theorem within_allocate (hHigh : high < 2 ^ 32) (h : ∀ span ∈ spans, span.Within low high)
    {size : UInt32} {rest : List FreeSpan}
    (hAllocate : allocate size spans = some (offset, rest)) :
    (⟨offset, size⟩ : FreeSpan).Within low high ∧ ∀ span ∈ rest, span.Within low high := by
  obtain ⟨before, span, after, rfl, rfl, hSize, rfl⟩ := allocate_eq_some hAllocate
  obtain ⟨hLow, hStop⟩ := h span (mem_append_right _ mem_cons_self)
  have hFits := le_iff_toNat_le.mp hSize
  refine ⟨⟨hLow, by dsimp only; omega⟩, fun other hOther => ?_⟩
  rcases mem_append.mp hOther with hOther | hOther
  · exact h other (mem_append_left _ hOther)
  rcases mem_append.mp hOther with hOther | hOther
  · have hEq : other = ⟨span.offset + size, span.length - size⟩ := by
      unfold remainder at hOther
      split at hOther
      · cases hOther
      · exact mem_singleton.mp hOther
    have hOffset := UInt32.toNat_add span.offset size
    have hLength := UInt32.toNat_sub_of_le _ _ hSize
    subst hEq
    dsimp only [FreeSpan.Within]
    omega
  · exact h other (mem_append_right _ (mem_cons_of_mem _ hOther))

end Within

theorem Coalesced.bytes_eq (h : Coalesced spans) : bytes spans = covered (intervals spans) := by
  ext x
  constructor
  · rintro ⟨span, hSpan, hx⟩
    rw [(h.inRange span hSpan).bytes_eq] at hx
    exact ⟨span.interval, mem_map_of_mem hSpan, hx⟩
  · rintro ⟨i, hi, hx⟩
    obtain ⟨span, hSpan, rfl⟩ := mem_intervals.mp hi
    refine ⟨span, hSpan, ?_⟩
    rw [(h.inRange span hSpan).bytes_eq]
    exact hx

theorem Coalesced.nil : Coalesced [] := ⟨⟨nofun, List.Pairwise.nil⟩, nofun⟩

namespace Coalesced

variable {spans : List FreeSpan}

theorem apart (h : Coalesced spans) : spans.Pairwise fun a b =>
    a.offset.toNat + a.length.toNat < b.offset.toNat :=
  pairwise_map.mp h.separated.apart

/-! ## Insertion -/

theorem place_spec (h : Coalesced spans) (offset : UInt32) :
    (∀ span ∈ spans.take (place spans offset), span.offset.toNat < offset.toNat) ∧
      ∀ span ∈ spans.drop (place spans offset), offset.toNat ≤ span.offset.toNat := by
  have hSorted : spans.Pairwise fun a b =>
      decide (b.offset < offset) = true → decide (a.offset < offset) = true := by
    refine h.apart.imp fun {a b} hLt hb => ?_
    have hBefore := lt_iff_toNat_lt.mp (of_decide_eq_true hb)
    exact decide_eq_true (lt_iff_toNat_lt.mpr (by omega))
  obtain ⟨-, hLeft, hRight⟩ := partitionPoint_spec hSorted
  constructor
  · intro span hSpan
    obtain ⟨i, hi, rfl⟩ := mem_take_iff_getElem.mp hSpan
    have hBefore := hLeft i (by omega) (by unfold place at hi; omega)
    exact lt_iff_toNat_lt.mp (of_decide_eq_true hBefore)
  · intro span hSpan
    obtain ⟨i, hi, rfl⟩ := mem_drop_iff_getElem.mp hSpan
    have hBehind := hRight (place spans offset + i) (by omega) (Nat.le_add_right _ _)
    exact not_lt.mp fun hLt => of_decide_eq_false hBehind (lt_iff_toNat_lt.mpr hLt)

variable {offset length size : UInt32} {span : FreeSpan}

variable (h : Coalesced spans)
include h

theorem stop_lt_of_mem_front
    (hSpan : span ∈ spans.take (place spans offset - (touchingLeft spans offset).length)) :
    span.offset.toNat + span.length.toNat < offset.toNat := by
  have hParts := take_append_touchingLeft spans offset
  have hApart : (spans.take (place spans offset)).Pairwise fun a b =>
      a.offset.toNat + a.length.toNat < b.offset.toNat := h.apart.sublist (take_sublist _ _)
  have hBefore := (h.place_spec offset).1
  cases hLast : (spans.take (place spans offset)).getLast? with
  | none =>
    have hNil := getLast?_eq_none_iff.mp hLast
    rw [hNil] at hParts
    rw [(append_eq_nil_iff.mp hParts).1] at hSpan
    cases hSpan
  | some last =>
    obtain ⟨init, hInit⟩ := getLast?_eq_some_iff.mp hLast
    have hLastBefore := hBefore last (mem_of_getLast? hLast)
    rw [hInit] at hApart
    have hGap := (pairwise_append.mp hApart).2.2
    have hMem : span ∈ init ∨ span = last ∧ ¬ last.stop ≥ offset := by
      by_cases hTouch : last.stop ≥ offset
      · have hLeft : touchingLeft spans offset = [last] := by
          simp only [touchingLeft, hLast, if_pos hTouch]
        rw [hLeft, hInit] at hParts
        rw [hLeft, append_inj_left' hParts rfl] at hSpan
        exact .inl hSpan
      · have hLeft : touchingLeft spans offset = [] := by
          simp only [touchingLeft, hLast, if_neg hTouch]
        rw [hLeft, length_nil, Nat.sub_zero, hInit] at hSpan
        rcases mem_append.mp hSpan with hSpan | hSpan
        · exact .inl hSpan
        · exact .inr ⟨mem_singleton.mp hSpan, hTouch⟩
    rcases hMem with hMem | ⟨rfl, hTouch⟩
    · have := hGap span hMem last (mem_singleton_self _)
      omega
    · have hRange := h.inRange span (mem_of_mem_take (mem_of_getLast? hLast))
      rw [ge_iff_le, le_iff_toNat_le, hRange.toNat_stop] at hTouch
      omega

theorem lt_offset_of_mem_back
    (hSpan : span ∈ spans.drop (place spans offset + (touchingRight spans offset newEnd).length)) :
    newEnd.toNat < span.offset.toNat := by
  have hBack : spans.drop (place spans offset + (touchingRight spans offset newEnd).length) =
      (spans.drop (place spans offset)).dropWhile fun span => span.offset ≤ newEnd := by
    have hParts := touchingRight_append_drop spans offset newEnd
    rw [← takeWhile_append_dropWhile (p := fun span : FreeSpan => span.offset ≤ newEnd)
      (l := spans.drop (place spans offset))] at hParts
    exact append_cancel_left hParts
  rw [hBack] at hSpan
  cases hRest : (spans.drop (place spans offset)).dropWhile fun span => span.offset ≤ newEnd with
  | nil =>
    rw [hRest] at hSpan
    cases hSpan
  | cons first rest =>
    have hFirst : newEnd.toNat < first.offset.toNat := by
      have hHead := head?_dropWhile_not (fun span : FreeSpan => decide (span.offset ≤ newEnd))
        (spans.drop (place spans offset))
      rw [hRest] at hHead
      exact not_le.mp fun hLe => of_decide_eq_false hHead (le_iff_toNat_le.mpr hLe)
    have hApart : (first :: rest).Pairwise fun a b =>
        a.offset.toNat + a.length.toNat < b.offset.toNat :=
      hRest ▸ (h.apart.sublist (drop_sublist _ _)).sublist (dropWhile_sublist _)
    rw [hRest] at hSpan
    rcases mem_cons.mp hSpan with rfl | hSpan
    · exact hFirst
    · have := (pairwise_cons.mp hApart).1 span hSpan
      omega

theorem touch_of_mem (hEnd : offset ≤ newEnd)
    (hSpan : span ∈ touchingLeft spans offset ++ touchingRight spans offset newEnd) :
    span.offset.toNat ≤ newEnd.toNat ∧ offset.toNat ≤ span.offset.toNat + span.length.toNat := by
  obtain ⟨hBefore, hBehind⟩ := h.place_spec offset
  rw [le_iff_toNat_le] at hEnd
  rcases mem_append.mp hSpan with hSpan | hSpan
  · obtain ⟨hLast, hStop⟩ := mem_touchingLeft hSpan
    have hMem := mem_of_getLast? hLast
    have hLt := hBefore span hMem
    rw [ge_iff_le, le_iff_toNat_le, (h.inRange span (mem_of_mem_take hMem)).toNat_stop] at hStop
    omega
  · have hBegins : decide (span.offset ≤ newEnd) = true :=
      mem_takeWhile_imp (p := fun span : FreeSpan => decide (span.offset ≤ newEnd)) hSpan
    have hLe := hBehind span ((takeWhile_sublist _).subset hSpan)
    exact ⟨le_iff_toNat_le.mp (of_decide_eq_true hBegins), by omega⟩

omit h

theorem intervals_eq (spans : List FreeSpan) (offset newEnd : UInt32) :
    intervals spans =
      intervals (spans.take (place spans offset - (touchingLeft spans offset).length)) ++
        (intervals (touchingLeft spans offset ++ touchingRight spans offset newEnd) ++
          intervals (spans.drop (place spans offset +
            (touchingRight spans offset newEnd).length))) := by
  rw [← intervals_append, ← intervals_append, append_assoc, touchingRight_append_drop,
    ← append_assoc, take_append_touchingLeft, take_append_drop]

variable (h : Coalesced spans)
include h

theorem inRange_insert (hRange : (⟨offset, length⟩ : FreeSpan).InRange) :
    ∀ span ∈ insert spans offset length, span.InRange := by
  intro span hSpan
  have hBound : (2 ^ 32 - 1 : Nat) < 2 ^ 32 := by decide
  have hWithin : span.Within 0 (2 ^ 32 - 1) :=
    within_insert hBound (fun other hOther => (h.inRange other hOther).within)
      (fun _ => hRange.within) span hSpan
  exact lt_of_le_of_lt hWithin.2 hBound

/-- The intervals after an insertion are those that are not touched and one more, which is the new
span with all that it touches. -/
theorem separated_insert (hPos : length ≠ 0) (hRange : (⟨offset, length⟩ : FreeSpan).InRange) :
    Separated (intervals (insert spans offset length)) ∧
      covered (intervals (insert spans offset length)) =
        covered (intervals spans) ∪ Set.Ico offset.toNat (offset.toNat + length.toNat) := by
  set newEnd := saturatingAdd offset length
  have hNewEnd : newEnd.toNat = offset.toNat + length.toNat := hRange.toNat_stop
  have hEnd := offset_le_newEnd offset length
  have hLt : offset.toNat < newEnd.toNat := by
    have hLength : length.toNat ≠ 0 := fun hZero => hPos (UInt32.toNat_inj.mp hZero)
    omega
  have hFront : ∀ i ∈ intervals
      (spans.take (place spans offset - (touchingLeft spans offset).length)),
      i.2 < offset.toNat := by
    intro i hi
    obtain ⟨span, hSpan, rfl⟩ := mem_intervals.mp hi
    exact h.stop_lt_of_mem_front hSpan
  have hBack : ∀ i ∈ intervals (spans.drop (place spans offset +
      (touchingRight spans offset newEnd).length)),
      newEnd.toNat < i.1 := by
    intro i hi
    obtain ⟨span, hSpan, rfl⟩ := mem_intervals.mp hi
    exact h.lt_offset_of_mem_back hSpan
  have hSeparated := h.separated
  rw [← hNewEnd]
  rw [intervals_eq spans offset newEnd] at hSeparated ⊢
  rw [insert, if_neg hPos]
  dsimp only
  split
  next first last hFirst hLast =>
    have hHead : (intervals (touchingLeft spans offset ++
        touchingRight spans offset newEnd)).head? =
          some first.interval := by rw [intervals, head?_map, hFirst]; rfl
    have hTail : (intervals (touchingLeft spans offset ++
        touchingRight spans offset newEnd)).getLast? =
          some last.interval := by rw [intervals, getLast?_map, hLast]; rfl
    rw [intervals_append, intervals_cons, interval_joined first hEnd (h.inRange last
    (mem_of_mem_touching (mem_of_getLast? hLast)))]
    refine hSeparated.join hHead hTail hLt (fun i hi => ?_) hFront hBack
    obtain ⟨span, hSpan, rfl⟩ := mem_intervals.mp hi
    exact h.touch_of_mem hEnd hSpan
  next hNone =>
    have hNil : touchingLeft spans offset ++ touchingRight spans offset newEnd = [] := by
      by_contra hNe
      exact hNone _ _ (head?_eq_some_head hNe) (getLast?_eq_some_getLast hNe)
    obtain ⟨hLeft, hRight⟩ := append_eq_nil_iff.mp hNil
    rw [hLeft, length_nil, Nat.sub_zero] at hFront hSeparated ⊢
    rw [hRight, length_nil, Nat.add_zero] at hBack hSeparated ⊢
    rw [intervals_append, intervals_cons]
    have hInterval : (⟨offset, length⟩ : FreeSpan).interval =
        (offset.toNat, newEnd.toNat) := by rw [hNewEnd]; rfl
    rw [hInterval]
    refine ⟨hSeparated.insert hLt hFront hBack, ?_⟩
    rw [covered_append, covered_cons, covered_append, append_nil]
    exact (Set.union_left_comm _ _ _).trans (Set.union_comm _ _)

theorem insert_spec (hRange : (⟨offset, length⟩ : FreeSpan).InRange) :
    Coalesced (insert spans offset length) ∧
      bytes (insert spans offset length) = bytes spans ∪ (⟨offset, length⟩ : FreeSpan).bytes := by
  by_cases hZero : length = 0
  · subst hZero
    rw [insert, if_pos rfl, hRange.bytes_eq]
    refine ⟨h, ?_⟩
    change _ = _ ∪ Set.Ico offset.toNat offset.toNat
    rw [Set.Ico_self, Set.union_empty]
  · obtain ⟨hSeparated, hCovered⟩ := h.separated_insert hZero hRange
    have hAfter : Coalesced (insert spans offset length) := ⟨hSeparated, h.inRange_insert hRange⟩
    exact ⟨hAfter, by rw [hAfter.bytes_eq, hCovered, h.bytes_eq, hRange.bytes_eq]⟩

omit h

/-! ## Allocation -/

theorem intervals_remainder (hRange : span.InRange) (hSize : size ≤ span.length) :
    intervals (remainder span size) = [] ∧
        span.offset.toNat + size.toNat = span.offset.toNat + span.length.toNat ∨
      intervals (remainder span size) =
          [(span.offset.toNat + size.toNat, span.offset.toNat + span.length.toNat)] ∧
        span.offset.toNat ≤ span.offset.toNat + size.toNat ∧
        span.offset.toNat + size.toNat < span.offset.toNat + span.length.toNat := by
  have hFits := le_iff_toNat_le.mp hSize
  unfold remainder
  split
  next hEq =>
    exact .inl ⟨rfl, by rw [hEq]⟩
  next hNe =>
    have hLt : size.toNat ≠ span.length.toNat := fun hEq => hNe (UInt32.toNat_inj.mp hEq.symm)
    have hOffset : (span.offset + size).toNat = span.offset.toNat + size.toNat := by
      rw [UInt32.toNat_add]
      dsimp only [FreeSpan.InRange] at hRange
      omega
    have hLength := UInt32.toNat_sub_of_le _ _ hSize
    refine .inr ⟨?_, by omega, by omega⟩
    refine congrArg (fun i => [i]) (Prod.ext hOffset ?_)
    dsimp only [FreeSpan.interval]
    omega

theorem allocate_spec (h : Coalesced spans) {rest : List FreeSpan}
    (hAllocate : allocate size spans = some (offset, rest)) :
    Coalesced rest ∧ bytes rest = bytes spans \ (⟨offset, size⟩ : FreeSpan).bytes := by
  have hBound : (2 ^ 32 - 1 : Nat) < 2 ^ 32 := by decide
  have hWithin := within_allocate hBound (fun other hOther => (h.inRange other hOther).within)
    hAllocate
  obtain ⟨before, span, after, rfl, rfl, hSize, rfl⟩ := allocate_eq_some hAllocate
  have hSpanRange := h.inRange span (mem_append_right _ mem_cons_self)
  have hTakenRange : (⟨span.offset, size⟩ : FreeSpan).InRange := lt_of_le_of_lt hWithin.1.2 hBound
  have hSeparated := h.separated
  rw [intervals_append, intervals_cons] at hSeparated
  obtain ⟨hAfter, hCovered⟩ := hSeparated.cut (intervals_remainder hSpanRange hSize)
  rw [← intervals_append, ← intervals_append] at hAfter hCovered
  have hRest : Coalesced (before ++ (remainder span size ++ after)) :=
    ⟨hAfter, fun other hOther => lt_of_le_of_lt (hWithin.2 other hOther).2 hBound⟩
  refine ⟨hRest, ?_⟩
  rw [hRest.bytes_eq, hCovered, h.bytes_eq, hTakenRange.bytes_eq, intervals_append, intervals_cons]
  rfl

/-- A request is refused if every run of free bytes is too short. -/
theorem allocate_eq_none_iff (h : Coalesced spans) (size : UInt32) :
    allocate size spans = none ↔ ∀ a b, MaximalRun (bytes spans) a b → b - a < size.toNat := by
  have hShort : allocate size spans = none ↔ ∀ span ∈ spans, span.length.toNat < size.toNat := by
    rw [← Option.not_isSome_iff_eq_none, isSome_freeList_allocate, any_eq_true]
    simp only [decide_eq_true_eq, not_exists, not_and, not_le]
  rw [hShort, h.bytes_eq]
  constructor
  · intro hSpans a b hRun
    obtain ⟨span, hSpan, hInterval⟩ := mem_intervals.mp (h.separated.maximalRun_iff.mp hRun)
    cases hInterval
    have := hSpans span hSpan
    omega
  · intro hRuns span hSpan
    have hRun := hRuns _ _ (h.separated.maximalRun_iff.mpr (mem_map_of_mem hSpan))
    omega

end Coalesced

end FreeList

/-! ## Runs -/

/-- A call on the free lists: an insertion into the list of a segment, a request to the list of a
segment, or a request to all lists in turn. -/
inductive FreeCall
  | insert (segment : Nat) (offset length : UInt32)
  | allocateIn (segment : Nat) (size : UInt32)
  | allocate (size : UInt32)

def FreeCall.InRange : FreeCall → Prop
  | .insert _ offset length => (⟨offset, length⟩ : FreeSpan).InRange
  | .allocateIn _ _ => True
  | .allocate _ => True

/-- The free lists, and beside them the bytes of each segment that were inserted and not allocated
since. -/
structure FreeRun where
  allocator : SegmentAllocator
  free : Nat → Set Nat

namespace FreeRun

def start (allocator : SegmentAllocator) : FreeRun := { allocator, free := fun _ => ∅ }

/-- The bytes of a segment change. -/
def change (state : FreeRun) (freeLists : List (List FreeSpan)) (segment : Nat) (bytes : Set Nat) :
    FreeRun :=
  { allocator := { state.allocator with freeLists }
    free := Function.update state.free segment bytes }

def step (state : FreeRun) : FreeCall → FreeRun
  | .insert segment offset length =>
    state.change (state.allocator.freeSpan segment offset length).freeLists segment
      (state.free segment ∪ (⟨offset, length⟩ : FreeSpan).bytes)
  | .allocateIn segment size =>
    match FreeList.allocate size (state.allocator.freeIn segment) with
    | some (offset, rest) =>
      state.change (state.allocator.freeLists.set segment rest) segment
        (state.free segment \ (⟨offset, size⟩ : FreeSpan).bytes)
    | none => state
  | .allocate size =>
    match SegmentAllocator.allocateFree size state.allocator.freeLists with
    | some (segment, offset, freeLists) =>
      state.change freeLists segment (state.free segment \ (⟨offset, size⟩ : FreeSpan).bytes)
    | none => state

def run (start : FreeRun) (calls : List FreeCall) : FreeRun := calls.foldl step start

/-- Each list is coalesced and holds the free bytes of its segment. -/
def Tracks (state : FreeRun) : Prop :=
  ∀ segment, FreeList.Coalesced (state.allocator.freeIn segment) ∧
    FreeList.bytes (state.allocator.freeIn segment) = state.free segment

namespace Tracks

variable {state : FreeRun} {spans : List FreeSpan} {segment : Nat}

variable (h : state.Tracks)
include h

theorem change {freeLists : List (List FreeSpan)} {bytes : Set Nat}
    (hLists : ∀ t, SegmentAllocator.freeIn { state.allocator with freeLists } t =
      if t = segment then spans else state.allocator.freeIn t)
    (hSpans : FreeList.Coalesced spans ∧ FreeList.bytes spans = bytes) :
    (state.change freeLists segment bytes).Tracks := by
  intro t
  change FreeList.Coalesced (SegmentAllocator.freeIn { state.allocator with freeLists } t) ∧
    FreeList.bytes (SegmentAllocator.freeIn { state.allocator with freeLists } t) =
      Function.update state.free segment bytes t
  rw [hLists]
  by_cases hEq : t = segment
  · subst hEq
    rwa [if_pos rfl, Function.update_self]
  · rw [if_neg hEq, Function.update_of_ne hEq]
    exact h t

theorem take {size offset : UInt32} {rest : List FreeSpan}
    (hSpans : state.allocator.freeLists[segment]? = some spans)
    (hAllocate : FreeList.allocate size spans = some (offset, rest)) :
    (state.change (state.allocator.freeLists.set segment rest) segment
      (state.free segment \ (⟨offset, size⟩ : FreeSpan).bytes)).Tracks := by
  have hFree : state.allocator.freeIn segment = spans := by
    rw [SegmentAllocator.freeIn, hSpans, Option.getD_some]
  obtain ⟨hCoalesced, hBytes⟩ := h segment
  rw [hFree] at hCoalesced hBytes
  rw [← hBytes]
  exact h.change (freeIn_set hSpans) (hCoalesced.allocate_spec hAllocate)

theorem step {call : FreeCall} (hCall : call.InRange) : (state.step call).Tracks := by
  cases call with
  | insert segment offset length =>
    obtain ⟨hCoalesced, hBytes⟩ := h segment
    rw [FreeRun.step, ← hBytes]
    exact h.change (freeIn_freeSpan state.allocator segment offset length)
      (hCoalesced.insert_spec hCall)
  | allocateIn segment size =>
    rw [FreeRun.step]
    split
    next offset rest hAllocate =>
      cases hSpans : state.allocator.freeLists[segment]? with
      | none =>
        rw [SegmentAllocator.freeIn, hSpans] at hAllocate
        cases hAllocate
      | some spans =>
        rw [SegmentAllocator.freeIn, hSpans] at hAllocate
        exact h.take hSpans hAllocate
    · exact h
  | allocate size =>
    rw [FreeRun.step]
    split
    next segment offset freeLists hAllocate =>
      obtain ⟨spans, rest, hSpans, hFound, rfl⟩ := allocateFree_eq_some hAllocate
      exact h.take hSpans hFound
    · exact h

omit h

theorem run {calls : List FreeCall} {start : FreeRun} (h : start.Tracks)
    (hCalls : ∀ call ∈ calls, call.InRange) : (start.run calls).Tracks := by
  induction calls generalizing start with
  | nil => exact h
  | cons call calls ih =>
    obtain ⟨hCall, hRest⟩ := forall_mem_cons.mp hCalls
    exact ih (h.step hCall) hRest

end Tracks

theorem tracks_start {allocator : SegmentAllocator}
    (hNew : ∀ segment, allocator.freeIn segment = []) : (start allocator).Tracks := by
  intro segment
  change FreeList.Coalesced (allocator.freeIn segment) ∧
    FreeList.bytes (allocator.freeIn segment) = ∅
  rw [hNew]
  exact ⟨FreeList.Coalesced.nil, Set.eq_empty_of_forall_notMem fun x ⟨_, hSpan, _⟩ =>
    not_mem_nil hSpan⟩

theorem allocateFree_eq_none_iff (size : UInt32) (lists : List (List FreeSpan)) :
    SegmentAllocator.allocateFree size lists = none ↔
      ∀ spans ∈ lists, FreeList.allocate size spans = none := by
  induction lists with
  | nil => exact ⟨fun _ _ hSpans => (not_mem_nil hSpans).elim, fun _ => rfl⟩
  | cons spans lists ih =>
    rw [SegmentAllocator.allocateFree, forall_mem_cons, ← ih]
    cases FreeList.allocate size spans with
    | some found =>
      constructor
      · intro h
        cases h
      · intro h
        cases h.1
    | none => exact Option.map_eq_none_iff.trans (iff_and_self.mpr fun _ => rfl)

theorem forall_freeIn_iff (size : UInt32) (allocator : SegmentAllocator) :
    SegmentAllocator.allocateFree size allocator.freeLists = none ↔
      ∀ segment, FreeList.allocate size (allocator.freeIn segment) = none := by
  rw [allocateFree_eq_none_iff]
  constructor
  · intro h segment
    rw [SegmentAllocator.freeIn]
    cases hSpans : allocator.freeLists[segment]? with
    | none => rfl
    | some spans => exact h spans (mem_of_getElem? hSpans)
  · intro h spans hSpans
    obtain ⟨segment, hSegment⟩ := getElem?_of_mem hSpans
    have hNone := h segment
    rwa [SegmentAllocator.freeIn, hSegment] at hNone

/-- From empty lists on, the lists stay coalesced and hold the bytes that were inserted and not
allocated since, and a request is refused exactly if no run of free bytes is long enough. -/
theorem run_spec (allocator : SegmentAllocator) (calls : List FreeCall) (final : FreeRun)
    (hNew : ∀ segment, allocator.freeIn segment = [])
    (hCalls : ∀ call ∈ calls, call.InRange) (hFinal : (start allocator).run calls = final) :
    (∀ segment, FreeList.Coalesced (final.allocator.freeIn segment) ∧
      FreeList.bytes (final.allocator.freeIn segment) = final.free segment) ∧
    ∀ size : UInt32,
      (∀ segment, FreeList.allocate size (final.allocator.freeIn segment) = none ↔
        ∀ a b, MaximalRun (final.free segment) a b → b - a < size.toNat) ∧
      (SegmentAllocator.allocateFree size final.allocator.freeLists = none ↔
        ∀ segment a b, MaximalRun (final.free segment) a b → b - a < size.toNat) := by
  have hTracks : final.Tracks := hFinal ▸ (tracks_start hNew).run hCalls
  have hSegment : ∀ (size : UInt32) segment,
      FreeList.allocate size (final.allocator.freeIn segment) = none ↔
        ∀ a b, MaximalRun (final.free segment) a b → b - a < size.toNat := by
    intro size segment
    rw [(hTracks segment).1.allocate_eq_none_iff, (hTracks segment).2]
  refine ⟨hTracks, fun size => ⟨hSegment size, ?_⟩⟩
  rw [forall_freeIn_iff]
  exact forall_congr' (hSegment size)

/-- Two spans that touch become one, of which a part is then allocated. -/
theorem run_spec_joined :
    let calls := [.insert 0 512 16, .insert 0 528 16, .allocate 24]
    (∀ call ∈ calls, FreeCall.InRange call) ∧
      (SegmentAllocator.allocateFree 9
        ((start (.new 1)).run calls).allocator.freeLists = none ↔
          ∀ segment a b, MaximalRun (((start (.new 1)).run calls).free segment) a b →
            b - a < 9) := by
  have hCalls : ∀ call ∈ [.insert 0 512 16, .insert 0 528 16, .allocate 24],
      FreeCall.InRange call := by
    intro call hCall
    fin_cases hCall
    · exact (by decide : (512 : Nat) + 16 < 2 ^ 32)
    · exact (by decide : (528 : Nat) + 16 < 2 ^ 32)
    · trivial
  exact ⟨hCalls, ((run_spec (.new 1) _ _ (fun _ => rfl) hCalls rfl).2 9).2⟩

/-- The last 32 bytes, freed in two parts, become a span of 31 bytes. -/
theorem insert_at_end :
    FreeList.insert (FreeList.insert [] 0xFFFFFFE0 16) 0xFFFFFFF0 16 = [⟨0xFFFFFFE0, 31⟩] := by
  decide

end FreeRun

end Cascette.Storage
