import Cascette.Lib.Checked
import Cascette.Lib.Except
import Cascette.Lib.Merge
import Mathlib.Tactic

/-!
# Coalescing of ranges by bandwidth

The ranges are sorted by their starts, and a range that begins at most a threshold behind the end of
the current one is merged into it. The merge sets the end of the current range to the end of the
next one, so that a nested range cuts it off, and it does so before the size is compared with the
largest one allowed. Where no near range ends before the current one and no refused merge is too
long, every byte is covered by ranges that are not too long (`coalesceRanges_covers`).

The threshold is a number that the code computes from the bandwidth in floating point.
-/

namespace Cascette.Cdn

open Lib List

/-- From the first byte to the last one. -/
structure HttpRange where
  start : ℕ
  stop : ℕ
deriving DecidableEq

namespace HttpRange

def length (range : HttpRange) : Checked ℕ := do
  let span ← checkedSub range.stop range.start
  checkedAdd 64 span 1

/-- The number of its bytes. -/
def size (range : HttpRange) : ℕ := range.stop - range.start + 1

theorem length_eq {range : HttpRange} (hSize : range.size < 2 ^ 64) (h : range.start ≤ range.stop) :
    range.length = .ok range.size := by
  rw [length, checkedSub_eq h, ok_bind]
  exact checkedAdd_eq hSize

end HttpRange

namespace AdvancedRangeCoalescer

def oldSize (current range : HttpRange) : Checked ℕ := do
  let a ← current.length
  let b ← range.length
  checkedAdd 64 a b

def coalesceLoop (threshold maxRangeSize : ℕ) :
    ℕ → HttpRange → List HttpRange → Checked (List HttpRange)
  | _, current, [] => .ok [current]
  | bytesSaved, current, range :: ranges => do
    let next ← checkedAdd 64 current.stop 1
    let gap := range.start - next
    if gap ≤ threshold then
      let _ ← oldSize current range
      let current := { current with stop := range.stop }
      let newSize ← current.length
      if newSize ≤ maxRangeSize then
        let bytesSaved ← checkedAdd 64 bytesSaved gap
        coalesceLoop threshold maxRangeSize bytesSaved current ranges
      else
        let coalesced ← coalesceLoop threshold maxRangeSize bytesSaved range ranges
        .ok (current :: coalesced)
    else
      let coalesced ← coalesceLoop threshold maxRangeSize bytesSaved range ranges
      .ok (current :: coalesced)

def sorted (ranges : List HttpRange) : List HttpRange :=
  ranges.insertionSort fun a b => a.start ≤ b.start

def coalesceRanges (threshold maxRangeSize : ℕ) (ranges : List HttpRange) :
    Checked (List HttpRange) :=
  match sorted ranges with
  | [] => .ok []
  | range :: ranges => coalesceLoop threshold maxRangeSize 0 range ranges

/-! ## What is covered -/

/-- The ranges lie inside the others. -/
def Covers (out ranges : List HttpRange) : Prop :=
  ∀ r ∈ ranges, ∃ o ∈ out, o.start ≤ r.start ∧ r.stop ≤ o.stop

/-- At most the maximum or the longest range. -/
def Allowed (maxRangeSize : ℕ) (ranges : List HttpRange) (size : ℕ) : Prop :=
  size ≤ maxRangeSize ∨ ∃ r ∈ ranges, size ≤ r.size

/-- From the current range on: no sum overflows, no range that is near ends before the current one,
and what is pushed when a merge is refused has an allowed size. -/
def Mergeable (threshold maxRangeSize : ℕ) (allowed : ℕ → Prop) :
    HttpRange → List HttpRange → Prop
  | _, [] => True
  | current, range :: ranges =>
    current.stop + 1 < 2 ^ 64 ∧
    if range.start ≤ current.stop + 1 + threshold then
      let merged := { current with stop := range.stop }
      current.stop ≤ range.stop ∧ current.size + range.size < 2 ^ 64 ∧ merged.size < 2 ^ 64 ∧
        if merged.size ≤ maxRangeSize then Mergeable threshold maxRangeSize allowed merged ranges
        else allowed merged.size ∧ Mergeable threshold maxRangeSize allowed range ranges
    else Mergeable threshold maxRangeSize allowed range ranges

variable {threshold maxRangeSize saved : ℕ} {current : HttpRange} {ranges : List HttpRange}
  {allowed : ℕ → Prop}

/-- A range that is pushed covers the current one, and the rest is covered from the next one on. -/
theorem covers_push {first range : HttpRange} {out : List HttpRange}
    (hStart : first.start = current.start) (hStop : current.stop ≤ first.stop)
    (h : Covers out (range :: ranges)) : Covers (first :: out) (current :: range :: ranges) := by
  rintro r (_ | ⟨_, hr⟩)
  · exact ⟨first, mem_cons_self, hStart.le, hStop⟩
  · obtain ⟨o, ho, hInside⟩ := h r hr
    exact ⟨o, mem_cons_of_mem _ ho, hInside⟩

/-- The current range ends where the range before it ended, and that is behind all that was
saved. -/
theorem coalesceLoop_covers (hMax : ∀ n ≤ maxRangeSize, allowed n)
    (hSorted : (current :: ranges).Pairwise fun a b => a.start ≤ b.start)
    (hValid : ∀ r ∈ current :: ranges, r.start ≤ r.stop ∧ r.stop < 2 ^ 64 ∧ allowed r.size)
    (hSaved : saved ≤ current.stop)
    (h : Mergeable threshold maxRangeSize allowed current ranges) :
    ∃ out, coalesceLoop threshold maxRangeSize saved current ranges = .ok out ∧
      Covers out (current :: ranges) ∧ ∀ o ∈ out, allowed o.size := by
  induction ranges generalizing current saved with
  | nil =>
    refine ⟨[current], rfl, fun r hr => ⟨r, hr, le_rfl, le_rfl⟩, fun o ho => ?_⟩
    exact (hValid o ho).2.2
  | cons range ranges ih =>
    obtain ⟨⟨hOrdered, -, hSize⟩, hTail⟩ := forall_mem_cons.mp hValid
    obtain ⟨⟨hRange, hFits, -⟩, hRest⟩ := forall_mem_cons.mp hTail
    obtain ⟨hStarts, hNext⟩ := pairwise_cons.mp hSorted
    have hOrder := hStarts range mem_cons_self
    obtain ⟨hEnd, h⟩ := h
    rw [coalesceLoop, checkedAdd_eq hEnd, ok_bind]
    split at h
    next hNear =>
      obtain ⟨hStop, hSum, hNew, h⟩ := h
      have hOld : oldSize current range = .ok (current.size + range.size) := by
        rw [oldSize, HttpRange.length_eq (by omega) hOrdered, ok_bind,
          HttpRange.length_eq (by omega) hRange, ok_bind]
        exact checkedAdd_eq hSum
      have hLength := HttpRange.length_eq hNew (hOrder.trans hRange)
      dsimp only at hLength ⊢
      rw [if_pos (by omega), hOld, ok_bind, hLength, ok_bind]
      split at h
      next hMerged =>
        have hGained : saved + (range.start - (current.stop + 1)) ≤ range.stop := by omega
        rw [if_pos hMerged, checkedAdd_eq (by omega), ok_bind]
        obtain ⟨out, hRun, hCovers, hSizes⟩ := @ih _ ⟨current.start, range.stop⟩
          (pairwise_cons.mpr ⟨fun r hr => hStarts r (mem_cons_of_mem _ hr), hNext.of_cons⟩)
          (forall_mem_cons.mpr ⟨⟨hOrder.trans hRange, hFits, hMax _ hMerged⟩, hRest⟩) hGained h
        obtain ⟨⟨o, ho, hBelow, hAbove⟩, hCovers⟩ := forall_mem_cons.mp hCovers
        exact ⟨out, hRun, forall_mem_cons.mpr ⟨⟨o, ho, hBelow, hStop.trans hAbove⟩,
          forall_mem_cons.mpr ⟨⟨o, ho, hBelow.trans hOrder, hAbove⟩, hCovers⟩⟩, hSizes⟩
      next hRefused =>
        obtain ⟨out, hRun, hCovers, hSizes⟩ := ih hNext hTail (hSaved.trans hStop) h.2
        rw [if_neg hRefused, hRun]
        exact ⟨_, rfl, covers_push rfl hStop hCovers, forall_mem_cons.mpr ⟨h.1, hSizes⟩⟩
    next hFar =>
      have hBehind : saved ≤ range.stop := by omega
      obtain ⟨out, hRun, hCovers, hSizes⟩ := ih hNext hTail hBehind h
      rw [if_neg (by omega), hRun]
      exact ⟨_, rfl, covers_push rfl le_rfl hCovers, forall_mem_cons.mpr ⟨hSize, hSizes⟩⟩

/-- Ranges that can be merged are covered by ranges that are not too long. -/
theorem coalesceRanges_covers (hValid : ∀ r ∈ ranges, r.start ≤ r.stop ∧ r.stop < 2 ^ 64)
    (h : ∀ range rest, sorted ranges = range :: rest →
      Mergeable threshold maxRangeSize (Allowed maxRangeSize ranges) range rest) :
    ∃ out, coalesceRanges threshold maxRangeSize ranges = .ok out ∧ Covers out ranges ∧
      ∀ o ∈ out, Allowed maxRangeSize ranges o.size := by
  have hMem (r : HttpRange) : r ∈ sorted ranges ↔ r ∈ ranges := mem_insertionSort
  have hSorted : (sorted ranges).Pairwise fun a b => a.start ≤ b.start :=
    pairwise_insertionSort_key HttpRange.start ranges
  have hAll : ∀ r ∈ sorted ranges,
      r.start ≤ r.stop ∧ r.stop < 2 ^ 64 ∧ Allowed maxRangeSize ranges r.size := fun r hr =>
    ⟨(hValid r ((hMem r).mp hr)).1, (hValid r ((hMem r).mp hr)).2, .inr ⟨r, (hMem r).mp hr, le_rfl⟩⟩
  simp only [coalesceRanges, Covers, ← hMem]
  cases hRanges : sorted ranges with
  | nil => exact ⟨[], rfl, nofun, nofun⟩
  | cons range rest =>
    rw [hRanges] at hSorted hAll
    exact coalesceLoop_covers (fun n hn => .inl hn) hSorted hAll (Nat.zero_le _) (h _ _ hRanges)

/-- The ranges `0..9` and `12..19`. -/
theorem coalesceRanges_two :
    let ranges : List HttpRange := [⟨12, 19⟩, ⟨0, 9⟩]
    ∃ out, coalesceRanges 5 100 ranges = .ok out ∧ Covers out ranges ∧
      ∀ o ∈ out, Allowed 100 ranges o.size := by
  refine coalesceRanges_covers (by decide) fun range rest hRanges => ?_
  cases hRanges
  simp [Mergeable, HttpRange.size]

/-- A nested range cuts off the range around it, and a refused merge is too long. -/
theorem coalesceRanges_refuted :
    coalesceRanges 0 100 [⟨0, 99⟩, ⟨10, 19⟩] = .ok [⟨0, 19⟩] ∧
      coalesceRanges 0 15 [⟨0, 9⟩, ⟨10, 19⟩] = .ok [⟨0, 19⟩, ⟨10, 19⟩] := by
  decide

end AdvancedRangeCoalescer

end Cascette.Cdn
