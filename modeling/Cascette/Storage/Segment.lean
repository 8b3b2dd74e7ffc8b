import Cascette.Lib.Disjoint
import Cascette.Lib.Search
import Mathlib.Data.List.TakeWhile

/-!
# Segment allocator

Space for new data comes from two places: from the free list of a segment, where freed ranges are
kept and ranges that touch are put together, or from the end of a segment that is not frozen. If no
segment has space, one is added.
-/

namespace Cascette.Storage

open Lib List Option UInt32

def segmentHeaderSize : Nat := 0x1e0

def maxSegments : Nat := 0x3ff

def segmentSize : Nat := 0x40000000

inductive StorageError
  | archive (message : String)
deriving DecidableEq

/-! ## Free lists -/

def saturatingAdd (a b : UInt32) : UInt32 :=
  if a.toNat + b.toNat < 2 ^ 32 then a + b else 0xffffffff

structure FreeSpan where
  offset : UInt32
  length : UInt32
deriving DecidableEq

def FreeSpan.stop (span : FreeSpan) : UInt32 := saturatingAdd span.offset span.length

namespace FreeList

/-- The place of a new span among the spans. -/
def place (spans : List FreeSpan) (offset : UInt32) : Nat :=
  partitionPoint (fun span => span.offset < offset) spans

/-- The left neighbour, if it reaches up to `offset`. -/
def touchingLeft (spans : List FreeSpan) (offset : UInt32) : List FreeSpan :=
  match (spans.take (place spans offset)).getLast? with
  | some left => if left.stop ≥ offset then [left] else []
  | none => []

/-- The right neighbours that begin up to `newEnd`. -/
def touchingRight (spans : List FreeSpan) (offset newEnd : UInt32) : List FreeSpan :=
  (spans.drop (place spans offset)).takeWhile fun span => span.offset ≤ newEnd

/-- The new span is put together with the neighbours it touches. -/
def insert (spans : List FreeSpan) (offset length : UInt32) : List FreeSpan :=
  if length = 0 then spans
  else
    let newEnd := saturatingAdd offset length
    let pos := place spans offset
    let left := touchingLeft spans offset
    let right := touchingRight spans offset newEnd
    match (left ++ right).head?, (left ++ right).getLast? with
    | some first, some last =>
      let combinedOffset := min first.offset offset
      let combinedEnd := max last.stop newEnd
      spans.take (pos - left.length) ++
        { offset := combinedOffset, length := combinedEnd - combinedOffset } ::
          spans.drop (pos + right.length)
    | _, _ => spans.take pos ++ { offset, length } :: spans.drop pos

/-- The first span that is large enough; the sum of offset and size wraps around. -/
def allocate (size : UInt32) : List FreeSpan → Option (UInt32 × List FreeSpan)
  | [] => none
  | span :: spans =>
    if span.length ≥ size then
      some (span.offset,
        if span.length = size then spans
        else { offset := span.offset + size, length := span.length - size } :: spans)
    else (allocate size spans).map fun (offset, rest) => (offset, span :: rest)

end FreeList

/-! ## Segments -/

inductive SegmentState
  | frozen
  | thawed
deriving DecidableEq

structure SegmentInfo where
  index : Nat
  state : SegmentState
  writePosition : Nat
deriving DecidableEq

namespace SegmentInfo

def new (index : Nat) : SegmentInfo :=
  { index, state := .thawed, writePosition := segmentHeaderSize }

def hasSpaceFor (info : SegmentInfo) (size : Nat) : Bool :=
  info.state = .thawed ∧ info.writePosition + size ≤ segmentSize

end SegmentInfo

structure Allocation where
  segmentIndex : Nat
  fileOffset : UInt32
deriving DecidableEq

structure SegmentAllocator where
  segments : List SegmentInfo
  freeLists : List (List FreeSpan)
  maxSegments : Nat

namespace SegmentAllocator

def new (limit : Nat) : SegmentAllocator :=
  { segments := [], freeLists := [], maxSegments := min limit Storage.maxSegments }

/-- A data file with its number and length. Missing numbers below it get a new segment. -/
def loadFile (allocator : SegmentAllocator) (file : Nat × Nat) : SegmentAllocator :=
  let fresh := (List.range (file.1 + 1 - allocator.segments.length)).map fun i =>
    SegmentInfo.new (allocator.segments.length + i)
  { allocator with
    segments := (allocator.segments ++ fresh).set file.1
      { index := file.1, state := .frozen, writePosition := file.2 } }

/-- The data files in the order in which the directory lists them. -/
def loadExisting (allocator : SegmentAllocator) (files : List (Nat × Nat)) : SegmentAllocator :=
  (files.filter fun file => file.1 < Storage.maxSegments).foldl loadFile allocator

/-- The first free list with a span that is large enough. -/
def allocateFree (size : UInt32) : List (List FreeSpan) →
    Option (Nat × UInt32 × List (List FreeSpan))
  | [] => none
  | spans :: lists =>
    match FreeList.allocate size spans with
    | some (offset, spans) => some (0, offset, spans :: lists)
    | none => (allocateFree size lists).map fun (idx, offset, lists) =>
        (idx + 1, offset, spans :: lists)

/-- The first segment with space at its end. -/
def allocateEnd (size : Nat) : List SegmentInfo → Option (SegmentInfo × List SegmentInfo)
  | [] => none
  | info :: segments =>
    if info.hasSpaceFor size then
      some (info, { info with writePosition := info.writePosition + size } :: segments)
    else (allocateEnd size segments).map fun (found, segments) => (found, info :: segments)

def allocationAt (segmentIndex offset : Nat) : Except StorageError Allocation :=
  if offset < 2 ^ 32 then .ok { segmentIndex, fileOffset := UInt32.ofNat offset }
  else .error (.archive "segment offset exceeds u32 range")

/-- A new segment at the end. `created` tells whether its file could be written. -/
def allocateNew (allocator : SegmentAllocator) (size : Nat) (created : Bool) :
    Except StorageError Allocation × SegmentAllocator :=
  let newIndex := allocator.segments.length
  if 2 ^ 16 ≤ newIndex then (.error (.archive "too many segments"), allocator)
  else if newIndex ≥ allocator.maxSegments then
    (.error (.archive s!"maximum segment count ({allocator.maxSegments}) reached"), allocator)
  else if created = false then
    (.error (.archive "failed to create segment file"), allocator)
  else
    let info := SegmentInfo.new newIndex
    (allocationAt newIndex info.writePosition,
      { allocator with
        segments := allocator.segments ++ [{ info with writePosition := info.writePosition + size }]
        freeLists := allocator.freeLists ++ [[]] })

/-- The end of a segment, or a new segment. -/
def allocateBump (allocator : SegmentAllocator) (size : Nat) (created : Bool) :
    Except StorageError Allocation × SegmentAllocator :=
  match allocateEnd size allocator.segments with
  | some (info, segments) => (allocationAt info.index info.writePosition,
    { allocator with segments })
  | none => allocator.allocateNew size created

def allocate (allocator : SegmentAllocator) (size : Nat) (useFreeList created : Bool) :
    Except StorageError Allocation × SegmentAllocator :=
  if 2 ^ 32 ≤ size then (.error (.archive "allocation size exceeds u32 range"), allocator)
  else if useFreeList then
    match allocateFree (UInt32.ofNat size) allocator.freeLists with
    | some (idx, offset, freeLists) =>
      (if idx < 2 ^ 16 then .ok { segmentIndex := idx, fileOffset := offset }
       else .error (.archive "segment index exceeds u16 range"), { allocator with freeLists })
    | none => allocator.allocateBump size created
  else allocator.allocateBump size created

def freeSpan (allocator : SegmentAllocator) (segmentIndex : Nat) (offset length : UInt32) :
    SegmentAllocator :=
  let lists := allocator.freeLists ++
    List.replicate (segmentIndex + 1 - allocator.freeLists.length) []
  { allocator with
    freeLists := lists.modify segmentIndex fun spans => FreeList.insert spans offset length }

def setSegment (allocator : SegmentAllocator) (i : Nat) (info : SegmentInfo) : SegmentAllocator :=
  { allocator with segments := allocator.segments.set i info }

/-- Changes the state of a segment; the result tells whether it was changed. -/
def setState (allocator : SegmentAllocator) (segmentIndex : Nat) (old new : SegmentState) :
    Bool × SegmentAllocator :=
  match allocator.segments[segmentIndex]? with
  | some info =>
    if info.state = old then
      (true, allocator.setSegment segmentIndex { info with state := new })
    else (false, allocator)
  | none => (false, allocator)

def freeze (allocator : SegmentAllocator) (segmentIndex : Nat) : Bool × SegmentAllocator :=
  allocator.setState segmentIndex .thawed .frozen

def thaw (allocator : SegmentAllocator) (segmentIndex : Nat) : Bool × SegmentAllocator :=
  allocator.setState segmentIndex .frozen .thawed

end SegmentAllocator

/-! ## The bytes of a span -/

/-- The bytes from the offset on, around the end of the range of offsets. -/
def FreeSpan.bytes (span : FreeSpan) : Set Nat :=
  {x | x < 2 ^ 32 ∧ (x + 2 ^ 32 - span.offset.toNat) % 2 ^ 32 < span.length.toNat}

theorem toNat_saturatingAdd (a b : UInt32) :
    (saturatingAdd a b).toNat = min (a.toNat + b.toNat) (2 ^ 32 - 1) := by
  unfold saturatingAdd
  split_ifs with hLt
  · rw [UInt32.toNat_add, Nat.mod_eq_of_lt hLt]
    omega
  · change 2 ^ 32 - 1 = _
    omega

theorem toNat_min (a b : UInt32) : (min a b).toNat = min a.toNat b.toNat := by
  change (if a ≤ b then a else b).toNat = _
  simp only [le_iff_toNat_le]
  split <;> omega

theorem toNat_max (a b : UInt32) : (max a b).toNat = max a.toNat b.toNat := by
  change (if a ≤ b then b else a).toNat = _
  simp only [le_iff_toNat_le]
  split <;> omega

namespace FreeSpan

variable {span : FreeSpan} {x : Nat} {size : UInt32}

theorem mem_bytes_of_lt_stop (hOffset : span.offset.toNat ≤ x) (hStop : x < span.stop.toNat) :
    x ∈ span.bytes := by
  have hOffsetLt := span.offset.toNat_lt
  rw [stop, toNat_saturatingAdd] at hStop
  refine ⟨by omega, ?_⟩
  have hMod : (x + 2 ^ 32 - span.offset.toNat) % 2 ^ 32 = x - span.offset.toNat := by omega
  omega

/-- A span that does not reach the end of the range is an interval. -/
theorem mem_bytes_iff (h : span.offset.toNat + span.length.toNat ≤ 2 ^ 32) :
    x ∈ span.bytes ↔ span.offset.toNat ≤ x ∧ x < span.offset.toNat + span.length.toNat := by
  have hOffsetLt := span.offset.toNat_lt
  constructor
  · rintro ⟨hLt, hMod⟩
    omega
  · rintro ⟨hOffset, hStop⟩
    refine ⟨by omega, ?_⟩
    have hMod : (x + 2 ^ 32 - span.offset.toNat) % 2 ^ 32 = x - span.offset.toNat := by omega
    omega

theorem disjointPieces_cut (span : FreeSpan) (h : size ≤ span.length) :
    DisjointPieces bytes [⟨span.offset, size⟩, ⟨span.offset + size, span.length - size⟩] := by
  have hSize := le_iff_toNat_le.mp h
  have hLength := span.length.toNat_lt
  have hOffsetLt := span.offset.toNat_lt
  refine pairwise_pair.mpr (Set.disjoint_left.mpr ?_)
  rintro x ⟨hx, hFirst⟩ ⟨-, hSecond⟩
  dsimp only at hFirst hSecond
  rw [UInt32.toNat_add, UInt32.toNat_sub_of_le _ _ h] at hSecond
  omega

theorem mem_bytes_of_cut (h : size ≤ span.length)
    (hx : x ∈ (⟨span.offset, size⟩ : FreeSpan).bytes ∨ x ∈ (⟨span.offset + size, span.length - size⟩
      : FreeSpan).bytes) :
    x ∈ span.bytes := by
  have hSize := le_iff_toNat_le.mp h
  have hLength := span.length.toNat_lt
  have hOffsetLt := span.offset.toNat_lt
  rcases hx with ⟨hLt, hMod⟩ | ⟨hLt, hMod⟩
  · exact ⟨hLt, lt_of_lt_of_le hMod hSize⟩
  · refine ⟨hLt, ?_⟩
    rw [UInt32.toNat_add, UInt32.toNat_sub_of_le _ _ h] at hMod
    omega

end FreeSpan

namespace FreeList

/-- What is left of a span that space was taken from. -/
def remainder (span : FreeSpan) (size : UInt32) : List FreeSpan :=
  if span.length = size then [] else [⟨span.offset + size, span.length - size⟩]

theorem allocate_eq_some {size offset : UInt32} {spans rest : List FreeSpan}
    (h : allocate size spans = some (offset, rest)) :
    ∃ before span after, spans = before ++ span :: after ∧ span.offset = offset ∧
      size ≤ span.length ∧ rest = before ++ (remainder span size ++ after) := by
  induction spans generalizing rest with
  | nil => cases h
  | cons span spans ih =>
    rw [allocate] at h
    split at h
    next hFits =>
      cases h
      refine ⟨[], span, spans, rfl, rfl, hFits, ?_⟩
      rw [nil_append, remainder]
      split <;> rfl
    · obtain ⟨⟨found, left⟩, hFound, hEq⟩ := map_eq_some_iff.mp h
      cases hEq
      obtain ⟨before, span', after, rfl, hOffset, hSize, rfl⟩ := ih hFound
      exact ⟨span :: before, span', after, rfl, hOffset, hSize, rfl⟩

/-- A span that is put together lies inside of the new span and of its first and last part. -/
theorem mem_combined {first last : FreeSpan} {offset length : UInt32} {x : Nat}
    (hFirst : first.offset < offset → first.stop ≥ offset)
    (hLast : last.offset ≤ saturatingAdd offset length)
    (hx : x ∈ (⟨min first.offset offset, max last.stop (saturatingAdd offset length) -
      min first.offset offset⟩ : FreeSpan).bytes) :
    x ∈ (⟨offset, length⟩ : FreeSpan).bytes ∨ x ∈ first.bytes ∨ x ∈ last.bytes := by
  have hOffset := toNat_min first.offset offset
  have hEnd := toNat_max last.stop (saturatingAdd offset length)
  have hNewEnd := toNat_saturatingAdd offset length
  have hOffsetLt := offset.toNat_lt
  have hEndLt := (max last.stop (saturatingAdd offset length)).toNat_lt
  have hOrder : min first.offset offset ≤ max last.stop (saturatingAdd offset length) := by
    rw [le_iff_toNat_le]
    omega
  have hLength := UInt32.toNat_sub_of_le _ _ hOrder
  obtain ⟨hLow, hHigh⟩ := hx
  dsimp only at hLow hHigh
  rw [le_iff_toNat_le] at hLast
  rw [lt_iff_toNat_lt, ge_iff_le, le_iff_toNat_le] at hFirst
  by_cases hBelow : x < offset.toNat
  · -- Only the first part begins before the new span.
    exact .inr (.inl (FreeSpan.mem_bytes_of_lt_stop (by omega) (by omega)))
  · by_cases hAbove : (saturatingAdd offset length).toNat ≤ x
    · exact .inr (.inr (FreeSpan.mem_bytes_of_lt_stop (by omega) (by omega)))
    · exact .inl (FreeSpan.mem_bytes_of_lt_stop (not_lt.mp hBelow) (not_le.mp hAbove))

section Insert

variable {spans : List FreeSpan} {offset newEnd : UInt32}

theorem place_boundary (spans : List FreeSpan) (offset : UInt32) :
    place spans offset ≤ spans.length ∧
      (∀ i, place spans offset = i + 1 → ∃ span, spans[i]? = some span ∧ span.offset < offset) ∧
      ∀ span, spans[place spans offset]? = some span → ¬ span.offset < offset := by
  obtain ⟨hLe, hLeft, hRight⟩ := partitionPoint_boundary
    (fun span : FreeSpan => decide (span.offset < offset)) spans
  refine ⟨hLe, fun i hi => ?_, fun span hSpan => of_decide_eq_false (hRight span hSpan)⟩
  obtain ⟨span, hSpan, hBefore⟩ := hLeft i hi
  exact ⟨span, hSpan, of_decide_eq_true hBefore⟩

theorem mem_touchingLeft {left : FreeSpan} (h : left ∈ touchingLeft spans offset) :
    (spans.take (place spans offset)).getLast? = some left ∧ left.stop ≥ offset := by
  unfold touchingLeft at h
  split at h
  next last hLast =>
    split_ifs at h with hStop
    · obtain rfl := mem_singleton.mp h
      exact ⟨hLast, hStop⟩
    · cases h
  · cases h

theorem take_append_touchingLeft (spans : List FreeSpan) (offset : UInt32) :
    spans.take (place spans offset - (touchingLeft spans offset).length) ++
      touchingLeft spans offset = spans.take (place spans offset) := by
  have hLe := (place_boundary spans offset).1
  unfold touchingLeft
  split
  next last hLast =>
    split
    · have hDrop := dropLast_append_getLast? last hLast
      rwa [dropLast_eq_take, length_take_of_le hLe, take_take,
        Nat.min_eq_left (Nat.sub_le _ _)] at hDrop
    · rw [length_nil, Nat.sub_zero, append_nil]
  · rw [length_nil, Nat.sub_zero, append_nil]

theorem touchingRight_append_drop (spans : List FreeSpan) (offset newEnd : UInt32) :
    touchingRight spans offset newEnd ++
      spans.drop (place spans offset + (touchingRight spans offset newEnd).length) =
        spans.drop (place spans offset) := by
  obtain ⟨rest, hRest⟩ : touchingRight spans offset newEnd <+: spans.drop (place spans offset) :=
    takeWhile_prefix _
  rw [← drop_drop, ← hRest, drop_left]

theorem perm_touching (spans : List FreeSpan) (offset newEnd : UInt32) :
    spans.Perm ((touchingLeft spans offset ++ touchingRight spans offset newEnd) ++
      (spans.take (place spans offset - (touchingLeft spans offset).length) ++
        spans.drop (place spans offset + (touchingRight spans offset newEnd).length))) := by
  have hSplit : spans = (spans.take (place spans offset - (touchingLeft spans offset).length) ++
      touchingLeft spans offset) ++ (touchingRight spans offset newEnd ++
        spans.drop (place spans offset + (touchingRight spans offset newEnd).length)) := by
    rw [take_append_touchingLeft, touchingRight_append_drop, take_append_drop]
  refine (Perm.of_eq hSplit).trans ?_
  rw [append_assoc, append_assoc]
  refine (perm_append_comm_assoc _ _ _).trans (Perm.append_left _ ?_)
  exact perm_append_comm_assoc _ _ _

/-- The first span that is touched reaches up to the new one or does not begin before it. -/
theorem stop_of_first {first : FreeSpan}
    (hFirst : (touchingLeft spans offset ++ touchingRight spans offset newEnd).head? = some first)
    (hLt : first.offset < offset) : first.stop ≥ offset := by
  cases hLeft : touchingLeft spans offset with
  | cons left lefts =>
    rw [hLeft] at hFirst
    cases hFirst
    exact (mem_touchingLeft (hLeft ▸ mem_cons_self)).2
  | nil =>
    rw [hLeft, nil_append] at hFirst
    have hHead : (spans.drop (place spans offset)).head? = some first := by
      rw [← touchingRight_append_drop spans offset newEnd, head?_append, hFirst, some_or]
    rw [head?_drop] at hHead
    exact absurd hLt ((place_boundary spans offset).2.2 first hHead)

theorem offset_of_last {last : FreeSpan} (hEnd : offset ≤ newEnd)
    (hLast : (touchingLeft spans offset ++ touchingRight spans offset newEnd).getLast? =
      some last) : last.offset ≤ newEnd := by
  obtain ⟨hLe, hBefore, -⟩ := place_boundary spans offset
  rcases mem_append.mp (mem_of_getLast? hLast) with hIn | hIn
  · obtain ⟨hGetLast, -⟩ := mem_touchingLeft hIn
    rw [getLast?_eq_getElem?, length_take_of_le hLe] at hGetLast
    cases hPlace : place spans offset with
    | zero =>
      rw [hPlace, take_zero] at hGetLast
      cases hGetLast
    | succ i =>
      obtain ⟨span, hSpan, hLt⟩ := hBefore i hPlace
      rw [hPlace, Nat.add_sub_cancel, getElem?_take_of_succ, hSpan] at hGetLast
      cases hGetLast
      exact UInt32.le_of_lt (UInt32.lt_of_lt_of_le hLt hEnd)
  · have hBegins : decide (last.offset ≤ newEnd) = true :=
      mem_takeWhile_imp (p := fun span : FreeSpan => decide (span.offset ≤ newEnd)) hIn
    exact of_decide_eq_true hBegins

end Insert

/-- The parts that the new span touches are taken out, and what is put in their place lies inside of
them and of the new span. -/
theorem insert_spec (spans : List FreeSpan) (offset length : UInt32) :
    ∃ taken kept new, spans.Perm (taken ++ kept) ∧
      (insert spans offset length).Perm (new ++ kept) ∧ new.length ≤ 1 ∧
      ∀ a ∈ new, ∀ x ∈ a.bytes, ∃ b ∈ (⟨offset, length⟩ : FreeSpan) :: taken, x ∈ b.bytes := by
  unfold insert
  by_cases hZero : length = 0
  · rw [if_pos hZero]
    exact ⟨[], spans, [], Perm.refl _, Perm.refl _, Nat.zero_le _, nofun⟩
  rw [if_neg hZero]
  dsimp only
  split
  next first last hFirst hLast =>
    have hEnd : offset ≤ saturatingAdd offset length := by
      have hOffsetLt := offset.toNat_lt
      rw [le_iff_toNat_le, toNat_saturatingAdd]
      omega
    refine ⟨_, _, [_], perm_touching spans offset (saturatingAdd offset length),
      perm_middle, le_refl _, ?_⟩
    intro a ha x hx
    obtain rfl := mem_singleton.mp ha
    rcases mem_combined (stop_of_first hFirst) (offset_of_last hEnd hLast) hx
      with hNew | hInFirst | hInLast
    · exact ⟨_, mem_cons_self, hNew⟩
    · exact ⟨first, mem_cons_of_mem _ (mem_of_mem_head? hFirst), hInFirst⟩
    · exact ⟨last, mem_cons_of_mem _ (mem_of_getLast? hLast), hInLast⟩
  · refine ⟨[], spans, [⟨offset, length⟩], Perm.refl _, ?_, le_refl _, ?_⟩
    · refine perm_middle.trans (Perm.of_eq ?_)
      rw [take_append_drop]
      rfl
    · intro a ha x hx
      exact ⟨a, mem_singleton.mp ha ▸ mem_cons_self, hx⟩

end FreeList

/-! ## What an allocation can do -/

namespace SegmentAllocator

theorem allocateFree_eq_some {size offset : UInt32} {lists lists' : List (List FreeSpan)}
    {idx : Nat} (h : allocateFree size lists = some (idx, offset, lists')) :
    ∃ spans rest, lists[idx]? = some spans ∧ FreeList.allocate size spans = some (offset, rest) ∧
      lists' = lists.set idx rest := by
  induction lists generalizing idx lists' with
  | nil => cases h
  | cons spans lists ih =>
    rw [allocateFree] at h
    split at h
    next offset' rest hAllocate =>
      cases h
      exact ⟨spans, rest, rfl, hAllocate, rfl⟩
    · obtain ⟨⟨idx', offset', lists''⟩, hFound, hEq⟩ := map_eq_some_iff.mp h
      cases hEq
      obtain ⟨spans', rest, hSpans, hAllocate, rfl⟩ := ih hFound
      exact ⟨spans', rest, hSpans, hAllocate, rfl⟩

/-- The first segment with a free span that is large enough. -/
def firstFree (allocator : SegmentAllocator) (size : Nat) : Option Nat :=
  allocator.freeLists.findIdx? fun spans => spans.any fun span => size ≤ span.length.toNat

theorem isSome_freeList_allocate (size : UInt32) (spans : List FreeSpan) :
    (FreeList.allocate size spans).isSome = spans.any fun span => size.toNat ≤
      span.length.toNat := by
  induction spans with
  | nil => rfl
  | cons span spans ih =>
    rw [FreeList.allocate, any_cons]
    split
    next hFits =>
      rw [decide_eq_true (le_iff_toNat_le.mp hFits)]
      rfl
    next hShort =>
      rw [isSome_map, ih, decide_eq_false fun h => hShort (le_iff_toNat_le.mpr h), Bool.false_or]

theorem index_allocateFree (size : UInt32) (lists : List (List FreeSpan)) :
    (allocateFree size lists).map (·.1) =
      lists.findIdx? fun spans => spans.any fun span => size.toNat ≤ span.length.toNat := by
  induction lists with
  | nil => rfl
  | cons spans lists ih =>
    rw [allocateFree, findIdx?_cons, ← isSome_freeList_allocate]
    cases FreeList.allocate size spans with
    | some found => rfl
    | none =>
      rw [Option.isSome_none, if_neg Bool.false_ne_true, ← ih, Option.map_map, Option.map_map]
      rfl

variable (allocator : SegmentAllocator)

theorem firstFree_eq {size : Nat} (h : size < 2 ^ 32) :
    allocator.firstFree size =
      (allocateFree (UInt32.ofNat size) allocator.freeLists).map (·.1) := by
  rw [index_allocateFree, toNat_ofNat_of_lt' h, firstFree]

theorem allocateEnd_eq_some {size : Nat} {segments segments' : List SegmentInfo}
    {info : SegmentInfo} (h : allocateEnd size segments = some (info, segments')) :
    ∃ i, segments[i]? = some info ∧ info.hasSpaceFor size = true ∧
      segments' = segments.set i { info with writePosition := info.writePosition + size } := by
  induction segments generalizing segments' with
  | nil => cases h
  | cons first segments ih =>
    rw [allocateEnd] at h
    split_ifs at h with hSpace
    · cases h
      exact ⟨0, rfl, hSpace, rfl⟩
    · obtain ⟨⟨found, rest⟩, hFound, hEq⟩ := map_eq_some_iff.mp h
      cases hEq
      obtain ⟨i, hInfo, hSpace, rfl⟩ := ih hFound
      exact ⟨i + 1, hInfo, hSpace, rfl⟩

/-- Where an allocation comes from: from a free list, from the end of a segment or from a new
segment. -/
inductive Allocates (allocator : SegmentAllocator) (size : Nat) (useFreeList : Bool) :
    Except StorageError Allocation → SegmentAllocator → Prop
  | free (idx : Nat) (offset : UInt32) (spans rest : List FreeSpan)
      (result : Except StorageError Allocation) (hUse : useFreeList = true)
      (hFirst : allocator.firstFree size = some idx)
      (hSpans : allocator.freeLists[idx]? = some spans)
      (hAllocate : FreeList.allocate (UInt32.ofNat size) spans = some (offset, rest))
      (hResult : ∀ a, result = .ok a → a = { segmentIndex := idx, fileOffset := offset }) :
      Allocates allocator size useFreeList result
        { allocator with freeLists := allocator.freeLists.set idx rest }
  | bump (i : Nat) (info : SegmentInfo) (hInfo : allocator.segments[i]? = some info)
      (hSpace : info.hasSpaceFor size = true) :
      Allocates allocator size useFreeList (allocationAt info.index info.writePosition)
        (allocator.setSegment i { info with writePosition := info.writePosition + size })
  | new (hCount : allocator.segments.length < allocator.maxSegments) :
      Allocates allocator size useFreeList
        (allocationAt allocator.segments.length segmentHeaderSize)
      { allocator with
        segments := allocator.segments ++ [{ SegmentInfo.new allocator.segments.length with
          writePosition := segmentHeaderSize + size }]
        freeLists := allocator.freeLists ++ [[]] }
  | failed (e : StorageError) : Allocates allocator size useFreeList (.error e) allocator

theorem allocateBump_cases (size : Nat) (useFreeList created : Bool) :
    Allocates allocator size useFreeList (allocator.allocateBump size created).1
      (allocator.allocateBump size created).2 := by
  unfold allocateBump
  split
  next info segments hEnd =>
    obtain ⟨i, hInfo, hSpace, rfl⟩ := allocateEnd_eq_some hEnd
    exact .bump i info hInfo hSpace
  · unfold allocateNew
    dsimp only
    split
    · exact .failed _
    · split
      · exact .failed _
      next hCount =>
        split
        · exact .failed _
        · exact .new (not_le.mp hCount)

theorem allocate_cases (size : Nat) (useFreeList created : Bool) :
    Allocates allocator size useFreeList (allocator.allocate size useFreeList created).1
      (allocator.allocate size useFreeList created).2 := by
  unfold allocate
  split
  · exact .failed _
  next hSize =>
    split_ifs with hUse
    · split
      next idx offset lists hFree =>
        have hFirst := allocator.firstFree_eq (not_le.mp hSize)
        rw [hFree] at hFirst
        obtain ⟨spans, rest, hSpans, hAllocate, rfl⟩ := allocateFree_eq_some hFree
        refine .free idx offset spans rest _ hUse hFirst hSpans hAllocate ?_
        intro a ha
        split at ha
        · cases ha
          rfl
        · cases ha
      · exact allocateBump_cases _ _ _ _
    · exact allocateBump_cases _ _ _ _

end SegmentAllocator

/-! ## Live allocations -/

/-- An allocation with its length. -/
structure Extent where
  segment : Nat
  span : FreeSpan
deriving DecidableEq

/-- The byte range of an allocation. -/
def Extent.range (extent : Extent) : Set Nat :=
  {x | extent.span.offset.toNat ≤ x ∧ x < extent.span.offset.toNat + extent.span.length.toNat}

def liveIn (live : List Extent) (segment : Nat) : List FreeSpan :=
  (live.filter fun extent => extent.segment = segment).map Extent.span

namespace SegmentAllocator

def freeIn (allocator : SegmentAllocator) (segment : Nat) : List FreeSpan :=
  allocator.freeLists[segment]?.getD []

/-- The spans of a segment that are live or free. -/
def pieces (allocator : SegmentAllocator) (live : List Extent) (segment : Nat) : List FreeSpan :=
  liveIn live segment ++ allocator.freeIn segment

/-- The spans of a segment that are live or free share no byte, and unless the segment is
overfull they are below the place where new data is written. -/
structure Inv (allocator : SegmentAllocator) (live : List Extent) : Prop where
  index : ∀ (i : Nat) (info : SegmentInfo), allocator.segments[i]? = some info → info.index = i
  apart : ∀ s, DisjointPieces FreeSpan.bytes (allocator.pieces live s)
  below : ∀ s, ∀ span ∈ allocator.pieces live s, ∃ info, allocator.segments[s]? = some info ∧
    (info.writePosition ≤ segmentSize → ∀ x ∈ span.bytes, x < info.writePosition)

variable {allocator : SegmentAllocator} {live live' : List Extent} {idx : Nat}

/-- The spans of one segment change: some are taken away, and new ones lie inside of them. -/
theorem Inv.replace {allocator' : SegmentAllocator} (h : allocator.Inv live)
    (hSegments : allocator'.segments = allocator.segments) (s : Nat)
    (taken new kept : List FreeSpan)
    (hOther : ∀ t ≠ s, (allocator'.pieces live' t).Perm (allocator.pieces live t))
    (hOld : (allocator.pieces live s).Perm (taken ++ kept))
    (hNew : (allocator'.pieces live' s).Perm (new ++ kept))
    (hDisjoint : DisjointPieces FreeSpan.bytes new) (hTaken : taken ≠ [])
    (hInside : ∀ a ∈ new, ∀ x ∈ a.bytes, ∃ b ∈ taken, x ∈ b.bytes) : allocator'.Inv live' where
  index := hSegments ▸ h.index
  apart := by
    intro t
    by_cases hEq : t = s
    · subst hEq
      exact (((h.apart t).perm hOld).replace hDisjoint hInside).perm hNew.symm
    · exact (h.apart t).perm (hOther t hEq).symm
  below := by
    intro t span hSpan
    rw [hSegments]
    by_cases hEq : t = s
    · subst hEq
      have hBelow : ∀ b ∈ taken ++ kept, ∃ info, allocator.segments[t]? = some info ∧
          (info.writePosition ≤ segmentSize → ∀ x ∈ b.bytes, x < info.writePosition) :=
        fun b hb => h.below t b (hOld.mem_iff.mpr hb)
      rcases mem_append.mp (hNew.mem_iff.mp hSpan) with hIn | hIn
      · obtain ⟨b, hb⟩ := exists_mem_of_ne_nil _ hTaken
        obtain ⟨info, hInfo, -⟩ := hBelow b (mem_append_left _ hb)
        refine ⟨info, hInfo, fun hSize x hx => ?_⟩
        obtain ⟨c, hc, hxc⟩ := hInside span hIn x hx
        obtain ⟨info', hInfo', hLt⟩ := hBelow c (mem_append_left _ hc)
        cases hInfo.symm.trans hInfo'
        exact hLt hSize x hxc
      · exact hBelow span (mem_append_right _ hIn)
    · exact h.below t span ((hOther t hEq).mem_iff.mp hSpan)

theorem liveIn_cons_self (segment : Nat) (span : FreeSpan) (live : List Extent) :
    liveIn (⟨segment, span⟩ :: live) segment = span :: liveIn live segment := by
  rw [liveIn, filter_cons, if_pos (decide_eq_true rfl), map_cons]
  rfl

theorem liveIn_cons_of_ne {segment t : Nat} (h : t ≠ segment) (span : FreeSpan)
    (live : List Extent) : liveIn (⟨segment, span⟩ :: live) t = liveIn live t := by
  rw [liveIn, filter_cons, if_neg (by simpa using Ne.symm h)]
  rfl

theorem liveIn_perm (h : live.Perm live') (segment : Nat) :
    (liveIn live segment).Perm (liveIn live' segment) :=
  (h.filter _).map _

/-! ## Steps -/

theorem freeIn_set {spans rest : List FreeSpan}
    (hSpans : allocator.freeLists[idx]? = some spans) (t : Nat) :
    freeIn { allocator with freeLists := allocator.freeLists.set idx rest } t =
      if t = idx then rest else allocator.freeIn t := by
  have hLt : idx < allocator.freeLists.length := (List.getElem?_eq_some_iff.mp hSpans).1
  rw [freeIn, freeIn]
  by_cases hEq : t = idx
  · subst hEq
    rw [getElem?_set_self hLt, if_pos rfl, getD_some]
  · rw [getElem?_set_ne (Ne.symm hEq), if_neg hEq]

theorem Inv.allocateFree (h : allocator.Inv live) {size offset : UInt32}
    {spans rest : List FreeSpan} (hSpans : allocator.freeLists[idx]? = some spans)
    (hAllocate : FreeList.allocate size spans = some (offset, rest)) :
    Inv { allocator with freeLists := allocator.freeLists.set idx rest }
      (⟨idx, ⟨offset, size⟩⟩ :: live) := by
  obtain ⟨before, span, after, rfl, rfl, hSize, rfl⟩ := FreeList.allocate_eq_some hAllocate
  have hFree : allocator.freeIn idx = before ++ span :: after := by rw [freeIn, hSpans]; rfl
  have hRemainder : ∀ a ∈ FreeList.remainder span size,
      a = ⟨span.offset + size, span.length - size⟩ := by
    intro a ha
    unfold FreeList.remainder at ha
    split at ha
    · cases ha
    · exact mem_singleton.mp ha
  refine h.replace rfl idx [span] (⟨span.offset, size⟩ :: FreeList.remainder span size)
    (liveIn live idx ++ (before ++ after)) ?_ ?_ ?_ ?_ (cons_ne_nil _ _) ?_
  · intro t hNe
    rw [pieces, pieces, liveIn_cons_of_ne hNe, freeIn_set hSpans, if_neg hNe]
  · rw [pieces, hFree]
    exact perm_iff_count.mpr fun a => by
      simp only [count_append, count_cons, count_nil]
      omega
  · rw [pieces, liveIn_cons_self, freeIn_set hSpans, if_pos rfl]
    exact perm_iff_count.mpr fun a => by
      simp only [count_append, count_cons]
      omega
  · refine (FreeSpan.disjointPieces_cut span hSize).sublist ?_
    unfold FreeList.remainder
    split
    · exact (nil_sublist _).cons_cons _
    · exact Sublist.refl _
  · intro a ha x hx
    refine ⟨span, mem_cons_self, FreeSpan.mem_bytes_of_cut hSize ?_⟩
    rcases mem_cons.mp ha with rfl | ha
    · exact .inl hx
    · exact .inr (hRemainder a ha ▸ hx)

theorem freeIn_freeSpan (allocator : SegmentAllocator) (segment : Nat) (offset length : UInt32)
    (t : Nat) : (allocator.freeSpan segment offset length).freeIn t =
      if t = segment then FreeList.insert (allocator.freeIn segment) offset length
      else allocator.freeIn t := by
  have hPad : ∀ t, (allocator.freeLists ++ replicate
      (segment + 1 - allocator.freeLists.length) [])[t]?.getD [] = allocator.freeIn t := by
    intro t
    rw [freeIn, getElem?_append]
    split_ifs with hLe
    · rfl
    · rw [getElem?_eq_none (not_lt.mp hLe), getElem?_replicate]
      split <;> rfl
  rw [freeSpan, freeIn]
  rw [getElem?_modify]
  by_cases hEq : segment = t
  · subst hEq
    rw [← hPad segment]
    have hLt : segment < (allocator.freeLists ++ replicate
        (segment + 1 - allocator.freeLists.length) []).length := by
      rw [length_append, length_replicate]
      omega
    rw [getElem?_eq_getElem hLt]
    rfl
  · simp only [if_neg hEq, if_neg (Ne.symm hEq)]
    rw [id_map', hPad]

theorem Inv.freeSpan (h : allocator.Inv live) {extent : Extent} (hLive : extent ∈ live) :
    (allocator.freeSpan extent.segment extent.span.offset extent.span.length).Inv
      (live.erase extent) := by
  obtain ⟨segment, span⟩ := extent
  obtain ⟨taken, kept, new, hSpans, hInsert, hOne, hInside⟩ := FreeList.insert_spec
    (allocator.freeIn segment) span.offset span.length
  have hErase := perm_cons_erase hLive
  refine h.replace rfl segment (span :: taken) new
    (liveIn (live.erase ⟨segment, span⟩) segment ++ kept) ?_ ?_ ?_ ?_ (cons_ne_nil _ _) hInside
  · intro t hNe
    have hSame := liveIn_perm hErase t
    rw [liveIn_cons_of_ne hNe] at hSame
    rw [pieces, pieces, freeIn_freeSpan, if_neg hNe]
    exact hSame.symm.append_right _
  · have hSame := liveIn_perm hErase segment
    rw [liveIn_cons_self] at hSame
    refine (hSame.append hSpans).trans ?_
    exact perm_iff_count.mpr fun a => by
      simp only [count_append, count_cons]
      omega
  · rw [pieces, freeIn_freeSpan, if_pos rfl]
    refine (Perm.append_left _ hInsert).trans ?_
    exact perm_iff_count.mpr fun a => by
      simp only [count_append]
      omega
  · match new, hOne with
    | [], _ => exact List.Pairwise.nil
    | [a], _ => exact pairwise_singleton _ a

end SegmentAllocator

end Cascette.Storage
