import Cascette.Storage.FreeListRuns
import Cascette.Storage.SegmentRuns

/-!
# The data area of a segment

Data belongs behind the header of a segment and before its end. The end is looked at only where a
segment is filled up: a new segment is made for every request, however large it is, and the whole
request is placed in it (`returned_inside_iff`). The position of a loaded segment is the length of
its file, and freed ranges are handed out as they are.
-/

namespace Cascette.Storage

open Lib List FreeList

def Extent.Inside (extent : Extent) : Prop := extent.span.Within segmentHeaderSize segmentSize

instance (extent : Extent) : Decidable extent.Inside := inferInstanceAs (Decidable (_ ∧ _))

namespace SegmentAllocator

def dataSize : Nat := segmentSize - segmentHeaderSize

def served (allocator : SegmentAllocator) : Op → List Extent
  | .allocate size useFreeList created =>
    liveAfter [] size (allocator.allocate size useFreeList created).1
  | _ => []

/-- What the calls of `allocate` return in a run. -/
def State.returned : State → List Op → List Extent
  | _, [] => []
  | state, op :: ops => state.allocator.served op ++ returned (state.step op) ops

/-- A freed range lies in the data area or is empty. -/
def Op.FreesInside : Op → Prop
  | .freeSpan extent => extent.span.length ≠ 0 → extent.Inside
  | _ => True

/-- The request is larger than the data area, and a segment can be added for it. -/
def Oversized (allocator : SegmentAllocator) : Op → Prop
  | .allocate size _ created => dataSize < size ∧ size < 2 ^ 32 ∧
      allocator.segments.length < allocator.maxSegments ∧ created = true
  | _ => False

/-- All segments are filled behind the header, and the free spans lie in the data area. -/
structure Bounded (allocator : SegmentAllocator) : Prop where
  limit : allocator.maxSegments ≤ Storage.maxSegments
  behind : ∀ info ∈ allocator.segments, segmentHeaderSize ≤ info.writePosition
  free : ∀ spans ∈ allocator.freeLists, ∀ span ∈ spans, span.Within segmentHeaderSize segmentSize

theorem segmentSize_lt : segmentSize < 2 ^ 32 := by decide

theorem allocateEnd_eq_none {size : Nat} {segments : List SegmentInfo}
    (h : ∀ info ∈ segments, info.hasSpaceFor size = false) : allocateEnd size segments = none := by
  induction segments with
  | nil => rfl
  | cons info segments ih =>
    obtain ⟨hInfo, hRest⟩ := forall_mem_cons.mp h
    rw [allocateEnd, hInfo, if_neg Bool.false_ne_true, ih hRest]
    rfl

namespace Bounded

variable {allocator allocator' : SegmentAllocator}

section

variable (h : allocator.Bounded)

include h

theorem setSegment {i : Nat} {info : SegmentInfo}
    (hBehind : segmentHeaderSize ≤ info.writePosition) : (allocator.setSegment i info).Bounded := by
  refine ⟨h.limit, fun other hOther => ?_, h.free⟩
  rcases mem_or_eq_of_mem_set hOther with hOther | rfl
  · exact h.behind other hOther
  · exact hBehind

theorem setFree {idx : Nat} {rest : List FreeSpan}
    (hRest : ∀ span ∈ rest, span.Within segmentHeaderSize segmentSize) :
    Bounded { allocator with freeLists := allocator.freeLists.set idx rest } := by
  refine ⟨h.limit, h.behind, fun spans hSpans => ?_⟩
  rcases mem_or_eq_of_mem_set hSpans with hSpans | rfl
  · exact h.free spans hSpans
  · exact hRest

variable {size : Nat}

theorem allocate {useFreeList : Bool} {result : Except StorageError Allocation}
    (hAllocates : Allocates allocator size useFreeList result allocator') : allocator'.Bounded := by
  cases hAllocates with
  | free idx offset spans rest _ _ _ hSpans hAllocate _ =>
    exact h.setFree (within_allocate segmentSize_lt
      (h.free spans (mem_of_getElem? hSpans)) hAllocate).2
  | bump i info hInfo _ =>
    exact h.setSegment ((h.behind info (mem_of_getElem? hInfo)).trans (Nat.le_add_right _ _))
  | new _ =>
    refine ⟨h.limit, fun info hInfo => ?_, fun spans hSpans => ?_⟩
    · rcases mem_append.mp hInfo with hInfo | hInfo
      · exact h.behind info hInfo
      · rw [mem_singleton.mp hInfo]
        exact Nat.le_add_right _ _
    · rcases mem_append.mp hSpans with hSpans | hSpans
      · exact h.free spans hSpans
      · rw [mem_singleton.mp hSpans]
        exact nofun
  | failed _ => exact h

theorem within_freeIn (segment : Nat) :
    ∀ span ∈ allocator.freeIn segment, span.Within segmentHeaderSize segmentSize := by
  intro span hSpan
  rw [freeIn] at hSpan
  cases hSpans : allocator.freeLists[segment]? with
  | none =>
    rw [hSpans] at hSpan
    cases hSpan
  | some spans =>
    rw [hSpans] at hSpan
    exact h.free spans (mem_of_getElem? hSpans) span hSpan

theorem freeSpan {extent : Extent} (hInside : extent.span.length ≠ 0 → extent.Inside) :
    (allocator.freeSpan extent.segment extent.span.offset extent.span.length).Bounded := by
  refine ⟨h.limit, h.behind, fun spans hSpans => ?_⟩
  obtain ⟨i, hi⟩ := getElem?_of_mem hSpans
  have hFree := freeIn_freeSpan allocator extent.segment extent.span.offset extent.span.length i
  rw [freeIn, hi, Option.getD_some] at hFree
  rw [hFree]
  split
  · exact within_insert segmentSize_lt (h.within_freeIn extent.segment) hInside
  · exact h.within_freeIn i

theorem setState (segment : Nat) (old new : SegmentState) :
    (allocator.setState segment old new).2.Bounded := by
  unfold SegmentAllocator.setState
  split
  next info hInfo =>
    split
    · exact h.setSegment (h.behind info (mem_of_getElem? hInfo))
    · exact h
  · exact h

end

variable {state : State}

theorem step (h : state.allocator.Bounded) {op : Op} (hOp : op.FreesInside) :
    (state.step op).allocator.Bounded := by
  cases op with
  | allocate size useFreeList created => exact h.allocate (allocate_cases _ _ _ _)
  | freeSpan extent => exact h.freeSpan hOp
  | freeze segment | thaw segment => exact h.setState segment _ _

/-! ## One request -/

variable (h : allocator.Bounded)
include h

theorem inside_of_le {useFreeList : Bool}
    {result : Except StorageError Allocation} (hSize : size ≤ dataSize)
    (hAllocates : Allocates allocator size useFreeList result allocator') :
    ∀ extent ∈ liveAfter [] size result, extent.Inside := by
  intro extent hExtent
  cases result with
  | error e => cases hExtent
  | ok a =>
    obtain rfl := mem_singleton.mp hExtent
    have hLength : (UInt32.ofNat size).toNat = size :=
      UInt32.toNat_ofNat_of_lt' (lt_of_le_of_lt hSize (by decide))
    generalize hOk : Except.ok (ε := StorageError) a = result at hAllocates
    cases hAllocates with
    | free idx offset spans rest _ _ _ hSpans hAllocate hResult =>
      obtain rfl := hResult a hOk.symm
      exact (within_allocate segmentSize_lt (h.free spans (mem_of_getElem? hSpans)) hAllocate).1
    | bump i info hInfo hSpace =>
      obtain rfl := allocationAt_eq_ok hOk.symm
      obtain ⟨-, hFits⟩ := of_decide_eq_true hSpace
      have hBehind := h.behind info (mem_of_getElem? hInfo)
      have hOffset : (UInt32.ofNat info.writePosition).toNat = info.writePosition :=
        UInt32.toNat_ofNat_of_lt'
          (lt_of_le_of_lt ((Nat.le_add_right _ _).trans hFits) segmentSize_lt)
      refine ⟨hBehind.trans hOffset.ge, ?_⟩
      rwa [hOffset, hLength]
    | new _ =>
      obtain rfl := allocationAt_eq_ok hOk.symm
      refine ⟨le_refl _, ?_⟩
      dsimp only
      rw [hLength]
      exact (Nat.add_le_add_left hSize _).trans (by decide)
    | failed e => cases hOk

/-- Only a new segment takes a request that is larger than the data area. -/
theorem allocate_of_lt (hLarge : dataSize < size) (hSize : size < 2 ^ 32)
    (useFreeList created : Bool) :
    allocator.allocate size useFreeList created = allocator.allocateNew size created := by
  have hFree : allocateFree (UInt32.ofNat size) allocator.freeLists = none := by
    rw [FreeRun.allocateFree_eq_none_iff]
    intro spans hSpans
    rw [← Option.not_isSome_iff_eq_none, isSome_freeList_allocate, any_eq_true]
    rintro ⟨span, hSpan, hFits⟩
    have hLe := of_decide_eq_true hFits
    rw [UInt32.toNat_ofNat_of_lt' hSize] at hLe
    obtain ⟨hLow, hHigh⟩ := h.free spans hSpans span hSpan
    dsimp only [dataSize] at hLarge
    omega
  have hEnd : allocateEnd size allocator.segments = none := by
    refine allocateEnd_eq_none fun info hInfo => decide_eq_false ?_
    rintro ⟨-, hFits⟩
    have hBehind := h.behind info hInfo
    dsimp only [dataSize] at hLarge
    omega
  have hBump : allocator.allocateBump size created = allocator.allocateNew size created := by
    rw [allocateBump, hEnd]
  rw [SegmentAllocator.allocate, if_neg (not_le.mpr hSize), hFree]
  rw [hBump, ite_self]

theorem served_of_lt (hLarge : dataSize < size) (useFreeList created : Bool) :
    allocator.served (.allocate size useFreeList created) =
      if size < 2 ^ 32 ∧ allocator.segments.length < allocator.maxSegments ∧ created = true then
        [⟨allocator.segments.length, ⟨UInt32.ofNat segmentHeaderSize, UInt32.ofNat size⟩⟩]
      else [] := by
  rw [served]
  by_cases hSize : size < 2 ^ 32
  · have hLimit : Storage.maxSegments < 2 ^ 16 := by decide
    have hCap := h.limit
    rw [h.allocate_of_lt hLarge hSize, allocateNew]
    by_cases hCount : allocator.segments.length < allocator.maxSegments
    · rw [if_neg (by omega), if_neg (by omega)]
      cases created
      · rw [if_pos rfl, if_neg (by simp)]
        rfl
      · rw [if_neg (by simp), if_pos ⟨hSize, hCount, rfl⟩]
        rfl
    · have hNot : ¬ (size < 2 ^ 32 ∧ allocator.segments.length < allocator.maxSegments ∧
          created = true) := fun hAll => hCount hAll.2.1
      rw [if_neg hNot, if_pos (not_lt.mp hCount)]
      split <;> rfl
  · rw [if_neg fun hAll => hSize hAll.1, SegmentAllocator.allocate, if_pos (not_lt.mp hSize)]
    rfl

/-- A call returns a range outside of the data area exactly if the request is larger than this
area. -/
theorem forall_served_iff (op : Op) :
    (∀ extent ∈ allocator.served op, extent.Inside) ↔ ¬ allocator.Oversized op := by
  cases op with
  | allocate size useFreeList created =>
    by_cases hLarge : dataSize < size
    · rw [h.served_of_lt hLarge, Oversized]
      split
      next hAll =>
        refine ⟨fun hInside => ?_, fun hNot => absurd ⟨hLarge, hAll⟩ hNot⟩
        have hStop := (hInside _ (mem_singleton_self _)).2
        dsimp only at hStop
        rw [UInt32.toNat_ofNat_of_lt' hAll.1] at hStop
        have hHeader : (UInt32.ofNat segmentHeaderSize).toNat = segmentHeaderSize := rfl
        dsimp only [dataSize] at hLarge
        omega
      next hNot =>
        exact ⟨fun _ hAll => hNot hAll.2, fun _ => nofun⟩
    · exact ⟨fun _ hOversized => hLarge hOversized.1,
        fun _ => h.inside_of_le (not_lt.mp hLarge) (allocate_cases _ _ _ _)⟩
  | freeSpan extent | freeze segment | thaw segment => exact ⟨fun _ => id, fun _ => nofun⟩

omit h

/-! ## Runs -/

theorem forall_returned_iff (h : state.allocator.Bounded) {ops : List Op}
    (hFrees : ∀ op ∈ ops, op.FreesInside) :
    (∀ extent ∈ state.returned ops, extent.Inside) ↔
      ∀ before op after, ops = before ++ op :: after →
        ¬ (state.run before).allocator.Oversized op := by
  induction ops generalizing state with
  | nil => exact ⟨fun _ before op after hOps => by simp at hOps, fun _ => nofun⟩
  | cons op ops ih =>
    obtain ⟨hOp, hRest⟩ := forall_mem_cons.mp hFrees
    rw [State.returned, forall_mem_append, h.forall_served_iff, ih (h.step hOp) hRest]
    constructor
    · rintro ⟨hFirst, hLater⟩ before other after hOps
      cases before with
      | nil =>
        cases hOps
        exact hFirst
      | cons first before =>
        cases hOps
        exact hLater before other after rfl
    · intro hAll
      exact ⟨hAll [] op ops rfl, fun before other after hOps =>
        hAll (op :: before) other after (congrArg _ hOps)⟩

end Bounded

theorem bounded_loadFile {allocator : SegmentAllocator} (h : allocator.Bounded)
    {file : Nat × Nat} (hFile : segmentHeaderSize ≤ file.2) :
    (allocator.loadFile file).Bounded := by
  refine ⟨h.limit, fun info hInfo => ?_, h.free⟩
  rcases mem_or_eq_of_mem_set hInfo with hInfo | rfl
  · rcases mem_append.mp hInfo with hInfo | hInfo
    · exact h.behind info hInfo
    · obtain ⟨i, -, rfl⟩ := mem_map.mp hInfo
      exact le_refl _
  · exact hFile

theorem bounded_opened (limit : Nat) {files : List (Nat × Nat)}
    (hFiles : ∀ file ∈ files, segmentHeaderSize ≤ file.2) :
    (opened limit files).allocator.Bounded := by
  have hNew : (SegmentAllocator.new limit).Bounded := ⟨Nat.min_le_right _ _, nofun, nofun⟩
  have hLoaded : ∀ files : List (Nat × Nat), (∀ file ∈ files, segmentHeaderSize ≤ file.2) →
      ∀ allocator : SegmentAllocator, allocator.Bounded →
        (files.foldl loadFile allocator).Bounded := by
    intro files
    induction files with
    | nil => exact fun _ allocator h => h
    | cons file files ih =>
      intro hFiles allocator h
      obtain ⟨hFile, hRest⟩ := forall_mem_cons.mp hFiles
      exact ih hRest _ (bounded_loadFile h hFile)
  exact hLoaded _ (fun file hFile => hFiles file (mem_of_mem_filter hFile)) _ hNew

/-- With data files that hold a header and with frees inside of the data area, all that is returned
lies in the data area exactly if no request that is larger than this area meets an allocator that
can add a segment. -/
theorem returned_inside_iff (limit : Nat) (files : List (Nat × Nat)) (ops : List Op)
    (hFiles : ∀ file ∈ files, segmentHeaderSize ≤ file.2)
    (hFrees : ∀ op ∈ ops, op.FreesInside) :
    (∀ extent ∈ (opened limit files).returned ops, extent.Inside) ↔
      ∀ before op after, ops = before ++ op :: after →
        ¬ ((opened limit files).run before).allocator.Oversized op :=
  (bounded_opened limit hFiles).forall_returned_iff hFrees

/-- Two requests with a free between them, over a file that holds little more than a header. -/
theorem returned_inside_sample :
    (∀ file ∈ [(0, 500)], segmentHeaderSize ≤ file.2) ∧
    (∀ extent ∈ (opened 2 [(0, 500)]).returned
      [.thaw 0, .allocate 100 false true, .freeSpan ⟨0, ⟨500, 60⟩⟩, .allocate 40 true true],
      extent.Inside) := by
  have hFiles : ∀ file ∈ [(0, 500)], segmentHeaderSize ≤ file.2 := by decide
  have hFrees : ∀ op ∈ [.thaw 0, .allocate 100 false true, .freeSpan ⟨0, ⟨500, 60⟩⟩,
      .allocate 40 true true], Op.FreesInside op := by
    intro op hOp
    fin_cases hOp
    · trivial
    · trivial
    · exact fun _ => by decide
    · trivial
  refine ⟨hFiles, (returned_inside_iff 2 _ _ hFiles hFrees).mpr ?_⟩
  rintro before op after hOps hOversized
  have hOp : op ∈ [.thaw 0, .allocate 100 false true, .freeSpan ⟨0, ⟨500, 60⟩⟩,
      .allocate 40 true true] := hOps ▸ mem_append_right _ mem_cons_self
  fin_cases hOp
  · exact hOversized
  · exact absurd hOversized.1 (by decide)
  · exact hOversized
  · exact absurd hOversized.1 (by decide)

/-- A request of a whole segment is placed behind the header of a new segment and ends outside of
it. The position of a loaded file without a header is before the data area. -/
theorem returned_inside_refuted :
    (∃ extent ∈ (opened 1 []).returned [.allocate 0x40000000 false true], ¬ extent.Inside) ∧
      ∃ extent ∈ (opened 1 [(0, 0)]).returned [.thaw 0, .allocate 16 false true], ¬ extent.Inside :=
  ⟨⟨⟨0, ⟨480, 0x40000000⟩⟩, by decide, by decide⟩, ⟨0, ⟨0, 16⟩⟩, by decide, by decide⟩

end SegmentAllocator

end Cascette.Storage
