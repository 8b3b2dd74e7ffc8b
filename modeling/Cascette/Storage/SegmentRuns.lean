import Cascette.Storage.Segment

/-!
# Runs of the segment allocator

A run is a sequence of calls in which only live allocations are freed. Live allocations never share
a byte (`live_disjoint`). Freezing a segment keeps data from being added at its end, but the free
lists are asked first and do not know about it (`frozen_untouched_iff`).
-/

namespace Cascette.Storage

open Lib

namespace SegmentAllocator

/-! ## Space at the end of a segment -/

variable {allocator allocator' : SegmentAllocator} {live : List Extent}
  {segment size i offset x : Nat} {info info' : SegmentInfo} {useFreeList : Bool}
  {result : Except StorageError Allocation} {span : FreeSpan} {a : Allocation}

theorem Inv.grow (h : allocator.Inv live)
    (hIndex : ∀ (i : Nat) (info : SegmentInfo), allocator'.segments[i]? = some info →
      info.index = i)
    (hFree : ∀ t, allocator'.freeIn t = allocator.freeIn t)
    (hGrow : ∀ (s : Nat) (info : SegmentInfo), allocator.segments[s]? = some info → ∃ info',
      allocator'.segments[s]? = some info' ∧ info.writePosition ≤ info'.writePosition) :
    allocator'.Inv live := by
  have hPieces : ∀ t, allocator'.pieces live t = allocator.pieces live t := by
    intro t
    rw [pieces, hFree, ← pieces]
  refine ⟨hIndex, fun s => hPieces s ▸ h.apart s, fun s span hSpan => ?_⟩
  rw [hPieces] at hSpan
  obtain ⟨info, hInfo, hBelow⟩ := h.below s span hSpan
  obtain ⟨info', hInfo', hLe⟩ := hGrow s info hInfo
  exact ⟨info', hInfo', fun hSize x hx => lt_of_lt_of_le (hBelow (hLe.trans hSize) x hx) hLe⟩

theorem Inv.add (h : allocator.Inv live)
    (hApart : ∀ other ∈ allocator.pieces live segment, Disjoint span.bytes other.bytes)
    (hInfo : allocator.segments[segment]? = some info)
    (hBelow : info.writePosition ≤ segmentSize → ∀ x ∈ span.bytes, x < info.writePosition) :
    allocator.Inv (⟨segment, span⟩ :: live) := by
  have hSelf : allocator.pieces (⟨segment, span⟩ :: live) segment =
      span :: allocator.pieces live segment := by
    rw [pieces, liveIn_cons_self, List.cons_append, ← pieces]
  have hOther : ∀ t ≠ segment, allocator.pieces (⟨segment, span⟩ :: live) t =
      allocator.pieces live t := by
    intro t hNe
    rw [pieces, liveIn_cons_of_ne hNe, ← pieces]
  refine ⟨h.index, fun t => ?_, fun t other hIn => ?_⟩
  · by_cases hEq : t = segment
    · subst hEq
      rw [hSelf]
      exact List.pairwise_cons.mpr ⟨hApart, h.apart t⟩
    · rw [hOther t hEq]
      exact h.apart t
  · by_cases hEq : t = segment
    · subst hEq
      rw [hSelf] at hIn
      rcases List.mem_cons.mp hIn with rfl | hIn
      · exact ⟨info, hInfo, hBelow⟩
      · exact h.below t other hIn
    · rw [hOther t hEq] at hIn
      exact h.below t other hIn

theorem mem_bytes_ofNat (h : offset + size ≤ segmentSize)
    (hx : x ∈ (⟨UInt32.ofNat offset, UInt32.ofNat size⟩ : FreeSpan).bytes) :
    offset ≤ x ∧ x < offset + size := by
  have hSmall : segmentSize < 2 ^ 32 := by decide
  have hOffset : (UInt32.ofNat offset).toNat = offset :=
    UInt32.toNat_ofNat_of_lt' (by omega : offset < 2 ^ 32)
  have hSize : (UInt32.ofNat size).toNat = size :=
    UInt32.toNat_ofNat_of_lt' (by omega : size < 2 ^ 32)
  rw [FreeSpan.mem_bytes_iff (by dsimp only; omega)] at hx
  dsimp only at hx
  omega

theorem allocationAt_eq_ok (h : allocationAt segment offset = .ok a) :
    a = ⟨segment, UInt32.ofNat offset⟩ := by
  unfold allocationAt at h
  split at h
  · cases h
    rfl
  · cases h

variable (h : allocator.Inv live)
include h

theorem Inv.setSegment (hInfo : allocator.segments[i]? = some info)
    (hIndex : info'.index = info.index) (hLe : info.writePosition ≤ info'.writePosition) :
    (allocator.setSegment i info').Inv live := by
  have hLt : i < allocator.segments.length := (List.getElem?_eq_some_iff.mp hInfo).1
  refine h.grow ?_ (fun t => rfl) ?_
  · intro t found hFound
    rw [SegmentAllocator.setSegment] at hFound
    by_cases hEq : i = t
    · subst hEq
      rw [List.getElem?_set_self hLt] at hFound
      cases hFound
      exact hIndex.trans (h.index i info hInfo)
    · rw [List.getElem?_set_ne hEq] at hFound
      exact h.index t found hFound
  · intro t found hFound
    rw [SegmentAllocator.setSegment]
    by_cases hEq : i = t
    · subst hEq
      cases hInfo.symm.trans hFound
      exact ⟨_, List.getElem?_set_self hLt, hLe⟩
    · exact ⟨found, by rwa [List.getElem?_set_ne hEq], le_refl _⟩

/-- Space at the end of a segment is above all spans of the segment. -/
theorem Inv.bump (hInfo : allocator.segments[i]? = some info)
    (hSpace : info.hasSpaceFor size = true) :
    (allocator.setSegment i { info with writePosition := info.writePosition + size }).Inv
      (⟨i, ⟨UInt32.ofNat info.writePosition, UInt32.ofNat size⟩⟩ :: live) := by
  have hLt : i < allocator.segments.length := (List.getElem?_eq_some_iff.mp hInfo).1
  obtain ⟨-, hFits⟩ := of_decide_eq_true hSpace
  have hMoved : (allocator.setSegment i
      { info with writePosition := info.writePosition + size }).Inv live :=
    h.setSegment hInfo rfl (Nat.le_add_right _ _)
  refine hMoved.add ?_ (List.getElem?_set_self hLt) ?_
  · intro other hOther
    obtain ⟨info', hInfo', hBelow⟩ := h.below i other hOther
    cases hInfo.symm.trans hInfo'
    rw [Set.disjoint_left]
    intro x hx hxOther
    have hAbove := (mem_bytes_ofNat hFits hx).1
    have hUnder := hBelow (by omega) x hxOther
    omega
  · intro _ x hx
    exact (mem_bytes_ofNat hFits hx).2

theorem Inv.newSegment (size : Nat) :
    let new := { SegmentInfo.new allocator.segments.length with
      writePosition := segmentHeaderSize + size }
    let grown := { allocator with
      segments := allocator.segments ++ [new]
      freeLists := allocator.freeLists ++ [[]] }
    grown.Inv (⟨allocator.segments.length, ⟨UInt32.ofNat segmentHeaderSize, UInt32.ofNat size⟩⟩ ::
      live) := by
  intro new grown
  have hFree : ∀ t, (allocator.freeLists ++ [[]])[t]?.getD [] = allocator.freeIn t := by
    intro t
    rw [freeIn, List.getElem?_append]
    split_ifs with hLe
    · rfl
    · rw [List.getElem?_eq_none (not_lt.mp hLe), List.getElem?_singleton]
      split <;> rfl
  have hGrown : grown.Inv live := by
    refine h.grow ?_ hFree ?_
    · intro i info hInfo
      rw [List.getElem?_append] at hInfo
      split_ifs at hInfo with hLe
      · exact h.index i info hInfo
      · obtain ⟨hLt, rfl⟩ := List.getElem?_eq_some_iff.mp hInfo
        rw [List.length_singleton] at hLt
        rw [List.getElem_singleton]
        change allocator.segments.length = i
        omega
    · intro i info hInfo
      have hLt : i < allocator.segments.length := (List.getElem?_eq_some_iff.mp hInfo).1
      exact ⟨info, by rwa [List.getElem?_append_left hLt], le_refl _⟩
  have hNew : grown.segments[allocator.segments.length]? = some new := List.getElem?_concat_length
  refine hGrown.add ?_ hNew ?_
  · -- There is nothing in a segment that did not exist.
    intro other hOther
    have hOld : other ∈ allocator.pieces live allocator.segments.length := by
      rw [pieces, ← hFree]
      exact hOther
    obtain ⟨info, hInfo, -⟩ := h.below _ other hOld
    rw [List.getElem?_eq_none (le_refl _)] at hInfo
    cases hInfo
  · intro hSize x hx
    exact (mem_bytes_ofNat hSize hx).2

omit h

/-- The live allocations after a call of `allocate`. -/
def liveAfter (live : List Extent) (size : Nat) : Except StorageError Allocation → List Extent
  | .ok a => ⟨a.segmentIndex, ⟨a.fileOffset, UInt32.ofNat size⟩⟩ :: live
  | .error _ => live

theorem Inv.of_cons {extent : Extent} (h : allocator.Inv (extent :: live)) :
    allocator.Inv live := by
  have hSub : ∀ s, (allocator.pieces live s).Sublist (allocator.pieces (extent :: live) s) :=
    fun s => ((List.sublist_cons_self extent live).filter _ |>.map _).append_right _
  exact ⟨h.index, fun s => (h.apart s).sublist (hSub s),
    fun s span hSpan => h.below s span ((hSub s).subset hSpan)⟩

theorem Inv.allocate (h : allocator.Inv live)
    (hAllocates : Allocates allocator size useFreeList result allocator') :
    allocator'.Inv (liveAfter live size result) := by
  cases hAllocates with
  | free idx offset spans rest _ _ _ hSpans hAllocate hResult =>
    have hInv := h.allocateFree hSpans hAllocate
    cases result with
    | ok a =>
      obtain rfl := hResult a rfl
      exact hInv
    | error e => exact hInv.of_cons
  | bump i info hInfo hSpace =>
    have hInv := h.bump hInfo hSpace
    cases hAt : allocationAt info.index info.writePosition with
    | ok a =>
      obtain rfl := allocationAt_eq_ok hAt
      have hLive : liveAfter live size (.ok ⟨info.index, UInt32.ofNat info.writePosition⟩) =
          ⟨i, ⟨UInt32.ofNat info.writePosition, UInt32.ofNat size⟩⟩ :: live := by
        rw [liveAfter, h.index i info hInfo]
      rw [hLive]
      exact hInv
    | error e => exact hInv.of_cons
  | new _ =>
    have hInv := h.newSegment size
    cases hAt : allocationAt allocator.segments.length segmentHeaderSize with
    | ok a =>
      obtain rfl := allocationAt_eq_ok hAt
      exact hInv
    | error e => exact hInv.of_cons
  | failed e => exact h

theorem Inv.setState (h : allocator.Inv live) (segment : Nat) (old new : SegmentState) :
    (allocator.setState segment old new).2.Inv live := by
  unfold SegmentAllocator.setState
  split
  next info hInfo =>
    split
    · exact h.setSegment hInfo rfl (le_refl _)
    · exact h
  · exact h

/-! ## Runs -/

/-- The calls. The outcome of creating a file is part of a call. -/
inductive Op
  | allocate (size : Nat) (useFreeList created : Bool)
  | freeSpan (extent : Extent)
  | freeze (segment : Nat)
  | thaw (segment : Nat)
deriving DecidableEq

/-- The allocator together with the allocations that are live. -/
structure State where
  allocator : SegmentAllocator
  live : List Extent

namespace State

def step (state : State) : Op → State
  | .allocate size useFreeList created =>
    let result := state.allocator.allocate size useFreeList created
    { allocator := result.2, live := liveAfter state.live size result.1 }
  | .freeSpan extent =>
    { allocator := state.allocator.freeSpan extent.segment extent.span.offset extent.span.length
      live := state.live.erase extent }
  | .freeze segment => { state with allocator := (state.allocator.freeze segment).2 }
  | .thaw segment => { state with allocator := (state.allocator.thaw segment).2 }

/-- Only live allocations are freed. -/
def Allowed (state : State) : Op → Prop
  | .freeSpan extent => extent ∈ state.live
  | _ => True

def run (state : State) (ops : List Op) : State := ops.foldl step state

def Valid : State → List Op → Prop
  | _, [] => True
  | state, op :: ops => state.Allowed op ∧ Valid (state.step op) ops

def Good (state : State) : Prop := state.allocator.Inv state.live

variable {state : State}

theorem Good.step (h : state.Good) {op : Op} (hAllowed : state.Allowed op) :
    (state.step op).Good := by
  cases op with
  | allocate size useFreeList created => exact Inv.allocate h (allocate_cases _ _ _ _)
  | freeSpan extent => exact Inv.freeSpan h hAllowed
  | freeze segment | thaw segment => exact Inv.setState h segment _ _

theorem Good.run (h : state.Good) {ops : List Op} (hValid : Valid state ops) :
    (state.run ops).Good := by
  induction ops generalizing state with
  | nil => exact h
  | cons op ops ih => exact ih (h.step hValid.1) hValid.2

end State

/-- An allocator that was opened over data files. -/
def opened (limit : Nat) (files : List (Nat × Nat)) : State :=
  { allocator := (SegmentAllocator.new limit).loadExisting files, live := [] }

theorem index_loadFile
    (h : ∀ (i : Nat) (info : SegmentInfo), allocator.segments[i]? = some info → info.index = i)
    (file : Nat × Nat) (i : Nat) (info : SegmentInfo)
    (hInfo : (allocator.loadFile file).segments[i]? = some info) : info.index = i := by
  rw [loadFile] at hInfo
  rw [List.getElem?_set] at hInfo
  split at hInfo
  next hEq =>
    split at hInfo
    · cases hInfo
      exact hEq
    · cases hInfo
  · rw [List.getElem?_append] at hInfo
    split_ifs at hInfo with hLe
    · exact h i info hInfo
    · rw [List.getElem?_map] at hInfo
      obtain ⟨k, hk, rfl⟩ := Option.map_eq_some_iff.mp hInfo
      obtain ⟨hLt, rfl⟩ := List.getElem?_eq_some_iff.mp hk
      rw [List.getElem_range]
      change allocator.segments.length + (i - allocator.segments.length) = i
      omega

theorem good_opened (limit : Nat) (files : List (Nat × Nat)) : (opened limit files).Good := by
  have hLoaded : ∀ (files : List (Nat × Nat)) (allocator : SegmentAllocator),
      allocator.freeLists = [] → (∀ (i : Nat) (info : SegmentInfo),
        allocator.segments[i]? = some info → info.index = i) →
      (files.foldl loadFile allocator).freeLists = [] ∧ ∀ (i : Nat) (info : SegmentInfo),
        (files.foldl loadFile allocator).segments[i]? = some info → info.index = i := by
    intro files
    induction files with
    | nil => exact fun allocator hFree hIndex => ⟨hFree, hIndex⟩
    | cons file files ih =>
      exact fun allocator hFree hIndex => ih _ hFree (index_loadFile hIndex file)
  obtain ⟨hFree, hIndex⟩ := hLoaded (files.filter fun file => file.1 < Storage.maxSegments)
    (SegmentAllocator.new limit) rfl nofun
  have hNone : ∀ s, (opened limit files).allocator.pieces [] s = [] := by
    intro s
    rw [pieces, freeIn, opened, loadExisting, hFree]
    rfl
  refine ⟨hIndex, fun s => ?_, fun s span hSpan => ?_⟩
  · exact (hNone s).symm ▸ List.Pairwise.nil
  · rw [show (opened limit files).live = [] from rfl, hNone] at hSpan
    cases hSpan

theorem mod_mem_bytes (hLow : span.offset.toNat ≤ x)
    (hHigh : x < span.offset.toNat + span.length.toNat) : x % 2 ^ 32 ∈ span.bytes := by
  have hOffset := span.offset.toNat_lt
  have hLength := span.length.toNat_lt
  exact ⟨Nat.mod_lt _ (by decide), by omega⟩

/-- In every run the live allocations share no byte. -/
theorem live_disjoint (limit : Nat) (files : List (Nat × Nat)) {ops : List Op}
    (hValid : State.Valid (opened limit files) ops) :
    ((opened limit files).run ops).live.Pairwise fun a b =>
      a.segment = b.segment → Disjoint a.range b.range := by
  have hGood := (good_opened limit files).run hValid
  rw [List.pairwise_iff_getElem]
  intro i j hi hj hij hSegment
  have hApart := (disjointPieces_append.mp (hGood.apart
    ((opened limit files).run ops).live[i].segment)).1
  rw [DisjointPieces, liveIn, List.pairwise_map, List.pairwise_filter,
    List.pairwise_iff_getElem] at hApart
  have hBytes := hApart i j hi hj hij (decide_eq_true rfl) (decide_eq_true hSegment.symm)
  rw [Set.disjoint_left] at hBytes ⊢
  rintro x ⟨hLow, hHigh⟩ ⟨hLow', hHigh'⟩
  exact hBytes (mod_mem_bytes hLow hHigh) (mod_mem_bytes hLow' hHigh')

/-- Two allocations, one of which is freed and used again. -/
def sampleOps : List Op :=
  [.allocate 100 false true, .allocate 50 false true, .freeSpan ⟨0, ⟨480, 100⟩⟩,
    .allocate 30 true true]

theorem live_disjoint_sample :
    State.Valid (opened 4 []) sampleOps ∧
      ((opened 4 []).run sampleOps).live.Pairwise fun a b =>
        a.segment = b.segment → Disjoint a.range b.range := by
  have hValid : State.Valid (opened 4 []) sampleOps :=
    ⟨trivial, trivial, (by decide : (⟨0, ⟨480, 100⟩⟩ : Extent) ∈ _), trivial, trivial⟩
  exact ⟨hValid, live_disjoint 4 [] hValid⟩

/-! ## Frozen segments -/

def Frozen (allocator : SegmentAllocator) (segment : Nat) : Prop :=
  ∃ info, allocator.segments[segment]? = some info ∧ info.state = .frozen

/-- The segments know their number, and there are not too many of them. -/
structure Numbered (allocator : SegmentAllocator) : Prop where
  index : ∀ (i : Nat) (info : SegmentInfo), allocator.segments[i]? = some info → info.index = i
  count : allocator.segments.length ≤ Storage.maxSegments
  limit : allocator.maxSegments ≤ Storage.maxSegments

theorem setSegment_getElem? (hInfo : allocator.segments[i]? = some info) (t : Nat) :
    (allocator.setSegment i info').segments[t]? =
      if t = i then some info' else allocator.segments[t]? := by
  have hLt : i < allocator.segments.length := (List.getElem?_eq_some_iff.mp hInfo).1
  rw [setSegment]
  by_cases hEq : t = i
  · rw [if_pos hEq, hEq, List.getElem?_set_self hLt]
  · rw [if_neg hEq, List.getElem?_set_ne (Ne.symm hEq)]

theorem Numbered.setSegment (h : allocator.Numbered) (hInfo : allocator.segments[i]? = some info)
    (hIndex : info'.index = info.index) : (allocator.setSegment i info').Numbered := by
  refine ⟨fun t found hFound => ?_, ?_, h.limit⟩
  · rw [setSegment_getElem? hInfo] at hFound
    split_ifs at hFound with hEq
    · cases hFound
      exact hIndex.trans ((h.index i info hInfo).trans hEq.symm)
    · exact h.index t found hFound
  · rw [SegmentAllocator.setSegment, List.length_set]
    exact h.count

theorem Frozen.setSegment (h : allocator.Frozen segment)
    (hInfo : allocator.segments[i]? = some info)
    (hState : i = segment → info.state = .frozen → info'.state = .frozen) :
    (allocator.setSegment i info').Frozen segment := by
  obtain ⟨found, hFound, hFrozen⟩ := h
  rw [Frozen, setSegment_getElem? hInfo]
  by_cases hEq : segment = i
  · subst hEq
    cases hInfo.symm.trans hFound
    exact ⟨info', if_pos rfl, hState rfl hFrozen⟩
  · exact ⟨found, by rwa [if_neg hEq], hFrozen⟩

theorem Numbered.newSegment (h : allocator.Numbered)
    (hCount : allocator.segments.length < allocator.maxSegments)
    (hIndex : info.index = allocator.segments.length) (freeLists : List (List FreeSpan)) :
    Numbered { allocator with segments := allocator.segments ++ [info], freeLists } := by
  refine ⟨fun t found hFound => ?_, ?_, h.limit⟩
  · dsimp only at hFound
    rw [List.getElem?_append] at hFound
    split_ifs at hFound with hLe
    · exact h.index t found hFound
    · obtain ⟨hLt, rfl⟩ := List.getElem?_eq_some_iff.mp hFound
      rw [List.length_singleton] at hLt
      rw [List.getElem_singleton, hIndex]
      omega
  · have hLimit := h.limit
    rw [List.length_append, List.length_singleton]
    omega

theorem Frozen.newSegment (h : allocator.Frozen segment) (info : SegmentInfo)
    (freeLists : List (List FreeSpan)) :
    Frozen { allocator with segments := allocator.segments ++ [info], freeLists } segment := by
  obtain ⟨found, hFound, hFrozen⟩ := h
  have hLt : segment < allocator.segments.length := (List.getElem?_eq_some_iff.mp hFound).1
  exact ⟨found, by rwa [List.getElem?_append_left hLt], hFrozen⟩

theorem Numbered.allocate (h : allocator.Numbered)
    (hAllocates : Allocates allocator size useFreeList result allocator') :
    allocator'.Numbered := by
  cases hAllocates with
  | free => exact ⟨h.index, h.count, h.limit⟩
  | bump i info hInfo hSpace => exact h.setSegment hInfo rfl
  | new hCount => exact h.newSegment hCount rfl _
  | failed e => exact h

theorem Frozen.allocate (h : allocator.Frozen segment)
    (hAllocates : Allocates allocator size useFreeList result allocator') :
    allocator'.Frozen segment := by
  cases hAllocates with
  | free => exact h
  | bump i info hInfo hSpace => exact h.setSegment hInfo fun _ hState => hState
  | new hCount => exact h.newSegment _ _
  | failed e => exact h

/-- Only a free list gives space in a frozen segment. -/
theorem Frozen.of_allocates (hNumbered : allocator.Numbered)
    (hAllocates : Allocates allocator size useFreeList (.ok a) allocator')
    (h : allocator.Frozen a.segmentIndex) :
    useFreeList = true ∧ allocator.firstFree size = some a.segmentIndex := by
  obtain ⟨found, hFound, hFrozen⟩ := h
  generalize hResult : (Except.ok a : Except StorageError Allocation) = result at hAllocates
  cases hAllocates with
  | free idx offset spans rest _ hUse hFirst _ _ hAt =>
    obtain rfl := hAt a hResult.symm
    exact ⟨hUse, hFirst⟩
  | bump i info hInfo hSpace =>
    -- The end of a segment is used only if the segment is thawed.
    obtain rfl := allocationAt_eq_ok hResult.symm
    rw [hNumbered.index i info hInfo, hInfo] at hFound
    cases hFound
    rw [(of_decide_eq_true hSpace).1] at hFrozen
    cases hFrozen
  | new hCount =>
    obtain rfl := allocationAt_eq_ok hResult.symm
    rw [List.getElem?_eq_none (le_refl _)] at hFound
    cases hFound
  | failed e => cases hResult

theorem allocate_of_firstFree {idx : Nat} (h : allocator.firstFree size = some idx)
    (hIdx : idx < 2 ^ 16) (created : Bool) :
    ∃ a, (allocator.allocate size true created).1 = .ok a ∧ a.segmentIndex = idx := by
  have hSize : size < 2 ^ 32 := by
    obtain ⟨hLt, hAny, -⟩ := List.findIdx?_eq_some_iff_getElem.mp h
    obtain ⟨span, -, hFits⟩ := List.any_eq_true.mp hAny
    exact lt_of_le_of_lt (of_decide_eq_true hFits) span.length.toNat_lt
  rw [firstFree_eq allocator hSize] at h
  obtain ⟨⟨idx', offset, lists⟩, hFree, rfl⟩ := Option.map_eq_some_iff.mp h
  rw [SegmentAllocator.allocate, if_neg (not_le.mpr hSize), if_pos rfl, hFree]
  exact ⟨⟨idx', offset⟩, if_pos hIdx, rfl⟩

theorem Numbered.setState (h : allocator.Numbered) (segment : Nat) (old new : SegmentState) :
    (allocator.setState segment old new).2.Numbered := by
  unfold SegmentAllocator.setState
  split
  next info hInfo =>
    split
    · exact h.setSegment hInfo rfl
    · exact h
  · exact h

theorem Frozen.setState (h : allocator.Frozen segment) {other : Nat} {old new : SegmentState}
    (hNew : other = segment → new = .frozen) :
    (allocator.setState other old new).2.Frozen segment := by
  unfold SegmentAllocator.setState
  split
  next info hInfo =>
    split
    · exact h.setSegment hInfo fun hEq _ => hNew hEq
    · exact h
  · exact h

namespace State

variable {state : State} {segment : Nat}

theorem numbered_step (h : state.allocator.Numbered) (op : Op) :
    (state.step op).allocator.Numbered := by
  cases op with
  | allocate size useFreeList created => exact h.allocate (allocate_cases _ _ _ _)
  | freeSpan extent => exact ⟨h.index, h.count, h.limit⟩
  | freeze segment | thaw segment => exact h.setState segment _ _

theorem numbered_run (h : state.allocator.Numbered) (ops : List Op) :
    (state.run ops).allocator.Numbered := by
  induction ops generalizing state with
  | nil => exact h
  | cons op ops ih => exact ih (numbered_step h op)

/-- Only `thaw` ends the frozen state of a segment. -/
theorem frozen_step (h : state.allocator.Frozen segment) {op : Op}
    (hOp : op ≠ .thaw segment) : (state.step op).allocator.Frozen segment := by
  cases op with
  | allocate size useFreeList created => exact h.allocate (allocate_cases _ _ _ _)
  | freeSpan extent => exact h
  | freeze other => exact h.setState fun _ => rfl
  | thaw other => exact h.setState fun hEq => absurd (congrArg Op.thaw hEq) hOp

theorem frozen_run (h : state.allocator.Frozen segment) {ops : List Op}
    (hOps : .thaw segment ∉ ops) : (state.run ops).allocator.Frozen segment := by
  induction ops generalizing state with
  | nil => exact h
  | cons op ops ih =>
    rw [List.mem_cons, not_or] at hOps
    exact ih (frozen_step h (Ne.symm hOps.1)) hOps.2

/-- From a moment in which a segment is frozen up to the next `thaw` of it, `allocate` returns no
span of the segment. -/
def FrozenUntouched (state : State) (ops : List Op) : Prop :=
  ∀ (before during after : List Op) (segment size : Nat) (useFreeList created : Bool),
    ops = before ++ during ++ .allocate size useFreeList created :: after →
    (state.run before).allocator.Frozen segment → .thaw segment ∉ during →
    ∀ a, ((state.run (before ++ during)).allocator.allocate size useFreeList created).1 = .ok a →
      a.segmentIndex ≠ segment

/-- A call that may use the free lists finds the first span that fits outside of the frozen
segments. -/
def FindsThawed (state : State) : Op → Prop
  | .allocate size true _ =>
    ∀ segment, state.allocator.firstFree size = some segment → ¬ state.allocator.Frozen segment
  | _ => True

/-- One call finds its space outside of the frozen segments exactly if the free lists do not lead
it into one. -/
theorem findsThawed_allocate_iff (h : state.allocator.Numbered) (size : Nat)
    (useFreeList created : Bool) :
    state.FindsThawed (.allocate size useFreeList created) ↔
      ∀ a, (state.allocator.allocate size useFreeList created).1 = .ok a →
        ¬ state.allocator.Frozen a.segmentIndex := by
  constructor
  · intro hFinds a hAllocate hFrozen
    obtain ⟨rfl, hFirst⟩ := Frozen.of_allocates h
      (hAllocate ▸ allocate_cases state.allocator size useFreeList created) hFrozen
    exact hFinds a.segmentIndex hFirst hFrozen
  · intro hNone
    cases useFreeList with
    | false => trivial
    | true =>
      intro segment hFirst hFrozen
      have hLt : segment < state.allocator.segments.length := by
        obtain ⟨info, hInfo, -⟩ := hFrozen
        exact (List.getElem?_eq_some_iff.mp hInfo).1
      have hCount := h.count
      have hSmall : Storage.maxSegments < 2 ^ 16 := by decide
      obtain ⟨a, hAllocate, rfl⟩ := allocate_of_firstFree hFirst (by omega) created
      exact hNone a hAllocate hFrozen

end State

theorem numbered_opened (limit : Nat) (files : List (Nat × Nat)) :
    (opened limit files).allocator.Numbered := by
  have hLoaded : ∀ (files : List (Nat × Nat)) (allocator : SegmentAllocator),
      (∀ file ∈ files, file.1 < Storage.maxSegments) → allocator.Numbered →
      (files.foldl loadFile allocator).Numbered := by
    intro files
    induction files with
    | nil => exact fun allocator _ h => h
    | cons file files ih =>
      intro allocator hFiles h
      have hFile := hFiles file List.mem_cons_self
      refine ih _ (fun other hOther => hFiles other (List.mem_cons_of_mem _ hOther)) ?_
      refine ⟨index_loadFile h.index file, ?_, h.limit⟩
      have hCount := h.count
      rw [loadFile, List.length_set, List.length_append, List.length_map, List.length_range]
      omega
  refine hLoaded _ _ (fun file hFile => of_decide_eq_true (List.mem_filter.mp hFile).2) ?_
  exact ⟨nofun, Nat.zero_le _, Nat.min_le_right _ _⟩

/-- Frozen segments get no new data exactly in the runs in which no free list leads into one. -/
theorem frozen_untouched_iff (limit : Nat) (files : List (Nat × Nat)) (ops : List Op) :
    (opened limit files).FrozenUntouched ops ↔
      ∀ before op after, ops = before ++ op :: after →
        ((opened limit files).run before).FindsThawed op := by
  have hNumbered := State.numbered_run (numbered_opened limit files)
  constructor
  · intro hUntouched before op after hOps
    cases op with
    | allocate size useFreeList created =>
      rw [State.findsThawed_allocate_iff (hNumbered before)]
      intro a hAllocate hFrozen
      refine hUntouched before [] after a.segmentIndex size useFreeList created ?_ hFrozen
        List.not_mem_nil a ?_ rfl
      · rw [List.append_nil, hOps]
      · rwa [List.append_nil]
    | freeSpan extent => trivial
    | freeze segment => trivial
    | thaw segment => trivial
  · -- A frozen segment is still frozen at the later call.
    intro hFinds before during after segment size useFreeList created hOps hFrozen hThaw a hAllocate
    rintro rfl
    have hNone := (State.findsThawed_allocate_iff (hNumbered (before ++ during)) size useFreeList
      created).mp (hFinds (before ++ during) _ after hOps) a hAllocate
    apply hNone
    rw [State.run, List.foldl_append]
    exact State.frozen_run hFrozen hThaw

/-- A span of a segment is freed, the segment is frozen, and the span is returned again. -/
theorem frozen_untouched_refuted :
    ¬ (opened 1 []).FrozenUntouched
      [.allocate 100 false true, .freeSpan ⟨0, ⟨480, 100⟩⟩, .freeze 0,
        .allocate 100 true true] := by
  intro h
  refine h [.allocate 100 false true, .freeSpan ⟨0, ⟨480, 100⟩⟩, .freeze 0] [] [] 0 100 true true
    rfl ?_ List.not_mem_nil ⟨0, 480⟩ ?_ rfl
  · exact ⟨⟨0, .frozen, 580⟩, by decide, rfl⟩
  · decide

end SegmentAllocator

end Cascette.Storage
