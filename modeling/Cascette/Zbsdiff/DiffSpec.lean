import Cascette.Lib.SuffixArray
import Cascette.Zbsdiff.Suffix

/-!
# The differ neither panics nor runs forever

* `search_spec`: the search finds a match of length zero only for a byte that does not occur in
  the old data. It finds the longest match where no suffix that it compares ends within that.
* `scanLoop_spec`: the score counts the matches along the last offset between the scan position
  and the position counted up to, so it is positive whenever it is decreased.
* `extend_spec`: the two extensions stay inside the data and, after the overlap is resolved, do
  not overlap.
-/

namespace Cascette.Zbsdiff

open Lib List

/-! ## Searching -/

variable {old query new : Bytes} {sa : List Nat}
  {n fuel scan lastscan lastpos i pos : Nat} {lastoffset s : Int}

theorem le_matchlen_iff {xs ys : Bytes} :
    n ≤ matchlen xs ys ↔ n ≤ ys.length ∧ ys.take n <+: xs := by
  induction n generalizing xs ys with
  | zero => simp
  | succ n ih =>
    cases xs with
    | nil => cases ys <;> simp [matchlen]
    | cons x xs =>
      cases ys with
      | nil => simp [matchlen]
      | cons y ys =>
        rw [matchlen]
        split
        case isTrue h => simp [ih, h]
        case isFalse h => simp [Ne.symm h]

theorem matchlen_le_left (xs ys : Bytes) : matchlen xs ys ≤ xs.length := by
  obtain ⟨hLe, hTake⟩ := le_matchlen_iff.mp (le_refl (matchlen xs ys))
  simpa [hLe] using hTake.length_le

theorem matchlen_le_right (xs ys : Bytes) : matchlen xs ys ≤ ys.length :=
  (le_matchlen_iff.mp le_rfl).1

theorem lt_iff_of_mismatch {xs ys : Bytes} {a b : UInt8} (ha : xs[matchlen xs ys]? = some a)
    (hb : ys[matchlen xs ys]? = some b) : a < b ↔ xs < ys := by
  induction xs generalizing ys with
  | nil => simp at ha
  | cons x xs ih =>
    cases ys with
    | nil => simp at hb
    | cons y ys =>
      by_cases h : x = y
      · simp only [matchlen, if_pos h, getElem?_cons_succ] at ha hb
        simpa [h] using ih ha hb
      · simp_all [matchlen, cons_lt_cons_iff]

/-- A string up to one that begins the query matches no more of it than that one. -/
theorem matchlen_le_of_not_lt {xs ys : Bytes} (hFront : ys <+: query) (hNot : ¬ ys < xs) :
    matchlen xs query ≤ ys.length := by
  induction ys generalizing xs query with
  | nil =>
    cases xs with
    | nil => exact Nat.zero_le _
    | cons x xs => exact absurd (nil_lt_cons x xs) hNot
  | cons y ys ih =>
    obtain ⟨rest, rfl⟩ := hFront
    cases xs with
    | nil => simp [matchlen]
    | cons x xs =>
      rw [cons_append, matchlen]
      split
      case isTrue h =>
        rw [h, cons_lt_cons_iff, not_or] at hNot
        exact Nat.succ_le_succ (ih (prefix_append ys rest) fun hLt => hNot.2 ⟨rfl, hLt⟩)
      case isFalse h => exact Nat.zero_le _

/-- The positions of the suffixes that the bisection compares with the query. -/
def pivots (sa : List Nat) (old query : Bytes) : Nat → Nat → Nat → List Nat
  | 0, _, _ => []
  | fuel + 1, st, en =>
    if 1 < en - st then
      let pivot := st + (en - st) / 2
      let pivotPos := sa.getD pivot 0
      pivotPos ::
        if belowPivot old query pivotPos (matchlen (old.drop pivotPos) query) = .ok true then
          pivots sa old query fuel pivot en
        else pivots sa old query fuel st pivot
    else []

/-- No suffix at the positions that begins the query is shorter than `n`, the empty one apart. -/
def EndsLate (old query : Bytes) (positions : List Nat) (n : Nat) : Prop :=
  ∀ pos ∈ positions, pos < old.length → old.drop pos <+: query → n ≤ old.length - pos

theorem belowPivot_spec (hPos : pos < old.length) :
    Returns (belowPivot old query pos (matchlen (old.drop pos) query)) fun below =>
      (below = true → old.drop pos <+: query → query.length ≤ old.length - pos) ∧
      ∀ n p, (old.drop pos <+: query → n ≤ old.length - pos) →
        (if below then old.drop p < old.drop pos else old.drop pos < old.drop p) →
        n ≤ matchlen (old.drop p) query → n ≤ matchlen (old.drop pos) query := by
  have hLeft := matchlen_le_left (old.drop pos) query
  have hRight := matchlen_le_right (old.drop pos) query
  rw [length_drop] at hLeft
  refine returns_ite (fun hAll => returns_ok ⟨fun _ _ => hAll ▸ hLeft, ?_⟩) fun hPart => ?_
  · intro n p _ _ hp
    exact hAll ▸ hp.trans (matchlen_le_right _ _)
  have hTake := (le_matchlen_iff.mp (le_refl (matchlen (old.drop pos) query))).2
  refine returns_ite (fun hIn => ?_) fun hOut => returns_ok ⟨nofun, ?_⟩
  · refine (returns_getAt hIn).bind fun a ha => ?_
    refine (returns_getAt (by omega)).bind fun b hb => returns_ok ⟨fun _ hFront => ?_, ?_⟩
    · -- a suffix that begins the query matches to its end
      have hWhole : old.length - pos ≤ matchlen (old.drop pos) query := by
        rw [← length_drop, le_matchlen_iff, ← prefix_iff_eq_take.mp hFront]
        exact ⟨hFront.length_le, prefix_rfl⟩
      omega
    have hOrder := lt_iff_of_mismatch (getElem?_drop.trans ha) hb
    intro n p _ hSide hp
    obtain ⟨hn, hTake⟩ := le_matchlen_iff.mp hp
    rw [le_matchlen_iff]
    refine ⟨hn, ?_⟩
    by_cases hLt : a < b
    · rw [decide_eq_true hLt, if_pos rfl] at hSide
      exact prefix_of_between hSide.le (hOrder.mp hLt).le hTake (List.take_prefix _ _)
    · rw [decide_eq_false hLt, if_neg Bool.false_ne_true] at hSide
      exact prefix_of_between (not_lt.mp (hOrder.not.mp hLt)) hSide.le (List.take_prefix _ _) hTake
  · -- the suffix ends before the query: the code goes below it
    intro n p hEnds _ _
    have hLen : matchlen (old.drop pos) query = old.length - pos := by omega
    rw [hLen]
    refine hEnds ?_
    rw [← hTake.eq_of_length (by rw [length_take, length_drop]; omega)]
    exact take_prefix _ _

/-- The bisection keeps an index of a match of length `n` between its bounds, if none of its pivots
ends earlier. Below a pivot that does there is nothing longer. -/
theorem bisect_spec (hSa : IsSuffixArray old sa) {st en : Nat} (hOrder : st ≤ en)
    (hEn : en < sa.length) (hFuel : en - st < fuel) :
    Returns (bisect sa old query fuel st en) fun r =>
      (st ≤ r.1 ∧ r.1 ≤ r.2 ∧ r.2 ≤ en ∧ r.2 ≤ r.1 + 1) ∧
      (∀ n, EndsLate old query (pivots sa old query fuel st en) n →
        ∀ k p : Nat, st ≤ k → k ≤ en → sa[k]? = some p → n ≤ matchlen (old.drop p) query →
          ∃ k' p' : Nat, r.1 ≤ k' ∧ k' ≤ r.2 ∧ sa[k']? = some p' ∧
            n ≤ matchlen (old.drop p') query) ∧
      ∀ pos ∈ pivots sa old query fuel st en, old.drop pos <+: query →
        ∀ k p : Nat, k ≤ r.2 → sa[k]? = some p →
          matchlen (old.drop p) query ≤ old.length - pos := by
  induction fuel generalizing st en with
  | zero => omega
  | succ fuel ih =>
    rw [bisect, pivots, checkedSub_eq hOrder]
    refine returns_ite (fun hWide => ?_) fun hNarrow => ?_
    · have hPivot : st + (en - st) / 2 < sa.length := by omega
      obtain ⟨pos, hPos, hIn⟩ := hSa.exists_position hPivot
      simp only [if_pos hWide, getAt, getD_eq_getElem?_getD, hPos, Option.getD_some, bind,
        Except.bind, sliceFrom_eq hIn.le]
      obtain ⟨below, hBelow, hAll, hKeep⟩ := @belowPivot_spec old query _ hIn
      rw [hBelow]
      cases below with
      | true =>
        rw [if_pos rfl]
        refine (ih (show st + (en - st) / 2 ≤ en by omega) hEn (by omega)).imp ?_
        rintro r ⟨⟨h1, h2, h3, h4⟩, hFound, hShort⟩
        refine ⟨⟨by omega, h2, h3, h4⟩, fun n hEnds => ?_, forall_mem_cons.mpr ⟨?_, hShort⟩⟩
        · obtain ⟨hHere, hEnds⟩ := forall_mem_cons.mp hEnds
          intro k p hk hk' hp hMatch
          rcases Nat.lt_or_ge k (st + (en - st) / 2) with hSide | hSide
          · exact hFound n hEnds _ pos le_rfl (by omega) hPos
              (hKeep n p (hHere hIn) (hSa.drop_lt hSide hp hPos) hMatch)
          · exact hFound n hEnds k p hSide hk' hp hMatch
        · intro hFront k p _ _
          exact (matchlen_le_right _ _).trans (hAll rfl hFront)
      | false =>
        rw [if_neg (by simp)]
        refine (ih (show st ≤ st + (en - st) / 2 by omega) hPivot (by omega)).imp ?_
        rintro r ⟨⟨h1, h2, h3, h4⟩, hFound, hShort⟩
        refine ⟨⟨h1, h2, by omega, h4⟩, fun n hEnds => ?_, forall_mem_cons.mpr ⟨?_, hShort⟩⟩
        · obtain ⟨hHere, hEnds⟩ := forall_mem_cons.mp hEnds
          intro k p hk hk' hp hMatch
          rcases Nat.lt_or_ge (st + (en - st) / 2) k with hSide | hSide
          · exact hFound n hEnds _ pos (by omega) le_rfl hPos
              (hKeep n p (hHere hIn) (hSa.drop_lt hSide hPos hp) hMatch)
          · exact hFound n hEnds k p hk hSide hp hMatch
        · -- the pivot is the upper bound from here on
          intro hFront k p hk hp
          rw [← length_drop]
          refine matchlen_le_of_not_lt hFront (not_lt.mpr ?_)
          rcases Nat.eq_or_lt_of_le (hk.trans h3) with rfl | hSide
          · exact (Option.some.inj (hp.symm.trans hPos) ▸ le_rfl)
          · exact (hSa.drop_lt hSide hp hPos).le
    · refine returns_ok ⟨⟨le_rfl, hOrder, le_rfl, by dsimp only; omega⟩, fun n _ => ?_, ?_⟩
      · intro k p hk hk' hp hMatch
        exact ⟨k, p, hk, hk', hp, hMatch⟩
      · rw [if_neg hNarrow]
        exact forall_mem_nil _

theorem search_spec (hSa : IsSuffixArray old sa) :
    Returns (search sa old query) fun r =>
      (r.1 ≤ old.length ∧ r.2 = matchlen (old.drop r.1) query) ∧
      (∀ n, EndsLate old query (pivots sa old query sa.length 0 (sa.length - 1)) n →
        ∀ p, n ≤ matchlen (old.drop p) query → n ≤ r.2) ∧
      ∀ pos ∈ pivots sa old query sa.length 0 (sa.length - 1), old.drop pos <+: query →
        r.2 ≤ old.length - pos := by
  have hLength := hSa.length_eq
  refine returns_ite (fun hEmpty => returns_ok ?_) fun hNonempty => ?_
  · have hZero : ∀ p, matchlen (old.drop p) query = 0 := by
      intro p
      have hLeft := matchlen_le_left (old.drop p) query
      have hRight := matchlen_le_right (old.drop p) query
      rw [length_drop] at hLeft
      rw [Bool.or_eq_true, isEmpty_iff_length_eq_zero, isEmpty_iff_length_eq_zero] at hEmpty
      omega
    exact ⟨⟨Nat.zero_le _, (hZero 0).symm⟩, fun n _ p hp => hZero p ▸ hp,
      fun _ _ _ => Nat.zero_le _⟩
  rw [Bool.or_eq_true, List.isEmpty_iff, List.isEmpty_iff, not_or] at hNonempty
  have hSome : 0 < sa.length := List.length_pos_iff.mpr hNonempty.1
  rw [checkedSub_eq hSome]
  refine (bisect_spec hSa (Nat.zero_le _) (by omega) (by omega)).bind ?_
  rintro ⟨st, en⟩ ⟨⟨-, hOrder, hEn, hNear⟩, hFound, hShort⟩
  obtain ⟨startPos, hStart, hStartIn⟩ := hSa.exists_position (show st < sa.length by omega)
  obtain ⟨endPos, hEnd, hEndIn⟩ := hSa.exists_position (show en < sa.length by omega)
  simp only [getAt, hStart, hEnd, sliceFrom_eq hStartIn.le, sliceFrom_eq hEndIn.le, bind,
    Except.bind]
  -- the index kept is one of the two bounds
  have hBest : ∀ n, EndsLate old query (pivots sa old query sa.length 0 (sa.length - 1)) n →
      ∀ p, n ≤ matchlen (old.drop p) query →
        n ≤ matchlen (old.drop startPos) query ∨ n ≤ matchlen (old.drop endPos) query := by
    intro n hEnds p hp
    rcases Nat.lt_or_ge p old.length with hIn | hOut
    · obtain ⟨k, hkLt, hk⟩ := hSa.exists_index hIn
      obtain ⟨k', p', hGe, hLe, hk', hp'⟩ := hFound n hEnds k p (Nat.zero_le k) (by omega) hk hp
      rcases Nat.eq_or_lt_of_le hGe with rfl | hGt
      · exact Or.inl (Option.some.inj (hk'.symm.trans hStart) ▸ hp')
      · obtain rfl : k' = en := by omega
        exact Or.inr (Option.some.inj (hk'.symm.trans hEnd) ▸ hp')
    · rw [drop_eq_nil_of_le hOut] at hp
      exact Or.inl (hp.trans (Nat.zero_le _))
  split
  · refine returns_ok ⟨⟨hStartIn.le, rfl⟩, fun n hEnds p hp => ?_, fun pos hPivot hFront =>
      hShort pos hPivot hFront st startPos hOrder hStart⟩
    have := hBest n hEnds p hp
    dsimp only
    omega
  · refine returns_ok ⟨⟨hEndIn.le, rfl⟩, fun n hEnds p hp => ?_, fun pos hPivot hFront =>
      hShort pos hPivot hFront en endPos le_rfl hEnd⟩
    have := hBest n hEnds p hp
    dsimp only
    omega

/-- The search returns a match. It is the longest one exactly if the old data ends within a longer
one at none of the pivots. -/
theorem search_longest (hSa : IsSuffixArray old sa) (query : Bytes) :
    ∃ pos len, search sa old query = .ok (pos, len) ∧
      len ≤ query.length ∧ query.take len <+: old.drop pos ∧
      ((∀ n ≤ query.length, query.take n <:+: old → n ≤ len) ↔
        ∀ n ≤ query.length, query.take n <:+: old →
          EndsLate old query (pivots sa old query sa.length 0 (sa.length - 1)) n) := by
  obtain ⟨⟨pos, len⟩, hRun, ⟨-, hLen⟩, hBest, hShort⟩ := @search_spec old query sa hSa
  obtain ⟨hLe, hTake⟩ := le_matchlen_iff.mp hLen.le
  refine ⟨pos, len, hRun, hLe, hTake, forall₃_congr fun n hn hOccurs => ⟨?_, fun hEnds => ?_⟩⟩
  · exact fun hFound pivot hPivot _ hFront => hFound.trans (hShort pivot hPivot hFront)
  · obtain ⟨front, back, rfl⟩ := hOccurs
    exact hBest n hEnds front.length (le_matchlen_iff.mpr ⟨hn, by simp⟩)

theorem search_longest_sample :
    let old : Bytes := [1, 2, 1]
    let query : Bytes := [1, 2]
    ∃ pos len, search [2, 0, 1] old query = .ok (pos, len) ∧
      len ≤ query.length ∧ query.take len <+: old.drop pos ∧
      ∀ n ≤ query.length, query.take n <:+: old → n ≤ len := by
  intro old query
  obtain ⟨pos, len, hRun, hLe, hTake, hLongest⟩ :=
    @search_longest old [2, 0, 1] ⟨by decide, by decide⟩ query
  refine ⟨pos, len, hRun, hLe, hTake, hLongest.mpr fun n hn _ pivot hPivot _ _ => hn.trans ?_⟩
  have hZero : ∀ pivot ∈ pivots [2, 0, 1] old query 3 0 2, pivot = 0 := by decide
  rw [hZero pivot hPivot]
  decide

/-- The suffix that ends within the query is taken to be above it. -/
theorem search_shorter :
    let old : Bytes := [0, 1, 2, 1]
    IsSuffixArray old [0, 3, 1, 2] ∧ search [0, 3, 1, 2] old [1, 2] = .ok (3, 1) ∧
      [1, 2] <+: old.drop 1 := by
  exact ⟨⟨by decide, by decide⟩, by decide, by decide⟩

/-! ## The score -/

/-- The byte at `i` equals the old byte at the last offset. -/
def drifts (old new : Bytes) (lastoffset : Int) (i : Nat) : Bool :=
  decide (0 ≤ i + lastoffset ∧ i + lastoffset < old.length ∧ old[(i + lastoffset).toNat]? = new[i]?)

/-- The number of such bytes among the `n` from `i` on. -/
def driftCount (old new : Bytes) (lastoffset : Int) : Nat → Nat → Nat
  | _, 0 => 0
  | i, n + 1 =>
    (if drifts old new lastoffset i then 1 else 0) + driftCount old new lastoffset (i + 1) n

section Drift

variable {old new : Bytes} {lastoffset : Int}

variable {i : Nat}

theorem driftMatch_eq (hi : i < new.length) :
    driftMatch old new lastoffset i = .ok (drifts old new lastoffset i) := by
  unfold driftMatch drifts
  by_cases hIn : 0 ≤ i + lastoffset ∧ i + lastoffset < old.length
  · have hOld : (i + lastoffset).toNat < old.length := by omega
    simp [hIn, getAt_eq hOld, getAt_eq hi, bind, Except.bind, getElem?_eq_getElem hi]
  · have hOut : ¬ (0 ≤ i + lastoffset ∧ i + lastoffset < old.length ∧
        old[(i + lastoffset).toNat]? = new[i]?) := fun h => hIn ⟨h.1, h.2.1⟩
    simp [hIn, hOut]

theorem one_le_matchlen_of_drifts (hi : i < new.length) (h : drifts old new lastoffset i = true) :
    1 ≤ matchlen (old.drop (i + lastoffset).toNat) (new.drop i) := by
  obtain ⟨-, -, hEq⟩ := of_decide_eq_true h
  rw [getElem?_eq_getElem hi] at hEq
  obtain ⟨hOld, hEq⟩ := List.getElem?_eq_some_iff.mp hEq
  rw [drop_eq_getElem_cons hi, drop_eq_getElem_cons hOld, matchlen, if_pos hEq]
  exact Nat.le_add_left _ _

theorem countDrift_eq {steps scsc : Nat} (h : scsc + steps ≤ new.length) (oldscore : Nat) :
    countDrift old new lastoffset steps scsc oldscore =
      .ok (oldscore + driftCount old new lastoffset scsc steps) := by
  induction steps generalizing scsc oldscore with
  | zero => rfl
  | succ steps ih =>
    rw [countDrift, driftMatch_eq (by omega)]
    change countDrift old new lastoffset steps (scsc + 1) _ = _
    rw [ih (by omega), driftCount]
    split
    · congr 1
      omega
    · congr 1
      omega

theorem driftCount_add (i m n : Nat) :
    driftCount old new lastoffset i (m + n) =
      driftCount old new lastoffset i m + driftCount old new lastoffset (i + m) n := by
  induction m generalizing i with
  | zero => simp [driftCount]
  | succ m ih =>
    rw [Nat.add_right_comm, driftCount, driftCount, ih, show i + 1 + m = i + (m + 1) by omega,
      Nat.add_assoc]

theorem driftCount_eq_zero (h : ∀ j, i ≤ j → j < i + n → drifts old new lastoffset j = false) :
    driftCount old new lastoffset i n = 0 := by
  induction n generalizing i with
  | zero => rfl
  | succ n ih =>
    rw [driftCount, h i le_rfl (by omega), ih fun j hj hj' => h j (by omega) (by omega)]
    rfl

end Drift

/-- What the scan keeps: the score counts the matches from the scan position to `scsc`, and
what the scan has passed beyond `scsc` does not match. -/
structure ScanInv (old new : Bytes) (lastoffset : Int) (s : Scan) : Prop where
  scan_le : s.scan ≤ new.length
  scsc_le : s.scsc ≤ new.length
  score : s.oldscore = driftCount old new lastoffset s.scan (s.scsc - s.scan)
  gap : ∀ i, s.scsc ≤ i → i < s.scan → drifts old new lastoffset i = false
  pos_le : s.pos ≤ old.length

theorem ScanInv.count {s : Scan} (h : ScanInv old new lastoffset s) (len : Nat) :
    s.oldscore + driftCount old new lastoffset s.scsc (s.scan + len - s.scsc) =
      driftCount old new lastoffset s.scan (max s.scsc (s.scan + len) - s.scan) := by
  rw [h.score]
  rcases Nat.lt_or_ge s.scsc s.scan with hBehind | hAhead
  · have hPassed : driftCount old new lastoffset s.scsc (s.scan - s.scsc) = 0 :=
      driftCount_eq_zero fun j hj hj' => h.gap j hj (by omega)
    rw [show s.scsc - s.scan = 0 by omega,
      show s.scan + len - s.scsc = (s.scan - s.scsc) + len by omega, driftCount_add, hPassed,
      show s.scsc + (s.scan - s.scsc) = s.scan by omega,
      show max s.scsc (s.scan + len) - s.scan = len by omega]
    simp [driftCount]
  · rcases Nat.le_total (s.scan + len) s.scsc with hDone | hMore
    · rw [show s.scan + len - s.scsc = 0 by omega, max_eq_left hDone]
      rfl
    · rw [max_eq_right hMore, show s.scan + len - s.scan =
        (s.scsc - s.scan) + (s.scan + len - s.scsc) by omega, driftCount_add,
        show s.scan + (s.scsc - s.scan) = s.scsc by omega]

/-- Passing the scan position takes its match out of the score. -/
theorem driftCount_pass {scsc : Nat} (hScsc : scan ≤ scsc)
    (hEmpty : scsc = scan → drifts old new lastoffset scan = false) :
    Returns (undoScore (drifts old new lastoffset scan)
        (driftCount old new lastoffset scan (scsc - scan)))
      fun score => score = driftCount old new lastoffset (scan + 1) (scsc - (scan + 1)) := by
  unfold undoScore
  rcases Nat.eq_or_lt_of_le hScsc with rfl | hLt
  · simp only [hEmpty rfl, Bool.false_eq_true, if_false, Nat.sub_self]
    refine returns_ok ?_
    rw [show scan - (scan + 1) = 0 by omega]
    rfl
  · obtain ⟨n, hn⟩ : ∃ n, scsc - scan = n + 1 := ⟨scsc - scan - 1, by omega⟩
    rw [hn, driftCount, show scsc - (scan + 1) = n by omega]
    refine returns_ite (fun hMatch => ?_) fun hNo => ?_
    · rw [if_pos hMatch, checkedSub_eq (by omega)]
      exact returns_ok (by omega)
    · rw [if_neg hNo]
      exact returns_ok (by omega)

/-- The scan ends at a match it accepts, or at the end of the new data. -/
theorem scanLoop_spec (hSa : IsSuffixArray old sa) {s : Scan} (h : ScanInv old new lastoffset s)
    (hFuel : new.length - s.scan < fuel) :
    Returns (scanLoop sa old new lastoffset fuel s) fun r =>
      s.scan ≤ r.scan ∧ r.scan ≤ new.length ∧ r.pos ≤ old.length ∧
      (r.scan < new.length → r.scan + r.len ≤ new.length ∧ accepts r.len r.oldscore = true) := by
  induction fuel generalizing s with
  | zero => omega
  | succ fuel ih =>
    refine returns_ite (fun hScan => ?_) fun hEnd => ?_
    · rw [sliceFrom_eq hScan.le]
      refine (search_spec hSa).bind ?_
      rintro ⟨pos, len⟩ ⟨⟨hPos, hLen⟩, hBest, -⟩
      replace hBest := hBest 1 fun _ _ hIn _ => Nat.sub_pos_of_lt hIn
      dsimp only at hPos hLen hBest ⊢
      have hOld := matchlen_le_left (old.drop pos) (new.drop s.scan)
      have hNew := matchlen_le_right (old.drop pos) (new.drop s.scan)
      rw [← hLen, length_drop] at hOld hNew
      have hScsc := h.scsc_le
      rw [countDrift_eq (by omega), h.count]
      refine returns_ite (fun hAccept => ?_) fun _ => ?_
      · exact returns_ok ⟨le_rfl, hScan.le, by dsimp only; omega, fun _ =>
          ⟨by dsimp only; omega, hAccept⟩⟩
      · have hPassed : max s.scsc (s.scan + len) = s.scan →
            drifts old new lastoffset s.scan = false := by
          -- no match at the scan position: its byte does not occur at all
          intro hEq
          rw [← Bool.not_eq_true]
          intro hDrifts
          have hOne := hBest _ (one_le_matchlen_of_drifts hScan hDrifts)
          omega
        rw [driftMatch_eq hScan]
        refine (driftCount_pass (by omega) hPassed).bind ?_
        intro score hScore
        have hNext : ScanInv old new lastoffset
            ⟨s.scan + 1, max s.scsc (s.scan + len), score, pos, len⟩ := by
          refine ⟨hScan, by dsimp only; omega, hScore, ?_, by dsimp only; omega⟩
          intro i hi hi'
          dsimp only at hi hi'
          obtain rfl : i = s.scan := by omega
          exact hPassed (by omega)
        refine (ih hNext (by dsimp only; omega)).imp ?_
        rintro r ⟨h1, h2⟩
        exact ⟨by dsimp only at h1; omega, h2⟩
    · refine returns_ok ⟨le_rfl, h.scan_le, h.pos_le, fun hLt => absurd hLt hEnd⟩

/-! ## Extensions -/

theorem extendForward_spec (hScan : scan ≤ new.length) {lenf : Nat} {sf : Int}
    (hi : lastscan + i ≤ scan) (hOld : lastpos + i ≤ old.length) (hLenf : lenf ≤ i)
    (hFuel : scan - (lastscan + i) < fuel) :
    Returns (extendForward old new lastscan lastpos scan fuel i s sf lenf) fun r =>
      lastscan + r ≤ scan ∧ lastpos + r ≤ old.length := by
  induction fuel generalizing i s sf lenf with
  | zero => omega
  | succ fuel ih =>
    refine returns_ite (fun hIn => ?_) fun _ => returns_ok ⟨by omega, by omega⟩
    refine (returns_getAt hIn.2).bind fun a _ => ?_
    refine (returns_getAt (by omega)).bind fun b _ => ?_
    refine returns_ite (fun _ => ?_) fun _ => ?_
    · exact ih (by omega) (by omega) le_rfl (by omega)
    · exact ih (by omega) (by omega) (by omega) (by omega)

theorem extendBackward_spec (hScan : scan ≤ new.length) (hPos : pos ≤ old.length) {lenb : Nat}
    {sb : Int} (hi : 1 ≤ i) (hLenb : lastscan + lenb ≤ scan ∧ lenb ≤ pos)
    (hFuel : scan + 1 - (lastscan + i) < fuel) :
    Returns (extendBackward old new lastscan pos scan fuel i s sb lenb) fun r =>
      lastscan + r ≤ scan ∧ r ≤ pos := by
  induction fuel generalizing i s sb lenb with
  | zero => omega
  | succ fuel ih =>
    refine returns_ite (fun hIn => ?_) fun _ => returns_ok hLenb
    rw [checkedSub_eq hIn.2]
    refine (returns_getAt (show pos - i < old.length by omega)).bind fun a _ => ?_
    rw [checkedSub_eq (show i ≤ scan by omega)]
    refine (returns_getAt (show scan - i < new.length by omega)).bind fun b _ => ?_
    refine returns_ite (fun _ => ?_) fun _ => ?_
    · exact ih (by omega) hIn (by omega)
    · exact ih (by omega) hLenb (by omega)

theorem splitOverlap_spec {newf oldf newb oldb steps lens : Nat} {ss : Int}
    (hNewf : newf + i + steps ≤ new.length) (hOldf : oldf + i + steps ≤ old.length)
    (hNewb : newb + i + steps ≤ new.length) (hOldb : oldb + i + steps ≤ old.length)
    (hLens : lens ≤ i) :
    Returns (splitOverlap old new newf oldf newb oldb steps i s ss lens) fun r =>
      r ≤ i + steps := by
  induction steps generalizing i s ss lens with
  | zero => exact returns_ok (by omega)
  | succ steps ih =>
    refine (returns_getAt (by omega)).bind fun a _ => ?_
    refine (returns_getAt (by omega)).bind fun b _ => ?_
    refine (returns_getAt (by omega)).bind fun c _ => ?_
    refine (returns_getAt (by omega)).bind fun d _ => ?_
    refine returns_ite (fun _ => ?_) fun _ => ?_
    · exact (ih (by omega) (by omega) (by omega) (by omega) le_rfl).imp fun r hr => by omega
    · exact (ih (by omega) (by omega) (by omega) (by omega) (by omega)).imp fun r hr => by omega

theorem backwardLen_spec (hLast : lastscan ≤ scan) (hScan : scan ≤ new.length)
    (hPos : pos ≤ old.length) (hFuel : new.length < fuel) :
    Returns (backwardLen old new fuel lastscan pos scan) fun lenb =>
      lastscan + lenb ≤ scan ∧ lenb ≤ pos ∧ (scan = new.length → lenb = 0) := by
  refine returns_ite (fun hLt => ?_) fun _ => returns_ok ⟨by omega, by omega, fun _ => rfl⟩
  refine (extendBackward_spec hScan hPos le_rfl ⟨by omega, by omega⟩ (by omega)).imp ?_
  rintro r ⟨h1, h2⟩
  exact ⟨h1, h2, fun hEq => absurd hEq hLt.ne⟩

/-- Both extensions stay inside the data and do not overlap. -/
theorem extend_spec (hLast : lastscan ≤ scan) (hScan : scan ≤ new.length)
    (hLastpos : lastpos ≤ old.length) (hPos : pos ≤ old.length) (hFuel : new.length < fuel) :
    Returns (extend old new fuel lastscan lastpos scan pos) fun r =>
      lastscan + r.1 + r.2 ≤ scan ∧ lastpos + r.1 ≤ old.length ∧ r.2 ≤ pos ∧
      (scan = new.length → r.2 = 0) := by
  refine (extendForward_spec hScan (by omega) (by omega) le_rfl (by omega)).bind ?_
  rintro lenf ⟨hLenf, hLenfOld⟩
  refine (backwardLen_spec hLast hScan hPos hFuel).bind ?_
  rintro lenb ⟨hLenb, hLenbPos, hLenbEnd⟩
  rw [checkedSub_eq (show lenb ≤ scan by omega)]
  refine returns_ite (fun hOverlap => ?_) fun hApart => ?_
  · -- the overlap is shorter than either extension, so the split is too
    rw [checkedSub_eq (show scan - lenb ≤ lastscan + lenf by omega)]
    change Returns (checkedSub (lastscan + lenf) _ >>= _) _
    rw [checkedSub_eq (by omega)]
    rw [checkedSub_eq (by omega)]
    rw [checkedSub_eq hLenbPos]
    refine (splitOverlap_spec (by omega) (by omega) (by omega) (by omega) le_rfl).bind ?_
    intro lens hLens
    rw [checkedSub_eq (by omega)]
    rw [checkedSub_eq (by omega)]
    refine returns_ok ⟨?_, ?_, ?_, ?_⟩
    · dsimp only
      omega
    · dsimp only
      omega
    · dsimp only
      omega
    · intro hEnd
      have := hLenbEnd hEnd
      omega
  · exact returns_ok ⟨by dsimp only; omega, hLenfOld, hLenbPos, hLenbEnd⟩

theorem collectDiff_eq (hNew : lastscan + n ≤ new.length) (hOld : lastpos + n ≤ old.length) :
    collectDiff old new lastscan lastpos n =
      .ok (zipWith (· - ·) ((new.drop lastscan).take n) ((old.drop lastpos).take n)) := by
  induction n with
  | zero => simp [collectDiff]
  | succ n ih =>
    rw [collectDiff, ih (by omega) (by omega), getAt_eq (by omega), getAt_eq (by omega)]
    have hNewTake : (new.drop lastscan).take (n + 1) =
        (new.drop lastscan).take n ++ [new[lastscan + n]] := by
      rw [take_add_one, getElem?_drop, getElem?_eq_getElem]
      rfl
    have hOldTake : (old.drop lastpos).take (n + 1) =
        (old.drop lastpos).take n ++ [old[lastpos + n]] := by
      rw [take_add_one, getElem?_drop, getElem?_eq_getElem]
      rfl
    rw [hNewTake, hOldTake, zipWith_append (by simp; omega)]
    rfl

theorem collectExtra_eq {start stop : Nat} (hLe : start ≤ stop) (h : stop ≤ new.length) :
    collectExtra new start stop = .ok ((new.take stop).drop start) := by
  unfold collectExtra
  split
  · exact slice_eq hLe h
  · rw [drop_of_length_le (by simp; omega)]

end Cascette.Zbsdiff
