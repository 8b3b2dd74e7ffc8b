import Mathlib.Tactic
import Mathlib.Data.Set.Basic

/-!
# Lists of separated intervals

A set of numbers that is kept as a list of intervals in ascending order, with at least one number
left out between two of them. The intervals are then the maximal runs of the set
(`Separated.maximalRun_iff`). A new interval is joined with those that it touches
(`Separated.join`), and the front of an interval can be cut off (`Separated.cut`).
-/

namespace Cascette.Lib

open List

/-- An interval is given by its first number and the number behind its last one. -/
def covered (intervals : List (Nat × Nat)) : Set Nat := {x | ∃ i ∈ intervals, i.1 ≤ x ∧ x < i.2}

structure Separated (intervals : List (Nat × Nat)) : Prop where
  nonempty : ∀ i ∈ intervals, i.1 < i.2
  apart : intervals.Pairwise fun a b => a.2 < b.1

/-- The numbers from `a` up to `b` belong to the set, and their neighbours do not. -/
structure MaximalRun (s : Set Nat) (a b : Nat) : Prop where
  lt : a < b
  inside : ∀ x, a ≤ x → x < b → x ∈ s
  left : ∀ x, x + 1 = a → x ∉ s
  right : b ∉ s

variable {intervals front taken back : List (Nat × Nat)}

theorem covered_append (front back : List (Nat × Nat)) :
    covered (front ++ back) = covered front ∪ covered back := by
  ext x
  simp only [covered, Set.mem_ofPred_eq, Set.mem_union, mem_append, or_and_right, exists_or]

theorem covered_cons (i : Nat × Nat) (rest : List (Nat × Nat)) :
    covered (i :: rest) = Set.Ico i.1 i.2 ∪ covered rest := by
  ext x
  simp only [covered, Set.mem_ofPred_eq, Set.mem_union, Set.mem_Ico, mem_cons,
    or_and_right, exists_or, exists_eq_left]

namespace Separated

variable (h : Separated intervals)
include h

theorem lt_or_lt {i j : Nat × Nat} (hi : i ∈ intervals)
    (hj : j ∈ intervals) (hNe : i ≠ j) : i.2 < j.1 ∨ j.2 < i.1 := by
  have hSymm : Std.Symm fun a b : Nat × Nat => a.2 < b.1 ∨ b.2 < a.1 := ⟨fun a b => Or.symm⟩
  have hPairs : intervals.Pairwise fun a b => a.2 < b.1 ∨ b.2 < a.1 := h.apart.imp .inl
  exact List.Pairwise.forall hPairs hi hj hNe

theorem stop_notMem {i : Nat × Nat} (hi : i ∈ intervals) : i.2 ∉ covered intervals := by
  rintro ⟨j, hj, hLow, hHigh⟩
  have hPositive := h.nonempty i hi
  by_cases hEq : i = j
  · subst hEq
    omega
  · rcases h.lt_or_lt hi hj hEq with hBefore | hAfter <;> omega

/-- The intervals are the maximal runs of the numbers that they cover. -/
theorem maximalRun_iff {a b : Nat} : MaximalRun (covered intervals) a b ↔ (a, b) ∈ intervals := by
  constructor
  · intro hRun
    obtain ⟨⟨low, high⟩, hi, hLow, hHigh⟩ := hRun.inside a (le_refl a) hRun.lt
    have hFirst : low = a := by
      by_contra hNe
      exact hRun.left (a - 1) (by omega) ⟨(low, high), hi, by dsimp only; omega⟩
    have hLast : high = b := by
      rcases lt_trichotomy high b with hLt | hEq | hGt
      · exact absurd (hRun.inside high (by omega) hLt) (h.stop_notMem hi)
      · exact hEq
      · have hRight := hRun.lt
        exact absurd ⟨(low, high), hi, by dsimp only; omega⟩ hRun.right
    rwa [hFirst, hLast] at hi
  · intro hi
    refine ⟨h.nonempty _ hi, fun x hLow hHigh => ⟨_, hi, hLow, hHigh⟩, ?_, h.stop_notMem hi⟩
    rintro x hx ⟨j, hj, hLow, hHigh⟩
    by_cases hEq : (a, b) = j
    · subst hEq
      omega
    · have hPositive := h.nonempty _ hi
      rcases h.lt_or_lt hi hj hEq with hBefore | hAfter <;> dsimp only at * <;> omega

omit h

/-! ## Joining and cutting -/

variable {rest : List (Nat × Nat)}

theorem sublist (h : Separated intervals) (hRest : rest.Sublist intervals) : Separated rest :=
  ⟨fun i hi => h.nonempty i (hRest.subset hi), h.apart.sublist hRest⟩

variable {low high : Nat}

theorem insert (h : Separated (front ++ back)) (hLt : low < high) (hFront : ∀ i ∈ front, i.2 < low)
    (hBack : ∀ i ∈ back, high < i.1) : Separated (front ++ (low, high) :: back) := by
  obtain ⟨hFrontApart, hBackApart, hApart⟩ := pairwise_append.mp h.apart
  constructor
  · intro i hi
    rcases mem_append.mp hi with hi | hi
    · exact h.nonempty i (mem_append_left _ hi)
    · rcases mem_cons.mp hi with rfl | hi
      · exact hLt
      · exact h.nonempty i (mem_append_right _ hi)
  · refine pairwise_append.mpr ⟨hFrontApart, pairwise_cons.mpr ⟨hBack, hBackApart⟩, ?_⟩
    intro i hi j hj
    rcases mem_cons.mp hj with rfl | hj
    · exact hFront i hi
    · exact hApart i hi j hj

theorem covered_taken (h : Separated taken) {first last : Nat × Nat}
    (hFirst : taken.head? = some first) (hLast : taken.getLast? = some last)
    (hTouch : ∀ i ∈ taken, i.1 ≤ high ∧ low ≤ i.2) :
    covered taken ∪ Set.Ico low high = Set.Ico (min first.1 low) (max last.2 high) := by
  have hFirstMem := mem_of_mem_head? hFirst
  have hLastMem := mem_of_getLast? hLast
  have hBounds : ∀ i ∈ taken, first.1 ≤ i.1 ∧ i.2 ≤ last.2 := by
    intro i hi
    have hPositive := h.nonempty
    constructor
    · obtain ⟨rest, rfl⟩ := head?_eq_some_iff.mp hFirst
      rcases mem_cons.mp hi with rfl | hi
      · exact le_refl _
      · have hGap := (pairwise_cons.mp h.apart).1 i hi
        have := hPositive first hFirstMem
        omega
    · obtain ⟨rest, rfl⟩ := getLast?_eq_some_iff.mp hLast
      rcases mem_append.mp hi with hi | hi
      · have hGap := (pairwise_append.mp h.apart).2.2 i hi last (mem_singleton_self _)
        have := hPositive last hLastMem
        omega
      · rw [mem_singleton.mp hi]
  ext x
  simp only [Set.mem_union, Set.mem_Ico]
  constructor
  · rintro (⟨i, hi, hLow, hHigh⟩ | ⟨hLow, hHigh⟩)
    · have := hBounds i hi
      omega
    · omega
  · rintro ⟨hLow, hHigh⟩
    by_cases hBefore : x < low
    · have := (hTouch first hFirstMem).2
      exact .inl ⟨first, hFirstMem, by omega, by omega⟩
    · by_cases hBehind : high ≤ x
      · have := (hTouch last hLastMem).1
        exact .inl ⟨last, hLastMem, by omega, by omega⟩
      · exact .inr ⟨by omega, by omega⟩

theorem join (h : Separated (front ++ (taken ++ back))) {first last : Nat × Nat}
    (hFirst : taken.head? = some first) (hLast : taken.getLast? = some last) (hLt : low < high)
    (hTouch : ∀ i ∈ taken, i.1 ≤ high ∧ low ≤ i.2) (hFront : ∀ i ∈ front, i.2 < low)
    (hBack : ∀ i ∈ back, high < i.1) :
    Separated (front ++ (min first.1 low, max last.2 high) :: back) ∧
      covered (front ++ (min first.1 low, max last.2 high) :: back) =
        covered (front ++ (taken ++ back)) ∪ Set.Ico low high := by
  have hFirstMem := mem_of_mem_head? hFirst
  have hLastMem := mem_of_getLast? hLast
  obtain ⟨-, hRest, hFrontApart⟩ := pairwise_append.mp h.apart
  obtain ⟨-, -, hTakenApart⟩ := pairwise_append.mp hRest
  have hTaken : Separated taken :=
    h.sublist ((sublist_append_left _ _).trans (sublist_append_right _ _))
  constructor
  · have hOuter : Separated (front ++ back) :=
      h.sublist (Sublist.append_left (sublist_append_right _ _) _)
    refine hOuter.insert (by omega) (fun i hi => ?_) fun i hi => ?_
    · have hGap := hFrontApart i hi first (mem_append_left _ hFirstMem)
      have := hFront i hi
      omega
    · have hGap := hTakenApart last hLastMem i hi
      have := hBack i hi
      omega
  · rw [covered_append, covered_cons, covered_append, covered_append,
      ← hTaken.covered_taken hFirst hLast hTouch]
    ext x
    simp only [Set.mem_union]
    tauto

/-- The front of an interval is cut off, up to `mid`. Nothing is left if this is its end. -/
theorem cut {mid : Nat} (h : Separated (front ++ (low, high) :: back))
    (hRest : rest = [] ∧ mid = high ∨ rest = [(mid, high)] ∧ low ≤ mid ∧ mid < high) :
    Separated (front ++ (rest ++ back)) ∧
      covered (front ++ (rest ++ back)) =
        covered (front ++ (low, high) :: back) \ Set.Ico low mid := by
  obtain ⟨hFrontApart, hBehind, hApart⟩ := pairwise_append.mp h.apart
  obtain ⟨hGap, hBackApart⟩ := pairwise_cons.mp hBehind
  have hFront : ∀ i ∈ front, i.2 < low := fun i hi => hApart i hi _ mem_cons_self
  have hOuter : Separated (front ++ back) :=
    h.sublist (Sublist.append_left (sublist_cons_self _ _) _)
  constructor
  · rcases hRest with ⟨rfl, -⟩ | ⟨rfl, hLow, hLt⟩
    · exact hOuter
    · refine hOuter.insert hLt (fun i hi => ?_) hGap
      have := hFront i hi
      omega
  · have hCovered : covered rest = Set.Ico mid high := by
      rcases hRest with ⟨rfl, rfl⟩ | ⟨rfl, -⟩
      · rw [Set.Ico_self]
        exact Set.eq_empty_of_forall_notMem fun x ⟨i, hi, _⟩ => not_mem_nil hi
      · ext x
        simp only [covered, mem_singleton, exists_eq_left, Set.mem_ofPred_eq, Set.mem_Ico]
    have hBelow : ∀ x ∈ covered front, x < low := by
      rintro x ⟨i, hi, -, hHigh⟩
      have := hFront i hi
      omega
    have hAbove : ∀ x ∈ covered back, high < x := by
      rintro x ⟨i, hi, hLow, -⟩
      have := hGap i hi
      omega
    rw [covered_append, covered_append, covered_append, covered_cons, hCovered]
    ext x
    have hxFront := hBelow x
    have hxBack := hAbove x
    simp only [Set.mem_union, Set.mem_sdiff, Set.mem_Ico]
    constructor
    · rintro (hIn | hIn | hIn)
      · exact ⟨.inl hIn, fun hCut => by have := hxFront hIn; omega⟩
      · exact ⟨.inr (.inl (by omega)), by omega⟩
      · exact ⟨.inr (.inr hIn), fun hCut => by have := hxBack hIn; omega⟩
    · rintro ⟨hIn | hIn | hIn, hCut⟩
      · exact .inl hIn
      · exact .inr (.inl (by omega))
      · exact .inr (.inr hIn)

end Separated

end Cascette.Lib
