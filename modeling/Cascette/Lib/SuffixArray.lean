import Cascette.Lib.Bytes

/-!
# Suffix arrays

A suffix array of a string lists the start positions of its suffixes in lexicographic order.
The suffixes that begin with a given string lie next to each other in it (`prefix_of_between`),
which is what makes bisection find a string that occurs.
-/

namespace Cascette.Lib

open List

variable {α : Type} [LinearOrder α]

structure IsSuffixArray (text : List α) (sa : List Nat) : Prop where
  perm : sa.Perm (List.range text.length)
  sorted : sa.Pairwise fun i j => text.drop i < text.drop j

variable {text : List α} {sa : List Nat}

variable (h : IsSuffixArray text sa)
include h

theorem IsSuffixArray.length_eq : sa.length = text.length := by
  simpa using h.perm.length_eq

theorem IsSuffixArray.exists_position {k : Nat} (hk : k < sa.length) :
    ∃ p, sa[k]? = some p ∧ p < text.length :=
  ⟨_, getElem?_eq_getElem hk, mem_range.mp (h.perm.mem_iff.mp (getElem_mem hk))⟩

theorem IsSuffixArray.exists_index {p : Nat} (hp : p < text.length) :
    ∃ k < sa.length, sa[k]? = some p := by
  obtain ⟨k, hk⟩ := mem_iff_getElem?.mp (h.perm.mem_iff.mpr (mem_range.mpr hp))
  exact ⟨k, (List.getElem?_eq_some_iff.mp hk).1, hk⟩

theorem IsSuffixArray.drop_lt {a b p q : Nat} (hab : a < b)
    (hp : sa[a]? = some p) (hq : sa[b]? = some q) : text.drop p < text.drop q := by
  obtain ⟨ha, rfl⟩ := List.getElem?_eq_some_iff.mp hp
  obtain ⟨hb, rfl⟩ := List.getElem?_eq_some_iff.mp hq
  exact pairwise_iff_getElem.mp h.sorted a b ha hb hab

omit h

/-- The strings that begin with a given one form an interval. -/
theorem prefix_of_between {front xs ys zs : List α} (hxy : xs ≤ ys) (hyz : ys ≤ zs)
    (hx : front <+: xs) (hz : front <+: zs) : front <+: ys := by
  induction front generalizing xs ys zs with
  | nil => exact nil_prefix
  | cons a front ih =>
    obtain ⟨xs, rfl⟩ := hx
    obtain ⟨zs, rfl⟩ := hz
    cases ys with
    | nil => exact absurd hxy (by simp)
    | cons y ys =>
      rw [cons_append, ← not_lt, cons_lt_cons_iff, not_or] at hxy hyz
      obtain rfl : a = y := le_antisymm (not_lt.mp hxy.1) (not_lt.mp hyz.1)
      refine cons_prefix_cons.mpr ⟨rfl, ?_⟩
      exact ih (not_lt.mp fun h => hxy.2 ⟨rfl, h⟩) (not_lt.mp fun h => hyz.2 ⟨rfl, h⟩)
        (prefix_append _ _) (prefix_append _ _)

end Cascette.Lib
