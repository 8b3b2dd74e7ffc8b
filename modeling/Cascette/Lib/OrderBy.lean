import Cascette.Lib.Merge
import Cascette.Lib.Search
import Mathlib.Data.List.Perm.Basic

/-!
# Rows in the order of a key

A query sorts its rows by a key. Rows with one key may come in any order, so the sort is a
parameter: all that is known of it is that it returns the same rows and that their keys ascend.
-/

namespace Cascette.Lib

open List

structure OrderBy (ρ : Type) where
  sort : {κ : Type} → [LinearOrder κ] → (ρ → κ) → List ρ → List ρ
  perm : ∀ {κ : Type} [LinearOrder κ] (key : ρ → κ) (rows : List ρ), (sort key rows).Perm rows
  sorted : ∀ {κ : Type} [LinearOrder κ] (key : ρ → κ) (rows : List ρ),
    (sort key rows).Pairwise fun a b => key a ≤ key b

namespace OrderBy

/-- The sort that keeps rows with one key in their order. -/
def stable (ρ : Type) : OrderBy ρ where
  sort key rows := rows.insertionSort fun a b => key a ≤ key b
  perm _ rows := List.perm_insertionSort _ rows
  sorted key rows := pairwise_insertionSort_key key rows

variable {ρ α κ : Type} [LinearOrder κ]

/-- Sorted rows that stand for values of another type give these values in the order of the key. -/
theorem exists_sorted (order : OrderBy ρ) {key : ρ → κ} {κ' : Type} [LinearOrder κ']
    (key' : α → κ') {R : ρ → α → Prop} {rows : List ρ} {values : List α}
    (hRows : Forall₂ R rows values)
    (hKey : ∀ a b x y, R a x → R b y → key a ≤ key b → key' x ≤ key' y) :
    ∃ sorted, Forall₂ R (order.sort key rows) sorted ∧ sorted.Perm values ∧
      sorted.Pairwise fun x y => key' x ≤ key' y := by
  obtain ⟨sorted, hSorted, hPerm⟩ := perm_comp_forall₂ (order.perm key rows) hRows
  refine ⟨sorted, hSorted, hPerm, ?_⟩
  have hOrder := order.sorted key rows
  generalize order.sort key rows = front at hSorted hOrder
  clear hPerm hRows
  induction hSorted with
  | nil => exact .nil
  | @cons a x as xs hHead hTail ih =>
    obtain ⟨hLe, hRest⟩ := pairwise_cons.mp hOrder
    refine pairwise_cons.mpr ⟨fun y hy => ?_, ih hRest⟩
    obtain ⟨b, hb, hby⟩ := forall₂_mem_right hTail hy
    exact hKey a b x y hHead hby (hLe b hb)

end OrderBy

end Cascette.Lib
