import Mathlib.Logic.Function.Basic
import Mathlib.Data.Option.Basic
import Mathlib.Data.List.Induction

/-!
# Tables that remember answers

A table is a partial map. It may be filled row by row, and then the last row of a key counts
(`insertAll_apply`); or it may be asked before a search and keep what the search finds. A table in
front of a search is not noticed exactly if it is sound, that is if it holds only what the search
would find (`or_eq_iff_sound`).
-/

namespace Cascette.Lib.Memo

open List Option Function

variable {κ ν : Type} [DecidableEq κ]

/-! ## Tables filled row by row -/

def insertAll (table : κ → Option ν) (rows : List (κ × ν)) : κ → Option ν :=
  rows.foldl (fun table row => Function.update table row.1 (some row.2)) table

def firstRow (rows : List (κ × ν)) (key : κ) : Option ν :=
  (rows.find? fun row => row.1 = key).map Prod.snd

def lastRow (rows : List (κ × ν)) (key : κ) : Option ν := firstRow rows.reverse key

theorem firstRow_cons (row : κ × ν) (rows : List (κ × ν)) (key : κ) :
    firstRow (row :: rows) key = if row.1 = key then some row.2 else firstRow rows key := by
  by_cases hKey : row.1 = key <;> simp [firstRow, hKey]

variable {rows : List (κ × ν)} {key : κ} {table search : κ → Option ν}

theorem firstRow_eq_none_iff : firstRow rows key = none ↔ ∀ row ∈ rows, row.1 ≠ key := by
  simp [firstRow]

theorem lastRow_eq_none_iff : lastRow rows key = none ↔ firstRow rows key = none := by
  simp only [lastRow, firstRow_eq_none_iff, mem_reverse]

theorem insertAll_apply (table : κ → Option ν) (rows : List (κ × ν)) (key : κ) :
    insertAll table rows key = (lastRow rows key).or (table key) := by
  induction rows using reverseRecOn with
  | nil => rfl
  | append_singleton rows row ih =>
    rw [insertAll, foldl_append, lastRow, reverse_append, reverse_singleton,
      singleton_append, firstRow_cons]
    by_cases hKey : row.1 = key
    · subst hKey
      rw [if_pos rfl, some_or]
      exact update_self ..
    · rw [if_neg hKey]
      exact (update_of_ne (Ne.symm hKey) ..).trans ih

/-- Filling a table makes it the first match of the rows exactly if the rows of a key agree and the
table held no other key. -/
theorem insertAll_eq_firstRow_iff :
    (∀ key, insertAll table rows key = firstRow rows key) ↔
      (∀ key, lastRow rows key = firstRow rows key) ∧
        ∀ key, table key ≠ none → firstRow rows key ≠ none := by
  have hKey : ∀ key, insertAll table rows key = firstRow rows key ↔
      lastRow rows key = firstRow rows key ∧ (table key ≠ none → firstRow rows key ≠ none) := by
    intro key
    rw [insertAll_apply]
    by_cases hNone : firstRow rows key = none
    · rw [lastRow_eq_none_iff.mpr hNone, hNone, none_or]
      simp
    · obtain ⟨value, hLast⟩ := ne_none_iff_exists'.mp (mt lastRow_eq_none_iff.mp hNone)
      rw [hLast, some_or]
      exact ⟨fun h => ⟨h, fun _ => hNone⟩, And.left⟩
  exact (forall_congr' hKey).trans forall_and

/-! ## Tables in front of a search -/

/-- A table that holds only what the search finds. -/
def Sound (table search : κ → Option ν) : Prop :=
  ∀ key value, table key = some value → search key = some value

omit [DecidableEq κ] in
theorem or_eq_iff_sound :
    (∀ key, (table key).or (search key) = search key) ↔ Sound table search := by
  refine forall_congr' fun key => ?_
  cases hTable : table key with
  | none => simp
  | some value => simp [eq_comm]

/-- Where every row of a search is also put into the table, the table is sound only if it is the
search. -/
theorem sound_insertAll_iff :
    Sound (insertAll table rows) (firstRow rows) ↔
      ∀ key, insertAll table rows key = firstRow rows key := by
  constructor
  · intro h key
    cases hTable : insertAll table rows key with
    | some value => exact (h key value hTable).symm
    | none =>
      rw [insertAll_apply, or_eq_none_iff] at hTable
      exact (lastRow_eq_none_iff.mp hTable.1).symm
  · exact fun h key value hTable => (h key).symm.trans hTable

theorem Sound.update (h : Sound table search) {value : ν} (hSearch : search key = some value) :
    Sound (Function.update table key (some value)) search := by
  intro key' value' hTable
  by_cases hKey : key' = key
  · subst hKey
    rw [update_self] at hTable
    rw [hSearch, hTable]
  · rw [update_of_ne hKey] at hTable
    exact h key' value' hTable

end Cascette.Lib.Memo
