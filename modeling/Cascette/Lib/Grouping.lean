import Mathlib.Data.List.Induction
import Mathlib.Data.List.Nodup
import Mathlib.Data.List.Perm.Basic
import Mathlib.Data.List.Sort

/-!
# Grouping by key

A map whose values are changed in place is a list of keys with values. Elements that are added one
by one under their keys end up in groups: every key that occurs has one group, which holds the
elements of the key in the order in which they were added (`grouped_group`).
-/

namespace Cascette.Lib

open List

section Modify

variable {κ ν μ : Type} [DecidableEq κ]

/-- Changes the value of a key. A key that is missing has the value `default` first. -/
def modifyEntry (key : κ) (default : ν) (f : ν → ν) : List (κ × ν) → List (κ × ν)
  | [] => [(key, f default)]
  | (k, v) :: entries =>
    if k = key then (k, f v) :: entries else (k, v) :: modifyEntry key default f entries

variable {key : κ} {default : ν} {f : ν → ν} {entries : List (κ × ν)}

theorem modifyEntry_map (f : ν → ν) (f' : μ → μ) {g : κ → ν → μ} (default : ν)
    (h : ∀ v, f' (g key v) = g key (f v)) (entries : List (κ × ν)) :
    modifyEntry key (g key default) f' (entries.map fun entry => (entry.1, g entry.1 entry.2)) =
      (modifyEntry key default f entries).map fun entry => (entry.1, g entry.1 entry.2) := by
  induction entries with
  | nil => rw [map_nil, modifyEntry, modifyEntry, h, map_singleton]
  | cons entry entries ih =>
    obtain ⟨k, v⟩ := entry
    rw [map_cons, modifyEntry, modifyEntry]
    by_cases hKey : k = key
    · subst hKey
      rw [if_pos rfl, if_pos rfl, h, map_cons]
    · rw [if_neg hKey, if_neg hKey, ih, map_cons]

theorem keys_modifyEntry (key : κ) (default : ν) (f : ν → ν) (entries : List (κ × ν)) :
    (modifyEntry key default f entries).map Prod.fst =
      if key ∈ entries.map Prod.fst then entries.map Prod.fst
      else entries.map Prod.fst ++ [key] := by
  induction entries with
  | nil => rfl
  | cons entry entries ih =>
    obtain ⟨k, v⟩ := entry
    rw [modifyEntry]
    by_cases hKey : k = key
    · subst hKey
      rw [if_pos rfl, map_cons, map_cons, if_pos mem_cons_self]
    · rw [if_neg hKey, map_cons, ih, map_cons]
      by_cases hMem : key ∈ entries.map Prod.fst
      · rw [if_pos hMem, if_pos (mem_cons_of_mem _ hMem)]
      · rw [if_neg hMem, if_neg (by simpa using ⟨Ne.symm hKey, by simpa using hMem⟩), cons_append]

theorem nodup_modifyEntry (h : (entries.map Prod.fst).Nodup) :
    ((modifyEntry key default f entries).map Prod.fst).Nodup := by
  rw [keys_modifyEntry]
  split_ifs with hMem
  · exact h
  · exact Nodup.append h (nodup_singleton _) (disjoint_singleton.mpr hMem)

theorem mem_modifyEntry_of_ne {k : κ} {v : ν} (hKey : k ≠ key) :
    (k, v) ∈ modifyEntry key default f entries ↔ (k, v) ∈ entries := by
  induction entries with
  | nil => simp [modifyEntry, hKey]
  | cons entry entries ih =>
    obtain ⟨k', v'⟩ := entry
    rw [modifyEntry]
    by_cases hEq : k' = key
    · subst hEq
      simp [hKey]
    · rw [if_neg hEq, mem_cons, ih, mem_cons]

theorem mem_modifyEntry_self {v : ν} (hNodup : (entries.map Prod.fst).Nodup) :
    (key, v) ∈ modifyEntry key default f entries ↔
      (∃ w, (key, w) ∈ entries ∧ v = f w) ∨ (key ∉ entries.map Prod.fst ∧ v = f default) := by
  induction entries with
  | nil => simp [modifyEntry]
  | cons entry entries ih =>
    obtain ⟨k, w⟩ := entry
    rw [map_cons, nodup_cons] at hNodup
    rw [modifyEntry]
    by_cases hKey : k = key
    · subst hKey
      -- The rest of the list does not have the key again.
      have hRest : ∀ w, (k, w) ∉ entries := fun w hw => hNodup.1 (mem_map.mpr ⟨(k, w), hw, rfl⟩)
      simp [hRest]
    · rw [if_neg hKey]
      simp [ih hNodup.2, Ne.symm hKey]

end Modify

section Group

variable {α κ : Type} [DecidableEq κ] (key : α → κ)

/-- The groups of a list: each element is put at the end of the group of its key. -/
def group (xs : List α) : List (κ × List α) :=
  xs.foldl (fun groups x => modifyEntry (key x) [] (· ++ [x]) groups) []

/-- The keys have one group each, and it holds their elements. -/
structure Grouped (xs : List α) (groups : List (κ × List α)) : Prop where
  nodup : (groups.map Prod.fst).Nodup
  mem_iff : ∀ k ys, (k, ys) ∈ groups ↔ ys ≠ [] ∧ ys = xs.filter fun x => key x = k

variable {key}

variable {xs : List α} {groups : List (κ × List α)}

variable (h : Grouped key xs groups)
include h

theorem Grouped.mem_keys {k : κ} : k ∈ groups.map Prod.fst ↔ ∃ x ∈ xs, key x = k := by
  rw [mem_map]
  constructor
  · rintro ⟨⟨k, ys⟩, hMem, rfl⟩
    obtain ⟨hNe, rfl⟩ := (h.mem_iff k ys).mp hMem
    obtain ⟨x, hx⟩ := exists_mem_of_ne_nil _ hNe
    obtain ⟨hx, hKey⟩ := mem_filter.mp hx
    exact ⟨x, hx, of_decide_eq_true hKey⟩
  · rintro ⟨x, hx, hKey⟩
    have hMem : x ∈ xs.filter fun x => key x = k := mem_filter.mpr ⟨hx, decide_eq_true hKey⟩
    exact ⟨(k, _), (h.mem_iff k _).mpr ⟨ne_nil_of_mem hMem, rfl⟩, rfl⟩

theorem Grouped.forall_exists_iff {P : α → Prop} :
    (∀ entry ∈ groups, ∃ y ∈ entry.2, P y) ↔ ∀ x ∈ xs, ∃ y ∈ xs, key y = key x ∧ P y := by
  constructor
  · intro hAll x hx
    obtain ⟨⟨k, ys⟩, hMem, hKey⟩ := mem_map.mp (h.mem_keys.mpr ⟨x, hx, rfl⟩)
    obtain ⟨y, hy, hP⟩ := hAll _ hMem
    obtain ⟨-, rfl⟩ := (h.mem_iff k ys).mp hMem
    obtain ⟨hy, hk⟩ := mem_filter.mp hy
    exact ⟨y, hy, (of_decide_eq_true hk).trans hKey, hP⟩
  · rintro hAll ⟨k, ys⟩ hMem
    obtain ⟨x, hx, rfl⟩ := h.mem_keys.mp (mem_map_of_mem (f := Prod.fst) hMem)
    obtain ⟨y, hy, hKey, hP⟩ := hAll x hx
    obtain ⟨-, rfl⟩ := (h.mem_iff _ ys).mp hMem
    exact ⟨y, mem_filter.mpr ⟨hy, decide_eq_true hKey⟩, hP⟩

theorem Grouped.modifyEntry (x : α) :
    Grouped key (xs ++ [x]) (modifyEntry (key x) [] (· ++ [x]) groups) where
  nodup := nodup_modifyEntry h.nodup
  mem_iff := by
    intro k ys
    by_cases hKey : k = key x
    · subst hKey
      have hFilter : ((xs ++ [x]).filter fun y => key y = key x) =
          (xs.filter fun y => key y = key x) ++ [x] := by
        rw [filter_append, filter_singleton, decide_eq_true rfl, cond_true]
      rw [mem_modifyEntry_self h.nodup, hFilter]
      constructor
      · rintro (⟨ys', hMem, rfl⟩ | ⟨hMem, rfl⟩)
        · obtain ⟨-, rfl⟩ := (h.mem_iff _ _).mp hMem
          exact ⟨by simp, rfl⟩
        · have hNone : (xs.filter fun y => key y = key x) = [] := by
            by_contra hSome
            exact hMem (mem_map_of_mem (f := Prod.fst) ((h.mem_iff (key x) _).mpr ⟨hSome, rfl⟩))
          rw [hNone]
          exact ⟨by simp, rfl⟩
      · rintro ⟨-, rfl⟩
        by_cases hNone : (xs.filter fun y => key y = key x) = []
        · refine .inr ⟨fun hMem => ?_, by rw [hNone]⟩
          obtain ⟨⟨k, ys⟩, hMem, hk⟩ := mem_map.mp hMem
          obtain ⟨hNe, rfl⟩ := (h.mem_iff _ _).mp hMem
          cases hk
          exact hNe hNone
        · exact .inl ⟨_, (h.mem_iff _ _).mpr ⟨hNone, rfl⟩, rfl⟩
    · have hFilter : ((xs ++ [x]).filter fun y => key y = k) = xs.filter fun y => key y = k := by
        rw [filter_append, filter_singleton, decide_eq_false (Ne.symm hKey)]
        exact append_nil _
      rw [mem_modifyEntry_of_ne hKey, h.mem_iff, hFilter]

omit h

theorem grouped_group (xs : List α) : Grouped key xs (group key xs) := by
  induction xs using reverseRecOn with
  | nil => exact ⟨nodup_nil, by simp [group]⟩
  | append_singleton xs x ih =>
    rw [group, foldl_append]
    exact ih.modifyEntry x

theorem flatMap_modifyEntry_perm (k : κ) (x : α) (groups : List (κ × List α)) :
    ((modifyEntry k [] (· ++ [x]) groups).flatMap Prod.snd).Perm
      (groups.flatMap Prod.snd ++ [x]) := by
  induction groups with
  | nil => exact Perm.refl _
  | cons entry groups ih =>
    rw [Lib.modifyEntry]
    split
    · rw [flatMap_cons, flatMap_cons, append_assoc, append_assoc]
      exact Perm.append_left _ perm_append_comm
    · rw [flatMap_cons, flatMap_cons, append_assoc]
      exact Perm.append_left _ ih

theorem flatMap_group_perm (xs : List α) : ((group key xs).flatMap Prod.snd).Perm xs := by
  induction xs using reverseRecOn with
  | nil => exact Perm.refl _
  | append_singleton xs x ih =>
    rw [group, foldl_append]
    exact (flatMap_modifyEntry_perm _ x _).trans (ih.append_right _)

theorem Grouped.flatMap_eq {β : Type} (h : Grouped key xs groups) {f : κ × List α → List β} {k : κ}
    (hOther : ∀ entry ∈ groups, entry.1 ≠ k → f entry = []) (hNil : f (k, []) = []) :
    groups.flatMap f = f (k, xs.filter fun x => key x = k) := by
  by_cases hMem : (xs.filter fun x => key x = k) = []
  · rw [hMem, hNil, flatMap_eq_nil_iff]
    rintro ⟨k', ys⟩ hEntry
    refine hOther _ hEntry ?_
    rintro rfl
    obtain ⟨hNe, rfl⟩ := (h.mem_iff k' ys).mp hEntry
    exact hNe hMem
  · have hEntry := (h.mem_iff k _).mpr ⟨hMem, rfl⟩
    obtain ⟨front, back, hSplit⟩ := append_of_mem hEntry
    have hNodup := h.nodup
    rw [hSplit, map_append, map_cons] at hNodup
    obtain ⟨-, hBack, hFront⟩ := nodup_append.mp hNodup
    have hRest : ∀ entry ∈ front ++ back, f entry = [] := by
      intro entry hEntry'
      refine hOther entry ?_ ?_
      · rw [hSplit]
        rcases mem_append.mp hEntry' with hIn | hIn
        · exact mem_append_left _ hIn
        · exact mem_append_right _ (mem_cons_of_mem _ hIn)
      · rcases mem_append.mp hEntry' with hIn | hIn
        · exact hFront _ (mem_map_of_mem hIn) _ mem_cons_self
        · rintro rfl
          exact (nodup_cons.mp hBack).1 (mem_map.mpr ⟨entry, hIn, rfl⟩)
    rw [hSplit, flatMap_append, flatMap_cons,
      flatMap_eq_nil_iff.mpr fun entry hIn => hRest entry (mem_append_left _ hIn),
      flatMap_eq_nil_iff.mpr fun entry hIn => hRest entry (mem_append_right _ hIn),
      nil_append, append_nil]

end Group

end Cascette.Lib
