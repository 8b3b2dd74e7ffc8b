import Mathlib.Data.List.DropRight

/-!
# Lines and fields of a text

A text is read line by line, each with the sign that ends it. Signs to be ignored are trimmed from
the ends of a line, and what remains is split into fields. What was put together from fields and
lines without the separating signs is taken apart into the same fields (`List.splitOn_intercalate`)
and lines (`rawLines_flatten`).
-/

namespace Cascette.Lib

open List

variable {α : Type}

/-! ## Trimming -/

def trim (p : α → Bool) (xs : List α) : List α := (xs.dropWhile p).rdropWhile p

variable {p : α → Bool} {xs : List α}

theorem mem_of_mem_trim {x : α} (h : x ∈ trim p xs) : x ∈ xs :=
  (dropWhile_suffix p).mem ((List.rdropWhile_prefix p _).mem h)

theorem rdropWhile_trim (p : α → Bool) (xs : List α) :
    (trim p xs).rdropWhile p = trim p xs := rdropWhile_idempotent p _

theorem dropWhile_eq_self (h : ∀ x, xs.head? = some x → p x = false) : xs.dropWhile p = xs := by
  cases xs with
  | nil => rfl
  | cons x xs => rw [dropWhile_cons_of_neg (by rw [h x rfl]; exact Bool.false_ne_true)]

theorem dropWhile_trim (p : α → Bool) (xs : List α) : (trim p xs).dropWhile p = trim p xs := by
  refine dropWhile_eq_self fun x hx => ?_
  -- what remains begins as the text without the signs in front of it
  obtain ⟨rest, hRest⟩ := rdropWhile_prefix p (xs.dropWhile p)
  have hHead : (xs.dropWhile p).head? = some x := by
    rw [← hRest, head?_append, ← trim, hx, Option.some_or]
  have hNe : xs.dropWhile p ≠ [] := fun hNil => by simp [hNil] at hHead
  rw [head?_eq_some_head hNe, Option.some.injEq] at hHead
  rw [← hHead]
  exact head_dropWhile_not p hNe

/-! ## Lines -/

section Lines

variable [DecidableEq α]

/-- The lines of a text, each with the newline at its end; the last one may lack it. -/
def rawLines (newline : α) : List α → List (List α)
  | [] => []
  | x :: xs =>
    if x = newline then [newline] :: rawLines newline xs
    else
      match rawLines newline xs with
      | [] => [[x]]
      | line :: lines => (x :: line) :: lines

variable {newline sep : α} {line text : List α}

theorem rawLines_append (h : newline ∉ line) (rest : List α) :
    rawLines newline (line ++ newline :: rest) = (line ++ [newline]) :: rawLines newline rest := by
  induction line with
  | nil => rw [nil_append, rawLines, if_pos rfl, nil_append]
  | cons x line ih =>
    rw [mem_cons, not_or] at h
    obtain ⟨hx, hLine⟩ := h
    rw [cons_append, rawLines, if_neg (Ne.symm hx), ih hLine]
    rfl

theorem rawLines_flatten {lines : List (List α)} (h : ∀ line ∈ lines, newline ∉ line) :
    rawLines newline (lines.flatMap fun line => line ++ [newline]) =
      lines.map fun line => line ++ [newline] := by
  induction lines with
  | nil => rfl
  | cons line lines ih =>
    rw [flatMap_cons, append_assoc, singleton_append, rawLines_append (h line mem_cons_self),
      ih fun line' hLine => h line' (mem_cons_of_mem line hLine), map_cons]

theorem exists_of_mem_rawLines (h : line ∈ rawLines newline text) :
    ∃ body, newline ∉ body ∧ (line = body ∨ line = body ++ [newline]) := by
  induction text generalizing line with
  | nil => cases h
  | cons x text ih =>
    rw [rawLines] at h
    by_cases hx : x = newline
    · rw [if_pos hx] at h
      rcases mem_cons.mp h with rfl | h
      · exact ⟨[], not_mem_nil, .inr rfl⟩
      · exact ih h
    · rw [if_neg hx] at h
      cases hLines : rawLines newline text with
      | nil =>
        rw [hLines] at h
        cases mem_singleton.mp h
        exact ⟨[x], by simpa using Ne.symm hx, .inl rfl⟩
      | cons first lines =>
        rw [hLines] at h ih
        rcases mem_cons.mp h with rfl | h
        · obtain ⟨body, hBody, hFirst⟩ := ih mem_cons_self
          refine ⟨x :: body, by simpa using ⟨Ne.symm hx, hBody⟩, ?_⟩
          exact hFirst.imp (congrArg (x :: ·)) (congrArg (x :: ·))
        · exact ih (mem_cons_of_mem first h)

theorem newline_notMem_rdropWhile {p : α → Bool} (hNewline : p newline = true)
    (h : line ∈ rawLines newline text) : newline ∉ line.rdropWhile p := by
  obtain ⟨body, hBody, rfl | rfl⟩ := exists_of_mem_rawLines h
  · exact fun hMem => hBody ((List.rdropWhile_prefix p line).mem hMem)
  · rw [rdropWhile_concat_pos p body newline hNewline]
    exact fun hMem => hBody ((List.rdropWhile_prefix p body).mem hMem)

/-! ## Fields -/

theorem of_mem_splitOn {xs field : List α} (h : field ∈ xs.splitOn sep) :
    sep ∉ field ∧ field ⊆ xs := by
  induction xs generalizing field with
  | nil =>
    cases mem_singleton.mp h
    exact ⟨not_mem_nil, nil_subset _⟩
  | cons x xs ih =>
    rw [splitOn, splitOnP_cons_eq_if_modifyHead, ← splitOn] at h
    obtain ⟨first, fields, hFields⟩ := exists_cons_of_ne_nil (splitOn_ne_nil sep xs)
    rw [hFields] at h ih
    by_cases hx : (x == sep) = true
    · rw [if_pos hx] at h
      rcases mem_cons.mp h with rfl | h
      · exact ⟨not_mem_nil, nil_subset _⟩
      · exact (ih h).imp id (subset_cons_of_subset x)
    · rw [if_neg hx, modifyHead_cons] at h
      rcases mem_cons.mp h with rfl | h
      · obtain ⟨hSep, hSub⟩ := ih mem_cons_self
        rw [mem_cons, not_or]
        exact ⟨⟨fun hEq => hx (by rw [hEq, beq_self_eq_true]), hSep⟩, cons_subset_cons x hSub⟩
      · exact (ih (mem_cons_of_mem first h)).imp id (subset_cons_of_subset x)

theorem splitOn_append_cons {xs ys : List α} (hxs : sep ∉ xs) (hys : sep ∉ ys) :
    (xs ++ sep :: ys).splitOn sep = [xs, ys] := by
  have hFields : ∀ field ∈ [xs, ys], sep ∉ field := by
    intro field hField
    rcases mem_pair.mp hField with rfl | rfl
    · exact hxs
    · exact hys
  have hText : xs ++ sep :: ys = [sep].intercalate [xs, ys] := by simp [intercalate]
  rw [hText, splitOn_intercalate sep hFields (cons_ne_nil _ _)]

end Lines

theorem exists_intercalate_concat (sep : List α) (fields : List (List α)) (last : List α) :
    ∃ front, sep.intercalate (fields ++ [last]) = front ++ last := by
  induction fields with
  | nil => exact ⟨[], by simp [intercalate]⟩
  | cons field fields ih =>
    obtain ⟨front, hFront⟩ := ih
    have hNe : fields ++ [last] ≠ [] := append_ne_nil_of_right_ne_nil fields (cons_ne_nil last [])
    obtain ⟨next, rest, hRest⟩ := exists_cons_of_ne_nil hNe
    rw [hRest] at hFront
    refine ⟨field ++ sep ++ front, ?_⟩
    rw [cons_append, hRest, intercalate_cons_cons, hFront, append_assoc, append_assoc, append_assoc]

theorem notMem_intercalate {sep x : α} {fields : List (List α)} (hSep : x ≠ sep)
    (h : ∀ field ∈ fields, x ∉ field) : x ∉ [sep].intercalate fields := by
  induction fields with
  | nil => exact not_mem_nil
  | cons field fields ih =>
    have hField := h field mem_cons_self
    have hRest := ih fun field' hField' => h field' (mem_cons_of_mem field hField')
    cases fields with
    | nil => simpa [intercalate] using hField
    | cons next fields =>
      rw [intercalate_cons_cons, mem_append, mem_append, mem_singleton, not_or, not_or]
      exact ⟨⟨hField, hSep⟩, hRest⟩

end Cascette.Lib
