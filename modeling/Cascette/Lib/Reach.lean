import Mathlib.Logic.Relation
import Mathlib.Data.List.Induction

/-!
# Runs of a transition system

What one step keeps, a run keeps. A run is a sequence of steps, and nothing is said about which of
the enabled steps is taken. Where the steps are the calls of a program, a run is a list of calls
(`always_iff`).
-/

namespace Cascette.Lib

open List

open Relation (ReflTransGen)

variable {σ : Type} {Step : σ → σ → Prop} {P : σ → Prop} {s t : σ}

theorem run_keeps (hStep : ∀ ⦃s t⦄, P s → Step s t → P t) (hRun : ReflTransGen Step s t)
    (hs : P s) : P t := by
  induction hRun with
  | refl => exact hs
  | tail _ hLast ih => exact hStep ih hLast

/-- A value that no step changes while an invariant holds is the same at the end of a run. -/
theorem run_const {α : Type} {value : σ → α} (hStep : ∀ ⦃s t⦄, P s → Step s t → P t)
    (hValue : ∀ ⦃s t⦄, P s → Step s t → value t = value s) (hRun : ReflTransGen Step s t)
    (hs : P s) : value t = value s := by
  induction hRun with
  | refl => rfl
  | tail hFront hLast ih => rw [hValue (run_keeps hStep hFront hs) hLast, ih]

/-! ## Runs of a function

The calls of a list are made one after the other. Where one call keeps a property exactly if it is
safe, a run has the property throughout exactly if every call is safe where it is made. -/

variable {α : Type} {step : σ → α → σ} {Safe : σ → α → Prop}

theorem always_iff (hStep : ∀ s a, P s → (P (step s a) ↔ Safe s a)) (calls : List α) (hs : P s) :
    (∀ before after, calls = before ++ after → P (before.foldl step s)) ↔
      ∀ before a after, calls = before ++ a :: after → Safe (before.foldl step s) a := by
  constructor
  · intro h before a after hCalls
    have hBefore := h before (a :: after) hCalls
    have hSplit : calls = (before ++ [a]) ++ after := by
      rw [hCalls, append_assoc, singleton_append]
    have hAfter := h (before ++ [a]) after hSplit
    rw [foldl_append] at hAfter
    exact (hStep _ a hBefore).mp hAfter
  · intro h before
    -- the calls before a state are followed from the first one on
    induction before using reverseRecOn with
    | nil => exact fun _ _ => hs
    | append_singleton before a ih =>
      intro after hCalls
      rw [append_assoc, singleton_append] at hCalls
      rw [foldl_append]
      exact (hStep _ a (ih (a :: after) hCalls)).mpr (h before a after hCalls)

end Cascette.Lib
