import Cascette.Lib.Except

/-!
# Runs that fail together

Two fallible runs agree when both fail, or both end and their results are related. Errors are not
compared. The rules take agreement through sequences and folds.
-/

namespace Cascette.Lib

variable {ε ε' α β γ δ : Type}

/-- Both runs fail, or their results are related. -/
def Agree (R : α → β → Prop) : Except ε α → Except ε' β → Prop
  | .ok a, .ok b => R a b
  | .error _, .error _ => True
  | .ok _, .error _ => False
  | .error _, .ok _ => False

namespace Agree

theorem refl (x : Except ε α) : Agree (· = ·) x x := by
  cases x with
  | ok a => exact rfl
  | error e => exact trivial

theorem eq_iff {x : Except ε α} {y : Except ε' α} :
    Agree (· = ·) x y ↔ ∀ a, x = .ok a ↔ y = .ok a := by
  cases x <;> cases y <;> simp [Agree, eq_comm]

variable {R : α → β → Prop} {x : Except ε α} {y : Except ε' β}

theorem of_ok {a : α} {b : β} (hx : x = .ok a) (hy : y = .ok b) (h : R a b) : Agree R x y := by
  rw [hx, hy]
  exact h

theorem of_error (hx : ∃ e, x = .error e) (hy : ∃ e, y = .error e) : Agree R x y := by
  obtain ⟨e, rfl⟩ := hx
  obtain ⟨e', rfl⟩ := hy
  exact trivial

theorem bind {S : γ → δ → Prop} {f : α → Except ε γ} {g : β → Except ε' δ} (h : Agree R x y)
    (hStep : ∀ a b, R a b → Agree S (f a) (g b)) : Agree S (x >>= f) (y >>= g) := by
  cases x with
  | ok a =>
    cases y with
    | ok b => exact hStep a b h
    | error e => exact h.elim
  | error e =>
    cases y with
    | ok b => exact h.elim
    | error e' => exact trivial

theorem trans_eq {z : Except ε' β} (h : Agree R x y) (hEq : Agree (· = ·) y z) : Agree R x z := by
  cases y with
  | ok b =>
    cases z with
    | ok c => exact (show b = c from hEq) ▸ h
    | error e => exact hEq.elim
  | error e =>
    cases z with
    | ok c => exact hEq.elim
    | error e' => cases x <;> exact h

theorem mapError_left {ε₁ : Type} {f : ε → ε₁} : Agree R (x.mapError f) y ↔ Agree R x y := by
  cases x <;> cases y <;> exact Iff.rfl

theorem foldlM {σ τ : Type} {R : σ → τ → Prop} {f : σ → α → Except ε σ} {g : τ → α → Except ε' τ}
    (hStep : ∀ s t a, R s t → Agree R (f s a) (g t a)) (xs : List α) {s : σ} {t : τ} (h : R s t) :
    Agree R (xs.foldlM f s) (xs.foldlM g t) := by
  induction xs generalizing s t with
  | nil => exact h
  | cons a xs ih => exact (hStep s t a h).bind fun s' t' h' => ih h'

end Agree

end Cascette.Lib
