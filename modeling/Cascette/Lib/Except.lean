import Mathlib.Tactic

/-!
# Sequencing fallible steps

Inversion of a successful sequence: every step of it succeeded.
-/

namespace Cascette.Lib

open List

variable {ε α β : Type}

@[simp]
theorem ok_bind (a : α) (f : α → Except ε β) : (Except.ok a >>= f) = f a := rfl

@[simp]
theorem error_bind (e : ε) (f : α → Except ε β) : (Except.error e >>= f) = .error e := rfl

variable {x : Except ε α} {f g : α → Except ε β} {xs : List α} {ys : List β} {p : Prop} {a : α}
  {e : ε} {ε' : Type} {u : Unit}

theorem bind_eq_ok {b : β} : (x >>= f) = .ok b ↔ ∃ a, x = .ok a ∧ f a = .ok b := by
  cases x <;> simp [bind, Except.bind]

@[simp]
theorem bind_pair_eq_ok {γ : Type} {x : Except ε (α × β)} {f : α × β → Except ε γ} {c : γ} :
    (x >>= f) = .ok c ↔ ∃ a b, x = .ok (a, b) ∧ f (a, b) = .ok c :=
  bind_eq_ok.trans Prod.exists

@[simp]
theorem mapError_ok (f : ε → ε') (a : α) : (Except.ok a : Except ε α).mapError f = .ok a := rfl

@[simp]
theorem mapError_eq_ok {f : ε → ε'} : x.mapError f = .ok a ↔ x = .ok a := by
  cases x <;> simp [Except.mapError]

theorem exists_error_iff : (∃ e, x = .error e) ↔ ¬ ∃ a, x = .ok a := by
  cases x <;> simp

/-! ## Forgetting the error -/

theorem toOption_bind (x : Except ε α) (f : α → Except ε β) :
    (x >>= f).toOption = x.toOption.bind fun a => (f a).toOption := by
  cases x <;> rfl

theorem toOption_eq_some : x.toOption = some a ↔ x = .ok a := by
  cases x <;> simp [Except.toOption]

/-! ## Lists of steps -/

theorem mapM_forall₂ (h : xs.mapM f = .ok ys) :
    Forall₂ (fun x y => x ∈ xs ∧ f x = .ok y) xs ys := by
  induction xs generalizing ys with
  | nil =>
    cases h
    exact .nil
  | cons x xs ih =>
    rw [mapM_cons, bind_eq_ok] at h
    obtain ⟨y, hy, h⟩ := h
    obtain ⟨ys', hys, h⟩ := bind_eq_ok.mp h
    cases h
    refine .cons ⟨mem_cons_self, hy⟩ ((ih hys).imp ?_)
    rintro x' y' ⟨hMem, hEq⟩
    exact ⟨mem_cons_of_mem x hMem, hEq⟩

theorem mapM_eq_ok : xs.mapM f = .ok ys ↔ Forall₂ (fun x y => f x = .ok y) xs ys := by
  constructor
  · exact fun h => (mapM_forall₂ h).imp fun _ _ hxy => hxy.2
  · intro h
    induction h with
    | nil => rfl
    | cons hxy _ ih =>
      rw [mapM_cons, hxy, ok_bind, ih]
      rfl

theorem exists_of_mem_mapM {y : β} (h : xs.mapM f = .ok ys) (hy : y ∈ ys) :
    ∃ x ∈ xs, f x = .ok y := by
  induction mapM_eq_ok.mp h with
  | nil => cases hy
  | cons hxy hs ih =>
    rcases mem_cons.mp hy with rfl | hy
    · exact ⟨_, mem_cons_self, hxy⟩
    · obtain ⟨x, hx, hEq⟩ := ih (mapM_eq_ok.mpr hs) hy
      exact ⟨x, mem_cons_of_mem _ hx, hEq⟩

theorem mapM_of_forall (h : ∀ x ∈ xs, ∃ y, f x = .ok y) : ∃ ys, xs.mapM f = .ok ys := by
  induction xs with
  | nil => exact ⟨[], rfl⟩
  | cons x xs ih =>
    obtain ⟨y, hy⟩ := h x mem_cons_self
    obtain ⟨ys, hys⟩ := ih fun x' hx' => h x' (mem_cons_of_mem x hx')
    exact ⟨y :: ys, by rw [mapM_cons, hy, hys]; rfl⟩

theorem exists_mapM_iff : (∃ ys, xs.mapM f = .ok ys) ↔ ∀ x ∈ xs, ∃ y, f x = .ok y := by
  constructor
  · rintro ⟨ys, h⟩ x hx
    induction mapM_eq_ok.mp h with
    | nil => cases hx
    | cons hxy hs ih =>
      rcases mem_cons.mp hx with rfl | hx
      · exact ⟨_, hxy⟩
      · exact ih (mapM_eq_ok.mpr hs) hx
  · exact mapM_of_forall

theorem exists_mapM_error_iff : (∃ e, xs.mapM f = .error e) ↔ ∃ x ∈ xs, ∃ e, f x = .error e := by
  simp only [exists_error_iff, exists_mapM_iff, not_forall, exists_prop]

theorem mapM_eq_map {g : α → β} (h : ∀ x ∈ xs, f x = .ok (g x)) : xs.mapM f = .ok (xs.map g) := by
  induction xs with
  | nil => rfl
  | cons x xs ih =>
    rw [mapM_cons, h x mem_cons_self, ok_bind, ih fun y hy => h y (mem_cons_of_mem x hy), ok_bind]
    rfl

theorem mapM_congr_mem (h : ∀ x ∈ xs, f x = g x) : xs.mapM f = xs.mapM g := by
  induction xs with
  | nil => rfl
  | cons x xs ih =>
    rw [mapM_cons, mapM_cons, h x mem_cons_self, ih fun y hy => h y (mem_cons_of_mem x hy)]

theorem mapM_zipIdx {f : α × Nat → Except ε β}
    (h : ∀ x ∈ xs, ∀ i, f (x, i) = g x) (n : Nat) : (xs.zipIdx n).mapM f = xs.mapM g := by
  induction xs generalizing n with
  | nil => rfl
  | cons x xs ih =>
    rw [zipIdx_cons, mapM_cons, mapM_cons, h x mem_cons_self n,
      ih fun y hy => h y (mem_cons_of_mem x hy)]

/-! ## Checks -/

/-- The early return of an error when a condition does not hold. -/
def ensure (p : Prop) [Decidable p] (e : ε) : Except ε Unit := if p then .ok () else .error e

@[simp]
theorem ensure_eq_ok [Decidable p] : ensure p e = .ok u ↔ p := by
  unfold ensure
  split <;> simp [*]

theorem ensure_of [Decidable p] (h : p) (e : ε) : ensure p e = .ok () := if_pos h

@[simp]
theorem unit_bind_eq_ok {x : Except ε Unit} {f : Unit → Except ε β} {b : β} :
    (x >>= f) = .ok b ↔ x = .ok () ∧ f () = .ok b :=
  bind_eq_ok.trans Unique.exists_iff

@[simp]
theorem ite_error_eq_ok [Decidable p] : (if p then .error e else x) = .ok a ↔ ¬ p ∧ x = .ok a := by
  split <;> simp [*]

@[simp]
theorem ite_else_error_eq_ok [Decidable p] :
    (if p then x else .error e) = .ok a ↔ p ∧ x = .ok a := by
  split <;> simp [*]

@[simp]
theorem dite_error_eq_ok [Decidable p] {y : p → Except ε α} :
    (if h : p then y h else .error e) = .ok a ↔ ∃ h, y h = .ok a := by
  split <;> simp [*]

@[simp]
theorem forM_eq_ok {check : α → Except ε Unit} :
    xs.forM check = .ok u ↔ ∀ x ∈ xs, check x = .ok () := by
  induction xs with
  | nil => exact ⟨fun _ => nofun, fun _ => rfl⟩
  | cons x xs ih =>
    rw [forall_mem_cons, ← ih]
    exact unit_bind_eq_ok

end Cascette.Lib
