import Mathlib.Tactic

/-!
# Checked arithmetic and indexing

Code that panics on an index out of range or on an unsigned underflow is written in
`Except Panic`, and a loop takes fuel and reports when it runs out. `Returns x post` says that
`x` ends in a value that satisfies `post`: no panic, and enough fuel. Its rules follow the shape
of the program.
-/

namespace Cascette.Lib

open List

inductive Panic
  | indexOutOfRange
  | underflow
  | overflow
  | divisionByZero
  | expectFailed
  | outOfFuel
deriving DecidableEq

abbrev Checked (α : Type) := Except Panic α

/-- How code that returns a result can stop: with an error it returns, or with a panic. -/
inductive Halt (ε : Type)
  | error (e : ε)
  | panic (p : Panic)
deriving DecidableEq

variable {α β ε : Type}

/-- `xs[i]` -/
def getAt (xs : List α) (i : Nat) : Checked α :=
  match xs[i]? with
  | some x => .ok x
  | none => .error .indexOutOfRange

/-- `&xs[start..]` -/
def sliceFrom (xs : List α) (start : Nat) : Checked (List α) :=
  if start ≤ xs.length then .ok (xs.drop start) else .error .indexOutOfRange

/-- `&xs[start..stop]` -/
def slice (xs : List α) (start stop : Nat) : Checked (List α) :=
  if start ≤ stop ∧ stop ≤ xs.length then .ok ((xs.take stop).drop start)
  else .error .indexOutOfRange

/-- `a - b` on unsigned integers. -/
def checkedSub (a b : Nat) : Checked Nat := if b ≤ a then .ok (a - b) else .error .underflow

/-- `a + b` on unsigned integers of `w` bits. -/
def checkedAdd (w a b : Nat) : Checked Nat :=
  if a + b < 2 ^ w then .ok (a + b) else .error .overflow

/-- `a / b` on unsigned integers. -/
def checkedDiv (a b : Nat) : Checked Nat := if b = 0 then .error .divisionByZero else .ok (a / b)

/-- The computation ends in a value that satisfies `post`. -/
def Returns (x : Except ε α) (post : α → Prop) : Prop := ∃ a, x = .ok a ∧ post a

variable {post : α → Prop} {x : Except ε α} {xs : List α} {start a b stop i : Nat}
  {f : α → Except (Halt ε) β}

theorem returns_ok {a : α} (h : post a) : Returns (.ok a : Except ε α) post := ⟨a, rfl, h⟩

theorem Returns.bind {f : α → Except ε β} {mid : α → Prop} {post : β → Prop} (hx : Returns x mid)
    (hf : ∀ a, mid a → Returns (f a) post) : Returns (x >>= f) post := by
  obtain ⟨a, rfl, ha⟩ := hx
  exact hf a ha

theorem Returns.imp {post' : α → Prop} (hx : Returns x post) (h : ∀ a, post a → post' a) :
    Returns x post' := by
  obtain ⟨a, hEq, ha⟩ := hx
  exact ⟨a, hEq, h a ha⟩

theorem returns_ite {c : Prop} [Decidable c] {y : Except ε α} (hx : c → Returns x post)
    (hy : ¬ c → Returns y post) : Returns (if c then x else y) post := by
  split_ifs with h
  · exact hx h
  · exact hy h

theorem getAt_eq (h : i < xs.length) : getAt xs i = .ok xs[i] := by
  simp [getAt, h]

theorem returns_getAt (h : i < xs.length) : Returns (getAt xs i) fun x => xs[i]? = some x :=
  ⟨xs[i], getAt_eq h, getElem?_eq_getElem h⟩

theorem sliceFrom_eq (h : start ≤ xs.length) : sliceFrom xs start = .ok (xs.drop start) := if_pos h

theorem slice_eq (hLe : start ≤ stop) (h : stop ≤ xs.length) :
    slice xs start stop = .ok ((xs.take stop).drop start) :=
  if_pos ⟨hLe, h⟩

theorem slice_append {ys zs : List α} (hStart : xs.length = start)
    (hStop : start + ys.length = stop) : slice (xs ++ (ys ++ zs)) start stop = .ok ys := by
  subst hStart hStop
  rw [slice_eq (Nat.le_add_right _ _) (by simp only [length_append]; omega),
    ← append_assoc, ← length_append, take_left, drop_left]

theorem checkedSub_eq (h : b ≤ a) : checkedSub a b = .ok (a - b) := if_pos h

theorem checkedAdd_eq {w : Nat} (h : a + b < 2 ^ w) : checkedAdd w a b = .ok (a + b) := if_pos h

theorem checkedSub_eq_ok {c : Nat} : checkedSub a b = .ok c ↔ b ≤ a ∧ a - b = c := by
  rw [checkedSub]
  split <;> simp_all

theorem checkedDiv_eq (h : 0 < b) : checkedDiv a b = .ok (a / b) := if_neg (by omega)

/-! ## Panics -/

/-- The computation stops in a panic. -/
def Panics (x : Except (Halt ε) α) : Prop := ∃ p, x = .error (.panic p)

@[simp]
theorem not_panics_ok (a : α) : ¬ Panics (.ok a : Except (Halt ε) α) := nofun

@[simp]
theorem not_panics_error (e : ε) : ¬ Panics (.error (.error e) : Except (Halt ε) α) := nofun

@[simp]
theorem panics_panic (p : Panic) : Panics (.error (.panic p) : Except (Halt ε) α) := ⟨p, rfl⟩

theorem panics_bind {x : Except (Halt ε) α} :
    Panics (x >>= f) ↔ Panics x ∨ ∃ a, x = .ok a ∧ Panics (f a) := by
  cases x <;> simp [bind, Except.bind, Panics]

@[simp]
theorem not_panics_mapError (x : Except ε α) : ¬ Panics (x.mapError Halt.error) := by
  cases x <;> simp [Except.mapError]

theorem not_panics_mapM (h : ∀ a ∈ xs, ¬ Panics (f a)) : ¬ Panics (xs.mapM f) := by
  induction xs with
  | nil => exact not_panics_ok _
  | cons a xs ih =>
    rw [mapM_cons, panics_bind, or_iff_right (h a mem_cons_self)]
    rintro ⟨b, -, hTail⟩
    rw [panics_bind, or_iff_right (ih fun c hc => h c (mem_cons_of_mem a hc))] at hTail
    obtain ⟨bs, -, hDone⟩ := hTail
    exact not_panics_ok _ hDone

end Cascette.Lib
