import Cascette.Lib.Checked
import Cascette.Lib.Except

/-!
# Loops over windows of one width

Data is read in windows of one width from an offset on, up to a limit. `scanLoop` is the loop as it
is written: the offset moves by additions that can overflow, each window is a slice that can be out
of range, and a width of zero would not end. `scan` is what it computes (`scanLoop_eq`). -/

namespace Cascette.Lib

open List

variable {α τ : Type}

/-- `body` tells what a window gives and whether the loop goes on. -/
def scanLoop (width limit : Nat) (body : List α → Checked (List τ × Bool)) (data : List α) :
    Nat → Nat → List τ → Checked (List τ)
  | 0, _, _ => .error .outOfFuel
  | fuel + 1, offset, found => do
    let stop ← checkedAdd 64 offset width
    if stop ≤ limit then
      let window ← slice data offset stop
      let (new, more) ← body window
      if more then
        let offset ← checkedAdd 64 offset width
        scanLoop width limit body data fuel offset (found ++ new)
      else .ok (found ++ new)
    else .ok found

def scan (width : Nat) (body : List α → List τ × Bool) : Nat → List α → List τ
  | 0, _ => []
  | fuel + 1, data =>
    if width ≤ data.length then
      (body (data.take width)).1 ++
        if (body (data.take width)).2 then scan width body fuel (data.drop width) else []
    else []

variable {width limit : Nat} {body : List α → Checked (List τ × Bool)}
  {pure : List α → List τ × Bool} {data : List α}

/-- The loop ends within the limit and neither panics nor overflows, if no window does. -/
theorem scanLoop_eq (hWidth : 0 < width) (hLimit : limit ≤ data.length)
    (hSize : limit + width < 2 ^ 64)
    (hBody : ∀ window, window.length = width → body window = .ok (pure window))
    {fuel offset n : Nat} (hFuel : limit < offset + fuel) (hOffset : offset ≤ limit)
    (hn : limit - offset < (n + 1) * width) (found : List τ) :
    scanLoop width limit body data fuel offset found =
      .ok (found ++ scan width pure n ((data.take limit).drop offset)) := by
  set window := (data.take limit).drop offset
  induction fuel generalizing offset n found with
  | zero => omega
  | succ fuel ih =>
    have hLength : window.length = limit - offset := by
      rw [length_drop, length_take, Nat.min_eq_left hLimit]
    rw [scanLoop, checkedAdd_eq (by omega), ok_bind]
    by_cases hStop : offset + width ≤ limit
    · obtain ⟨n, rfl⟩ : ∃ m, n = m + 1 := by
        cases n with
        | zero => omega
        | succ m => exact ⟨m, rfl⟩
      have hWindow : (data.take (offset + width)).drop offset = window.take width := by
        rw [take_drop, take_take, Nat.min_eq_left hStop]
      have hWindowLength : ((data.take (offset + width)).drop offset).length = width := by
        rw [hWindow, length_take, hLength]
        omega
      have hRest : window.drop width = (data.take limit).drop (offset + width) := drop_drop
      rw [if_pos hStop, slice_eq (Nat.le_add_right _ _) (hStop.trans hLimit), ok_bind,
        hBody _ hWindowLength, ok_bind, scan, if_pos (by omega), ← hWindow, hRest]
      generalize pure ((data.take (offset + width)).drop offset) = step
      obtain ⟨new, more⟩ := step
      cases more with
      | false =>
        dsimp only
        rw [if_neg Bool.false_ne_true, if_neg Bool.false_ne_true, append_nil]
      | true =>
        dsimp only
        rw [if_pos rfl, if_pos rfl, ok_bind, ← append_assoc]
        refine ih (by omega) hStop ?_ _
        rw [Nat.add_mul, Nat.one_mul] at hn
        omega
    · rw [if_neg hStop]
      have hNone : scan width pure n window = [] := by
        cases n with
        | zero => rfl
        | succ n => rw [scan, if_neg (by omega)]
      rw [hNone, append_nil]

end Cascette.Lib
