import Cascette.Lib.Bytes

/-!
# Stream ciphers

A cipher is a state and a step that yields the next byte of the keystream. Its use on data is the
exclusive or with the keystream. The state afterwards depends on the length of the data only, so
the use is its own inverse (`applyKeystream_twice`), and data in pieces is treated as data in one
(`applyPieces_eq`).
-/

namespace Cascette.Lib

variable {σ : Type} (next : σ → UInt8 × σ) (s : σ) (data : Bytes)

/-- The data under the keystream, and the state behind it. -/
def applyKeystream : σ → Bytes → Bytes × σ
  | s, [] => ([], s)
  | s, byte :: rest =>
    let (k, s) := next s
    let (out, s) := applyKeystream s rest
    ((byte ^^^ k) :: out, s)

@[simp]
theorem length_applyKeystream : (applyKeystream next s data).1.length = data.length := by
  induction data generalizing s with
  | nil => rfl
  | cons byte rest ih => rw [applyKeystream, List.length_cons, List.length_cons, ih]

theorem applyKeystream_twice : (applyKeystream next s (applyKeystream next s data).1).1 = data := by
  induction data generalizing s with
  | nil => rfl
  | cons byte rest ih =>
    have hByte (k : UInt8) : byte ^^^ k ^^^ k = byte := by
      rw [UInt8.xor_assoc, UInt8.xor_self, UInt8.xor_zero]
    rw [applyKeystream]
    rw [applyKeystream]
    dsimp only
    rw [ih, hByte]

/-- The pieces one after the other, each from the state behind the last one. -/
def applyPieces : σ → List Bytes → Bytes × σ
  | s, [] => ([], s)
  | s, piece :: pieces =>
    let (out, s) := applyKeystream next s piece
    let (outs, s) := applyPieces s pieces
    (out ++ outs, s)

theorem applyKeystream_append (rest : Bytes) :
    applyKeystream next s (data ++ rest) =
      let (out, s) := applyKeystream next s data
      let (outs, s) := applyKeystream next s rest
      (out ++ outs, s) := by
  induction data generalizing s with
  | nil => rfl
  | cons byte data ih =>
    rw [List.cons_append, applyKeystream, applyKeystream]
    dsimp only
    rw [ih, List.cons_append]

theorem applyPieces_eq (pieces : List Bytes) :
    applyPieces next s pieces = applyKeystream next s pieces.flatten := by
  induction pieces generalizing s with
  | nil => rfl
  | cons piece pieces ih =>
    rw [applyPieces, List.flatten_cons, applyKeystream_append]
    dsimp only
    rw [ih]

variable {next} in
theorem applyKeystream_keeps {P : σ → Prop} (h : ∀ s, P s → P (next s).2) {s : σ} (hStart : P s)
    (data : Bytes) : P (applyKeystream next s data).2 := by
  induction data generalizing s with
  | nil => exact hStart
  | cons byte data ih => exact ih (h s hStart)

end Cascette.Lib
