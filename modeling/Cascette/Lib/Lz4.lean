import Cascette.Lib.Bytes

/-!
# LZ4 blocks

A block is a list of sequences. Each begins with a token that holds two lengths of four bits, which
further bytes extend; literals follow, and a match. The last sequence has only literals. What a
match copies is not needed here, only how long it is.
-/

namespace Cascette.Lib.Lz4

open List

/-- The bytes that extend a length of fifteen or more. -/
def extension (n : Nat) : Bytes :=
  if n < 15 then [] else List.replicate ((n - 15) / 255) 255 ++ [UInt8.ofNat ((n - 15) % 255)]

/-- A token of two lengths, of which it holds at most fifteen. -/
def token (high low : Nat) : UInt8 := UInt8.ofNat (min high 15 * 16 + min low 15)

theorem token_high (high low : Nat) : (token high low >>> 4).toNat = min high 15 := by
  rw [token, UInt8.toNat_shiftRight, UInt8.toNat_ofNat']
  have hFour : (4 : UInt8).toNat % 8 = 4 := rfl
  rw [hFour, Nat.shiftRight_eq_div_pow]
  omega

theorem token_low (high low : Nat) : (token high low &&& 15).toNat = min low 15 := by
  have hFifteen : (15 : UInt8).toNat = 2 ^ 4 - 1 := rfl
  rw [token, UInt8.toNat_and, hFifteen, Nat.and_two_pow_sub_one_eq_mod, UInt8.toNat_ofNat']
  omega

/-- Literals and the match behind them; the length of a match is at least four. -/
structure Sequence where
  literals : Bytes
  offset : Key 2
  extraLength : Nat

def Sequence.encode (s : Sequence) : Bytes :=
  token s.literals.length s.extraLength :: (extension s.literals.length ++ s.literals ++
    s.offset.1 ++ extension s.extraLength)

/-- The number of bytes that a sequence decodes to. -/
def Sequence.outputLength (s : Sequence) : Nat := s.literals.length + (s.extraLength + 4)

structure Block where
  sequences : List Sequence
  /-- The literals of the last sequence. -/
  literals : Bytes
  /-- The low half of the last token, which has no meaning. -/
  low : Nat

namespace Block

def encodeLast (b : Block) : Bytes :=
  token b.literals.length b.low :: (extension b.literals.length ++ b.literals)

def encode (b : Block) : Bytes := (b.sequences.map Sequence.encode).flatten ++ b.encodeLast

def outputLength (b : Block) : Nat :=
  (b.sequences.map Sequence.outputLength).sum + b.literals.length

theorem length_sequences_le (b : Block) : b.sequences.length ≤ b.encode.length := by
  have hSequences (xs : List Sequence) : xs.length ≤ (xs.map Sequence.encode).flatten.length := by
    induction xs with
    | nil => exact Nat.le_refl _
    | cons s xs ih =>
      rw [map_cons, flatten_cons, length_append, Sequence.encode]
      simp only [length_cons]
      omega
  rw [encode, length_append]
  exact le_trans (hSequences _) (Nat.le_add_right _ _)

/-- A block of literals only. -/
def ofLiterals (literals : Bytes) : Block := { sequences := [], literals, low := 0 }

end Block

end Cascette.Lib.Lz4
