import Cascette.Crypto.Jenkins
import Cascette.Lib.Records

/-!
# The Jenkins hash as a hash of blocks

The reference cuts the data into blocks of twelve bytes, fills the last one up with zeros and adds
every block as three words. The code adds the bytes of the last block one by one instead, as many as
there are.
-/

namespace Cascette.Crypto

open Lib List

def addBlock (w : Words) (block : Bytes) : Words :=
  ⟨w.a + wordAt block 0, w.b + wordAt block 4, w.c + wordAt block 8⟩

/-- Every block but the last one is mixed in full. Nothing is mixed if there is no block. -/
def referenceBlocks (w : Words) : List Bytes → Words
  | [] => w
  | [block] => finalMix (addBlock w (padTo 12 block))
  | block :: next :: blocks => referenceBlocks (mix (addBlock w block)) (next :: blocks)

def reference (key : Bytes) (pc pb : UInt32) : Words :=
  let a := 0xdeadbeef + lengthWord key + pc
  referenceBlocks ⟨a, a, a + pb⟩ (chunks 12 key)

theorem shiftLeft_eq {i : Nat} (h : i < 4) (byte : UInt8) :
    byte.toUInt32 <<< UInt32.ofNat (8 * i) = UInt32.ofNat (256 ^ i * byte.toNat) := by
  have hByte := byte.toNat_lt
  rw [← UInt32.toNat_inj, UInt32.toNat_shiftLeft, UInt8.toNat_toUInt32, Nat.shiftLeft_eq]
  interval_cases i <;> simp <;> omega

theorem foldr_shiftLeft (x : UInt32) {bytes : Bytes} {i : Nat} (h : i + bytes.length ≤ 4) :
    (bytes.zipIdx i).foldr (fun p x => x + (p.1.toUInt32 <<< UInt32.ofNat (8 * p.2))) x =
      x + UInt32.ofNat (256 ^ i * ofLe bytes) := by
  induction bytes generalizing i with
  | nil => simp [ofLe]
  | cons byte bytes ih =>
    rw [length_cons] at h
    rw [zipIdx_cons, foldr_cons, ih (by omega), shiftLeft_eq (by omega), UInt32.add_assoc,
      ← UInt32.ofNat_add, ofLe, Nat.mul_add, Nat.pow_succ, Nat.mul_assoc, Nat.add_comm]

theorem addBytes_eq (x : UInt32) (k : Bytes) (i : Nat) :
    addBytes x ((k.drop i).take 4) = x + wordAt k i := by
  rw [addBytes, foldr_shiftLeft x (by rw [length_take]; omega), Nat.pow_zero, Nat.one_mul, wordAt]

theorem ofLe_append_zeros (bytes : Bytes) (n : Nat) :
    ofLe (bytes ++ replicate n 0) = ofLe bytes := by
  induction bytes with
  | nil => exact ofLe_replicate_zero n
  | cons byte bytes ih => rw [cons_append, ofLe, ofLe, ih]

theorem wordAt_padTo (n : Nat) (k : Bytes) (i : Nat) : wordAt (padTo n k) i = wordAt k i := by
  rw [wordAt, wordAt, padTo, drop_append, take_append, drop_replicate, take_replicate,
    ofLe_append_zeros]

theorem addTail_eq (w : Words) (k : Bytes) : addTail w k = addBlock w (padTo 12 k) := by
  rw [addBlock, wordAt_padTo, wordAt_padTo, wordAt_padTo, addTail, addBytes_eq, addBytes_eq,
    ← addBytes_eq w.a k 0, drop_zero]

theorem wordAt_take {k : Bytes} {i : Nat} (h : i + 4 ≤ 12) : wordAt (k.take 12) i = wordAt k i := by
  rw [wordAt, wordAt, drop_take, take_take, Nat.min_eq_left (by omega)]

/-- The rounds leave the last block, and what is left to do with it is what the reference does. -/
theorem hashBlocks_spec {fuel : Nat} (w : Words) {k : Bytes} (hFuel : k.length ≤ fuel)
    (hNe : k ≠ []) :
    (hashBlocks fuel w k).2 ≠ [] ∧
      finalMix (addTail (hashBlocks fuel w k).1 (hashBlocks fuel w k).2) =
        referenceBlocks w (chunks 12 k) := by
  induction fuel generalizing w k with
  | zero => exact absurd (eq_nil_of_length_eq_zero (Nat.le_zero.mp hFuel)) hNe
  | succ fuel ih =>
    rw [hashBlocks]
    split_ifs with hLong
    · have hRest : k.drop 12 ≠ [] := ne_nil_of_length_pos (by rw [length_drop]; omega)
      rw [chunks_eq_cons (by decide) hNe, chunks_eq_cons (by decide) hRest, referenceBlocks,
        ← chunks_eq_cons (by decide) hRest, addBlock, wordAt_take (by decide),
        wordAt_take (by decide), wordAt_take (by decide)]
      exact ih _ (by rw [length_drop]; omega) hRest
    · rw [chunks_of_length_le (by omega) hNe, referenceBlocks, addTail_eq]
      exact ⟨hNe, rfl⟩

theorem hashlittle2_eq (key : Bytes) (pc pb : UInt32) :
    hashlittle2 key pc pb = ((reference key pc pb).c, (reference key pc pb).b) := by
  rw [hashlittle2, reference]
  by_cases hNe : key = []
  · rw [hNe, chunks_nil]
    rfl
  · obtain ⟨hLast, hSpec⟩ := hashBlocks_spec ⟨0xdeadbeef + lengthWord key + pc,
      0xdeadbeef + lengthWord key + pc, 0xdeadbeef + lengthWord key + pc + pb⟩ le_rfl hNe
    rw [← hSpec]
    simp [hNe, hLast]

theorem hashlittle_eq (key : Bytes) (initval : UInt32) :
    hashlittle key initval = (hashlittle2 key initval 0).1 := by
  rw [hashlittle, hashlittle2, UInt32.add_zero]
  split
  · rfl
  · dsimp only
    split <;> rfl

/-- The first result of `hashlittle2` without a second seed is `hashlittle`, and both are the
reference. -/
theorem hash_eq_reference (key : Bytes) (pc pb : UInt32) :
    hashlittle key pc = (hashlittle2 key pc 0).1 ∧ hashlittle key pc = (reference key pc 0).c ∧
      hashlittle2 key pc pb = ((reference key pc pb).c, (reference key pc pb).b) := by
  refine ⟨hashlittle_eq key pc, ?_, hashlittle2_eq key pc pb⟩
  rw [hashlittle_eq, hashlittle2_eq]

end Cascette.Crypto
