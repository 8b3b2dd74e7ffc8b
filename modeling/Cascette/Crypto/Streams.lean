import Cascette.Crypto.Arc4
import Cascette.Crypto.Salsa20

/-!
# The two ciphers on data in pieces

Both ciphers keep their place in the keystream, so it does not matter where the data is cut
(`applyPieces_eq`). The array of ARC4 only ever has entries exchanged.
-/

namespace Cascette.Crypto

open Lib

namespace Arc4Cipher

/-- The entries are the 256 bytes, each of them once. -/
def IsPermutation (s : Vector UInt8 256) : Prop := s.Perm (Vector.ofFn fun i => UInt8.ofNat i.val)

theorem isPermutation_swap {s : Vector UInt8 256} (h : IsPermutation s) {i j : Nat} (hI : i < 256)
    (hJ : j < 256) : IsPermutation (s.swap i j hI hJ) :=
  (Vector.swap_perm hI hJ).trans h

theorem isPermutation_schedule (key : Bytes) (hKey : 0 < key.length) (rounds : List (Fin 256))
    {st : Vector UInt8 256 × UInt8} (h : IsPermutation st.1) :
    IsPermutation (rounds.foldl (schedule key hKey) st).1 := by
  induction rounds generalizing st with
  | nil => exact h
  | cons i rounds ih => exact ih (isPermutation_swap h i.isLt (UInt8.toNat_lt _))

theorem isPermutation_new {key : Bytes} {cipher : Arc4Cipher} (h : new key = .ok cipher) :
    IsPermutation cipher.s := by
  unfold new at h
  split at h
  · cases h
  · rw [← Except.ok.inj h, Fin.foldl_eq_finRange_foldl]
    exact isPermutation_schedule _ _ _ (.refl _)

theorem isPermutation_next (cipher : Arc4Cipher) (h : IsPermutation cipher.s) :
    IsPermutation cipher.nextKeystreamByte.2.s :=
  isPermutation_swap h (UInt8.toNat_lt _) (UInt8.toNat_lt _)

end Arc4Cipher

/-- Data cut into pieces is encrypted as in one piece, by either cipher, and encrypting it twice
from the start restores it. The array of ARC4 is a permutation in every round of the key schedule
and behind every byte. -/
theorem ciphers_on_pieces (pieces : List Bytes) :
    (∀ key iv blockIndex cipher, Salsa20Cipher.new key iv blockIndex = .ok cipher →
      let apply := applyKeystream Salsa20Cipher.next cipher
      applyPieces Salsa20Cipher.next cipher pieces = apply pieces.flatten ∧
        (apply (apply pieces.flatten).1).1 = pieces.flatten) ∧
    (∀ key cipher, Arc4Cipher.new key = .ok cipher →
      applyPieces Arc4Cipher.nextKeystreamByte cipher pieces = cipher.encrypt pieces.flatten ∧
        (cipher.decrypt (cipher.encrypt pieces.flatten).1).1 = pieces.flatten ∧
        Arc4Cipher.IsPermutation (cipher.encrypt pieces.flatten).2.s) ∧
    ∀ key hKey rounds, Arc4Cipher.IsPermutation
      (List.foldl (Arc4Cipher.schedule key hKey) (.ofFn fun i => .ofNat i.val, 0) rounds).1 := by
  refine ⟨?_, ?_, ?_⟩
  · intro key iv blockIndex cipher _
    exact ⟨applyPieces_eq _ _ _, applyKeystream_twice _ _ _⟩
  · intro key cipher hNew
    refine ⟨applyPieces_eq _ _ _, cipher.decrypt_encrypt _, ?_⟩
    exact applyKeystream_keeps Arc4Cipher.isPermutation_next (Arc4Cipher.isPermutation_new hNew) _
  · intro key hKey rounds
    exact Arc4Cipher.isPermutation_schedule key hKey rounds (.refl _)

theorem ciphers_on_pieces_sample :
    (∃ cipher, Salsa20Cipher.new (.fill 16 1) [1, 2, 3, 4] 0 = .ok cipher ∧
      applyPieces Salsa20Cipher.next cipher [[5], [6]] =
        applyKeystream Salsa20Cipher.next cipher [5, 6]) ∧
    ∃ cipher, Arc4Cipher.new [1, 2] = .ok cipher ∧
      applyPieces Arc4Cipher.nextKeystreamByte cipher [[5], [6]] = cipher.encrypt [5, 6] :=
  ⟨⟨_, rfl, ((ciphers_on_pieces [[5], [6]]).1 (.fill 16 1) [1, 2, 3, 4] 0 _ rfl).1⟩,
    _, rfl, ((ciphers_on_pieces [[5], [6]]).2.1 [1, 2] _ rfl).1⟩

end Cascette.Crypto
