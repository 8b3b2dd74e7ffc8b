import Cascette.Crypto.Jenkins
import Cascette.Lib.Except
import Cascette.Lib.Keystream

/-!
# The Salsa20 cipher

`Salsa20Cipher` of `cascette-crypto`: keys of sixteen bytes, and an initialisation vector of four
or eight bytes whose first four are combined with the index of the block. The cipher keeps the
bytes of one block of the keystream and makes the next block when they are used up.
-/

namespace Cascette.Crypto

open Lib

inductive CryptoError
  | invalidIvSize (expected actual : Nat)
deriving DecidableEq

def CryptoError.display : CryptoError → String
  | .invalidIvSize expected actual =>
    "Invalid IV size: expected " ++ toString expected ++ ", got " ++ toString actual

/-- The sixteen words of the state. -/
abbrev Salsa20State := Vector UInt32 16

structure Salsa20Cipher where
  state : Salsa20State
  keystream : Key 64
  keystreamPos : Nat

namespace Salsa20Cipher

def quarterRound (state : Salsa20State) (a b c d : Fin 16) : Salsa20State :=
  let state := state.set b (state[b] ^^^ rotateLeft (state[a] + state[d]) 7)
  let state := state.set c (state[c] ^^^ rotateLeft (state[b] + state[a]) 9)
  let state := state.set d (state[d] ^^^ rotateLeft (state[c] + state[b]) 13)
  state.set a (state[a] ^^^ rotateLeft (state[d] + state[c]) 18)

def doubleRound (s : Salsa20State) : Salsa20State :=
  -- Column round
  let s := quarterRound s 0 4 8 12
  let s := quarterRound s 5 9 13 1
  let s := quarterRound s 10 14 2 6
  let s := quarterRound s 15 3 7 11
  -- Diagonal round
  let s := quarterRound s 0 1 2 3
  let s := quarterRound s 5 6 7 4
  let s := quarterRound s 10 11 8 9
  quarterRound s 15 12 13 14

/-- The words one after the other, each from its lowest byte on. -/
def wordBytes (words : Salsa20State) : Key 64 :=
  ⟨(words.toList.map fun word => leBytes 4 word.toNat).flatten, by
    rw [length_flatten_map fun _ _ => leBytes_length 4 _, Vector.length_toList]⟩

/-- Makes the next block of the keystream and counts it in the two words of the counter. -/
def generateKeystream (cipher : Salsa20Cipher) : Salsa20Cipher :=
  let working := Nat.repeat doubleRound 10 cipher.state
  let working := working.zipWith (· + ·) cipher.state
  let state := cipher.state.set 8 (cipher.state[8] + 1)
  { state := if state[8] = 0 then state.set 9 (state[9] + 1) else state
    keystream := wordBytes working
    keystreamPos := 0 }

/-- The vector filled up to eight bytes, the index of the block in its first four. -/
def extendedIv (iv : Bytes) (blockIndex : Nat) : Bytes :=
  let iv := padTo 8 iv
  List.zipWith (· ^^^ ·) (iv.take 4) (leBytes 4 (UInt32.ofNat blockIndex).toNat) ++ iv.drop 4

def new (key : Key 16) (iv : Bytes) (blockIndex : Nat) : Except CryptoError Salsa20Cipher :=
  if iv.length ≠ 4 ∧ iv.length ≠ 8 then
    .error (.invalidIvSize 4 iv.length)
  else
    let iv := extendedIv iv blockIndex
    let state : Salsa20State := #v[
      0x61707865, wordAt key.1 0, wordAt key.1 4, wordAt key.1 8,
      wordAt key.1 12, 0x3120646e, wordAt iv 0, wordAt iv 4,
      0, 0, 0x79622d36, wordAt key.1 0,
      wordAt key.1 4, wordAt key.1 8, wordAt key.1 12, 0x6b206574]
    .ok (generateKeystream { state, keystream := ⟨List.replicate 64 0, rfl⟩, keystreamPos := 64 })

def take (cipher : Salsa20Cipher) (h : cipher.keystreamPos < 64) : UInt8 × Salsa20Cipher :=
  (cipher.keystream.1.get ⟨cipher.keystreamPos, by rw [cipher.keystream.2]; exact h⟩,
    { cipher with keystreamPos := cipher.keystreamPos + 1 })

def next (cipher : Salsa20Cipher) : UInt8 × Salsa20Cipher :=
  if h : cipher.keystreamPos ≥ 64 then cipher.generateKeystream.take (Nat.succ_pos 63)
  else cipher.take (Nat.lt_of_not_le h)

end Salsa20Cipher

def decryptSalsa20 (data : Bytes) (key : Key 16) (iv : Bytes) (blockIndex : Nat) :
    Except CryptoError Bytes := do
  let cipher ← Salsa20Cipher.new key iv blockIndex
  .ok (applyKeystream Salsa20Cipher.next cipher data).1

def encryptSalsa20 (data : Bytes) (key : Key 16) (iv : Bytes) (blockIndex : Nat) :
    Except CryptoError Bytes :=
  decryptSalsa20 data key iv blockIndex

/-- Salsa20 is its own inverse. Of the index of the block only the low 32 bits are used. -/
theorem decryptSalsa20_encryptSalsa20 {data encrypted : Bytes} {key : Key 16} {iv : Bytes}
    {i j : Nat} (hIndex : UInt32.ofNat i = UInt32.ofNat j)
    (h : encryptSalsa20 data key iv i = .ok encrypted) :
    decryptSalsa20 encrypted key iv j = .ok data := by
  have hNew : Salsa20Cipher.new key iv i = Salsa20Cipher.new key iv j := by
    rw [Salsa20Cipher.new, Salsa20Cipher.new, Salsa20Cipher.extendedIv,
      Salsa20Cipher.extendedIv, hIndex]
  obtain ⟨cipher, hCipher, h⟩ := bind_eq_ok.mp h
  cases h
  rw [decryptSalsa20, ← hNew, hCipher, ok_bind, applyKeystream_twice]

end Cascette.Crypto
