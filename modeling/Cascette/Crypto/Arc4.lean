import Cascette.Lib.Except
import Cascette.Lib.Keystream

/-!
# The ARC4 cipher

`Arc4Cipher` of `cascette-crypto`: an array of 256 bytes, shuffled by the key, from which each step
takes one byte after exchanging two entries.
-/

namespace Cascette.Crypto

open Lib

inductive Arc4Error
  | invalidKeyLength (length : Nat)
deriving DecidableEq

def Arc4Error.display : Arc4Error → String
  | .invalidKeyLength length =>
    "Invalid key length: " ++ toString length ++ " (must be 1-256 bytes)"

structure Arc4Cipher where
  s : Vector UInt8 256
  i : UInt8
  j : UInt8

namespace Arc4Cipher

def schedule (key : Bytes) (hKey : 0 < key.length) (st : Vector UInt8 256 × UInt8) (i : Fin 256) :
    Vector UInt8 256 × UInt8 :=
  let j := st.2 + st.1[i] + key.get ⟨i.val % key.length, Nat.mod_lt _ hKey⟩
  (st.1.swap i.val j.toNat i.isLt j.toNat_lt, j)

def new (key : Bytes) : Except Arc4Error Arc4Cipher :=
  if h : key = [] ∨ key.length > 256 then .error (.invalidKeyLength key.length)
  else
    let hKey := List.length_pos_iff.mpr (not_or.mp h).1
    let identity : Vector UInt8 256 := Vector.ofFn fun i => UInt8.ofNat i.val
    .ok { s := (Fin.foldl 256 (schedule key hKey) (identity, 0)).1, i := 0, j := 0 }

def nextKeystreamByte (cipher : Arc4Cipher) : UInt8 × Arc4Cipher :=
  let i := cipher.i + 1
  let j := cipher.j + cipher.s.get ⟨i.toNat, i.toNat_lt⟩
  let s := cipher.s.swap i.toNat j.toNat i.toNat_lt j.toNat_lt
  let k := s.get ⟨i.toNat, i.toNat_lt⟩ + s.get ⟨j.toNat, j.toNat_lt⟩
  (s.get ⟨k.toNat, k.toNat_lt⟩, { s, i, j })

def encrypt (cipher : Arc4Cipher) (data : Bytes) : Bytes × Arc4Cipher :=
  applyKeystream nextKeystreamByte cipher data

def decrypt (cipher : Arc4Cipher) (data : Bytes) : Bytes × Arc4Cipher := cipher.encrypt data

theorem decrypt_encrypt (cipher : Arc4Cipher) (data : Bytes) :
    (cipher.decrypt (cipher.encrypt data).1).1 = data :=
  applyKeystream_twice _ cipher data

end Arc4Cipher

end Cascette.Crypto
