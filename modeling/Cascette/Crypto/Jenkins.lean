import Cascette.Lib.Bytes

/-!
# The Jenkins hash

`hashlittle` and `hashlittle2` of `cascette-crypto`. Both keep three 32-bit words, consume
twelve bytes a round while more than twelve are left, add the bytes of the last block one by one
and finish with `finalMix`; `hashlittle2` starts the third word from a second seed and returns
two of the words.
-/

namespace Cascette.Crypto

open Lib

/-- The three words of the hash state. -/
structure Words where
  a : UInt32
  b : UInt32
  c : UInt32
deriving DecidableEq

def rotateLeft (x : UInt32) (k : UInt32) : UInt32 := (x <<< k) ||| (x >>> (32 - k))

def mix (w : Words) : Words :=
  let a := (w.a - w.c) ^^^ rotateLeft w.c 4
  let c := w.c + w.b
  let b := (w.b - a) ^^^ rotateLeft a 6
  let a := a + c
  let c := (c - b) ^^^ rotateLeft b 8
  let b := b + a
  let a := (a - c) ^^^ rotateLeft c 16
  let c := c + b
  let b := (b - a) ^^^ rotateLeft a 19
  let a := a + c
  let c := (c - b) ^^^ rotateLeft b 4
  let b := b + a
  ⟨a, b, c⟩

def finalMix (w : Words) : Words :=
  let c := (w.c ^^^ w.b) - rotateLeft w.b 14
  let a := (w.a ^^^ c) - rotateLeft c 11
  let b := (w.b ^^^ a) - rotateLeft a 25
  let c := (c ^^^ b) - rotateLeft b 16
  let a := (a ^^^ c) - rotateLeft c 4
  let b := (b ^^^ a) - rotateLeft a 14
  let c := (c ^^^ b) - rotateLeft b 24
  ⟨a, b, c⟩

def wordAt (k : Bytes) (i : Nat) : UInt32 := UInt32.ofNat (ofLe ((k.drop i).take 4))

/-- The rounds over full blocks: what is left has at most twelve bytes. -/
def hashBlocks : Nat → Words → Bytes → Words × Bytes
  | 0, w, k => (w, k)
  | fuel + 1, w, k =>
    if 12 < k.length then
      hashBlocks fuel (mix ⟨w.a + wordAt k 0, w.b + wordAt k 4, w.c + wordAt k 8⟩) (k.drop 12)
    else (w, k)

/-- The bytes of one word of the last block, highest first, as many as there are. -/
def addBytes (x : UInt32) (bytes : Bytes) : UInt32 :=
  bytes.zipIdx.foldr (fun p x => x + (p.1.toUInt32 <<< UInt32.ofNat (8 * p.2))) x

def addTail (w : Words) (k : Bytes) : Words :=
  ⟨addBytes w.a (k.take 4), addBytes w.b ((k.drop 4).take 4), addBytes w.c ((k.drop 8).take 4)⟩

/-- `u32::try_from(len).unwrap_or(u32::MAX)`. -/
def lengthWord (k : Bytes) : UInt32 :=
  if k.length < 2 ^ 32 then UInt32.ofNat k.length else 0xffffffff

def hashlittle (data : Bytes) (initval : UInt32) : UInt32 :=
  let a := 0xdeadbeef + lengthWord data + initval
  if data.isEmpty then a
  else
    let (w, k) := hashBlocks data.length ⟨a, a, a⟩ data
    if k.isEmpty then w.c else (finalMix (addTail w k)).c

/-- The two seeds `pc` and `pb` are replaced by the two results. -/
def hashlittle2 (key : Bytes) (pc pb : UInt32) : UInt32 × UInt32 :=
  let a := 0xdeadbeef + lengthWord key + pc
  let c := a + pb
  if key.isEmpty then (c, a)
  else
    let (w, k) := hashBlocks key.length ⟨a, a, c⟩ key
    if k.isEmpty then (w.c, w.b)
    else
      let w := finalMix (addTail w k)
      (w.c, w.b)

/-- The hash of `Jenkins96`: the two results in one number. -/
def jenkins96 (data : Bytes) : UInt64 :=
  let (pc, pb) := hashlittle2 data 0 0
  (pc.toUInt64 <<< 32) ||| pb.toUInt64

theorem or_high_ne_zero (hash : UInt32) : hash ||| 0x80000000 ≠ 0 := by
  intro h
  have hBit := congrArg (fun x => x.toNat.testBit 31) h
  simp only [UInt32.toNat_or, Nat.testBit_or] at hBit
  rw [show (0x80000000 : UInt32).toNat.testBit 31 = true from rfl,
    show (0 : UInt32).toNat.testBit 31 = false from rfl, Bool.or_true] at hBit
  cases hBit

end Cascette.Crypto
