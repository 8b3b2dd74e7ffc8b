import Cascette.Encoding.Format

/-!
# Page entries of the encoding file

A content key entry is a count, a 40-bit file size, the content key and that many encoding keys; a
count of zero is padding. An encoding key entry is the key, the index of its specification and a
40-bit file size; the largest index, or a zero key with index zero, is padding. Entries written
with full keys are read back, and zeros are always read as padding.
-/

namespace Cascette.Encoding

open Lib List

structure IndexEntry where
  firstKey : Key 16
  checksum : Key 16
deriving DecidableEq

def IndexEntry.verify (md5 : Bytes → Key 16) (index : IndexEntry) (pageData : Bytes) : Bool :=
  md5 pageData = index.checksum

def indexEntryCodec : Codec EncodingError IndexEntry :=
  ((Codec.key .io 16).pair (Codec.key .io 16)).map
    { toFun := fun v => ⟨v.1, v.2⟩
      invFun := fun e => (e.firstKey, e.checksum)
      left_inv := fun _ => rfl
      right_inv := fun _ => rfl }

/-! ## Keys and file sizes -/

/-- A stored key, padded with zeros to 16 bytes. -/
def padKey (bytes : Bytes) : Key 16 :=
  ⟨(padTo 16 bytes).take 16, by
    have := le_padTo_length 16 bytes
    rw [List.length_take]
    omega⟩

def readKey (size : Nat) (bytes : Bytes) : Except BinError (Key 16 × Bytes) := do
  let (key, rest) ← (Codec.key .io size).read bytes
  .ok (padKey key.1, rest)

def readKeys (size count : Nat) (bytes : Bytes) : Except BinError (List (Key 16) × Bytes) := do
  let (keys, rest) ← (Codec.key .io size).readMany count bytes
  .ok (keys.map fun key => padKey key.1, rest)

/-- The high byte and the low word of a file size. -/
def fileSizeCodec : Codec BinError (UInt8 × UInt32) := (Codec.uint8 .io).pair (Codec.uint32Be .io)

def readFileSize (bytes : Bytes) : Except BinError (Nat × Bytes) := do
  let ((high, low), rest) ← fileSizeCodec.read bytes
  .ok (high.toNat * 2 ^ 32 + low.toNat, rest)

def writeFileSize (fileSize : Nat) : Bytes :=
  fileSizeCodec.write (UInt8.ofNat (fileSize / 2 ^ 32), UInt32.ofNat fileSize)

theorem padKey_of_key (key : Key 16) : padKey key.1 = key := by
  apply Subtype.ext
  have hLength := key.2
  simp [padKey, padTo, hLength]

theorem readKey_append (key : Key 16) (rest : Bytes) :
    readKey 16 (key.1 ++ rest) = .ok (key, rest) := by
  simp [readKey, padKey_of_key]

theorem readKeys_append (keys : List (Key 16)) (rest : Bytes) :
    readKeys 16 keys.length ((keys.map fun key => key.1).flatten ++ rest) = .ok (keys, rest) := by
  have hRead := (Codec.key BinError.io 16).readMany_writeMany keys rest
  simp_all [readKeys, Codec.writeMany, padKey_of_key]

theorem readFileSize_append {fileSize : Nat} (h : fileSize < 2 ^ 40) (rest : Bytes) :
    readFileSize (writeFileSize fileSize ++ rest) = .ok (fileSize, rest) := by
  have hHigh : (UInt8.ofNat (fileSize / 2 ^ 32)).toNat = fileSize / 2 ^ 32 :=
    UInt8.toNat_ofNat_of_lt' (show fileSize / 2 ^ 32 < 2 ^ 8 by omega)
  have hLow : (UInt32.ofNat fileSize).toNat = fileSize % 2 ^ 32 := UInt32.toNat_ofNat
  rw [readFileSize, writeFileSize, Codec.read_write, ok_bind]
  dsimp only
  rw [hHigh, hLow, Nat.div_add_mod']

@[simp]
theorem writeFileSize_length (fileSize : Nat) : (writeFileSize fileSize).length = 5 := by
  simp [writeFileSize, fileSizeCodec, Codec.pair]

/-! ## Content key entries -/

structure CKeyPageEntry where
  keyCount : UInt8
  fileSize : Nat
  contentKey : Key 16
  encodingKeys : List (Key 16)
deriving DecidableEq

namespace CKeyPageEntry

def read (ckeyHashSize ekeyHashSize : UInt8) (bytes : Bytes) :
    Except BinError (CKeyPageEntry × Bytes) := do
  let (keyCount, rest) ← (Codec.uint8 .io).read bytes
  if keyCount = 0 then .error (.custom "Padding detected")
  else
    let (fileSize, rest) ← readFileSize rest
    let (contentKey, rest) ← readKey ckeyHashSize.toNat rest
    let (encodingKeys, rest) ← readKeys ekeyHashSize.toNat keyCount.toNat rest
    .ok ({ keyCount, fileSize, contentKey, encodingKeys }, rest)

def write (ckeyHashSize ekeyHashSize : UInt8) (entry : CKeyPageEntry) : Bytes :=
  (Codec.uint8 BinError.io).write entry.keyCount ++ writeFileSize entry.fileSize ++
    entry.contentKey.1.take ckeyHashSize.toNat ++
    (entry.encodingKeys.map fun key => key.1.take ekeyHashSize.toNat).flatten

/-- The entry is read back from a page: its count is right and its size fits. -/
structure Storable (entry : CKeyPageEntry) : Prop where
  keyCount : entry.keyCount.toNat = entry.encodingKeys.length
  encodingKeys : entry.encodingKeys ≠ []
  fileSize : entry.fileSize < 2 ^ 40

theorem write_full (entry : CKeyPageEntry) :
    entry.write 16 16 = (Codec.uint8 BinError.io).write entry.keyCount ++
      (writeFileSize entry.fileSize ++ (entry.contentKey.1 ++
        (entry.encodingKeys.map fun key => key.1).flatten)) := by
  have hKey (key : Key 16) : key.1.take (16 : UInt8).toNat = key.1 := take_of_length_le key.2.le
  simp only [write, hKey, append_assoc]

theorem write_length (entry : CKeyPageEntry) :
    (entry.write 16 16).length = 22 + 16 * entry.encodingKeys.length := by
  have hKeys : (entry.encodingKeys.map fun key => key.1).flatten.length =
      entry.encodingKeys.length * 16 := length_flatten_map fun key _ => key.2
  simp only [write_full, length_append, Codec.uint8_write, length_singleton, hKeys,
    writeFileSize_length, length_key]
  omega

theorem read_write {entry : CKeyPageEntry} (h : entry.Storable) (rest : Bytes) :
    read 16 16 (entry.write 16 16 ++ rest) = .ok (entry, rest) := by
  have hCount : entry.keyCount ≠ 0 := by
    intro hZero
    have hLength := h.keyCount
    rw [hZero] at hLength
    exact h.encodingKeys (length_eq_zero_iff.mp hLength.symm)
  have hSize : (16 : UInt8).toNat = 16 := rfl
  rw [write_full]
  simp only [read, append_assoc, Codec.read_write, ok_bind, hCount, if_false, hSize,
    readFileSize_append h.fileSize, readKey_append, h.keyCount, readKeys_append]

theorem read_zero {ckeyHashSize ekeyHashSize : UInt8} (n : Nat) :
    ∃ e, read ckeyHashSize ekeyHashSize (replicate n 0) = .error e := by
  cases n with
  | zero => exact ⟨.io, rfl⟩
  | succ n => exact ⟨.custom "Padding detected", by simp [read, replicate_succ, Codec.uint8_read]⟩

end CKeyPageEntry

/-! ## Encoding key entries -/

structure EKeyPageEntry where
  encodingKey : Key 16
  especIndex : UInt32
  fileSize : Nat
deriving DecidableEq

namespace EKeyPageEntry

/-- The two patterns that end a page. -/
def isPadding (keyBytes : Bytes) (especIndex : UInt32) : Bool :=
  especIndex = 0xffffffff || (especIndex = 0 && keyBytes.all (· = 0))

def read (ekeyHashSize : UInt8) (bytes : Bytes) : Except BinError (EKeyPageEntry × Bytes) := do
  let (encodingKey, rest) ← readKey ekeyHashSize.toNat bytes
  let (especIndex, rest) ← (Codec.uint32Be .io).read rest
  if isPadding encodingKey.1 especIndex then .error (.custom "Padding detected")
  else
    let (fileSize, rest) ← readFileSize rest
    .ok ({ encodingKey, especIndex, fileSize }, rest)

def write (ekeyHashSize : UInt8) (entry : EKeyPageEntry) : Bytes :=
  entry.encodingKey.1.take ekeyHashSize.toNat ++
    (Codec.uint32Be BinError.io).write entry.especIndex ++ writeFileSize entry.fileSize

/-- The entry is read back from a page: it is not padding and its size fits. -/
structure Storable (entry : EKeyPageEntry) : Prop where
  notPadding : isPadding entry.encodingKey.1 entry.especIndex = false
  fileSize : entry.fileSize < 2 ^ 40

theorem write_full (entry : EKeyPageEntry) :
    entry.write 16 = entry.encodingKey.1 ++
      ((Codec.uint32Be BinError.io).write entry.especIndex ++ writeFileSize entry.fileSize) := by
  have hKey : entry.encodingKey.1.take (16 : UInt8).toNat = entry.encodingKey.1 :=
    take_of_length_le entry.encodingKey.2.le
  rw [write, hKey, append_assoc]

theorem write_length (entry : EKeyPageEntry) : (entry.write 16).length = 25 := by
  simp [write_full]

theorem read_write {entry : EKeyPageEntry} (h : entry.Storable) (rest : Bytes) :
    read 16 (entry.write 16 ++ rest) = .ok (entry, rest) := by
  have hSize : (16 : UInt8).toNat = 16 := rfl
  rw [write_full]
  simp only [read, append_assoc, hSize, readKey_append, ok_bind, Codec.read_write,
    h.notPadding, Bool.false_eq_true, if_false, readFileSize_append h.fileSize]

end EKeyPageEntry

theorem padKey_zero (n : Nat) : (padKey (replicate n 0)).1 = replicate 16 0 := by
  simp only [padKey, padTo, length_replicate, ← replicate_add, take_replicate]
  congr 1
  omega

theorem EKeyPageEntry.read_zero {ekeyHashSize : UInt8} (n : Nat) :
    ∃ e, read ekeyHashSize (replicate n 0) = .error e := by
  cases hRead : read ekeyHashSize (replicate n 0) with
  | error e => exact ⟨e, rfl⟩
  | ok res =>
    -- the key and the index would be zero
    obtain ⟨entry, rest⟩ := res
    simp [read, readKey, -Subtype.exists] at hRead
    obtain ⟨key, index, tail, hZero, hNot, -⟩ := hRead
    obtain ⟨-, hKey, hRest⟩ := append_eq_replicate_iff.mp hZero.symm
    obtain ⟨-, hIndex, -⟩ := append_eq_replicate_iff.mp hRest
    rw [beBytes_length, beBytes_eq_zeros_iff index.toNat_lt, ← UInt32.toNat_zero,
      UInt32.toNat_inj] at hIndex
    rw [hKey, hIndex] at hNot
    simp [isPadding, padKey_zero] at hNot

end Cascette.Encoding
