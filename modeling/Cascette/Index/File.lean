import Cascette.Index.Update
import Cascette.Lib.Utf8

/-!
# Index files

The bytes `save_index` writes for a bucket and what `load_index` makes of them: two guarded
blocks (a header and the sorted entries), then, on a 4 KB boundary, the update section if it has
entries, then zeros up to a multiple of 64 KB. The guard hashes are written but not checked on
load. The older format (`load_v5_index`) has a flat header and two entry blocks, and there the
hashes are checked.
-/

namespace Cascette.Index

open Lib Crypto

/-- How a call ends without a value: an error it returns, or a panic. -/
inductive Fault
  | error (e : StorageError)
  | panic (message : String)
deriving DecidableEq

def indexError {α : Type} (message : String) : Except Fault α := .error (.error (.index message))

/-- What the standard library reports when a reader ends early. -/
def unexpectedEof : String := "failed to fill whole buffer"

def readOr (context : String) (n : Nat) (bytes : Bytes) : Except Fault (Bytes × Bytes) :=
  match readExact n bytes with
  | some parts => .ok parts
  | none => indexError (context ++ ": " ++ unexpectedEof)

inductive IndexVersion
  | v5
  | v7
deriving DecidableEq

structure IndexHeader where
  dataSize : UInt32
  dataHash : UInt32
  version : UInt16
  bucket : UInt8
  unused : UInt8
  lengthSize : UInt8
  locationSize : UInt8
  keySize : UInt8
  segmentBits : UInt8
deriving DecidableEq

structure IndexFile where
  version : IndexVersion
  header : IndexHeader
  entries : List IndexEntry
  updateSection : UpdateSection

/-- The three field widths are added as `u8`; an overflow panics. -/
def IndexHeader.entrySize (header : IndexHeader) : Except Fault Nat :=
  let size := header.keySize.toNat + header.locationSize.toNat + header.lengthSize.toNat
  if size < 256 then .ok size else .error (.panic "attempt to add with overflow")

/-! ## Writing -/

/-- One segment of `2 ^ segment_bits` bytes for each of 256 archives, as a `u64`. -/
def IndexHeader.segmentSize (header : IndexHeader) : Except Fault Nat :=
  if 64 ≤ header.segmentBits.toNat then .error (.panic "attempt to shift left with overflow")
  else if 56 ≤ header.segmentBits.toNat then .error (.panic "attempt to multiply with overflow")
  else .ok (2 ^ header.segmentBits.toNat * 256)

/-- The little-endian `IndexHeaderV2`. -/
def headerV2Bytes (id : UInt8) (header : IndexHeader) (segmentSize : Nat) : Bytes :=
  leBytes 2 7 ++ ([id, 0, header.lengthSize, header.locationSize, header.keySize,
    header.segmentBits] ++ leBytes 8 segmentSize)

def guardedBlockHeader (size : Nat) (hash : UInt32) : Bytes :=
  leBytes 4 size ++ leBytes 4 hash.toNat

def entryData (entries : List IndexEntry) : Bytes := entries.flatMap IndexEntry.toPacked

/-- The hash of the entry block, carried from entry to entry. -/
def entryHash (entrySize : Nat) (data : Bytes) : UInt32 :=
  ((chunks entrySize data).foldl (fun seeds chunk => hashlittle2 chunk seeds.1 seeds.2) (0, 0)).1

/-- The part up to the end of the sorted section. -/
def sortedBytes (headerBytes : Bytes) (hash : UInt32) (entries : Bytes) : Bytes :=
  guardedBlockHeader headerBytes.length (hashlittle headerBytes 0) ++ (headerBytes ++
    (List.replicate 8 0 ++ (guardedBlockHeader entries.length hash ++ entries)))

/-- `write_index_to_file`. -/
def indexFileBytes (sorted : Bytes) (update : Option Bytes) : Bytes :=
  let body := match update with
    | some bytes => padTo (alignUp updatePageSize sorted.length) sorted ++ bytes
    | none => sorted
  padTo (alignUp 0x10000 body.length) body

/-- The outcome of one attempt to write the temporary file and rename it. -/
inductive Attempt
  | written
  | writeFailed (e : String)
  | renameFailed (e : String)
deriving DecidableEq

/-- What the file system answers to the three attempts of one `save_index` call. -/
structure Disk where
  first : Attempt
  second : Attempt
  third : Attempt
deriving DecidableEq

def Attempt.message : Attempt → String
  | written => ""
  | writeFailed e => "Failed to write temp file: " ++ e
  | renameFailed e => "Failed to rename temp file: " ++ e

def hexString (w v : Nat) : String := String.ofList ((hexBytes w v).map fun b => Char.ofNat b.toNat)

/-- The content the file has after a successful save. -/
def saveIndex (disk : Disk) (id : UInt8) (index : IndexFile) : Except Fault Bytes := do
  let entrySize ← index.header.entrySize
  let segmentSize ← index.header.segmentSize
  let headerBytes := headerV2Bytes id index.header segmentSize
  let entries := entryData index.entries
  if 2 ^ 32 ≤ entries.length then
    indexError "Entry data too large: out of range integral type conversion attempted"
  else
    let update := if 0 < index.updateSection.entryCount then
      some index.updateSection.toBytes else none
    let content := indexFileBytes
      (sortedBytes headerBytes (entryHash entrySize entries) entries) update
    if disk.first = .written ∨ disk.second = .written ∨ disk.third = .written then .ok content
    else indexError ("Failed to save index " ++ hexString 2 id.toNat ++ " after 3 attempts: " ++
      disk.third.message)

/-! ## Reading -/

def readIndexHeader (data : Bytes) : Except Fault (IndexHeader × Nat × Bytes) := do
  let (block, rest) ← readOr "Failed to read header block" 8 data
  let (bytes, rest) ← readOr "Failed to read header" 16 rest
  let header : IndexHeader := {
    dataSize := UInt32.ofNat (ofLe (block.take 4))
    dataHash := UInt32.ofNat (ofLe (block.drop 4))
    version := UInt16.ofNat (ofLe (bytes.take 2))
    bucket := (bytes.drop 2).headD 0
    unused := (bytes.drop 3).headD 0
    lengthSize := (bytes.drop 4).headD 0
    locationSize := (bytes.drop 5).headD 0
    keySize := (bytes.drop 6).headD 0
    segmentBits := (bytes.drop 7).headD 0 }
  if header.keySize ≠ 9 ∧ header.keySize ≠ 16 then
    indexError ("Invalid key size: " ++ toString header.keySize.toNat)
  else
    let entrySize ← header.entrySize
    .ok (header, entrySize, rest)

def readEntryBlock (data : Bytes) : Except Fault Bytes := do
  let (_, rest) ← readOr "Failed to read header hash" 8 data
  let (block, rest) ← readOr "Failed to read entry block header" 8 rest
  let (entries, _) ← readOr "Failed to read entry data" (ofLe (block.take 4)) rest
  .ok entries

/-- The entry in one slot of the entry block; empty and malformed slots are skipped. -/
def parseSlot (bytes : Bytes) : Option IndexEntry :=
  if (bytes.take 9).any (· ≠ 0) then (fromPacked bytes).toOption else none

def parseEntries (entrySize : Nat) : Nat → Bytes → List IndexEntry
  | 0, _ => []
  | fuel + 1, data =>
    if entrySize ≤ data.length then
      (parseSlot (data.take entrySize)).toList ++ parseEntries entrySize fuel (data.drop entrySize)
    else []

def sortEntries (entries : List IndexEntry) : List IndexEntry :=
  entries.insertionSort fun a b => a.key ≤ b.key

def loadIndexFile (data : Bytes) : Except Fault IndexFile := do
  let (header, entrySize, rest) ← readIndexHeader data
  let block ← readEntryBlock rest
  let sortedEnd := 8 + 16 + 8 + 8 + block.length
  let updateStart := alignUp updatePageSize sortedEnd
  .ok {
    version := .v7
    header
    entries := sortEntries (parseEntries entrySize block.length block)
    updateSection :=
      if updateStart < data.length then UpdateSection.fromBytes (data.drop updateStart)
      else UpdateSection.new }

/-! ## The older format -/

def v5HeaderSize : Nat := 48

def v5EntrySize : Nat := 18

structure IndexHeaderV5 where
  bucketIndex : UInt8
  encodedSizeLength : UInt8
  storageOffsetLength : UInt8
  ekeyLength : UInt8
  fileOffsetBits : UInt8
  ekeyCount1 : UInt32
  ekeyCount2 : UInt32
  keysHash1 : UInt32
  keysHash2 : UInt32
deriving DecidableEq

def byteAt (bytes : Bytes) (i : Nat) : UInt8 := (bytes.drop i).headD 0

def u32At (bytes : Bytes) (i : Nat) : UInt32 := UInt32.ofNat (ofLe ((bytes.drop i).take 4))

def hexWord (x : UInt32) : String := "0x" ++ hexString 8 x.toNat

def readV5IndexHeader (data : Bytes) : Except Fault IndexHeaderV5 :=
  let bytes := data.take v5HeaderSize
  let version := ofLe (bytes.take 2)
  let computed := hashlittle (bytes.take 0x2c ++ List.replicate 4 0) 0
  if data.length < v5HeaderSize then
    indexError ("V5 header too small: " ++ toString data.length ++ " bytes (need 48)")
  else if version ≠ 5 then
    indexError ("V5 header version mismatch: expected 5, got " ++ toString version)
  else if ofLe ((bytes.drop 8).take 8) = 0 then
    indexError "V5 header field_8 must be non-zero"
  else if byteAt bytes 0x18 ≠ 4 then
    indexError ("V5 encoded_size_length must be 4, got " ++ toString (byteAt bytes 0x18).toNat)
  else if byteAt bytes 0x19 ≠ 5 then
    indexError ("V5 storage_offset_length must be 5, got " ++ toString (byteAt bytes 0x19).toNat)
  else if byteAt bytes 0x1a ≠ 9 then
    indexError ("V5 ekey_length must be 9, got " ++ toString (byteAt bytes 0x1a).toNat)
  else if computed ≠ u32At bytes 0x2c then
    indexError ("V5 header hash mismatch: expected " ++ hexWord (u32At bytes 0x2c) ++
      ", computed " ++ hexWord computed)
  else .ok {
    bucketIndex := byteAt bytes 2
    encodedSizeLength := byteAt bytes 0x18
    storageOffsetLength := byteAt bytes 0x19
    ekeyLength := byteAt bytes 0x1a
    fileOffsetBits := byteAt bytes 0x1b
    ekeyCount1 := u32At bytes 0x1c
    ekeyCount2 := u32At bytes 0x20
    keysHash1 := u32At bytes 0x24
    keysHash2 := u32At bytes 0x28 }

/-- The slots of one block; a slot with a zero key is skipped. -/
def parseV5Block : Nat → Bytes → List IndexEntry
  | 0, _ => []
  | fuel + 1, data =>
    if h : 18 ≤ data.length then
      let rest := parseV5Block fuel (data.drop v5EntrySize)
      if (data.take 9).any (· ≠ 0) then readEntry data h :: rest else rest
    else []

def loadV5Entries (data : Bytes) (header : IndexHeaderV5) : Except Fault (List IndexEntry) :=
  let size1 := header.ekeyCount1.toNat * v5EntrySize
  let size2 := header.ekeyCount2.toNat * v5EntrySize
  let total := v5HeaderSize + size1 + size2
  let block1 := (data.drop v5HeaderSize).take size1
  let block2 := (data.drop (v5HeaderSize + size1)).take size2
  let hash1 := hashlittle block1 0
  let hash2 := hashlittle block2 0
  if data.length < total then
    indexError ("V5 data too small: " ++ toString data.length ++ " bytes (need " ++
      toString total ++ " for " ++ toString header.ekeyCount1.toNat ++ " + " ++
      toString header.ekeyCount2.toNat ++ " entries)")
  else if hash1 ≠ header.keysHash1 then
    indexError ("V5 block 1 hash mismatch: expected " ++ hexWord header.keysHash1 ++
      ", computed " ++ hexWord hash1)
  else if hash2 ≠ header.keysHash2 then
    indexError ("V5 block 2 hash mismatch: expected " ++ hexWord header.keysHash2 ++
      ", computed " ++ hexWord hash2)
  else if 2 ^ 32 ≤ header.ekeyCount1.toNat + header.ekeyCount2.toNat then
    .error (.panic "attempt to add with overflow")
  else .ok (parseV5Block block1.length block1 ++ parseV5Block block2.length block2)

def loadV5IndexFile (data : Bytes) : Except Fault IndexFile := do
  let header ← readV5IndexHeader data
  let entries ← loadV5Entries data header
  .ok {
    version := .v5
    header := {
      dataSize := 0
      dataHash := 0
      version := 5
      bucket := header.bucketIndex
      unused := 0
      lengthSize := header.encodedSizeLength
      locationSize := header.storageOffsetLength
      keySize := header.ekeyLength
      segmentBits := header.fileOffsetBits }
    entries := sortEntries entries
    updateSection := UpdateSection.new }

/-! ## File names -/

/-- Slicing a string inside a character panics. -/
def sliceStr (name : Bytes) (start stop : Nat) : Except Fault Bytes :=
  if isContinuation (name.getD start 0) ∨ isContinuation (name.getD stop 0) then .error (.panic
    "byte index is not a char boundary")
  else .ok ((name.take stop).drop start)

def asciiLower (b : UInt8) : UInt8 := if 65 ≤ b.toNat ∧ b.toNat ≤ 90 then b + 32 else b

/-- The bytes of `.idx`. -/
def idxSuffix : Bytes := [46, 105, 100, 120]

def generateIndexFilename (bucket : UInt8) (version : Nat) : Bytes :=
  hexBytes 2 bucket.toNat ++ (hexBytes 8 version ++ idxSuffix)

def parseIndexFilename (name : Bytes) : Except Fault (Option (UInt8 × UInt32)) :=
  if name.length ≠ 14 ∨ (name.drop 10).map asciiLower ≠ idxSuffix then .ok none
  else do
    match fromStrRadix16 (← sliceStr name 0 2) with
    | none => .ok none
    | some bucket =>
      match fromStrRadix16 (← sliceStr name 2 10) with
      | none => .ok none
      | some version => .ok (some (UInt8.ofNat bucket, UInt32.ofNat version))

/-- The bytes of `data.i`. -/
def v5NameStart : Bytes := [100, 97, 116, 97, 46, 105]

def parseV5IndexFilename (filename : Bytes) : Except Fault (Option (UInt8 × UInt8)) :=
  if filename.take 6 ≠ v5NameStart then .ok none
  else
    let name := filename.drop 6
    if name.length ≠ 2 then .ok none
    else do
      match fromStrRadix16 (← sliceStr name 0 1) with
      | none => .ok none
      | some bucket =>
        match fromStrRadix16 (← sliceStr name 1 2) with
        | none => .ok none
        | some version =>
          if 0x0f < bucket then .ok none
          else .ok (some (UInt8.ofNat bucket, UInt8.ofNat version))

end Cascette.Index
