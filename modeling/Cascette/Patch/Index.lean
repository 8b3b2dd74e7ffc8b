import Cascette.Lib.Format

/-!
# Patch indices

A patch index is a header with block descriptors and the blocks. Blocks of type 2 and 8 hold
version 1 entries, blocks of type 6 version 2 entries and blocks of type 10 version 3 entries. Every
block has a key size of its own; the parsed index keeps one list for each version and the key size
of the block that was read last.
-/

namespace Cascette.Patch

open Lib

inductive PatchIndexError where
  | dataTooShort (actual minimum : Nat)
  | truncatedHeader (headerSize : UInt32) (actual : Nat)
  | truncatedData (expected actual : Nat)
  | unsupportedVersion (version : UInt32)
  | dataSizeMismatch (declared : UInt32) (actual : Nat)
  | invalidBlockVersion (blockType : UInt32) (expected actual : UInt8)
  | entryOverflow (blockType : UInt32) (needed available : Nat)
  deriving DecidableEq

/-! ## Header -/

structure BlockDescriptor where
  blockType : UInt32
  blockSize : UInt32
  deriving DecidableEq

structure PatchIndexHeader where
  headerSize : UInt32
  version : UInt32
  dataSize : UInt32
  keySize : UInt8
  keyData : Key 16
  extraData : Bytes
  blocks : List BlockDescriptor
  deriving DecidableEq

namespace PatchIndexHeader

def minHeaderSize : Nat := 14

/-- The extra header with what follows it: a key size, a key of which at most 16 bytes are kept, and
the bytes that are left of the declared length. -/
def parseExtra (eof : PatchIndexError) (extraHeaderLen : UInt16) (bytes : Bytes) :
    Except PatchIndexError ((UInt8 × Key 16 × Bytes) × Bytes) :=
  if extraHeaderLen = 0 then .ok ((0, .fill 16 0, []), bytes)
  else do
    let (keySize, rest) ← (Codec.uint8 eof).read bytes
    let keyBytes := min keySize.toNat 16
    ensure (keyBytes ≤ rest.length) eof
    let keyData := resizeKey 16 (rest.take keyBytes)
    let rest := rest.drop keySize.toNat
    let consumed := keySize.toNat + 1
    if consumed < extraHeaderLen.toNat then do
      let (extraData, rest) ← (Format.bytes eof (extraHeaderLen.toNat - consumed)).read rest
      .ok ((keySize, keyData, extraData), rest)
    else .ok ((keySize, keyData, []), rest)

def readDescriptor (eof : PatchIndexError) (bytes : Bytes) :
    Except PatchIndexError (BlockDescriptor × Bytes) := do
  let (blockType, rest) ← (Codec.uint32Le eof).read bytes
  let (blockSize, rest) ← (Codec.uint32Le eof).read rest
  .ok ({ blockType, blockSize }, rest)

def totalBlockSize (blocks : List BlockDescriptor) : Nat :=
  (blocks.map fun desc => desc.blockSize.toNat).sum

def parse (data : Bytes) : Except PatchIndexError PatchIndexHeader := do
  let eof := PatchIndexError.dataTooShort data.length minHeaderSize
  ensure (minHeaderSize ≤ data.length) eof
  let (headerSize, rest) ← (Codec.uint32Le eof).read data
  let (version, rest) ← (Codec.uint32Le eof).read rest
  let (dataSize, rest) ← (Codec.uint32Le eof).read rest
  let (extraHeaderLen, rest) ← (Codec.uint16Le eof).read rest
  ensure (version = 1) (.unsupportedVersion version)
  let truncated := PatchIndexError.truncatedHeader headerSize data.length
  ensure (headerSize.toNat ≤ data.length) truncated
  let ((keySize, keyData, extraData), rest) ← parseExtra truncated extraHeaderLen rest
  let (blockCount, rest) ← (Codec.uint32Le truncated).read rest
  let (blocks, _) ← readMany (readDescriptor truncated) blockCount.toNat rest
  let expected := headerSize.toNat + totalBlockSize blocks
  ensure (expected ≤ data.length) (.truncatedData expected data.length)
  .ok { headerSize, version, dataSize, keySize, keyData, extraData, blocks }

/-- The length of the extra header is a 16-bit number. -/
def extraLen (header : PatchIndexHeader) : Checked Nat :=
  if 0 < header.keySize ∨ header.extraData ≠ [] then
    let length := 1 + header.keySize.toNat + header.extraData.length % 2 ^ 16
    if length < 2 ^ 16 then .ok length else .error .overflow
  else .ok 1

def writeDescriptor (desc : BlockDescriptor) : Bytes :=
  leBytes 4 desc.blockType.toNat ++ leBytes 4 desc.blockSize.toNat

def build (header : PatchIndexHeader) : Checked Bytes := do
  let extraLen ← header.extraLen
  let key ← slice header.keyData.1 0 header.keySize.toNat
  .ok (leBytes 4 header.headerSize.toNat ++ leBytes 4 header.version.toNat ++
    leBytes 4 header.dataSize.toNat ++ leBytes 2 extraLen ++ header.keySize ::
      (key ++ header.extraData ++ leBytes 4 header.blocks.length ++
        header.blocks.flatMap writeDescriptor))

end PatchIndexHeader

/-! ## Entries -/

/-- A key of `keySize` bytes is copied into the front of sixteen zeros. -/
def copyKey (keySize : UInt8) (bytes : Bytes) : Checked (Key 16 × Bytes) := do
  ensure (keySize.toNat ≤ 16) .indexOutOfRange
  let (front, rest) ← (Format.bytes .indexOutOfRange keySize.toNat).read bytes
  .ok (resizeKey 16 front, rest)

def readU32 (bytes : Bytes) : Checked (UInt32 × Bytes) :=
  (Codec.uint32Le .indexOutOfRange).read bytes

@[ext]
structure PatchIndexEntry where
  sourceEkey : Key 16
  sourceSize : UInt32
  targetEkey : Key 16
  targetSize : UInt32
  encodedSize : UInt32
  suffixOffset : UInt8
  patchEkey : Key 16
  deriving DecidableEq

def entrySize (keySize : UInt8) : Nat := 3 * keySize.toNat + 13

namespace PatchIndexEntry

def parse (keySize : UInt8) (data : Bytes) : Checked PatchIndexEntry := do
  let (sourceEkey, rest) ← copyKey keySize data
  let (sourceSize, rest) ← readU32 rest
  let (targetEkey, rest) ← copyKey keySize rest
  let (targetSize, rest) ← readU32 rest
  let (encodedSize, rest) ← readU32 rest
  let (suffixOffset, rest) ← (Codec.uint8 .indexOutOfRange).read rest
  let (patchEkey, _) ← copyKey keySize rest
  .ok { sourceEkey, sourceSize, targetEkey, targetSize, encodedSize, suffixOffset, patchEkey }

def build (keySize : UInt8) (entry : PatchIndexEntry) : Checked Bytes := do
  let source ← slice entry.sourceEkey.1 0 keySize.toNat
  let target ← slice entry.targetEkey.1 0 keySize.toNat
  let patch ← slice entry.patchEkey.1 0 keySize.toNat
  .ok (source ++ (leBytes 4 entry.sourceSize.toNat ++ (target ++
    (leBytes 4 entry.targetSize.toNat ++ (leBytes 4 entry.encodedSize.toNat ++
      (entry.suffixOffset :: patch))))))

end PatchIndexEntry

structure PatchIndexEntryV2 where
  targetEkey : Key 16
  especOffset : UInt32
  decodedSize : UInt32
  patchEkey : Key 16
  patchEncodedSize : UInt32
  patchDecodedSize : UInt32
  originalEkeyOffset : UInt32
  originalEkey : Key 16
  originalSize : UInt32
  deriving DecidableEq

def entryV2Size (keySize : UInt8) : Nat := 3 * keySize.toNat + 24

def PatchIndexEntryV2.parse (keySize : UInt8) (data : Bytes) : Checked PatchIndexEntryV2 := do
  let (targetEkey, rest) ← copyKey keySize data
  let (especOffset, rest) ← readU32 rest
  let (decodedSize, rest) ← readU32 rest
  let (patchEkey, rest) ← copyKey keySize rest
  let (patchEncodedSize, rest) ← readU32 rest
  let (patchDecodedSize, rest) ← readU32 rest
  let (originalEkeyOffset, rest) ← readU32 rest
  let (originalEkey, rest) ← copyKey keySize rest
  let (originalSize, _) ← readU32 rest
  .ok { targetEkey, especOffset, decodedSize, patchEkey, patchEncodedSize, patchDecodedSize,
        originalEkeyOffset, originalEkey, originalSize }

structure PatchIndexEntryV3 where
  base : PatchIndexEntryV2
  flags : UInt8
  deriving DecidableEq

namespace PatchIndexEntryV3

def hasOriginalEkeyOffset (flags : UInt8) : Bool := flags &&& 0x01 != 0

def hasOriginalEkey (flags : UInt8) : Bool := flags &&& 0x02 != 0

def hasDecodedSize (flags : UInt8) : Bool := flags &&& 0x04 != 0

def size (keySize flags : UInt8) : Nat :=
  keySize.toNat + 4 + keySize.toNat + 4 + 4 + (if hasDecodedSize flags then 4 else 0) +
    (if hasOriginalEkeyOffset flags then 4 else 0) +
      (if hasOriginalEkey flags then keySize.toNat + 4 else 0)

/-- A field that is there when its flag is set, and zero otherwise. -/
def readU32If (present : Bool) (bytes : Bytes) : Checked (UInt32 × Bytes) :=
  if present then readU32 bytes else .ok (0, bytes)

def parse (flags keySize : UInt8) (data : Bytes) : Checked PatchIndexEntryV3 := do
  let (targetEkey, rest) ← copyKey keySize data
  let (especOffset, rest) ← readU32 rest
  let (decodedSize, rest) ← readU32If (hasDecodedSize flags) rest
  let (patchEkey, rest) ← copyKey keySize rest
  let (patchEncodedSize, rest) ← readU32 rest
  let (patchDecodedSize, rest) ← readU32 rest
  let (originalEkeyOffset, rest) ← readU32If (hasOriginalEkeyOffset flags) rest
  let (originalEkey, rest) ←
    if hasOriginalEkey flags then copyKey keySize rest else .ok (.fill 16 0, rest)
  let (originalSize, _) ← readU32If (hasOriginalEkey flags) rest
  .ok { base := { targetEkey, especOffset, decodedSize, patchEkey, patchEncodedSize,
                  patchDecodedSize, originalEkeyOffset, originalEkey, originalSize }
        flags }

end PatchIndexEntryV3

/-! ## Blocks -/

abbrev IndexParse := Except (Halt PatchIndexError)

/-- The entries from a position on. Every entry checks its size once more. -/
def parseEntriesFrom {α : Type} (blockType : UInt32) (esize available : Nat)
    (parse : Bytes → Checked α) : Nat → Nat → Bytes → IndexParse (List α)
  | 0, _, _ => .ok []
  | count + 1, pos, rest => do
    ensure (esize ≤ rest.length) (.error (.entryOverflow blockType (pos + esize) available))
    let entry ← (parse rest).mapError .panic
    let entries ← parseEntriesFrom blockType esize available parse count (pos + esize)
      (rest.drop esize)
    .ok (entry :: entries)

def parseEntryList {α : Type} (blockType : UInt32) (esize : Nat) (parse : Bytes → Checked α)
    (data : Bytes) (entryCount : UInt32) (pos : Nat) : IndexParse (List α) := do
  let needed := pos + entryCount.toNat * esize
  ensure (needed ≤ data.length) (.error (.entryOverflow blockType needed data.length))
  parseEntriesFrom blockType esize data.length parse entryCount.toNat pos (data.drop pos)

/-- The fields of a block header are read after its length was checked. -/
def blockEof : Halt PatchIndexError := .panic .indexOutOfRange

def parseBlock2 (data : Bytes) : IndexParse (UInt8 × List PatchIndexEntry) := do
  ensure (5 ≤ data.length) (.error (.entryOverflow 2 5 data.length))
  let (entryCount, rest) ← (Codec.uint32Le blockEof).read data
  let (keySize, _) ← (Codec.uint8 blockEof).read rest
  let entries ← parseEntryList 2 (entrySize keySize) (PatchIndexEntry.parse keySize) data
    entryCount 5
  .ok (keySize, entries)

def parseBlock8 (data : Bytes) : IndexParse (UInt8 × List PatchIndexEntry) := do
  ensure (14 ≤ data.length) (.error (.entryOverflow 8 14 data.length))
  let (version, rest) ← (Codec.uint8 blockEof).read data
  ensure (version = 3) (.error (.invalidBlockVersion 8 3 version))
  let (keySize, rest) ← (Codec.uint8 blockEof).read rest
  let (dataOffset, rest) ← (Codec.uint16Le blockEof).read rest
  let (entryCount, _) ← (Codec.uint32Le blockEof).read rest
  let entries ← parseEntryList 8 (entrySize keySize) (PatchIndexEntry.parse keySize) data
    entryCount dataOffset.toNat
  .ok (keySize, entries)

def parseEspecTable (blockType : UInt32) (data : Bytes) (pos : Nat) (especLen : UInt32) :
    IndexParse (Option Text × Nat) :=
  if 0 < especLen then do
    let stop := pos + especLen.toNat
    ensure (stop ≤ data.length) (.error (.entryOverflow blockType stop data.length))
    .ok (some (Text.lossy ((data.drop pos).take especLen.toNat)), stop)
  else .ok (none, pos)

/-- The common front of the blocks of type 6 and 10: key size, entry count and the length of the
specification table. -/
def readBlockHeader (blockType : UInt32) (headerLen : Nat) (data : Bytes) :
    IndexParse ((UInt8 × UInt32 × UInt32) × Bytes) := do
  ensure (headerLen ≤ data.length) (.error (.entryOverflow blockType headerLen data.length))
  let (identifier, rest) ← (Codec.uint8 blockEof).read data
  ensure (identifier = 2) (.error (.invalidBlockVersion blockType 2 identifier))
  let (keySize, rest) ← (Codec.uint8 blockEof).read rest
  let (entryCount, rest) ← (Codec.uint32Le blockEof).read rest
  let (_, rest) ← (Codec.uint32Le blockEof).read rest
  let (especLen, rest) ← (Codec.uint32Le blockEof).read rest
  .ok ((keySize, entryCount, especLen), rest)

def parseBlock6 (data : Bytes) : IndexParse (UInt8 × List PatchIndexEntryV2 × Option Text) := do
  let ((keySize, entryCount, especLen), _) ← readBlockHeader 6 14 data
  let (especTable, pos) ← parseEspecTable 6 data 14 especLen
  let entries ← parseEntryList 6 (entryV2Size keySize) (PatchIndexEntryV2.parse keySize) data
    entryCount pos
  .ok (keySize, entries, especTable)

def parseBlock10 (data : Bytes) : IndexParse (UInt8 × List PatchIndexEntryV3 × Option Text) := do
  let ((keySize, entryCount, especLen), rest) ← readBlockHeader 10 15 data
  let (flags, _) ← (Codec.uint8 blockEof).read rest
  let (especTable, pos) ← parseEspecTable 10 data 15 especLen
  let entries ← parseEntryList 10 (PatchIndexEntryV3.size keySize flags)
    (PatchIndexEntryV3.parse flags keySize) data entryCount pos
  .ok (keySize, entries, especTable)

/-! ## Index -/

structure PatchIndex where
  header : PatchIndexHeader
  keySize : UInt8
  entries : List PatchIndexEntry
  entriesV2 : List PatchIndexEntryV2
  entriesV3 : List PatchIndexEntryV3
  especTable : Option Text
  deriving DecidableEq

namespace PatchIndex

/-- One block; `found` says whether a block of type 2 came before. A block of type 8 is then left
out, and so is a block of an unknown type. -/
def parseBlock (index : PatchIndex) (found : Bool) (blockType : UInt32) (data : Bytes) :
    IndexParse (PatchIndex × Bool) :=
  if blockType = 2 then do
    let (keySize, entries) ← parseBlock2 data
    .ok ({ index with keySize, entries }, true)
  else if blockType = 6 then do
    let (keySize, entriesV2, espec) ← parseBlock6 data
    .ok ({ index with keySize, entriesV2, especTable := espec.or index.especTable }, found)
  else if blockType = 8 ∧ found = false then do
    let (keySize, entries) ← parseBlock8 data
    .ok ({ index with keySize, entries }, found)
  else if blockType = 10 then do
    let (keySize, entriesV3, espec) ← parseBlock10 data
    .ok ({ index with keySize, entriesV3, especTable := espec.or index.especTable }, found)
  else .ok (index, found)

/-- The blocks follow one another from an offset on. -/
def parseBlocks (data : Bytes) :
    Nat → List BlockDescriptor → PatchIndex → Bool → IndexParse PatchIndex
  | _, [], index, _ => .ok index
  | offset, desc :: descs, index, found => do
    let blockData ← (slice data offset (offset + desc.blockSize.toNat)).mapError .panic
    let (index, found) ← parseBlock index found desc.blockType blockData
    parseBlocks data (offset + desc.blockSize.toNat) descs index found

/-- The index before the first block. -/
def start (header : PatchIndexHeader) : PatchIndex := ⟨header, 16, [], [], [], none⟩

def parse (data : Bytes) : IndexParse PatchIndex := do
  let header ← (PatchIndexHeader.parse data).mapError .error
  ensure (header.dataSize.toNat = data.length)
    (.error (.dataSizeMismatch header.dataSize data.length))
  parseBlocks data header.headerSize.toNat header.blocks (start header) false

end PatchIndex

end Cascette.Patch
