import Cascette.Lib.Format

/-!
# Blocks of a patch archive

A patch archive lists, for every target file, the patches that produce it. The entries of a block
follow one another and a zero byte ends the block; it stands where the patch count of a next entry
would stand. Counts are written in one byte and decoded sizes in five, so an entry comes back if it
has at least one and at most 255 patches and its sizes are below `2 ^ 40` (`Writable`), and every
entry that is read is of this kind (`writable_of_parseEntries`).
-/

namespace Cascette.Patch

open Lib List Codec

inductive PatchArchiveError where
  | invalidMagic (magic : Bytes)
  | unsupportedVersion (version : UInt8)
  | invalidKeySize (file old patch : UInt8)
  | invalidBlockSize (bits : UInt8)
  | invalidHeader (message : String)
  | invalidEntry
  /-- Every input error, such as the end of the file, is converted to this one. -/
  | decompressionError
  | binRw
  deriving DecidableEq

/-! ## Header -/

def standardBlockSizeBits : UInt8 := 16

def standardKeySize : UInt8 := 16

structure PatchArchiveHeader where
  magic : Key 2
  version : UInt8
  fileKeySize : UInt8
  oldKeySize : UInt8
  patchKeySize : UInt8
  blockSizeBits : UInt8
  blockCount : UInt16
  flags : UInt8
  deriving DecidableEq

namespace PatchArchiveHeader

def pa : Key 2 := ⟨[0x50, 0x41], rfl⟩

def hasExtendedHeader (header : PatchArchiveHeader) : Bool := header.flags &&& 0x02 != 0

def KeySizes (header : PatchArchiveHeader) : Prop :=
  (header.fileKeySize ≠ 0 ∧ header.fileKeySize.toNat ≤ 16) ∧
    (header.oldKeySize ≠ 0 ∧ header.oldKeySize.toNat ≤ 16) ∧
      header.patchKeySize ≠ 0 ∧ header.patchKeySize.toNat ≤ 16

instance (header : PatchArchiveHeader) : Decidable header.KeySizes :=
  inferInstanceAs (Decidable (_ ∧ _))

def validate (header : PatchArchiveHeader) : Except PatchArchiveError Unit := do
  ensure (header.magic = pa) (.invalidMagic header.magic.1)
  ensure (header.version ≠ 0 ∧ header.version.toNat ≤ 2) (.unsupportedVersion header.version)
  ensure header.KeySizes
    (.invalidKeySize header.fileKeySize header.oldKeySize header.patchKeySize)
  ensure (12 ≤ header.blockSizeBits.toNat ∧ header.blockSizeBits.toNat ≤ 24)
    (.invalidBlockSize header.blockSizeBits)

def read (bytes : Bytes) : Except PatchArchiveError (PatchArchiveHeader × Bytes) := do
  let (magic, rest) ← (Codec.key .binRw 2).read bytes
  ensure (magic = pa) (.invalidHeader "PA magic assertion failed")
  let (version, rest) ← (Codec.uint8 .binRw).read rest
  let (fileKeySize, rest) ← (Codec.uint8 .binRw).read rest
  let (oldKeySize, rest) ← (Codec.uint8 .binRw).read rest
  let (patchKeySize, rest) ← (Codec.uint8 .binRw).read rest
  let (blockSizeBits, rest) ← (Codec.uint8 .binRw).read rest
  let (blockCount, rest) ← (Codec.uint16Be .binRw).read rest
  let (flags, rest) ← (Codec.uint8 .binRw).read rest
  .ok ({ magic, version, fileKeySize, oldKeySize, patchKeySize, blockSizeBits, blockCount,
         flags }, rest)

def write (header : PatchArchiveHeader) : Bytes :=
  header.magic.1 ++ header.version :: header.fileKeySize :: header.oldKeySize ::
    header.patchKeySize :: header.blockSizeBits ::
      (beBytes 2 header.blockCount.toNat ++ [header.flags])

theorem length_write (header : PatchArchiveHeader) : header.write.length = 10 := by
  simp [write, header.magic.2]

theorem read_write {header : PatchArchiveHeader} (h : header.magic = pa) (rest : Bytes) :
    read (header.write ++ rest) = .ok (header, rest) := by
  obtain ⟨magic, version, fileKeySize, oldKeySize, patchKeySize, blockSizeBits, blockCount,
    flags⟩ := header
  obtain rfl : magic = pa := h
  simp [read, write, -Subtype.exists]

/-- All keys take sixteen bytes. -/
def Standard (header : PatchArchiveHeader) : Prop :=
  header.fileKeySize = standardKeySize ∧ header.oldKeySize = standardKeySize ∧
    header.patchKeySize = standardKeySize

end PatchArchiveHeader

/-! ## Keys and sizes -/

/-- A key of fewer bytes is padded with zeros. The size is at most 16 in a valid header. -/
def readKey (keySize : UInt8) (bytes : Bytes) : Except PatchArchiveError (Key 16 × Bytes) := do
  let (front, rest) ← (Format.bytes .decompressionError keySize.toNat).read bytes
  .ok (resizeKey 16 front, rest)

def writeKey (keySize : UInt8) (key : Key 16) : Bytes := key.1.take keySize.toNat

def readUint40Be (bytes : Bytes) : Except PatchArchiveError (UInt64 × Bytes) := do
  let (front, rest) ← (Format.bytes .decompressionError 5).read bytes
  .ok (UInt64.ofNat (ofBe front), rest)

/-- The low 40 bits are written. -/
def writeUint40Be (value : UInt64) : Bytes := beBytes 5 value.toNat

@[simp]
theorem writeKey_standard (key : Key 16) : writeKey standardKeySize key = key.1 :=
  take_of_length_le key.2.le

theorem readKey_standard (key : Key 16) (rest : Bytes) :
    readKey standardKeySize (key.1 ++ rest) = .ok (key, rest) :=
  bind_pair_eq_ok.mpr ⟨key.1, rest, Format.bytes_read_eq_ok.mpr ⟨rfl, key.2⟩,
    by simp [resizeKey_self]⟩

variable {value : UInt64}

theorem readUint40Be_write (h : value.toNat < 2 ^ 40) (rest : Bytes) :
    readUint40Be (writeUint40Be value ++ rest) = .ok (value, rest) := by
  refine bind_pair_eq_ok.mpr ⟨_, rest, Format.bytes_read_eq_ok.mpr ⟨rfl, beBytes_length 5 _⟩, ?_⟩
  dsimp only [writeUint40Be]
  rw [ofBe_beBytes_of_lt h, UInt64.ofNat_toNat]

variable {bytes rest : Bytes} {entries : List PatchFileEntry}

theorem lt_of_readUint40Be (h : readUint40Be bytes = .ok (value, rest)) : value.toNat < 2 ^ 40 := by
  obtain ⟨⟨front, rest'⟩, hRead, h⟩ := bind_eq_ok.mp h
  cases h
  have hLt := ofBe_lt front
  rw [(Format.bytes_read_eq_ok.mp hRead).2] at hLt
  rw [UInt64.toNat_ofNat_of_lt' (hLt.trans (by norm_num))]
  exact hLt

/-! ## Patches and file entries -/

structure FilePatch where
  sourceEkey : Key 16
  sourceDecodedSize : UInt64
  patchEkey : Key 16
  patchSize : UInt32
  patchIndex : UInt8
  deriving DecidableEq

structure PatchFileEntry where
  targetCkey : Key 16
  decodedSize : UInt64
  patches : List FilePatch
  deriving DecidableEq

def readPatch (header : PatchArchiveHeader) (bytes : Bytes) :
    Except PatchArchiveError (FilePatch × Bytes) := do
  let (sourceEkey, rest) ← readKey header.oldKeySize bytes
  let (sourceDecodedSize, rest) ← readUint40Be rest
  let (patchEkey, rest) ← readKey header.patchKeySize rest
  let (patchSize, rest) ← (Codec.uint32Be .decompressionError).read rest
  let (patchIndex, rest) ← (Codec.uint8 .decompressionError).read rest
  .ok ({ sourceEkey, sourceDecodedSize, patchEkey, patchSize, patchIndex }, rest)

def writePatch (header : PatchArchiveHeader) (patch : FilePatch) : Bytes :=
  writeKey header.oldKeySize patch.sourceEkey ++ (writeUint40Be patch.sourceDecodedSize ++
    (writeKey header.patchKeySize patch.patchEkey ++
      (beBytes 4 patch.patchSize.toNat ++ [patch.patchIndex])))

/-- What follows the patch count. -/
def readEntry (header : PatchArchiveHeader) (numPatches : UInt8) (bytes : Bytes) :
    Except PatchArchiveError (PatchFileEntry × Bytes) := do
  let (targetCkey, rest) ← readKey header.fileKeySize bytes
  let (decodedSize, rest) ← readUint40Be rest
  let (patches, rest) ← readMany (readPatch header) numPatches.toNat rest
  .ok ({ targetCkey, decodedSize, patches }, rest)

/-- The low byte of the patch count is written. -/
def writeEntry (header : PatchArchiveHeader) (entry : PatchFileEntry) : Bytes :=
  UInt8.ofNat entry.patches.length :: (writeKey header.fileKeySize entry.targetCkey ++
    (writeUint40Be entry.decodedSize ++ entry.patches.flatMap (writePatch header)))

/-- Every round takes a byte, so the bytes are used up when the rounds are. -/
def parseEntries (header : PatchArchiveHeader) :
    Nat → Bytes → Except PatchArchiveError (List PatchFileEntry)
  | 0, _ => .error .decompressionError
  | rounds + 1, bytes => do
    let (numPatches, rest) ← (Codec.uint8 .decompressionError).read bytes
    if numPatches = 0 then .ok []
    else do
      let (entry, rest) ← readEntry header numPatches rest
      let entries ← parseEntries header rounds rest
      .ok (entry :: entries)

def parseBlockData (header : PatchArchiveHeader) (bytes : Bytes) :
    Except PatchArchiveError (List PatchFileEntry) :=
  parseEntries header (bytes.length + 1) bytes

def serializeBlockData (header : PatchArchiveHeader) (entries : List PatchFileEntry) : Bytes :=
  entries.flatMap (writeEntry header) ++ [0]

/-! ## Entries that come back -/

structure PatchFileEntry.Writable (entry : PatchFileEntry) : Prop where
  patched : 0 < entry.patches.length
  count : entry.patches.length < 256
  size : entry.decodedSize.toNat < 2 ^ 40
  sources : ∀ patch ∈ entry.patches, patch.sourceDecodedSize.toNat < 2 ^ 40

variable {header : PatchArchiveHeader} {entry : PatchFileEntry} {patch : FilePatch} {rounds : Nat}

theorem readPatch_writePatch (hStandard : header.Standard)
    (h : patch.sourceDecodedSize.toNat < 2 ^ 40) (rest : Bytes) :
    readPatch header (writePatch header patch ++ rest) = .ok (patch, rest) := by
  obtain ⟨-, hOld, hPatch⟩ := hStandard
  simp only [readPatch, writePatch, hOld, hPatch, writeKey_standard, append_assoc,
    cons_append, nil_append, readKey_standard, readUint40Be_write h,
    uint32Be_read, uint8_read, ok_bind]

theorem readEntry_writeEntry (hStandard : header.Standard) (h : entry.Writable) (rest : Bytes) :
    ∃ numPatches : UInt8, numPatches ≠ 0 ∧ ∃ body : Bytes,
      writeEntry header entry = numPatches :: body ∧
        readEntry header numPatches (body ++ rest) = .ok (entry, rest) := by
  have hCount : (UInt8.ofNat entry.patches.length).toNat = entry.patches.length :=
    UInt8.toNat_ofNat_of_lt' h.count
  refine ⟨UInt8.ofNat entry.patches.length, ?_, _, rfl, ?_⟩
  · intro hZero
    have hPatched := h.patched
    rw [hZero] at hCount
    exact absurd hCount.symm hPatched.ne'
  · have hPatches := readMany_flatMap
      (fun patch hPatch => readPatch_writePatch hStandard (h.sources patch hPatch)) rest
    rw [readEntry, hStandard.1]
    simp only [writeKey_standard, append_assoc, readKey_standard,
      readUint40Be_write h.size, ok_bind, hCount, hPatches]

theorem length_writeEntry (header : PatchArchiveHeader) (entry : PatchFileEntry) :
    0 < (writeEntry header entry).length := Nat.succ_pos _

theorem parseEntries_serialize (hStandard : header.Standard) (h : ∀ entry ∈ entries, entry.Writable)
    (rest : Bytes) (hRounds : entries.length < rounds) :
    parseEntries header rounds (serializeBlockData header entries ++ rest) = .ok entries := by
  induction entries generalizing rounds with
  | nil =>
    obtain ⟨rounds, rfl⟩ := Nat.exists_eq_add_of_lt hRounds
    change parseEntries header _ (0 :: rest) = _
    rfl
  | cons entry entries ih =>
    obtain ⟨hHead, hTail⟩ := forall_mem_cons.mp h
    obtain ⟨rounds, rfl⟩ := Nat.exists_eq_succ_of_ne_zero (Nat.ne_zero_of_lt hRounds)
    obtain ⟨numPatches, hCount, body, hWrite, hRead⟩ := readEntry_writeEntry hStandard hHead
      (serializeBlockData header entries ++ rest)
    have hBytes : serializeBlockData header (entry :: entries) ++ rest =
        numPatches :: (body ++ (serializeBlockData header entries ++ rest)) := by
      rw [serializeBlockData, flatMap_cons, hWrite]
      simp only [cons_append, append_assoc, serializeBlockData]
    rw [hBytes, parseEntries, uint8_read, ok_bind]
    dsimp only
    rw [if_neg hCount, hRead, ok_bind]
    rw [ih hTail (Nat.lt_of_succ_lt_succ hRounds), ok_bind]

theorem length_lt_serialize (header : PatchArchiveHeader) (entries : List PatchFileEntry) :
    entries.length < (serializeBlockData header entries).length := by
  induction entries with
  | nil => exact Nat.one_pos
  | cons entry entries ih =>
    have hEntry := length_writeEntry header entry
    simp only [serializeBlockData, flatMap_cons, length_append, length_cons] at ih ⊢
    omega

theorem parseBlockData_serialize (hStandard : header.Standard)
    (h : ∀ entry ∈ entries, entry.Writable) (rest : Bytes) :
    parseBlockData header (serializeBlockData header entries ++ rest) = .ok entries := by
  apply parseEntries_serialize hStandard h rest
  have hLength := length_lt_serialize header entries
  rw [length_append]
  omega

/-! ## What is read -/

theorem lt_of_readPatch (h : readPatch header bytes = .ok (patch, rest)) :
    patch.sourceDecodedSize.toNat < 2 ^ 40 := by
  simp only [readPatch, bind_pair_eq_ok] at h
  obtain ⟨_, _, -, _, _, hSize, _, _, -, _, _, -, _, _, -, h⟩ := h
  cases h
  exact lt_of_readUint40Be hSize

theorem writable_of_readEntry {numPatches : UInt8}
    (hCount : numPatches ≠ 0) (h : readEntry header numPatches bytes = .ok (entry, rest)) :
    entry.Writable := by
  obtain ⟨⟨targetCkey, rest₁⟩, -, h⟩ := bind_eq_ok.mp h
  obtain ⟨⟨size, rest₂⟩, hSize, h⟩ := bind_eq_ok.mp h
  obtain ⟨⟨patches, rest₃⟩, hPatches, h⟩ := bind_eq_ok.mp h
  cases h
  obtain ⟨hLength, hAll⟩ := of_readMany hPatches
  refine ⟨?_, ?_, lt_of_readUint40Be hSize, fun patch hPatch => ?_⟩
  · rw [hLength, Nat.pos_iff_ne_zero]
    exact fun hZero => hCount (UInt8.toNat_inj.mp hZero)
  · rw [hLength]
    exact numPatches.toNat_lt
  · obtain ⟨_, _, hRead⟩ := hAll patch hPatch
    exact lt_of_readPatch hRead

theorem writable_of_parseEntries (h : parseEntries header rounds bytes = .ok entries) :
    ∀ entry ∈ entries, entry.Writable := by
  induction rounds generalizing bytes entries with
  | zero => cases h
  | succ rounds ih =>
    obtain ⟨⟨numPatches, rest⟩, -, h⟩ := bind_eq_ok.mp h
    dsimp only at h
    split_ifs at h with hCount
    · cases h
      exact nofun
    · obtain ⟨⟨entry, rest'⟩, hEntry, h⟩ := bind_eq_ok.mp h
      obtain ⟨entries', hEntries, h⟩ := bind_eq_ok.mp h
      cases h
      exact forall_mem_cons.mpr ⟨writable_of_readEntry hCount hEntry, ih hEntries⟩

end Cascette.Patch
