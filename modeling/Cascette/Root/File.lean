import Cascette.Root.Format

/-!
# Root files

A file of the first version has no header. The others begin with one of two letters sequences, and
whether a short or an extended header follows is guessed from the two numbers behind it. Then come
the blocks. Ids are resolved through a table of all records in the order of the blocks, which
gives the first record whose block matches (`RootFile.resolveById_eq`).
-/

namespace Cascette.Root

open Lib List Codec RootBlock

/-! ## Header -/

inductive RootMagic
  | mfst
  | tsfm
deriving DecidableEq

namespace RootMagic

/-- The letters `MFST` and `TSFM`. -/
def toBytes : RootMagic → Key 4
  | .mfst => ⟨[77, 70, 83, 84], rfl⟩
  | .tsfm => ⟨[84, 83, 70, 77], rfl⟩

def isLittleEndian (magic : RootMagic) : Bool := magic = .tsfm

/-- A number of the header. -/
def field (magic : RootMagic) : Codec RootError UInt32 :=
  if magic.isLittleEndian then .uint32Le .io else .uint32Be .io

end RootMagic

structure RootHeaderInfo where
  totalFiles : UInt32
  namedFiles : UInt32
deriving DecidableEq

inductive RootHeader
  | v2 (magic : RootMagic) (info : RootHeaderInfo)
  | v3v4 (magic : RootMagic) (headerSize version : UInt32) (info : RootHeaderInfo)
      (padding : UInt32)
deriving DecidableEq

namespace RootVersion

def detectV2V3V4 (magic : RootMagic) (bytes : Bytes) : Except RootError RootVersion := do
  let (value1, rest) ← magic.field.read bytes
  let (value2, _) ← magic.field.read rest
  if (16 ≤ value1 ∧ value1 < 100) ∧ (1 ≤ value2 ∧ value2 ≤ 4) then
    if value2 = 1 ∨ value2 = 2 then .ok .v2
    else if value2 = 3 then .ok .v3
    else .ok .v4
  else .ok .v2

def detect (bytes : Bytes) : Except RootError RootVersion := do
  let (magic, rest) ← (Codec.key RootError.io 4).read bytes
  if magic = RootMagic.mfst.toBytes then detectV2V3V4 .mfst rest
  else if magic = RootMagic.tsfm.toBytes then detectV2V3V4 .tsfm rest
  else .ok .v1

end RootVersion

namespace RootHeader

def newV2 (totalFiles namedFiles : UInt32) : RootHeader := .v2 .tsfm { totalFiles, namedFiles }

def newV3V4 (version totalFiles namedFiles : UInt32) : RootHeader :=
  .v3v4 .tsfm 20 version { totalFiles, namedFiles } 0

def info : RootHeader → RootHeaderInfo
  | .v2 _ info => info
  | .v3v4 _ _ _ info _ => info

def version : RootHeader → RootVersion
  | .v2 _ _ => .v2
  | .v3v4 _ _ version _ _ =>
    if version = 1 ∨ version = 2 then .v2
    else if version = 3 then .v3
    else if version ≥ 4 then .v4
    else .v3

/-- Bytes that are read and thrown away. -/
def discard (n : Nat) (bytes : Bytes) : Except RootError Bytes :=
  match readExact n bytes with
  | none => .error .io
  | some (_, rest) => .ok rest

/-- What the size of the header says beyond its twenty bytes. -/
def readPadding (magic : RootMagic) (headerSize : UInt32) (bytes : Bytes) :
    Except RootError (UInt32 × Bytes) :=
  if headerSize > 20 then
    let skip := headerSize.toNat - 20
    if skip ≥ 4 then do
      let (padding, rest) ← magic.field.read bytes
      if skip > 4 then do
        let rest ← discard (skip - 4) rest
        .ok (padding, rest)
      else .ok (padding, rest)
    else do
      let rest ← discard skip bytes
      .ok (0, rest)
  else .ok (0, bytes)

/-- The two numbers look like the size and the version of an extended header. -/
def looksExtended (value1 value2 : UInt32) : Prop :=
  (16 ≤ value1 ∧ value1 < 100) ∧ value2 < 10 ∧ value2 < value1

instance (value1 value2 : UInt32) : Decidable (looksExtended value1 value2) :=
  inferInstanceAs (Decidable (_ ∧ _))

def read (bytes : Bytes) : Except RootError (RootHeader × Bytes) := do
  let (letters, rest) ← (Codec.key RootError.io 4).read bytes
  let magic : RootMagic := if letters = RootMagic.tsfm.toBytes then .tsfm else .mfst
  let (value1, rest) ← magic.field.read rest
  let (value2, rest) ← magic.field.read rest
  if looksExtended value1 value2 then do
    let (totalFiles, rest) ← magic.field.read rest
    let (namedFiles, rest) ← magic.field.read rest
    let (padding, rest) ← readPadding magic value1 rest
    .ok (.v3v4 magic value1 value2 { totalFiles, namedFiles } padding, rest)
  else .ok (.v2 magic { totalFiles := value1, namedFiles := value2 }, rest)

def write : RootHeader → Bytes
  | .v2 magic info =>
    magic.toBytes.1 ++ magic.field.write info.totalFiles ++ magic.field.write info.namedFiles
  | .v3v4 magic headerSize version info padding =>
    magic.toBytes.1 ++ magic.field.write headerSize ++ magic.field.write version ++
      magic.field.write info.totalFiles ++ magic.field.write info.namedFiles ++
      if headerSize > 20 then magic.field.write padding else []

end RootHeader

/-! ## Lookup tables -/

structure RootEntry where
  blockIndex : Nat
  contentKey : Key 16
  localeFlags : UInt32
  contentFlags : UInt64
deriving DecidableEq

/-- Flags match a mask: one of the locales, and all of the content. -/
def flagsMatch (localeFlags : UInt32) (contentFlags : UInt64) (locale : UInt32)
    (content : UInt64) : Bool :=
  localeFlags &&& locale ≠ 0 ∧ contentFlags &&& content = content

def RootEntry.matches (entry : RootEntry) (locale : UInt32) (content : UInt64) : Bool :=
  flagsMatch entry.localeFlags entry.contentFlags locale content

structure RootLookupTables where
  fdidMap : UInt32 → List RootEntry
  nameMap : UInt64 → List RootEntry

namespace RootLookupTables

def new : RootLookupTables := { fdidMap := fun _ => [], nameMap := fun _ => [] }

def addEntry (lookups : RootLookupTables) (fdid : UInt32) (nameHash : Option UInt64)
    (entry : RootEntry) : RootLookupTables where
  fdidMap := Function.update lookups.fdidMap fdid (lookups.fdidMap fdid ++ [entry])
  nameMap :=
    match nameHash with
    | none => lookups.nameMap
    | some hash => Function.update lookups.nameMap hash (lookups.nameMap hash ++ [entry])

def resolveById (lookups : RootLookupTables) (fdid : UInt32) (locale : UInt32)
    (content : UInt64) : Option (Key 16) :=
  ((lookups.fdidMap fdid).find? fun entry => entry.matches locale content).map
    RootEntry.contentKey

end RootLookupTables

/-! ## Files -/

structure RootFile where
  version : RootVersion
  header : Option RootHeader
  blocks : List RootBlock
  lookups : RootLookupTables

def RootBlock.entry (block : RootBlock) (blockIndex : Nat) (record : RootRecord) : RootEntry where
  blockIndex
  contentKey := record.contentKey
  localeFlags := block.header.localeFlags
  contentFlags := block.header.contentFlags

def RootLookupTables.addBlock (lookups : RootLookupTables) (part : RootBlock × Nat) :
    RootLookupTables :=
  part.1.records.foldl (fun lookups record =>
    lookups.addEntry record.fileDataId record.nameHash (part.1.entry part.2 record)) lookups

def buildLookups (blocks : List RootBlock) : RootLookupTables :=
  blocks.zipIdx.foldl RootLookupTables.addBlock .new

namespace RootFile

/-- The loop over the blocks. A block that cannot be read ends the file, unless it is the first. -/
def parseBlocks (version : RootVersion) :
    Nat → List RootBlock → Bytes → Except (Halt RootError) (List RootBlock)
  | _, blocks, [] => .ok blocks
  | 0, _, _ :: _ => .error (.panic .outOfFuel)
  | fuel + 1, blocks, byte :: rest =>
    match RootBlock.parse version (byte :: rest) with
    | .ok (block, rest) =>
      -- Blocks without records are left out.
      parseBlocks version fuel
        (if block.header.numRecords > 0 then blocks ++ [block] else blocks) rest
    | .error e => if blocks = [] then .error (.error e) else .ok blocks

def readHeader (detected : RootVersion) (bytes : Bytes) :
    Except RootError (Option RootHeader × Bytes) :=
  if detected.hasHeader then do
    let (header, rest) ← RootHeader.read bytes
    .ok (some header, rest)
  else .ok (none, bytes)

def parse (bytes : Bytes) : Except (Halt RootError) RootFile := do
  let detected ← (RootVersion.detect bytes).mapError Halt.error
  let (header, rest) ← (readHeader detected bytes).mapError Halt.error
  let version := (header.map RootHeader.version).getD detected
  let blocks ← parseBlocks version rest.length [] rest
  .ok { version, header, blocks, lookups := buildLookups blocks }

/-- Sums of 32-bit numbers wrap around. -/
def totalFiles (file : RootFile) : UInt32 :=
  match file.header with
  | some header => header.info.totalFiles
  | none => (file.blocks.map fun block => block.header.numRecords).sum

def countNamed (records : List RootRecord) : UInt32 :=
  UInt32.ofNat (records.filter RootRecord.hasNameHash).length

def namedFiles (file : RootFile) : UInt32 :=
  match file.header with
  | some header => header.info.namedFiles
  | none => (file.blocks.map fun block => countNamed block.records).sum

def resolveById (file : RootFile) (fdid locale : UInt32) (content : UInt64) : Option (Key 16) :=
  file.lookups.resolveById fdid locale content

end RootFile

/-! ## What is resolved -/

def RootBlock.matches (block : RootBlock) (locale : UInt32) (content : UInt64) : Bool :=
  flagsMatch block.header.localeFlags block.header.contentFlags locale content

/-- The key of the first record with the id, among the blocks that match. -/
def firstMatch (blocks : List RootBlock) (fdid locale : UInt32) (content : UInt64) :
    Option (Key 16) :=
  (((blocks.filter fun block => block.matches locale content).flatMap RootBlock.records).find?
    fun record => record.fileDataId = fdid).map RootRecord.contentKey

/-- The entries of an id, in the order of the blocks. -/
def entriesOf (fdid : UInt32) (parts : List (RootBlock × Nat)) : List RootEntry :=
  parts.flatMap fun part =>
    (part.1.records.filter fun record => record.fileDataId = fdid).map (part.1.entry part.2)

theorem RootLookupTables.fdidMap_addBlock (lookups : RootLookupTables) (part : RootBlock × Nat)
    (fdid : UInt32) : (lookups.addBlock part).fdidMap fdid =
      lookups.fdidMap fdid ++ entriesOf fdid [part] := by
  have hRecords (records : List RootRecord) (lookups : RootLookupTables) :
      (records.foldl (fun lookups record => lookups.addEntry record.fileDataId record.nameHash
        (part.1.entry part.2 record)) lookups).fdidMap fdid = lookups.fdidMap fdid ++
          (records.filter fun record => record.fileDataId = fdid).map (part.1.entry part.2) := by
    induction records generalizing lookups with
    | nil => rw [foldl_nil, filter_nil, map_nil, append_nil]
    | cons record records ih =>
      rw [foldl_cons, ih]
      dsimp only [addEntry]
      by_cases hId : record.fileDataId = fdid
      · rw [filter_cons, if_pos (decide_eq_true hId), map_cons, hId,
          Function.update_self, append_assoc, singleton_append]
      · rw [filter_cons, if_neg (by simpa using hId), Function.update_of_ne (Ne.symm hId)]
  rw [addBlock, hRecords, entriesOf, flatMap_singleton]

theorem fdidMap_buildLookups (blocks : List RootBlock) (fdid : UInt32) :
    (buildLookups blocks).fdidMap fdid = entriesOf fdid blocks.zipIdx := by
  have hParts (parts : List (RootBlock × Nat)) (lookups : RootLookupTables) :
      (parts.foldl RootLookupTables.addBlock lookups).fdidMap fdid =
        lookups.fdidMap fdid ++ entriesOf fdid parts := by
    induction parts generalizing lookups with
    | nil => rw [foldl_nil, entriesOf, flatMap_nil, append_nil]
    | cons part parts ih =>
      rw [foldl_cons, ih, RootLookupTables.fdidMap_addBlock, append_assoc, entriesOf,
        entriesOf, entriesOf, flatMap_singleton, flatMap_cons]
  rw [buildLookups, hParts]
  rfl

/-- The key that a block gives. -/
def RootBlock.keyOf (block : RootBlock) (fdid locale : UInt32) (content : UInt64) :
    Option (Key 16) :=
  if block.matches locale content then
    (block.records.find? fun record => record.fileDataId = fdid).map RootRecord.contentKey
  else none

theorem firstMatch_cons (block : RootBlock) (blocks : List RootBlock) (fdid locale : UInt32)
    (content : UInt64) : firstMatch (block :: blocks) fdid locale content =
      (block.keyOf fdid locale content).or (firstMatch blocks fdid locale content) := by
  rw [firstMatch, firstMatch, RootBlock.keyOf]
  by_cases hMatch : block.matches locale content = true
  · rw [if_pos hMatch, filter_cons, if_pos hMatch, flatMap_cons, find?_append, Option.map_or]
  · rw [if_neg hMatch, filter_cons, if_neg hMatch, Option.none_or]

theorem find?_entriesOf_block (block : RootBlock) (n : Nat) (fdid locale : UInt32)
    (content : UInt64) :
    ((entriesOf fdid [(block, n)]).find? fun entry => entry.matches locale content).map
      RootEntry.contentKey = block.keyOf fdid locale content := by
  have hMatches : ((fun entry : RootEntry => entry.matches locale content) ∘ block.entry n) =
      fun _ => block.matches locale content := rfl
  rw [entriesOf, flatMap_singleton, find?_map, hMatches, Option.map_map, RootBlock.keyOf]
  by_cases hMatch : block.matches locale content = true
  · rw [if_pos hMatch, hMatch, ← head?_filter, filter_filter, head?_filter]
    rfl
  · rw [if_neg hMatch, Bool.eq_false_of_not_eq_true hMatch, find?_eq_none.mpr (by simp),
      Option.map_none]

theorem find?_entriesOf (blocks : List RootBlock) (fdid locale : UInt32) (content : UInt64)
    (n : Nat) :
    ((entriesOf fdid (blocks.zipIdx n)).find? fun entry => entry.matches locale content).map
      RootEntry.contentKey = firstMatch blocks fdid locale content := by
  induction blocks generalizing n with
  | nil => rfl
  | cons block blocks ih =>
    have hSplit : entriesOf fdid ((block :: blocks).zipIdx n) =
        entriesOf fdid [(block, n)] ++ entriesOf fdid (blocks.zipIdx (n + 1)) := by
      rw [entriesOf, zipIdx_cons, flatMap_cons, entriesOf, flatMap_singleton, entriesOf]
    rw [hSplit, find?_append, Option.map_or, find?_entriesOf_block, ih, firstMatch_cons]

namespace RootFile

/-- A parsed file resolves an id to its first match in the order of the blocks. -/
theorem resolveById_eq {file : RootFile} (h : file.lookups = buildLookups file.blocks)
    (fdid locale : UInt32) (content : UInt64) :
    file.resolveById fdid locale content = firstMatch file.blocks fdid locale content := by
  rw [resolveById, RootLookupTables.resolveById, h, fdidMap_buildLookups, find?_entriesOf]

/-! ## The loop over the blocks -/

variable {version : RootVersion} {fuel : Nat} {blocks : List RootBlock} {bytes : Bytes}

theorem parseBlocks_of_ne_nil (h : bytes ≠ []) :
    parseBlocks version (fuel + 1) blocks bytes =
      match RootBlock.parse version bytes with
      | .ok (block, rest) => parseBlocks version fuel
          (if block.header.numRecords > 0 then blocks ++ [block] else blocks) rest
      | .error e => if blocks = [] then .error (.error e) else .ok blocks := by
  cases bytes with
  | nil => exact absurd rfl h
  | cons byte rest => rfl

theorem numRecords_pos {block : RootBlock} (h : block.Storable version) :
    block.header.numRecords > 0 := by
  have hPos := length_pos_iff.mpr h.nonempty
  rw [← h.count] at hPos
  exact UInt32.lt_iff_toNat_lt.mpr hPos

theorem parseBlocks_write (h : ∀ block ∈ blocks, block.Storable version) (before : List RootBlock)
    (hFuel : blocks.length ≤ fuel) :
    parseBlocks version fuel before (blocks.map (RootBlock.write version)).flatten =
      .ok (before ++ blocks) := by
  induction blocks generalizing before fuel with
  | nil => cases fuel <;> rw [append_nil] <;> rfl
  | cons block blocks ih =>
    obtain ⟨fuel, rfl⟩ : ∃ n, fuel = n + 1 := ⟨fuel - 1, by rw [length_cons] at hFuel; omega⟩
    have hBlock := h block mem_cons_self
    have hNe : block.write version ++ (blocks.map (RootBlock.write version)).flatten ≠ [] := by
      apply ne_nil_of_length_pos
      rw [length_append, length_write, RootBlock.byteLength]
      have hHeader : 0 < version.blockHeaderSize := by cases version <;> decide
      omega
    rw [map_cons, flatten_cons, parseBlocks_of_ne_nil hNe, parse_write hBlock]
    dsimp only
    rw [if_pos (numRecords_pos hBlock), ih (fun b hb => h b (mem_cons_of_mem _ hb)) _
      (Nat.le_of_succ_le_succ hFuel), append_assoc, singleton_append]

theorem parseBlocks_eq_ok {before : List RootBlock}
    (h : parseBlocks version fuel before bytes = .ok blocks) :
    ∃ new, blocks = before ++ new ∧
      (∀ block ∈ new, block.records = [] ∨ block.Storable version) ∧
      (new.map (RootBlock.byteLength version)).sum ≤ bytes.length := by
  have hNone : ∃ new, before = before ++ new ∧
      (∀ block ∈ new, block.records = [] ∨ RootBlock.Storable version block) ∧
      (new.map (RootBlock.byteLength version)).sum ≤ bytes.length :=
    ⟨[], (append_nil _).symm, by simp, Nat.zero_le _⟩
  induction fuel generalizing before bytes with
  | zero =>
    cases bytes with
    | nil =>
      cases h
      exact hNone
    | cons byte rest => cases h
  | succ fuel ih =>
    by_cases hNil : bytes = []
    · subst hNil
      cases h
      exact hNone
    · rw [parseBlocks_of_ne_nil hNil] at h
      split at h
      next block rest hParse =>
        obtain ⟨hBlock, hLength⟩ := parse_eq_ok hParse
        obtain ⟨new, rfl, hNew, hSum⟩ := ih h ⟨[], (append_nil _).symm, by simp, Nat.zero_le _⟩
        split
        · refine ⟨block :: new, by rw [append_assoc, singleton_append], ?_, ?_⟩
          · intro b hb
            rcases mem_cons.mp hb with rfl | hb
            · exact hBlock
            · exact hNew b hb
          · rw [map_cons, sum_cons]
            omega
        · exact ⟨new, rfl, hNew, by omega⟩
      · split at h
        · cases h
        · cases h
          exact hNone

end RootFile

/-! ## Headers that were written -/

namespace RootHeader

theorem width_field (magic : RootMagic) : magic.field.Width 4 := by
  cases magic with
  | mfst => exact fun v => beBytes_length 4 _
  | tsfm => exact width_uint32Le _

theorem read_tsfm (value1 value2 : UInt32) (rest : Bytes) :
    read (RootMagic.tsfm.toBytes.1 ++ (RootMagic.tsfm.field.write value1 ++
      (RootMagic.tsfm.field.write value2 ++ rest))) =
      if looksExtended value1 value2 then do
        let (totalFiles, rest) ← RootMagic.tsfm.field.read rest
        let (namedFiles, rest) ← RootMagic.tsfm.field.read rest
        let (padding, rest) ← readPadding .tsfm value1 rest
        .ok (.v3v4 .tsfm value1 value2 { totalFiles, namedFiles } padding, rest)
      else .ok (.v2 .tsfm { totalFiles := value1, namedFiles := value2 }, rest) := by
  rw [read, key_read _ RootMagic.tsfm.toBytes.2, ok_bind]
  dsimp only
  rw [if_pos rfl, RootMagic.tsfm.field.read_write, ok_bind]
  rw [RootMagic.tsfm.field.read_write, ok_bind]

theorem write_newV2 (totalFiles namedFiles : UInt32) (rest : Bytes) :
    (newV2 totalFiles namedFiles).write ++ rest =
      RootMagic.tsfm.toBytes.1 ++ (RootMagic.tsfm.field.write totalFiles ++
        (RootMagic.tsfm.field.write namedFiles ++ rest)) := by
  rw [newV2, write, append_assoc, append_assoc]

theorem write_newV3V4 (version totalFiles namedFiles : UInt32) (rest : Bytes) :
    (newV3V4 version totalFiles namedFiles).write ++ rest =
      RootMagic.tsfm.toBytes.1 ++ (RootMagic.tsfm.field.write 20 ++
        (RootMagic.tsfm.field.write version ++ (RootMagic.tsfm.field.write totalFiles ++
          (RootMagic.tsfm.field.write namedFiles ++ rest)))) := by
  have hSize : ¬ (20 : UInt32) > 20 := by decide
  rw [newV3V4, write, if_neg hSize, append_nil]
  simp only [append_assoc]

theorem read_newV2 {totalFiles namedFiles : UInt32} (h : ¬ looksExtended totalFiles namedFiles)
    (rest : Bytes) : read ((newV2 totalFiles namedFiles).write ++ rest) =
      .ok (newV2 totalFiles namedFiles, rest) := by
  rw [write_newV2, read_tsfm, if_neg h]
  rfl

theorem read_newV3V4 {version : UInt32} (h : looksExtended 20 version)
    (totalFiles namedFiles : UInt32) (rest : Bytes) :
    read ((newV3V4 version totalFiles namedFiles).write ++ rest) =
      .ok (newV3V4 version totalFiles namedFiles, rest) := by
  have hSize : ¬ (20 : UInt32) > 20 := by decide
  rw [write_newV3V4, read_tsfm, if_pos h, RootMagic.tsfm.field.read_write, ok_bind]
  dsimp only
  rw [RootMagic.tsfm.field.read_write, ok_bind]
  rfl

variable {bytes rest : Bytes}

theorem discard_length {n : Nat} (h : discard n bytes = .ok rest) : rest.length ≤ bytes.length := by
  unfold discard at h
  split at h
  · cases h
  next hRead =>
    cases h
    obtain ⟨rfl, -⟩ := readExact_eq_some.mp hRead
    rw [length_append]
    exact Nat.le_add_left _ _

theorem readPadding_length {magic : RootMagic} {headerSize padding : UInt32}
    (h : readPadding magic headerSize bytes = .ok (padding, rest)) :
    rest.length ≤ bytes.length := by
  unfold readPadding at h
  dsimp only at h
  split at h
  · split at h
    · obtain ⟨⟨value, rest₁⟩, hRead, h⟩ := bind_eq_ok.mp h
      have hLength := (width_field magic).length_of_read hRead
      dsimp only at h
      split at h
      · obtain ⟨rest₂, hDiscard, h⟩ := bind_eq_ok.mp h
        cases h
        have hRest := discard_length hDiscard
        omega
      · cases h
        omega
    · obtain ⟨rest₁, hDiscard, h⟩ := bind_eq_ok.mp h
      cases h
      exact discard_length hDiscard
  · cases h
    exact le_refl _

/-- A header that is taken for an extended one is longer than the one that was written. -/
theorem length_of_read_newV2 {totalFiles namedFiles : UInt32} {header : RootHeader}
    (h : looksExtended totalFiles namedFiles)
    (hRead : read ((newV2 totalFiles namedFiles).write ++ bytes) = .ok (header, rest)) :
    rest.length + 8 ≤ bytes.length := by
  rw [write_newV2, read_tsfm, if_pos h] at hRead
  obtain ⟨⟨total, rest₁⟩, hTotal, hRead⟩ := bind_eq_ok.mp hRead
  obtain ⟨⟨named, rest₂⟩, hNamed, hRead⟩ := bind_eq_ok.mp hRead
  obtain ⟨⟨padding, rest₃⟩, hPadding, hRead⟩ := bind_eq_ok.mp hRead
  cases hRead
  have hTotalLength := (width_field .tsfm).length_of_read hTotal
  have hNamedLength := (width_field .tsfm).length_of_read hNamed
  have hPaddingLength := readPadding_length hPadding
  omega

end RootHeader

namespace RootVersion

/-- The letters announce a header, whatever the numbers are taken for. -/
theorem detect_tsfm (value1 value2 : UInt32) (rest : Bytes) :
    ∃ version, detect (RootMagic.tsfm.toBytes.1 ++ (RootMagic.tsfm.field.write value1 ++
      (RootMagic.tsfm.field.write value2 ++ rest))) = .ok version ∧ version.hasHeader = true := by
  have hLetters : RootMagic.tsfm.toBytes ≠ RootMagic.mfst.toBytes := by decide
  rw [detect, key_read _ RootMagic.tsfm.toBytes.2, ok_bind]
  dsimp only
  rw [if_neg hLetters, if_pos rfl, detectV2V3V4, RootMagic.tsfm.field.read_write, ok_bind]
  dsimp only
  rw [RootMagic.tsfm.field.read_write, ok_bind]
  split
  · split
    · exact ⟨_, rfl, rfl⟩
    · split
      · exact ⟨_, rfl, rfl⟩
      · exact ⟨_, rfl, rfl⟩
  · exact ⟨_, rfl, rfl⟩

theorem detect_of_count {numRecords : UInt32} (h : numRecords.toNat ≤ maxRecords) (rest : Bytes) :
    detect (uint32.write numRecords ++ rest) = .ok .v1 := by
  have hOther : ∀ {letters : Bytes}, maxRecords < ofLe letters →
      leBytes 4 numRecords.toNat ≠ letters := by
    rintro letters hLetters rfl
    rw [ofLe_leBytes_of_lt numRecords.toNat_lt] at hLetters
    omega
  have hWrite : uint32.write numRecords = leBytes 4 numRecords.toNat := uint32Le_write _ _
  have hMfst : maxRecords < ofLe RootMagic.mfst.toBytes.1 := by decide
  have hTsfm : maxRecords < ofLe RootMagic.tsfm.toBytes.1 := by decide
  rw [detect, hWrite, key_read _ (leBytes_length 4 _), ok_bind]
  dsimp only
  rw [if_neg fun hEq => hOther hMfst (congrArg Subtype.val hEq),
    if_neg fun hEq => hOther hTsfm (congrArg Subtype.val hEq)]

end RootVersion

namespace RootFile

variable {bytes : Bytes}

section

variable {detected : RootVersion} (hDetect : RootVersion.detect bytes = .ok detected)
  (hHeader : detected.hasHeader = true)

include hDetect hHeader

theorem parse_of_header {rest : Bytes} {header : RootHeader}
    (hRead : RootHeader.read bytes = .ok (header, rest)) :
    parse bytes = (parseBlocks header.version rest.length [] rest).bind fun blocks =>
      .ok { version := header.version, header := some header, blocks,
            lookups := buildLookups blocks } := by
  rw [parse, hDetect, Except.mapError, ok_bind]
  rw [readHeader, if_pos hHeader, hRead, ok_bind, Except.mapError, ok_bind]
  rfl

theorem exists_header_of_parse {file : RootFile}
    (h : parse bytes = .ok file) : ∃ header rest, RootHeader.read bytes = .ok (header, rest) ∧
      file.version = header.version ∧
      parseBlocks header.version rest.length [] rest = .ok file.blocks := by
  rw [parse, hDetect, mapError_ok, ok_bind, readHeader, if_pos hHeader] at h
  obtain ⟨⟨header, rest⟩, hRead, h⟩ := bind_eq_ok.mp h
  obtain ⟨⟨header, rest⟩, hRead, hHeader⟩ := bind_eq_ok.mp (mapError_eq_ok.mp hRead)
  cases hHeader
  obtain ⟨blocks, hBlocks, h⟩ := bind_eq_ok.mp h
  cases h
  exact ⟨header, rest, hRead, rfl, hBlocks⟩

end

theorem parse_of_v1 (hDetect : RootVersion.detect bytes = .ok .v1) :
    parse bytes = (parseBlocks .v1 bytes.length [] bytes).bind fun blocks =>
      .ok { version := .v1, header := none, blocks, lookups := buildLookups blocks } := by
  rw [parse, hDetect, Except.mapError, ok_bind]
  rfl

theorem lookups_of_parse {file : RootFile} (h : parse bytes = .ok file) :
    file.lookups = buildLookups file.blocks := by
  obtain ⟨detected, -, h⟩ := bind_eq_ok.mp h
  obtain ⟨⟨header, rest⟩, -, h⟩ := bind_eq_ok.mp h
  obtain ⟨blocks, -, h⟩ := bind_eq_ok.mp h
  cases h
  rfl

end RootFile

end Cascette.Root
