import Cascette.Crypto.Jenkins
import Cascette.Lib.Grouping
import Cascette.Lib.Merge
import Cascette.Lib.Utf8
import Cascette.Root.File

/-!
# Building root files

The builder puts every record into the block of its flags. `build` sorts the records of each block
by id and the blocks by flags, and writes them behind the header of the version. What was added is
read back when it keeps to the limits of the version and, in the second version, when the two counts
in the header are not taken for the beginning of an extended header
(`RootBuilder.parse_build`, `RootBuilder.parse_build_v2_iff`).
-/

namespace Cascette.Root

open Lib RootFile RootHeader List UInt32 RootBlock RootVersion

/-! ## Blocks -/

namespace RootBlock

def new (contentFlags : UInt64) (localeFlags : UInt32) : RootBlock where
  header := { numRecords := 0, contentFlags, localeFlags }
  records := []

def addRecord (block : RootBlock) (record : RootRecord) : RootBlock where
  header := { block.header with numRecords := UInt32.ofNat (block.records.length + 1) }
  records := block.records ++ [record]

def sortRecords (block : RootBlock) : RootBlock :=
  { block with records := block.records.insertionSort fun a b =>
    a.fileDataId.toNat ≤ b.fileDataId.toNat }

end RootBlock

/-! ## Builder -/

/-- The flags of a block: its locales and its content. -/
abbrev BlockKey := UInt32 × UInt64

/-- The place of a block in a file. -/
def BlockKey.rank (key : BlockKey) : ℕ ×ₗ ℕ := toLex (key.1.toNat, key.2.toNat)

/-- The blocks are a map; the order of its entries does not matter. -/
structure RootBuilder where
  version : RootVersion
  blocks : List (BlockKey × RootBlock)

/-- The hash of a path in upper case with backslashes. -/
def calculateNameHash (toUppercase : Text → Text) (path : Text) : UInt64 :=
  let normalized := (toUppercase path).1.map fun byte => if byte = 0x2f then 0x5c else byte
  let (pc, pb) := Crypto.hashlittle2 normalized 0 0
  (pc.toUInt64 <<< 32) ||| pb.toUInt64

namespace RootBuilder

def new (version : RootVersion) : RootBuilder := { version, blocks := [] }

def addRecord (builder : RootBuilder) (record : RootRecord) (locale : UInt32) (content : UInt64) :
    RootBuilder :=
  { builder with
    blocks := modifyEntry (locale, content) (RootBlock.new content locale)
      (fun block => block.addRecord record) builder.blocks }

def addFile (toUppercase : Text → Text) (builder : RootBuilder) (fdid : UInt32) (ckey : Key 16)
    (path : Option Text) (locale : UInt32) (content : UInt64) : RootBuilder :=
  builder.addRecord ⟨fdid, ckey, path.map (calculateNameHash toUppercase)⟩ locale content

def addFileInBlock (builder : RootBuilder) (fdid : UInt32) (ckey : Key 16)
    (nameHash : Option UInt64) (locale : UInt32) (content : UInt64) : RootBuilder :=
  builder.addRecord ⟨fdid, ckey, nameHash⟩ locale content

/-- What `build` leaves in the builder. -/
def sortBlocks (builder : RootBuilder) : RootBuilder :=
  { builder with blocks := builder.blocks.map fun entry => (entry.1, entry.2.sortRecords) }

/-- Sums of 32-bit numbers wrap around. -/
def totalFiles (builder : RootBuilder) : UInt32 :=
  (builder.blocks.map fun entry => entry.2.header.numRecords).sum

def namedFiles (builder : RootBuilder) : UInt32 :=
  (builder.blocks.map fun entry => RootFile.countNamed entry.2.records).sum

def header (version : RootVersion) (totalFiles namedFiles : UInt32) : Option RootHeader :=
  match version with
  | .v1 => none
  | .v2 => some (.newV2 totalFiles namedFiles)
  | .v3 => some (.newV3V4 3 totalFiles namedFiles)
  | .v4 => some (.newV3V4 4 totalFiles namedFiles)

def sortedBlocks (builder : RootBuilder) : List RootBlock :=
  (builder.blocks.insertionSort fun a b => BlockKey.rank a.1 ≤ BlockKey.rank b.1).map Prod.snd

def build (builder : RootBuilder) : Except RootError Bytes :=
  if builder.blocks = [] then .error (.corruptedBlockHeader "No blocks to build")
  else
    let builder := builder.sortBlocks
    let header := header builder.version builder.totalFiles builder.namedFiles
    .ok ((header.map RootHeader.write).getD [] ++
      (builder.sortedBlocks.map (RootBlock.write builder.version)).flatten)

end RootBuilder

structure AddFile where
  fdid : UInt32
  ckey : Key 16
  path : Option Text
  locale : UInt32
  content : UInt64

def RootBuilder.addFiles (toUppercase : Text → Text) (version : RootVersion)
    (calls : List AddFile) : RootBuilder :=
  calls.foldl (fun builder call => builder.addFile toUppercase call.fdid call.ckey call.path
    call.locale call.content) (.new version)

/-! ## What is in the builder -/

/-- A record with the flags of the block it is put into. -/
structure Placement where
  locale : UInt32
  content : UInt64
  record : RootRecord
deriving DecidableEq

namespace Placement

def key (placement : Placement) : BlockKey := (placement.locale, placement.content)

end Placement

def AddFile.placement (toUppercase : Text → Text) (call : AddFile) : Placement where
  locale := call.locale
  content := call.content
  record := ⟨call.fdid, call.ckey, call.path.map (calculateNameHash toUppercase)⟩

def blockOf (key : BlockKey) (placements : List Placement) : RootBlock where
  header := { numRecords := UInt32.ofNat placements.length, contentFlags := key.2,
              localeFlags := key.1 }
  records := placements.map Placement.record

namespace RootBuilder

def addPlacement (builder : RootBuilder) (placement : Placement) : RootBuilder :=
  builder.addRecord placement.record placement.locale placement.content

def addPlacements (version : RootVersion) (placements : List Placement) : RootBuilder :=
  placements.foldl addPlacement (.new version)

theorem addFiles_eq (toUppercase : Text → Text) (version : RootVersion) (calls : List AddFile) :
    addFiles toUppercase version calls =
      addPlacements version (calls.map (AddFile.placement toUppercase)) := by
  rw [addPlacements, foldl_map]
  rfl

def ofGroups (version : RootVersion) (groups : List (BlockKey × List Placement)) : RootBuilder where
  version
  blocks := groups.map fun entry => (entry.1, blockOf entry.1 entry.2)

theorem addPlacement_ofGroups (version : RootVersion) (groups : List (BlockKey × List Placement))
    (placement : Placement) : (ofGroups version groups).addPlacement placement =
      ofGroups version (modifyEntry placement.key [] (· ++ [placement]) groups) := by
  have hAdd : ∀ placements, (blockOf placement.key placements).addRecord placement.record =
      blockOf placement.key (placements ++ [placement]) := by
    intro placements
    simp [blockOf, RootBlock.addRecord]
  exact congrArg (RootBuilder.mk version) (modifyEntry_map (· ++ [placement])
    (RootBlock.addRecord · placement.record) [] hAdd groups)

theorem addPlacements_eq (version : RootVersion) (placements : List Placement) :
    addPlacements version placements = ofGroups version (group Placement.key placements) := by
  induction placements using reverseRecOn with
  | nil => rfl
  | append_singleton placements placement ih =>
    have hGroup : group Placement.key (placements ++ [placement]) =
        modifyEntry placement.key [] (· ++ [placement]) (group Placement.key placements) :=
      foldl_append
    rw [addPlacements, foldl_append, ← addPlacements, ih, hGroup]
    exact addPlacement_ofGroups _ _ _

end RootBuilder

/-! ## What is built -/

def sortedGroups (placements : List Placement) : List (BlockKey × List Placement) :=
  (group Placement.key placements).insertionSort fun a b => BlockKey.rank a.1 ≤ BlockKey.rank b.1

/-- The blocks in the order in which they are written. -/
def builtBlocks (placements : List Placement) : List RootBlock :=
  (sortedGroups placements).map fun entry => (blockOf entry.1 entry.2).sortRecords

theorem BlockKey.rank_injective : Function.Injective BlockKey.rank := by
  rintro ⟨locale, content⟩ ⟨locale', content'⟩ h
  obtain ⟨hLocale, hContent⟩ := Prod.mk.injEq .. ▸ toLex.injective h
  exact Prod.ext (UInt32.toNat_inj.mp hLocale) (UInt64.toNat_inj.mp hContent)

theorem sortedGroups_perm (placements : List Placement) :
    (sortedGroups placements).Perm (group Placement.key placements) :=
  perm_insertionSort _ _

theorem grouped_sortedGroups (placements : List Placement) :
    Grouped Placement.key placements (sortedGroups placements) where
  nodup := ((sortedGroups_perm placements).map Prod.fst).nodup_iff.mpr
    (grouped_group placements).nodup
  mem_iff k ys :=
    (sortedGroups_perm placements).mem_iff.trans ((grouped_group placements).mem_iff k ys)

theorem sortedGroups_strict (placements : List Placement) : (sortedGroups placements).Pairwise
    fun a b => BlockKey.rank a.1 < BlockKey.rank b.1 := by
  apply insertionSort_strict
  have hGrouped : Grouped Placement.key placements (group Placement.key placements) :=
    grouped_group placements
  have hNodup := hGrouped.nodup.map BlockKey.rank_injective
  rwa [List.map_map] at hNodup

theorem RootBuilder.sortedBlocks_addPlacements (version : RootVersion)
    (placements : List Placement) :
    (addPlacements version placements).sortBlocks.sortedBlocks = builtBlocks placements := by
  have hSort := map_insertionSort (fun a b => BlockKey.rank a.1 ≤ BlockKey.rank b.1)
    (fun a b => BlockKey.rank a.1 ≤ BlockKey.rank b.1)
    (fun entry : BlockKey × List Placement => (entry.1, (blockOf entry.1 entry.2).sortRecords))
    (group Placement.key placements) (fun _ _ _ _ => Iff.rfl)
  rw [addPlacements_eq, sortedBlocks, sortBlocks, ofGroups]
  rw [List.map_map]
  exact (congrArg (List.map Prod.snd) hSort).symm.trans List.map_map

/-! ## The counts -/

theorem sum_map_ofNat {α : Type} (f : α → Nat) (xs : List α) :
    (xs.map fun x => UInt32.ofNat (f x)).sum = UInt32.ofNat (xs.map f).sum := by
  induction xs with
  | nil => rfl
  | cons x xs ih => rw [map_cons, sum_cons, ih, map_cons, sum_cons, ofNat_add]

theorem RootBlock.sortRecords_perm (block : RootBlock) :
    block.sortRecords.records.Perm block.records :=
  perm_insertionSort _ _

section Counts

variable {groups : List (BlockKey × List Placement)} {placements : List Placement}

theorem sum_numRecords (h : (groups.flatMap Prod.snd).Perm placements) :
    (groups.map fun entry => (blockOf entry.1 entry.2).sortRecords.header.numRecords).sum =
      UInt32.ofNat placements.length := by
  change (groups.map fun entry => UInt32.ofNat entry.2.length).sum = _
  rw [sum_map_ofNat, ← h.length_eq, length_flatMap]

theorem sum_countNamed (h : (groups.flatMap Prod.snd).Perm placements) :
    (groups.map fun entry =>
      RootFile.countNamed (blockOf entry.1 entry.2).sortRecords.records).sum =
      RootFile.countNamed (placements.map Placement.record) := by
  have hCount : ∀ entry : BlockKey × List Placement,
      RootFile.countNamed (blockOf entry.1 entry.2).sortRecords.records =
        UInt32.ofNat (entry.2.countP fun placement => placement.record.hasNameHash) := by
    intro entry
    rw [RootFile.countNamed, ((sortRecords_perm _).filter _).length_eq, ← countP_eq_length_filter]
    exact congrArg UInt32.ofNat countP_map
  simp only [hCount]
  rw [sum_map_ofNat, RootFile.countNamed, ← countP_eq_length_filter, countP_map,
    ← h.countP_eq, countP_flatMap]
  rfl

end Counts

namespace RootBuilder

theorem totalFiles_sortBlocks (version : RootVersion) (placements : List Placement) :
    (addPlacements version placements).sortBlocks.totalFiles = UInt32.ofNat placements.length := by
  rw [addPlacements_eq, totalFiles, sortBlocks, ofGroups]
  rw [List.map_map, List.map_map]
  exact sum_numRecords (flatMap_group_perm placements)

theorem namedFiles_sortBlocks (version : RootVersion) (placements : List Placement) :
    (addPlacements version placements).sortBlocks.namedFiles =
      RootFile.countNamed (placements.map Placement.record) := by
  rw [addPlacements_eq, namedFiles, sortBlocks, ofGroups]
  rw [List.map_map, List.map_map]
  exact sum_countNamed (flatMap_group_perm placements)

theorem build_addPlacements (version : RootVersion) {placements : List Placement}
    (h : placements ≠ []) : (addPlacements version placements).build =
      .ok (((header version (UInt32.ofNat placements.length)
          (RootFile.countNamed (placements.map Placement.record))).map RootHeader.write).getD [] ++
        ((builtBlocks placements).map (RootBlock.write version)).flatten) := by
  have hBlocks : (addPlacements version placements).blocks ≠ [] := by
    intro hNil
    rw [addPlacements_eq, ofGroups] at hNil
    have hEmpty : ((group Placement.key placements).flatMap Prod.snd).Perm placements :=
      flatMap_group_perm placements
    rw [map_eq_nil_iff.mp hNil] at hEmpty
    exact h hEmpty.nil_eq.symm
  have hVersion : (addPlacements version placements).sortBlocks.version = version := by
    rw [addPlacements_eq]
    rfl
  rw [build, if_neg hBlocks]
  dsimp only
  rw [hVersion, totalFiles_sortBlocks, namedFiles_sortBlocks, sortedBlocks_addPlacements]

end RootBuilder

/-! ## What is read back -/

/-- What is added keeps to what the version can store: the flags fit, no block has too many
records, and a record has a hash exactly when its block stores hashes. -/
structure Fits (version : RootVersion) (placements : List Placement) : Prop where
  flags : ∀ placement ∈ placements, placement.content.toNat < 2 ^ version.flagBits
  limit : ∀ key, (placements.filter fun placement => placement.key = key).length ≤ maxRecords
  hashes : ∀ placement ∈ placements,
    placement.record.hasNameHash = storesHashes version placement.content

def RootBlock.key (block : RootBlock) : BlockKey :=
  (block.header.localeFlags, block.header.contentFlags)

variable {block : RootBlock} {placements : List Placement} {blocks : List RootBlock}
  {version : RootVersion} {placement : Placement}

theorem content_eq_of_key (h : placement.key = block.key) :
    placement.content = block.header.contentFlags :=
  congrArg Prod.snd h

/-- The blocks hold what was added: one block for each key, in the order of the keys, with the
records of the key in the order of their ids. -/
structure Stored (placements : List Placement) (blocks : List RootBlock) : Prop where
  ordered : blocks.Pairwise fun a b => BlockKey.rank a.key < BlockKey.rank b.key
  keys : ∀ key, (∃ block ∈ blocks, block.key = key) ↔ ∃ placement ∈ placements, placement.key = key
  records : ∀ block ∈ blocks, block.records.Perm
    ((placements.filter fun placement => placement.key = block.key).map Placement.record)
  sorted : ∀ block ∈ blocks, block.records.Pairwise fun a b => a.fileDataId ≤ b.fileDataId

theorem mem_builtBlocks :
    block ∈ builtBlocks placements ↔
      (∃ placement ∈ placements, placement.key = block.key) ∧ block = (blockOf block.key
        (placements.filter fun placement => placement.key = block.key)).sortRecords := by
  rw [builtBlocks, mem_map]
  constructor
  · rintro ⟨⟨key, ys⟩, hMem, rfl⟩
    have hKey := (grouped_sortedGroups placements).mem_keys.mp (mem_map_of_mem hMem)
    obtain ⟨-, rfl⟩ := ((grouped_sortedGroups placements).mem_iff key ys).mp hMem
    exact ⟨hKey, rfl⟩
  · rintro ⟨⟨placement, hPlacement, hKey⟩, hBlock⟩
    refine ⟨(block.key, _), ((grouped_sortedGroups placements).mem_iff _ _).mpr ⟨?_, rfl⟩,
      hBlock.symm⟩
    exact ne_nil_of_mem (mem_filter.mpr ⟨hPlacement, decide_eq_true hKey⟩)

theorem stored_builtBlocks (placements : List Placement) :
    Stored placements (builtBlocks placements) where
  ordered := pairwise_map.mpr (sortedGroups_strict placements)
  keys := by
    intro key
    constructor
    · rintro ⟨block, hBlock, rfl⟩
      exact (mem_builtBlocks.mp hBlock).1
    · intro hKey
      exact ⟨(blockOf key (placements.filter fun placement => placement.key = key)).sortRecords,
        mem_builtBlocks.mpr ⟨hKey, rfl⟩, rfl⟩
  records := by
    intro block hBlock
    have hEq := congrArg RootBlock.records (mem_builtBlocks.mp hBlock).2
    exact hEq ▸ sortRecords_perm _
  sorted := by
    intro block hBlock
    have hEq := congrArg RootBlock.records (mem_builtBlocks.mp hBlock).2
    rw [hEq]
    exact (pairwise_insertionSort_key (fun record : RootRecord => record.fileDataId.toNat) _).imp
      fun h => le_iff_toNat_le.mpr h

theorem storable_builtBlocks (h : Fits version placements)
    (hBlock : block ∈ builtBlocks placements) : block.Storable version := by
  obtain ⟨⟨placement, hPlacement, hKey⟩, hEq⟩ := mem_builtBlocks.mp hBlock
  have hPerm := (stored_builtBlocks placements).records block hBlock
  have hLength := hPerm.length_eq
  rw [length_map] at hLength
  have hLimit := h.limit block.key
  refine ⟨?_, ?_, ?_, hLength ▸ hLimit, ?_⟩
  · have hFlags := h.flags placement hPlacement
    rwa [content_eq_of_key hKey] at hFlags
  · have hCount : block.header.numRecords = UInt32.ofNat
        (placements.filter fun placement => placement.key = block.key).length :=
      congrArg (fun b => b.header.numRecords) hEq
    have hSmall : maxRecords < 2 ^ 32 := by decide
    rw [hCount, hLength, toNat_ofNat_of_lt' (lt_of_le_of_lt hLimit hSmall)]
  · intro hNil
    rw [hNil] at hLength
    have hMem : placement ∈ placements.filter fun placement => placement.key = block.key :=
      mem_filter.mpr ⟨hPlacement, decide_eq_true hKey⟩
    rw [eq_nil_of_length_eq_zero hLength.symm] at hMem
    exact not_mem_nil hMem
  · intro record hRecord
    obtain ⟨other, hOther, rfl⟩ := mem_map.mp (hPerm.mem_iff.mp hRecord)
    obtain ⟨hOther, hOtherKey⟩ := mem_filter.mp hOther
    have hHash := h.hashes other hOther
    rwa [content_eq_of_key (of_decide_eq_true hOtherKey)] at hHash

/-- The file that is read has the version, the counts and the records that were added. -/
structure RootFile.Holds (version : RootVersion) (placements : List Placement) (file : RootFile) :
    Prop where
  version_eq : file.version = version
  totalFiles_eq : file.totalFiles = UInt32.ofNat placements.length
  namedFiles_eq : file.namedFiles = countNamed (placements.map Placement.record)
  stored : Stored placements file.blocks

namespace RootBuilder

/-- The counts are not taken for the beginning of an extended header. -/
def HeaderKept (version : RootVersion) (placements : List Placement) : Prop :=
  version = .v2 → ¬ RootHeader.looksExtended (UInt32.ofNat placements.length)
    (RootFile.countNamed (placements.map Placement.record))

theorem length_le_flatten (version : RootVersion) (blocks : List RootBlock) :
    blocks.length ≤ (blocks.map (RootBlock.write version)).flatten.length := by
  induction blocks with
  | nil => exact Nat.zero_le _
  | cons block blocks ih =>
    have hHeader : 0 < version.blockHeaderSize := by cases version <;> decide
    rw [map_cons, flatten_cons, length_append, length_cons, length_write, RootBlock.byteLength]
    omega

variable {blocks : List RootBlock}

/-- A file of the first version begins with the number of records of its first block. -/
theorem detect_v1 (hNe : blocks ≠ []) (h : ∀ block ∈ blocks, block.Storable .v1) :
    RootVersion.detect (blocks.map (RootBlock.write .v1)).flatten = .ok .v1 := by
  obtain ⟨block, blocks, rfl⟩ := exists_cons_of_ne_nil hNe
  have hBlock := h block mem_cons_self
  have hBegin : ∃ rest, ((block :: blocks).map (RootBlock.write .v1)).flatten =
      uint32.write block.header.numRecords ++ rest := by
    exact ⟨_, append_assoc _ _ _⟩
  obtain ⟨rest, hBegin⟩ := hBegin
  rw [hBegin]
  exact detect_of_count (hBlock.count ▸ hBlock.limit) rest

theorem parse_v1 (hNe : blocks ≠ []) (h : ∀ block ∈ blocks, block.Storable .v1) :
    RootFile.parse (blocks.map (RootBlock.write .v1)).flatten =
      .ok { version := .v1, header := none, blocks, lookups := buildLookups blocks } := by
  rw [parse_of_v1 (detect_v1 hNe h),
    parseBlocks_write h [] (length_le_flatten .v1 blocks), nil_append]
  rfl

def builtFile (version : RootVersion) (placements : List Placement) : RootFile where
  version
  header := header version (UInt32.ofNat placements.length)
    (RootFile.countNamed (placements.map Placement.record))
  blocks := builtBlocks placements
  lookups := buildLookups (builtBlocks placements)

variable {placements : List Placement}

theorem builtBlocks_ne_nil (h : placements ≠ []) : builtBlocks placements ≠ [] := by
  obtain ⟨placement, hPlacement⟩ := exists_mem_of_ne_nil _ h
  obtain ⟨block, hBlock, -⟩ := ((stored_builtBlocks placements).keys placement.key).mpr
    ⟨placement, hPlacement, rfl⟩
  exact ne_nil_of_mem hBlock

theorem parse_build {bytes : Bytes}
    (hFits : Fits version placements) (hHeader : HeaderKept version placements)
    (hBuild : (addPlacements version placements).build = .ok bytes) :
    RootFile.parse bytes = .ok (builtFile version placements) := by
  have hNe : placements ≠ [] := by
    rintro rfl
    cases hBuild
  rw [build_addPlacements version hNe] at hBuild
  cases hBuild
  have hStorable : ∀ block ∈ builtBlocks placements, block.Storable version :=
    fun block hBlock => storable_builtBlocks hFits hBlock
  have hBlocks := parseBlocks_write hStorable []
    (length_le_flatten version (builtBlocks placements))
  cases version with
  | v1 =>
    rw [header, Option.map_none, Option.getD_none, nil_append,
      parse_v1 (builtBlocks_ne_nil hNe) hStorable]
    rfl
  | v2 =>
    rw [header, Option.map_some, Option.getD_some]
    obtain ⟨detected, hDetect, hHas⟩ := detect_tsfm (UInt32.ofNat placements.length)
      (RootFile.countNamed (placements.map Placement.record))
      ((builtBlocks placements).map (RootBlock.write .v2)).flatten
    rw [← write_newV2] at hDetect
    rw [parse_of_header hDetect hHas (read_newV2 (hHeader rfl) _)]
    change Except.bind (RootFile.parseBlocks .v2 _ _ _) _ = _
    rw [hBlocks]
    rfl
  | v3 =>
    rw [header, Option.map_some, Option.getD_some]
    obtain ⟨detected, hDetect, hHas⟩ := detect_tsfm 20 3 _
    rw [← write_newV3V4] at hDetect
    rw [parse_of_header hDetect hHas (read_newV3V4 (by decide) _ _ _)]
    change Except.bind (RootFile.parseBlocks .v3 _ _ _) _ = _
    rw [hBlocks]
    rfl
  | v4 =>
    rw [header, Option.map_some, Option.getD_some]
    obtain ⟨detected, hDetect, hHas⟩ := detect_tsfm 20 4 _
    rw [← write_newV3V4] at hDetect
    rw [parse_of_header hDetect hHas (read_newV3V4 (by decide) _ _ _)]
    change Except.bind (RootFile.parseBlocks .v4 _ _ _) _ = _
    rw [hBlocks]
    rfl

theorem holds_builtFile (version : RootVersion) (placements : List Placement) :
    (builtFile version placements).Holds version placements where
  version_eq := rfl
  totalFiles_eq := by
    cases version with
    | v1 =>
      have hPerm := ((sortedGroups_perm placements).flatMap_right Prod.snd).trans
        (flatMap_group_perm placements)
      rw [← sum_numRecords hPerm, RootFile.totalFiles]
      exact congrArg List.sum List.map_map
    | v2 => rfl
    | v3 => rfl
    | v4 => rfl
  namedFiles_eq := by
    cases version with
    | v1 =>
      have hPerm := ((sortedGroups_perm placements).flatMap_right Prod.snd).trans
        (flatMap_group_perm placements)
      rw [← sum_countNamed hPerm, RootFile.namedFiles]
      exact congrArg List.sum List.map_map
    | v2 => rfl
    | v3 => rfl
    | v4 => rfl
  stored := stored_builtBlocks placements

end RootBuilder

/-! ## What cannot be read back -/

variable (h : Stored placements blocks)
include h

theorem Stored.mem_records (hBlock : block ∈ blocks) (hPlacement : placement ∈ placements)
    (hKey : placement.key = block.key) : placement.record ∈ block.records :=
  (h.records block hBlock).mem_iff.mpr (mem_map.mpr
    ⟨placement, mem_filter.mpr ⟨hPlacement, decide_eq_true hKey⟩, rfl⟩)

theorem Stored.nonempty (hBlock : block ∈ blocks) : block.records ≠ [] := by
  obtain ⟨placement, hPlacement, hKey⟩ := (h.keys block.key).mp ⟨block, hBlock, rfl⟩
  exact ne_nil_of_mem (h.mem_records hBlock hPlacement hKey)

theorem Stored.fits (hRead : ∀ block ∈ blocks, block.records = [] ∨ block.Storable version) :
    Fits version placements := by
  have hStorable : ∀ block ∈ blocks, block.Storable version := fun block hBlock =>
    (hRead block hBlock).resolve_left (h.nonempty hBlock)
  refine ⟨?_, ?_, ?_⟩
  · intro placement hPlacement
    obtain ⟨block, hBlock, hKey⟩ := (h.keys _).mpr ⟨placement, hPlacement, rfl⟩
    rw [content_eq_of_key hKey.symm]
    exact (hStorable block hBlock).flags
  · intro key
    by_cases hKey : ∃ placement ∈ placements, placement.key = key
    · obtain ⟨block, hBlock, rfl⟩ := (h.keys key).mpr hKey
      have hLength := (h.records block hBlock).length_eq
      rw [length_map] at hLength
      exact hLength ▸ (hStorable block hBlock).limit
    · have hNone : (placements.filter fun placement => placement.key = key) = [] := by
        apply filter_eq_nil_iff.mpr
        intro placement hPlacement hEq
        exact hKey ⟨placement, hPlacement, of_decide_eq_true hEq⟩
      rw [hNone]
      exact Nat.zero_le _
  · intro placement hPlacement
    obtain ⟨block, hBlock, hKey⟩ := (h.keys _).mpr ⟨placement, hPlacement, rfl⟩
    rw [content_eq_of_key hKey.symm]
    exact (hStorable block hBlock).hashes _ (h.mem_records hBlock hPlacement hKey.symm)

theorem Stored.byteLength_eq {blocks' : List RootBlock}
    (h' : Stored placements blocks') (version : RootVersion) :
    blocks.map (RootBlock.byteLength version) = blocks'.map (RootBlock.byteLength version) := by
  have hKeys : blocks.map RootBlock.key = blocks'.map RootBlock.key := by
    refine eq_of_strict (pairwise_map.mpr h.ordered) (pairwise_map.mpr h'.ordered) fun key => ?_
    rw [mem_map, mem_map, h.keys, h'.keys]
  have hLength : ∀ {blocks : List RootBlock}, Stored placements blocks →
      blocks.map (RootBlock.byteLength version) = (blocks.map RootBlock.key).map fun key =>
        version.blockHeaderSize + (placements.filter fun placement => placement.key = key).length *
          recordSize version key.2 := by
    intro blocks h
    rw [List.map_map]
    apply List.map_congr_left
    intro block hBlock
    rw [RootBlock.byteLength, (h.records block hBlock).length_eq, length_map]
    rfl
  rw [hLength h, hLength h', hKeys]

omit h

namespace RootBuilder

theorem length_flatten_write (version : RootVersion) (blocks : List RootBlock) :
    (blocks.map (RootBlock.write version)).flatten.length =
      (blocks.map (RootBlock.byteLength version)).sum := by
  rw [List.length_flatten, List.map_map]
  exact congrArg List.sum (List.map_congr_left fun block _ => length_write version block)

/-- What was built in the second version is read back exactly when it keeps to the limits and its
counts are not taken for an extended header. -/
theorem parse_build_v2_iff {placements : List Placement} {bytes : Bytes}
    (hBuild : (addPlacements .v2 placements).build = .ok bytes) :
    (∃ file, RootFile.parse bytes = .ok file ∧ file.Holds .v2 placements) ↔
      Fits .v2 placements ∧ HeaderKept .v2 placements := by
  constructor
  · rintro ⟨file, hParse, hHolds⟩
    have hNe : placements ≠ [] := by
      rintro rfl
      cases hBuild
    rw [build_addPlacements .v2 hNe, header, Option.map_some, Option.getD_some] at hBuild
    cases hBuild
    obtain ⟨detected, hDetect, hHas⟩ := detect_tsfm (UInt32.ofNat placements.length)
      (RootFile.countNamed (placements.map Placement.record))
      ((builtBlocks placements).map (RootBlock.write .v2)).flatten
    obtain ⟨header, rest, hRead, hVersion, hBlocks⟩ := exists_header_of_parse hDetect hHas hParse
    rw [← hVersion, hHolds.version_eq] at hBlocks
    obtain ⟨blocks, hNew, hBlock, hSum⟩ := parseBlocks_eq_ok hBlocks
    subst hNew
    refine ⟨hHolds.stored.fits hBlock, ?_⟩
    -- A longer header leaves fewer bytes than the blocks take.
    intro _ hExtended
    have hRest := length_of_read_newV2 hExtended hRead
    rw [length_flatten_write,
      (stored_builtBlocks placements).byteLength_eq hHolds.stored .v2] at hRest
    omega
  · rintro ⟨hFits, hHeader⟩
    exact ⟨_, parse_build hFits hHeader hBuild, holds_builtFile _ _⟩

/-! ## Calls of `addFile` -/

section Calls

variable (toUppercase : Text → Text)

theorem exists_build (version : RootVersion) {calls : List AddFile} (h : calls ≠ []) :
    ∃ bytes, (addFiles toUppercase version calls).build = .ok bytes := by
  rw [addFiles_eq]
  exact ⟨_, build_addPlacements version fun hNil => h (map_eq_nil_iff.mp hNil)⟩

/-- In all versions but the second, what is added and keeps to the limits of the version is read
back, and an id is resolved to its first record in a block that matches. -/
theorem parse_addFiles {version : RootVersion} (hVersion : version ≠ .v2) {calls : List AddFile}
    (hFits : Fits version (calls.map (AddFile.placement toUppercase))) :
    (calls ≠ [] → ∃ bytes, (addFiles toUppercase version calls).build = .ok bytes) ∧
      ∀ bytes, (addFiles toUppercase version calls).build = .ok bytes →
        ∃ file, RootFile.parse bytes = .ok file ∧
          file.Holds version (calls.map (AddFile.placement toUppercase)) ∧
          ∀ fdid locale content, file.resolveById fdid locale content =
            firstMatch file.blocks fdid locale content := by
  refine ⟨exists_build toUppercase version, ?_⟩
  intro bytes hBuild
  rw [addFiles_eq] at hBuild
  have hHeader : HeaderKept version (calls.map (AddFile.placement toUppercase)) :=
    fun h => absurd h hVersion
  exact ⟨_, parse_build hFits hHeader hBuild, holds_builtFile _ _, resolveById_eq rfl⟩

/-- A file with a name. -/
def sampleCall (fdid : UInt32) (content : UInt64) : AddFile where
  fdid
  ckey := .fill 16 7
  path := some ⟨[97], rfl⟩
  locale := 2
  content

def sampleCalls : List AddFile := [sampleCall 5 4, sampleCall 3 4]

theorem fits_sampleCalls (version : RootVersion) :
    Fits version (sampleCalls.map (AddFile.placement id)) where
  flags := by cases version <;> decide
  limit key := (length_filter_le _ _).trans (by decide)
  hashes := by cases version <;> decide

theorem parse_addFiles_sample :
    ∃ bytes, (addFiles id .v4 sampleCalls).build = .ok bytes ∧
      ∃ file, RootFile.parse bytes = .ok file ∧
        file.Holds .v4 (sampleCalls.map (AddFile.placement id)) := by
  obtain ⟨hBuild, hParse⟩ := parse_addFiles id (by decide) (fits_sampleCalls .v4)
  obtain ⟨bytes, hBuild⟩ := hBuild (cons_ne_nil _ _)
  obtain ⟨file, hFile, hHolds, -⟩ := hParse bytes hBuild
  exact ⟨bytes, hBuild, file, hFile, hHolds⟩

/-- In the second version the counts must not be taken for an extended header. -/
theorem parse_addFiles_v2 {calls : List AddFile}
    (hFits : Fits .v2 (calls.map (AddFile.placement toUppercase)))
    (hCounts : ¬ RootHeader.looksExtended (UInt32.ofNat calls.length) (RootFile.countNamed
      ((calls.map (AddFile.placement toUppercase)).map Placement.record))) :
    (calls ≠ [] → ∃ bytes, (addFiles toUppercase .v2 calls).build = .ok bytes) ∧
      ∀ bytes, (addFiles toUppercase .v2 calls).build = .ok bytes →
        ∃ file, RootFile.parse bytes = .ok file ∧
          file.Holds .v2 (calls.map (AddFile.placement toUppercase)) := by
  refine ⟨exists_build toUppercase .v2, ?_⟩
  intro bytes hBuild
  rw [addFiles_eq] at hBuild
  refine (parse_build_v2_iff hBuild).mpr ⟨hFits, fun _ => ?_⟩
  rwa [length_map]

end Calls

theorem parse_addFiles_v2_sample :
    ∃ bytes, (addFiles id .v2 sampleCalls).build = .ok bytes ∧
      ∃ file, RootFile.parse bytes = .ok file ∧
        file.Holds .v2 (sampleCalls.map (AddFile.placement id)) := by
  obtain ⟨hBuild, hParse⟩ := parse_addFiles_v2 id (fits_sampleCalls .v2) (by decide)
  obtain ⟨bytes, hBuild⟩ := hBuild (cons_ne_nil _ _)
  exact ⟨bytes, hBuild, hParse bytes hBuild⟩

/-- Files without names. -/
def unnamedCalls : List AddFile := List.replicate 16 { sampleCall 5 noNameHash with path := none }

/-- The hash of a record in a block that does not store hashes is lost, and sixteen files without
names are not read back. -/
theorem parse_addFiles_v2_refuted :
    (∃ bytes, (addFiles id .v2 [sampleCall 5 noNameHash]).build = .ok bytes ∧
      ¬ ∃ file, RootFile.parse bytes = .ok file ∧
        file.Holds .v2 ([sampleCall 5 noNameHash].map (AddFile.placement id))) ∧
    ∃ bytes, (addFiles id .v2 unnamedCalls).build = .ok bytes ∧
      ¬ ∃ file, RootFile.parse bytes = .ok file ∧
        file.Holds .v2 (unnamedCalls.map (AddFile.placement id)) := by
  constructor
  · obtain ⟨bytes, hBuild⟩ := exists_build id .v2 (cons_ne_nil (sampleCall 5 noNameHash) [])
    refine ⟨bytes, hBuild, fun h => ?_⟩
    rw [addFiles_eq] at hBuild
    have hHash := ((parse_build_v2_iff hBuild).mp h).1.hashes _ mem_cons_self
    exact absurd hHash (by decide)
  · have hNe : unnamedCalls ≠ [] := cons_ne_nil _ _
    obtain ⟨bytes, hBuild⟩ := exists_build id .v2 hNe
    refine ⟨bytes, hBuild, fun h => ?_⟩
    rw [addFiles_eq] at hBuild
    exact ((parse_build_v2_iff hBuild).mp h).2 rfl (by decide)

end RootBuilder

end Cascette.Root
