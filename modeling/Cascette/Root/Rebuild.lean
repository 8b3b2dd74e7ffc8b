import Cascette.Lib.Search
import Cascette.Root.Builder

/-!
# Rebuilding a parsed root file

`RootFile.build` adds the records of a parsed file to a new builder, which writes the blocks in the
order of their flags. An id is resolved to its first record in the order of the blocks, so that the
new order can change the answer. Whether it does is decided by the locales of the records that come
first in one of the two orders (`RootFile.resolveById_build`).
-/

namespace Cascette.Root

open Lib RootBuilder List

/-! ## Rebuilding -/

def RootBlock.placements (block : RootBlock) : List Placement :=
  block.records.map fun record =>
    { locale := block.header.localeFlags, content := block.header.contentFlags, record }

/-- The records of the blocks in the order of the file. -/
def placementsOf (blocks : List RootBlock) : List Placement := blocks.flatMap RootBlock.placements

/-- Each record is added with the flags of its block. -/
def RootBuilder.fromRootFile (file : RootFile) : RootBuilder :=
  file.blocks.foldl (fun builder block => block.records.foldl (fun builder record =>
    builder.addFileInBlock record.fileDataId record.contentKey record.nameHash
      block.header.localeFlags block.header.contentFlags) builder) (.new file.version)

def RootFile.build (file : RootFile) : Except RootError Bytes :=
  (RootBuilder.fromRootFile file).build

theorem RootBuilder.fromRootFile_eq (file : RootFile) :
    fromRootFile file = addPlacements file.version (placementsOf file.blocks) := by
  rw [addPlacements, placementsOf, foldl_flatMap, fromRootFile]
  simp only [RootBlock.placements, foldl_map]
  rfl

/-! ## Matching records -/

def Placement.matches (placement : Placement) (locale : UInt32) (content : UInt64) : Bool :=
  flagsMatch placement.locale placement.content locale content

def Placement.rank (placement : Placement) : ℕ ×ₗ ℕ := BlockKey.rank placement.key

def recordsOf (fdid : UInt32) (placements : List Placement) : List Placement :=
  placements.filter fun placement => placement.record.fileDataId = fdid

def firstRecord (placements : List Placement) (locale : UInt32) (content : UInt64) :
    Option (Key 16) :=
  (placements.find? fun placement => placement.matches locale content).map fun placement =>
    placement.record.contentKey

theorem firstRecord_append (front back : List Placement) (locale : UInt32) (content : UInt64) :
    firstRecord (front ++ back) locale content =
      (firstRecord front locale content).or (firstRecord back locale content) := by
  rw [firstRecord, find?_append, Option.map_or, ← firstRecord, ← firstRecord]

theorem firstRecord_placements (block : RootBlock) (fdid locale : UInt32) (content : UInt64) :
    firstRecord (recordsOf fdid block.placements) locale content =
      block.keyOf fdid locale content := by
  rw [firstRecord, recordsOf, RootBlock.placements, filter_map, find?_map,
    Option.map_map, RootBlock.keyOf]
  by_cases hMatch : block.matches locale content = true
  · have hAll : ((fun placement : Placement => placement.matches locale content) ∘
        fun record => { locale := block.header.localeFlags,
                        content := block.header.contentFlags, record }) = fun _ => true :=
      funext fun _ => hMatch
    rw [if_pos hMatch, hAll, ← head?_filter, filter_filter, head?_filter]
    rfl
  · rw [if_neg hMatch, Option.map_eq_none_iff, find?_eq_none]
    exact fun record _ => hMatch

theorem firstMatch_eq (blocks : List RootBlock) (fdid locale : UInt32) (content : UInt64) :
    firstMatch blocks fdid locale content =
      firstRecord (recordsOf fdid (placementsOf blocks)) locale content := by
  induction blocks with
  | nil => rfl
  | cons block blocks ih =>
    have hSplit : recordsOf fdid (placementsOf (block :: blocks)) =
        recordsOf fdid block.placements ++ recordsOf fdid (placementsOf blocks) := by
      rw [placementsOf, flatMap_cons, recordsOf, filter_append]
      rfl
    rw [firstMatch_cons, ih, hSplit, firstRecord_append, firstRecord_placements]

/-! ## The order of the rebuilt file -/

variable {placements : List Placement} {x locale y l : UInt32} {placement : Placement}
  {content common : UInt64}

theorem placements_blockOf {key : BlockKey} (h : ∀ placement ∈ placements, placement.key = key) :
    (blockOf key placements).sortRecords.placements =
      placements.insertionSort fun a b => a.record.fileDataId.toNat ≤
        b.record.fileDataId.toNat := by
  have hSort := map_insertionSort
    (fun a b => a.record.fileDataId.toNat ≤ b.record.fileDataId.toNat)
    (fun a b => a.fileDataId.toNat ≤ b.fileDataId.toNat) Placement.record placements
    (fun _ _ _ _ => Iff.rfl)
  rw [RootBlock.placements, RootBlock.sortRecords, blockOf]
  rw [← hSort, map_map]
  refine (map_congr_left fun placement hPlacement => ?_).trans (map_id _)
  obtain rfl := h placement (mem_insertionSort.mp hPlacement)
  rfl

theorem key_of_mem_placements {block : RootBlock}
    (h : placement ∈ block.placements) : placement.key = block.key := by
  obtain ⟨record, -, rfl⟩ := mem_map.mp h
  rfl

theorem recordsOf_insertionSort (fdid : UInt32) (placements : List Placement) :
    recordsOf fdid (placements.insertionSort fun a b =>
      a.record.fileDataId.toNat ≤ b.record.fileDataId.toNat) = recordsOf fdid placements := by
  have hFilter : ((placements.insertionSort fun a b =>
      a.record.fileDataId.toNat ≤ b.record.fileDataId.toNat).filter fun placement =>
        placement.record.fileDataId.toNat = fdid.toNat) =
      placements.filter fun placement => placement.record.fileDataId.toNat = fdid.toNat :=
    filter_insertionSort_key fdid.toNat
  simp only [UInt32.toNat_inj] at hFilter
  exact hFilter

theorem filter_recordsOf_builtBlocks (placements : List Placement) (key : BlockKey)
    (fdid : UInt32) :
    ((recordsOf fdid (placementsOf (builtBlocks placements))).filter fun placement =>
      placement.key = key) =
      (recordsOf fdid placements).filter fun placement => placement.key = key := by
  have hGroup : ∀ placement ∈ placements.filter fun placement => placement.key = key,
      placement.key = key := fun placement hPlacement =>
    of_decide_eq_true (mem_filter.mp hPlacement).2
  rw [placementsOf, builtBlocks, flatMap_map, recordsOf, filter_flatMap,
    filter_flatMap, (grouped_sortedGroups placements).flatMap_eq (k := key)]
  · rw [placements_blockOf hGroup, ← recordsOf, recordsOf_insertionSort, recordsOf,
      filter_filter, filter_filter, recordsOf, filter_filter]
    refine filter_congr fun placement _ => ?_
    rw [Bool.and_comm, Bool.and_self_left]
  · intro entry _ hNe
    rw [filter_eq_nil_iff]
    intro placement hPlacement hKey
    have hBlock := key_of_mem_placements (mem_of_mem_filter hPlacement)
    exact hNe (hBlock.symm.trans (of_decide_eq_true hKey))
  · rfl

theorem pairwise_rank_builtBlocks (placements : List Placement) (fdid : UInt32) :
    (recordsOf fdid (placementsOf (builtBlocks placements))).Pairwise fun a b =>
      a.rank ≤ b.rank := by
  refine List.Pairwise.filter _ (pairwise_flatMap.mpr ⟨?_, ?_⟩)
  · intro block _
    refine pairwise_of_forall_mem_list fun a ha b hb => ?_
    rw [Placement.rank, Placement.rank, key_of_mem_placements ha, key_of_mem_placements hb]
  · refine (stored_builtBlocks placements).ordered.imp ?_
    intro block block' hLt a ha b hb
    rw [Placement.rank, Placement.rank, key_of_mem_placements ha, key_of_mem_placements hb]
    exact le_of_lt hLt

theorem recordsOf_builtBlocks (placements : List Placement) (fdid : UInt32) :
    recordsOf fdid (placementsOf (builtBlocks placements)) =
      (recordsOf fdid placements).insertionSort fun a b => a.rank ≤ b.rank := by
  refine eq_of_filter_key (pairwise_rank_builtBlocks placements fdid)
    (pairwise_insertionSort_key _ _) fun k => ?_
  rw [filter_insertionSort_key]
  by_cases hKey : ∃ key, BlockKey.rank key = k
  · obtain ⟨key, rfl⟩ := hKey
    simp only [Placement.rank, BlockKey.rank_injective.eq_iff]
    exact filter_recordsOf_builtBlocks placements key fdid
  · have hNone : ∀ placements : List Placement,
        (placements.filter fun placement => placement.rank = k) = [] := by
      intro placements
      rw [filter_eq_nil_iff]
      intro placement _ hRank
      exact hKey ⟨placement.key, of_decide_eq_true hRank⟩
    rw [hNone, hNone]

/-! ## Flags as sets -/

theorem and_eq_zero_iff :
    x &&& y = 0 ↔ ∀ i < 32, x.toBitVec.getLsbD i = true → y.toBitVec.getLsbD i = false := by
  rw [← UInt32.toBitVec_inj, BitVec.eq_of_getLsbD_eq_iff]
  simp [BitVec.getLsbD_and]

theorem or_and_eq_zero : (x ||| y) &&& l = 0 ↔ x &&& l = 0 ∧ y &&& l = 0 := by
  simp only [and_eq_zero_iff, UInt32.toBitVec_or, BitVec.getLsbD_or, Bool.or_eq_true]
  grind

theorem and_eq_zero_of_covered {u : UInt32} (hx : x &&& ~~~ u = 0) (hu : u &&& l = 0) :
    x &&& l = 0 := by
  simp only [and_eq_zero_iff, UInt32.toBitVec_not, BitVec.getLsbD_not] at *
  grind

theorem matches_iff :
    placement.matches locale content = true ↔
      placement.locale &&& locale ≠ 0 ∧ placement.content &&& content = content :=
  decide_eq_true_iff

/-! ## When the order matters -/

/-- The locales of the records whose content includes `common`. -/
def localesOf (common : UInt64) (placements : List Placement) : UInt32 :=
  (placements.filter fun placement => placement.content &&& common = common).foldr
    (fun placement locales => placement.locale ||| locales) 0

theorem localesOf_and_eq_zero :
    localesOf common placements &&& locale = 0 ↔ ∀ placement ∈ placements,
      placement.content &&& common = common → placement.locale &&& locale = 0 := by
  have hFold : ∀ placements : List Placement,
      placements.foldr (fun placement locales => placement.locale ||| locales) 0 &&& locale = 0 ↔
        ∀ placement ∈ placements, placement.locale &&& locale = 0 := by
    intro placements
    induction placements with
    | nil => simp
    | cons placement placements ih => rw [foldr_cons, or_and_eq_zero, ih, forall_mem_cons]
  rw [localesOf, hFold]
  simp only [mem_filter, decide_eq_true_eq, and_imp]

/-- A locale of the record is left for it, beside the locales of other records whose content
includes `common`. -/
def Placement.LeftFor (placement : Placement) (common : UInt64) (others : List Placement) : Prop :=
  placement.locale &&& ~~~ localesOf common others ≠ 0

/-- Two records are asked for by a query that asks for none of the others exactly when both have
locales that are left. -/
theorem exists_query_iff {a b : Placement} {others : List Placement} :
    (∃ locale content, a.matches locale content = true ∧ b.matches locale content = true ∧
      ∀ c ∈ others, c.matches locale content ≠ true) ↔
      a.LeftFor (a.content &&& b.content) others ∧ b.LeftFor (a.content &&& b.content) others := by
  set shared := a.content &&& b.content
  constructor
  · rintro ⟨locale, content, ha, hb, hOthers⟩
    obtain ⟨haLocale, haContent⟩ := matches_iff.mp ha
    obtain ⟨hbLocale, hbContent⟩ := matches_iff.mp hb
    have hCommon : shared &&& content = content := by
      rw [UInt64.and_assoc, hbContent, haContent]
    have hNone : localesOf shared others &&& locale = 0 := by
      refine localesOf_and_eq_zero.mpr fun c hc hIncluded => ?_
      by_contra hLocale
      exact hOthers c hc (matches_iff.mpr ⟨hLocale,
        by rw [← hCommon, ← UInt64.and_assoc, hIncluded]⟩)
    exact ⟨fun h => haLocale (and_eq_zero_of_covered h hNone),
      fun h => hbLocale (and_eq_zero_of_covered h hNone)⟩
  · rintro ⟨ha, hb⟩
    refine ⟨~~~ localesOf shared others, shared,
      matches_iff.mpr ⟨ha, ?_⟩, matches_iff.mpr ⟨hb, ?_⟩, ?_⟩
    · rw [← UInt64.and_assoc, UInt64.and_self]
    · rw [UInt64.and_comm, UInt64.and_assoc, UInt64.and_self]
    · intro c hc hMatch
      obtain ⟨hLocale, hContent⟩ := matches_iff.mp hMatch
      exact hLocale (localesOf_and_eq_zero.mp UInt32.and_not_self c hc hContent)

/-- No id has two records with different keys such that both are left locales by the records that
come before the first in the file and before the second in the order of the flags. -/
def OrderKept (placements : List Placement) : Prop :=
  ∀ fdid front a back front' b back', recordsOf fdid placements = front ++ a :: back →
    ((recordsOf fdid placements).insertionSort fun a b => a.rank ≤ b.rank) = front' ++ b :: back' →
    a.record.contentKey ≠ b.record.contentKey →
    ¬ (a.LeftFor (a.content &&& b.content) (front ++ front') ∧
      b.LeftFor (a.content &&& b.content) (front ++ front'))

theorem orderKept_iff : OrderKept placements ↔
    ∀ fdid locale content, firstRecord (recordsOf fdid placements) locale content =
      firstRecord ((recordsOf fdid placements).insertionSort fun a b => a.rank ≤ b.rank)
        locale content := by
  refine forall_congr' fun fdid => ?_
  have hAgree := find?_map_agree_iff
    (p := fun (query : UInt32 × UInt64) (placement : Placement) =>
      placement.matches query.1 query.2)
    (f := fun placement : Placement => placement.record.contentKey)
    (perm_insertionSort (fun a b => a.rank ≤ b.rank) (recordsOf fdid placements)).symm
  rw [Prod.forall] at hAgree
  refine Iff.trans ?_ hAgree.symm
  -- The two sides differ in the last step only: whether a query asks for both records alone.
  refine forall_congr' fun front => forall_congr' fun a => forall_congr' fun back =>
    forall_congr' fun front' => forall_congr' fun b => forall_congr' fun back' =>
    imp_congr_right fun _ => imp_congr_right fun _ => imp_congr_right fun _ => ?_
  rw [← exists_query_iff]
  push Not
  rw [Prod.forall]

/-! ## Parsed files -/

/-- The rebuilt file resolves every id as the file does. -/
def RootFile.Preserved (file : RootFile) : Prop :=
  ∃ bytes, file.build = .ok bytes ∧ ∃ file', RootFile.parse bytes = .ok file' ∧
    ∀ fdid locale content,
      file'.resolveById fdid locale content = file.resolveById fdid locale content

/-- What the file holds can be read back: no block gets too many records when the blocks with equal
flags are put together, and the counts of a file of the second version are not taken for an
extended header. -/
structure RootFile.Rebuildable (file : RootFile) : Prop where
  limit : ∀ key, ((placementsOf file.blocks).filter fun placement =>
    placement.key = key).length ≤ maxRecords
  header : RootBuilder.HeaderKept file.version (placementsOf file.blocks)

namespace RootFile

variable {bytes : Bytes} {file : RootFile}

variable (h : parse bytes = .ok file)
include h

theorem blocks_of_parse :
    ∀ block ∈ file.blocks, block.records = [] ∨ block.Storable file.version := by
  obtain ⟨detected, -, h⟩ := bind_eq_ok.mp h
  obtain ⟨⟨header, rest⟩, -, h⟩ := bind_eq_ok.mp h
  obtain ⟨blocks, hBlocks, h⟩ := bind_eq_ok.mp h
  cases h
  obtain ⟨new, hNew, hEach, -⟩ := parseBlocks_eq_ok hBlocks
  exact hNew ▸ hEach

theorem fits_placementsOf (hRebuildable : file.Rebuildable) :
    Fits file.version (placementsOf file.blocks) := by
  have hPlaced : ∀ placement ∈ placementsOf file.blocks, ∃ block ∈ file.blocks,
      placement.record ∈ block.records ∧ placement.content = block.header.contentFlags ∧
        block.Storable file.version := by
    intro placement hPlacement
    obtain ⟨block, hBlock, hIn⟩ := mem_flatMap.mp hPlacement
    obtain ⟨record, hRecord, rfl⟩ := mem_map.mp hIn
    exact ⟨block, hBlock, hRecord, rfl,
      (blocks_of_parse h block hBlock).resolve_left (ne_nil_of_mem hRecord)⟩
  refine ⟨?_, hRebuildable.limit, ?_⟩
  · intro placement hPlacement
    obtain ⟨block, -, -, hContent, hStorable⟩ := hPlaced placement hPlacement
    exact hContent ▸ hStorable.flags
  · intro placement hPlacement
    obtain ⟨block, -, hRecord, hContent, hStorable⟩ := hPlaced placement hPlacement
    exact hContent ▸ hStorable.hashes _ hRecord

theorem preserved_iff (hRebuildable : file.Rebuildable) :
    file.Preserved ↔ placementsOf file.blocks ≠ [] ∧ OrderKept (placementsOf file.blocks) := by
  have hResolve := resolveById_eq (lookups_of_parse h)
  have hRead : ∀ {bytes' : Bytes}, file.build = .ok bytes' → parse bytes' =
      .ok (RootBuilder.builtFile file.version (placementsOf file.blocks)) := by
    intro bytes' hBuild
    rw [build, fromRootFile_eq] at hBuild
    exact parse_build (fits_placementsOf h hRebuildable) hRebuildable.header hBuild
  have hSame : ∀ fdid locale content,
      (RootBuilder.builtFile file.version (placementsOf file.blocks)).resolveById fdid locale
        content = firstRecord ((recordsOf fdid (placementsOf file.blocks)).insertionSort
          fun a b => a.rank ≤ b.rank) locale content := by
    intro fdid locale content
    rw [resolveById_eq rfl, firstMatch_eq, RootBuilder.builtFile, recordsOf_builtBlocks]
  rw [orderKept_iff]
  constructor
  · rintro ⟨bytes', hBuild, file', hParse, hEqual⟩
    rw [hRead hBuild] at hParse
    cases hParse
    refine ⟨?_, fun fdid locale content => ?_⟩
    · intro hNil
      rw [build, fromRootFile_eq, hNil] at hBuild
      cases hBuild
    · rw [← hSame, hEqual, hResolve, firstMatch_eq]
  · rintro ⟨hNe, hOrder⟩
    have hBuild := build_addPlacements file.version hNe
    rw [← fromRootFile_eq] at hBuild
    refine ⟨_, hBuild, _, hRead hBuild, fun fdid locale content => ?_⟩
    rw [hSame, ← hOrder, hResolve, firstMatch_eq]

omit h

/-- Rebuilding preserves what ids are resolved to when the file has a record, can be read back and
its order is kept. Without a record nothing is built, and a file that can be read back is preserved
only if its order is kept. -/
theorem resolveById_build {bytes : Bytes} {file : RootFile} (h : parse bytes = .ok file) :
    (placementsOf file.blocks ≠ [] ∧ file.Rebuildable ∧ OrderKept (placementsOf file.blocks) →
      file.Preserved) ∧
    (file.Preserved → placementsOf file.blocks ≠ [] ∧
      (file.Rebuildable → OrderKept (placementsOf file.blocks))) := by
  refine ⟨?_, ?_⟩
  · rintro ⟨hNe, hRebuildable, hOrder⟩
    exact (preserved_iff h hRebuildable).mpr ⟨hNe, hOrder⟩
  · intro hPreserved
    refine ⟨?_, fun hRebuildable => ((preserved_iff h hRebuildable).mp hPreserved).2⟩
    intro hNil
    obtain ⟨bytes', hBuild, -⟩ := hPreserved
    rw [build, fromRootFile_eq, hNil] at hBuild
    cases hBuild

/-- A block with one record of the id 1. -/
def sampleBlock (locale : UInt32) (byte : UInt8) : RootBlock where
  header := { numRecords := 1, contentFlags := 0, localeFlags := locale }
  records := [⟨1, .fill 16 byte, some 0⟩]

theorem storable_sampleBlock (locale : UInt32) (byte : UInt8) :
    (sampleBlock locale byte).Storable .v1 where
  flags := Nat.two_pow_pos 32
  count := rfl
  nonempty := cons_ne_nil _ _
  limit := (by decide : 1 ≤ maxRecords)
  hashes record hRecord := by
    obtain rfl := mem_singleton.mp hRecord
    rfl

/-- A file of the first version with such blocks. -/
def sampleFile (blocks : List RootBlock) : RootFile where
  version := .v1
  header := none
  blocks
  lookups := buildLookups blocks

theorem resolveById_build_sample :
    parse ([sampleBlock 1 7].map (RootBlock.write .v1)).flatten =
      .ok (sampleFile [sampleBlock 1 7]) ∧ (sampleFile [sampleBlock 1 7]).Preserved := by
  have hParse := parse_v1 (cons_ne_nil (sampleBlock 1 7) [])
    fun block hBlock => mem_singleton.mp hBlock ▸ storable_sampleBlock 1 7
  refine ⟨hParse, (resolveById_build hParse).1 ⟨cons_ne_nil _ _, ⟨fun key => ?_, nofun⟩, ?_⟩⟩
  · exact (length_filter_le _ _).trans (by decide : 1 ≤ maxRecords)
  · refine orderKept_iff.mpr fun fdid locale content => ?_
    by_cases hId : (1 : UInt32) = fdid
    · subst hId
      rfl
    · have hNone : recordsOf fdid (placementsOf [sampleBlock 1 7]) = [] :=
        filter_eq_nil_iff.mpr fun placement hPlacement hEq => hId (by
          obtain rfl := mem_singleton.mp hPlacement
          exact of_decide_eq_true hEq)
      rw [hNone]
      rfl

/-- Two records of one id whose blocks change places: the first locale was resolved to the first
record, and is resolved to the second one after rebuilding. -/
theorem resolveById_build_differs :
    parse ([sampleBlock 3 8, sampleBlock 1 7].map (RootBlock.write .v1)).flatten =
      .ok (sampleFile [sampleBlock 3 8, sampleBlock 1 7]) ∧
      ¬ (sampleFile [sampleBlock 3 8, sampleBlock 1 7]).Preserved := by
  have hParse := parse_v1 (cons_ne_nil (sampleBlock 3 8) [sampleBlock 1 7])
    (by
      intro block hBlock
      rcases mem_cons.mp hBlock with rfl | hBlock
      · exact storable_sampleBlock 3 8
      · exact mem_singleton.mp hBlock ▸ storable_sampleBlock 1 7)
  have hRebuildable : (sampleFile [sampleBlock 3 8, sampleBlock 1 7]).Rebuildable := by
    refine ⟨fun key => ?_, nofun⟩
    exact (length_filter_le _ _).trans (by decide : 2 ≤ maxRecords)
  refine ⟨hParse, fun hPreserved => ?_⟩
  have hOrder := orderKept_iff.mp ((preserved_iff hParse hRebuildable).mp hPreserved).2 1 1 0
  exact absurd hOrder (by decide)

end RootFile

end Cascette.Root
