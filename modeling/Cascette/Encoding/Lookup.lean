import Cascette.Encoding.BuilderSpec

/-!
# Looking up keys in a file that was built

A file built from distinct keys, written and parsed again, answers every lookup as the list of
added entries does (`build_lookup`). The counts and sizes must fit the header: a builder without
space for encoding keys, or beyond 32 bits, is not read back (`build_lookup_limits`).
-/

namespace Cascette.Encoding

open Lib EncodingFile List Option UInt32 EncodingHeader

namespace EncodingBuilder

/-! ## Lookups -/

/-- The file answers lookups as the added entries say. -/
structure Answers (builder : EncodingBuilder) (file : EncodingFile) : Prop where
  encodings : ∀ e ∈ builder.ckeyEntries, file.findAllEncodings e.contentKey = .ok e.encodingKeys
  espec : ∀ e ∈ builder.ekeyEntries, file.findEspec e.encodingKey = .ok (some e.espec)
  noEncodings : ∀ k, (∀ e ∈ builder.ckeyEntries, e.contentKey ≠ k) →
    file.findAllEncodings k = .ok []
  noEspec : ∀ k, (∀ e ∈ builder.ekeyEntries, e.encodingKey ≠ k) → file.findEspec k = .ok none

/-- The builder's file is built, written and parsed, and what was parsed answers lookups. -/
def ReadsBack (md5 : Bytes → Key 16) (builder : EncodingBuilder) : Prop :=
  ∃ file bytes parsed, build md5 builder = .ok file ∧ EncodingFile.build md5 file = .ok bytes ∧
    EncodingFile.parse md5 bytes = .ok parsed ∧ builder.Answers parsed

variable {builder : EncodingBuilder} {n : Nat} {md5 : Bytes → Key 16}

theorem Parts.answers (md5 : Bytes → Key 16) {table : ESpecTable}
    {ckeyGroups : List (List CKeyPageEntry)} {ekeyGroups : List (List EKeyPageEntry)}
    (h : builder.Admissible) (hSize : builder.especTableSize < 2 ^ 32)
    (parts : Parts builder table ckeyGroups ekeyGroups) (trailing : Option Text) :
    builder.Answers (withTrailing (fileOf md5 builder table ckeyGroups ekeyGroups) trailing) := by
  set file := withTrailing (fileOf md5 builder table ckeyGroups ekeyGroups) trailing
  have hCkey (k : Key 16) : findEntry CKeyPageEntry.contentKey file.ckeyIndex file.ckeyPages k =
        .ok ((builder.ckeyEntries.find? fun e => e.contentKey = k).map ckeyPageEntry) :=
    findEntry_pages (fun e => (rfl : (ckeyPageEntry e).contentKey = e.contentKey)) h.ckeyDistinct
      parts.ckey.flatten parts.ckey.nonempty k
  have hEkey (k : Key 16) : findEntry EKeyPageEntry.encodingKey file.ekeyIndex file.ekeyPages k =
        .ok ((builder.ekeyEntries.find? fun e => e.encodingKey = k).map (indexedEntry table)) :=
    findEntry_pages (fun e => (rfl : (indexedEntry table e).encodingKey = e.encodingKey))
      h.ekeyDistinct parts.ekey.flatten parts.ekey.nonempty k
  constructor
  · intro e he
    rw [findAllEncodings, hCkey, find?_of_nodup h.ckeyDistinct he]
    rfl
  · intro e he
    rw [findEspec, hEkey, find?_of_nodup h.ekeyDistinct he]
    obtain ⟨i, hi, hLookup⟩ := parts.espec.index e he
    have hBound := index_lt (List.getElem?_eq_some_iff.mp hi).1 fun spec hSpec => by
      obtain ⟨e', he', rfl⟩ := parts.espec.mem spec hSpec
      exact (h.espec e' he').1
    rw [parts.espec.length] at hBound
    have hIndex : (UInt32.ofNat i).toNat = i := toNat_ofNat_of_lt' (show i < 2 ^ 32 by omega)
    simp only [ok_bind, map_some, bind_some, indexedEntry, hLookup,
      getD_some, ESpecTable.get, hIndex]
    exact congrArg Except.ok hi
  · intro k hk
    rw [findAllEncodings, hCkey, find?_eq_none_of_ne hk]
    rfl
  · intro k hk
    rw [findEspec, hEkey, find?_eq_none_of_ne hk]
    rfl

/-- A builder of distinct entries that the format can hold, within the limits of the header, is
written and parsed to a file that finds the added keys and no others. -/
theorem build_lookup (md5 : Bytes → Key 16) (builder : EncodingBuilder) (h : builder.Admissible)
    (hLimits : builder.WithinLimits) : builder.ReadsBack md5 := by
  obtain ⟨table, hTable⟩ := exists_tableOf hLimits.especTable
  obtain ⟨ckeyGroups, hCkey⟩ := exists_ckeyGroups h
  obtain ⟨ekeyGroups, hEkey⟩ := exists_ekeyGroups hTable hLimits.ekeyPageSize
  have parts : Parts builder table ckeyGroups ekeyGroups := ⟨hTable, hCkey, hEkey⟩
  let file := fileOf md5 builder table ckeyGroups ekeyGroups
  have hParsed := parts.parsedFrom md5 h hLimits (trailingBytes builder.trailingEspec)
  refine ⟨file, file.layout table.build (trailingBytes builder.trailingEspec),
    withTrailing file (trailingText (trailingBytes builder.trailingEspec)), ?_, ?_,
    parse_eq_ok_iff.mpr ⟨_, _, rfl, hParsed⟩, parts.answers md5 h hLimits.especTable _⟩
  · exact build_eq_ok_iff.mpr ⟨table, _, _, hTable.built, hCkey.pages, hEkey.pages, rfl⟩
  · exact build_eq hParsed.especLength (hParsed.ckeyPages.imp fun _ _ hRead => hRead.checksum)
      (hParsed.ekeyPages.imp fun _ _ hRead => hRead.checksum)

/-! ## Builders within the limits -/

theorem Grouped.length_le {τ : Type} {pages : Except EncodingError (List (Page τ))}
    {write : τ → Bytes} {pageSize : Nat} {entries : List τ} {groups : List (List τ)}
    (h : Grouped pages write pageSize entries groups) : groups.length ≤ entries.length := by
  rw [← h.flatten]
  have hNonempty := h.nonempty
  clear h
  induction groups with
  | nil => simp
  | cons g groups ih =>
    have hPos := length_pos_iff.mpr (hNonempty g mem_cons_self)
    have hTail := ih fun g' hg' => hNonempty g' (mem_cons_of_mem g hg')
    rw [flatten_cons, length_append, length_cons]
    omega

theorem withinLimits_of_length_lt (h : builder.Admissible) (hPage : builder.ekeyPageSizeKb ≠ 0)
    (hEspec : builder.especTableSize < 2 ^ 32) (hCkey : builder.ckeyEntries.length < 2 ^ 32)
    (hEkey : builder.ekeyEntries.length < 2 ^ 32) :
    builder.WithinLimits where
  ekeyPageSize := hPage
  especTable := hEspec
  ckeyPages := by
    intro pages hPages
    obtain ⟨groups, hGroups⟩ := exists_ckeyGroups h
    have hLength := hGroups.length_le
    rw [hGroups.pages] at hPages
    cases hPages
    rw [length_map, sortedCkeyEntries, length_insertionSort] at hLength
    rw [length_map]
    omega
  ekeyPages := by
    intro table pages hBuilt hPages
    obtain ⟨table', hTable⟩ := exists_tableOf hEspec
    rw [hTable.built] at hBuilt
    cases hBuilt
    obtain ⟨groups, hGroups⟩ := exists_ekeyGroups hTable hPage
    have hLength := hGroups.length_le
    rw [hGroups.pages] at hPages
    cases hPages
    rw [length_map, sortedEkeyEntries, length_insertionSort] at hLength
    rw [length_map]
    omega

/-- The key of sixteen equal bytes. -/
def repeatedKey (b : UInt8) : Key 16 := .fill 16 b

/-- One content key with one encoding key, stored with the given specification. -/
def smallBuilder (espec : Text) (ekeyPageSizeKb : UInt16) : EncodingBuilder :=
  ((new.withPageSizes 4 ekeyPageSizeKb).addCkeyEntry
    { contentKey := repeatedKey 1, fileSize := 1024, encodingKeys := [repeatedKey 2] }).addEkeyEntry
    { encodingKey := repeatedKey 2, espec, fileSize := 512 }

theorem admissible_smallBuilder {espec : Text} (hNe : espec.1 ≠ []) (hNul : 0 ∉ espec.1)
    (ekeyPageSizeKb : UInt16) : (smallBuilder espec ekeyPageSizeKb).Admissible where
  ckeyNonempty := cons_ne_nil _ _
  ekeyNonempty := cons_ne_nil _ _
  ckeyDistinct := nodup_singleton _
  ekeyDistinct := nodup_singleton _
  keyCount e he := by
    rw [mem_singleton.mp he]
    exact ⟨le_rfl, by decide⟩
  ckeyFits e he := by
    rw [mem_singleton.mp he]
    change 1 + 5 + 16 + 16 * 1 ≤ 4 * 1024
    norm_num
  ckeyFileSize e he := by
    rw [mem_singleton.mp he]
    norm_num
  ekeyFileSize e he := by
    rw [mem_singleton.mp he]
    norm_num
  espec e he := by
    rw [mem_singleton.mp he]
    exact ⟨hNe, hNul⟩
  notPadding e he := by
    rw [mem_singleton.mp he]
    have hKey : (repeatedKey 2).1 ≠ replicate 16 0 := by decide
    exact fun hPadding => hKey hPadding.1

theorem especTableSize_smallBuilder (espec : Text) (ekeyPageSizeKb : UInt16) :
    (smallBuilder espec ekeyPageSizeKb).especTableSize = espec.1.length + 1 := by
  simp [especTableSize, smallBuilder, addEkeyEntry, addCkeyEntry, withPageSizes, new]

def zlibSpec : Text := zlibText

theorem admissible_zlibBuilder (ekeyPageSizeKb : UInt16) :
    (smallBuilder zlibSpec ekeyPageSizeKb).Admissible :=
  admissible_smallBuilder (by decide) (by decide) ekeyPageSizeKb

theorem build_lookup_small : (smallBuilder zlibSpec 4).ReadsBack fun _ => repeatedKey 0 := by
  refine build_lookup _ _ (admissible_zlibBuilder 4)
    (withinLimits_of_length_lt (admissible_zlibBuilder 4) (by decide) ?_ ?_ ?_)
  · rw [especTableSize_smallBuilder]
    decide
  · change 1 < 2 ^ 32
    norm_num
  · change 1 < 2 ^ 32
    norm_num

/-! ## Builders beyond the limits -/

theorem write_of_build {file : EncodingFile} {bytes : Bytes}
    (h : EncodingFile.build md5 file = .ok bytes) : ∃ rest, bytes = file.header.write ++ rest := by
  unfold EncodingFile.build at h
  dsimp only at h
  split at h
  · cases h
  · obtain ⟨ckeyIndex, -, h⟩ := bind_eq_ok.mp h
    obtain ⟨ekeyIndex, -, h⟩ := bind_eq_ok.mp h
    cases h
    simp only [append_assoc]
    exact ⟨_, rfl⟩

theorem not_readsBack_of_header
    (h : ∀ file, build md5 builder = .ok file → file.header.validate ≠ .ok ()) :
    ¬ builder.ReadsBack md5 := by
  rintro ⟨file, bytes, parsed, hBuild, hWrite, hParse, -⟩
  obtain ⟨especData, trailing, hLayout, hParsed⟩ := parse_eq_ok_iff.mp hParse
  obtain ⟨rest, rfl⟩ := write_of_build hWrite
  have hMagic : file.header.magic = EncodingHeader.encodingMagic := by
    obtain ⟨table, ckeyPages, ekeyPages, -, -, -, rfl⟩ := build_eq_ok_iff.mp hBuild
    rfl
  have hRead : EncodingHeader.read (file.header.write ++ rest) = .ok (file.header, rest) :=
    read_eq_ok.mpr ⟨hMagic, rfl⟩
  simp only [hLayout, layout, append_assoc,
    read_eq_ok.mpr ⟨hParsed.magic, rfl⟩, Except.ok.injEq, Prod.mk.injEq] at hRead
  exact h file hBuild (hRead.1 ▸ hParsed.valid)

def longSpec (n : Nat) : Text :=
  ⟨List.replicate n 0x7a, validUtf8_of_ascii fun b hb => by
    rw [List.eq_of_mem_replicate hb]
    decide⟩

theorem not_readsBack_longSpec (md5 : Bytes → Key 16) (hn : 2 ^ 32 ≤ n) :
    ¬ (smallBuilder (longSpec n) 4).ReadsBack md5 := by
  rintro ⟨file, bytes, parsed, hBuild, hWrite, -, -⟩
  obtain ⟨table, ckeyPages, ekeyPages, hTable, -, -, rfl⟩ := build_eq_ok_iff.mp hBuild
  have hEntries : table = { entries := [longSpec n] } := by
    cases hTable
    rfl
  have hLength : table.build.length = n + 1 := by
    simp [hEntries, ESpecTable.build, longSpec]
  have hField : (UInt32.ofNat (n + 1)).toNat < 2 ^ 32 := toNat_lt _
  have hCut : table.build.length ≠ (UInt32.ofNat table.build.length).toNat := by
    rw [hLength]
    omega
  simp only [EncodingFile.build, builtFile, ne_eq, hCut, not_false_eq_true, if_true] at hWrite
  cases hWrite

/-- An entry of which a page of 1024 bytes holds one. -/
def crowdedEntry (i : Nat) : CKeyEntryData where
  contentKey := ⟨beBytes 16 i, beBytes_length 16 i⟩
  fileSize := 1024
  encodingKeys := List.replicate 61 (repeatedKey 2)

/-- Content keys on `n` pages. -/
def crowdedBuilder (n : Nat) : EncodingBuilder where
  ckeyEntries := (List.range n).map crowdedEntry
  ekeyEntries := (smallBuilder zlibSpec 4).ekeyEntries
  ckeyPageSizeKb := 1
  ekeyPageSizeKb := 4
  trailingEspec := none

theorem admissible_crowdedBuilder (hPos : n ≠ 0) (hn : n ≤ 256 ^ 16) :
    (crowdedBuilder n).Admissible where
  ckeyNonempty := by simpa [crowdedBuilder] using hPos
  ekeyNonempty := cons_ne_nil _ _
  ckeyDistinct := by
    rw [crowdedBuilder, List.map_map]
    refine Nodup.map_on ?_ nodup_range
    intro i hi j hj hEq
    have hBytes : beBytes 16 i = beBytes 16 j := congrArg Subtype.val hEq
    have hNat := congrArg ofBe hBytes
    rwa [ofBe_beBytes_of_lt ((mem_range.mp hi).trans_le hn),
      ofBe_beBytes_of_lt ((mem_range.mp hj).trans_le hn)] at hNat
  ekeyDistinct := nodup_singleton _
  keyCount e he := by
    obtain ⟨i, -, rfl⟩ := mem_map.mp he
    rw [crowdedEntry, length_replicate]
    norm_num
  ckeyFits e he := by
    obtain ⟨i, -, rfl⟩ := mem_map.mp he
    change 1 + 5 + 16 + 16 * (replicate 61 (repeatedKey 2)).length ≤ 1 * 1024
    norm_num
  ckeyFileSize e he := by
    obtain ⟨i, -, rfl⟩ := mem_map.mp he
    change 1024 < 2 ^ 40
    norm_num
  ekeyFileSize := (admissible_zlibBuilder 4).ekeyFileSize
  espec := (admissible_zlibBuilder 4).espec
  notPadding := (admissible_zlibBuilder 4).notPadding

theorem ckeyPages_length_crowdedBuilder (hPos : n ≠ 0) (hn : n ≤ 256 ^ 16)
    {pages : List (Page CKeyPageEntry)}
    (hPages : (crowdedBuilder n).buildCkeyPages ((crowdedBuilder n).ckeyPageSizeKb.toNat * 1024) =
      .ok pages) :
    pages.length = n := by
  obtain ⟨groups, hGroups⟩ := exists_ckeyGroups (admissible_crowdedBuilder hPos hn)
  rw [hGroups.pages] at hPages
  cases hPages
  have hWidth : ∀ x ∈ groups.flatten, (CKeyPageEntry.write 16 16 x).length = 22 + 16 * 61 := by
    intro x hx
    rw [hGroups.flatten] at hx
    obtain ⟨e, he, rfl⟩ := mem_map.mp hx
    obtain ⟨i, -, rfl⟩ := mem_map.mp (mem_insertionSort.mp he)
    rw [CKeyPageEntry.write_length]
    simp [ckeyPageEntry, crowdedEntry]
  have hSize : (crowdedBuilder n).ckeyPageSizeKb.toNat * 1024 = 1024 := by
    simp [crowdedBuilder]
  have hFits : ∀ g ∈ groups, Fits 1024 (fun x => (CKeyPageEntry.write 16 16 x).length) g := by
    intro g hg
    have hLength := hGroups.fits g hg
    rw [hSize, List.length_flatten, List.map_map] at hLength
    exact ⟨hGroups.nonempty g hg, hLength⟩
  have hAlone := length_of_fits_alone hFits fun x hx y hy => by
    rw [hWidth x hx, hWidth y hy]
    norm_num
  rw [length_map, hAlone, hGroups.flatten, length_map, sortedCkeyEntries, length_insertionSort]
  simp [crowdedBuilder]

/-- A number of pages that is a multiple of `2 ^ 32` is written as zero. -/
theorem not_readsBack_crowdedBuilder (md5 : Bytes → Key 16) (hPos : n ≠ 0) (hn : n ≤ 256 ^ 16)
    (hMod : n % 2 ^ 32 = 0) : ¬ (crowdedBuilder n).ReadsBack md5 := by
  refine not_readsBack_of_header fun file hBuild => ?_
  obtain ⟨table, ckeyPages, ekeyPages, -, hCkey, -, rfl⟩ := build_eq_ok_iff.mp hBuild
  have hCount : UInt32.ofNat ckeyPages.length = 0 := by
    apply UInt32.toNat_inj.mp
    rw [ckeyPages_length_crowdedBuilder hPos hn hCkey, toNat_ofNat']
    exact hMod
  simp [EncodingHeader.validate, builtFile, hCount, crowdedBuilder]

theorem not_readsBack_without_ekeyPages (md5 : Bytes → Key 16) :
    ¬ (smallBuilder zlibSpec 0).ReadsBack md5 := by
  refine not_readsBack_of_header fun file hBuild => ?_
  obtain ⟨table, ckeyPages, ekeyPages, -, -, -, rfl⟩ := build_eq_ok_iff.mp hBuild
  simp [EncodingHeader.validate, builtFile, smallBuilder, addEkeyEntry, addCkeyEntry,
    withPageSizes, new]

/-- Builders that the format can hold but that are not read back, whatever the digest function:
without space for encoding keys, with a table of specifications beyond 32 bits, and with as many
pages as 32 bits cannot count. -/
theorem build_lookup_limits :
    (∃ builder : EncodingBuilder, builder.Admissible ∧ builder.ekeyPageSizeKb = 0 ∧
        ∀ md5, ¬ builder.ReadsBack md5) ∧
      (∃ builder : EncodingBuilder, builder.Admissible ∧ 2 ^ 32 ≤ builder.especTableSize ∧
        ∀ md5, ¬ builder.ReadsBack md5) ∧
      ∃ builder : EncodingBuilder, builder.Admissible ∧
        (∀ pages, builder.buildCkeyPages (builder.ckeyPageSizeKb.toNat * 1024) = .ok pages →
          pages.length = 2 ^ 32) ∧
        ∀ md5, ¬ builder.ReadsBack md5 := by
  refine ⟨⟨smallBuilder zlibSpec 0, admissible_zlibBuilder 0, rfl,
    not_readsBack_without_ekeyPages⟩, ?_, ?_⟩
  · generalize hn : (2 ^ 32 : Nat) = n
    have hNe : (longSpec n).1 ≠ [] := by
      rw [← length_pos_iff, longSpec, length_replicate]
      omega
    have hNul : 0 ∉ (longSpec n).1 := by
      intro hMem
      exact absurd (eq_of_mem_replicate hMem) (by decide)
    refine ⟨smallBuilder (longSpec n) 4, admissible_smallBuilder hNe hNul 4, ?_,
      fun md5 => not_readsBack_longSpec md5 hn.le⟩
    rw [especTableSize_smallBuilder, longSpec, length_replicate]
    omega
  · generalize hn : (2 ^ 32 : Nat) = n
    have hPos : n ≠ 0 := by omega
    have hLe : n ≤ 256 ^ 16 := by
      rw [← hn]
      norm_num
    refine ⟨crowdedBuilder n, admissible_crowdedBuilder hPos hLe,
      fun pages hPages => ckeyPages_length_crowdedBuilder hPos hLe hPages,
      fun md5 => not_readsBack_crowdedBuilder md5 hPos hLe ?_⟩
    rw [← hn, Nat.mod_self]

end EncodingBuilder

end Cascette.Encoding
