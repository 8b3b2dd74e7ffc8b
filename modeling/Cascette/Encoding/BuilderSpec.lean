import Cascette.Encoding.Builder
import Cascette.Encoding.Rebuild
import Cascette.Lib.Merge

/-!
# The file that a builder writes

The conditions under which a builder's entries can be written (`Admissible`) and its counts and
sizes fit the header (`WithinLimits`). Under them the builder's table and pages are what
`Parts` says, a lookup in the pages is a scan of the added entries (`findEntry_pages`), and the
written file is read back (`Parts.parsedFrom`).
-/

namespace Cascette.Encoding

open Lib EncodingFile List UInt32

variable {α τ : Type}

namespace EncodingBuilder

/-! ## Pages of one kind -/

def pageOf (write : τ → Bytes) (pageSize : Nat) (entries : List τ) : Page τ :=
  { entries, originalData := padTo pageSize (entries.map write).flatten }

section Pages

variable {md5 : Bytes → Key 16} {keyOf : τ → Key 16} {write : τ → Bytes} {pageSize : Nat}
  {groups : List (List τ)}

theorem buildIndex_pageRead {pageEntries : Bytes → Except EncodingError (List τ)}
    (hLength : ∀ g ∈ groups, (g.map write).flatten.length ≤ pageSize)
    (hRead : ∀ g ∈ groups, pageEntries (padTo pageSize (g.map write).flatten) = .ok g) :
    Forall₂ (PageRead md5 pageSize pageEntries)
      (buildIndex md5 keyOf (groups.map (pageOf write pageSize)))
      (groups.map (pageOf write pageSize)) := by
  rw [buildIndex, forall₂_map_left_iff, forall₂_same]
  intro page hPage
  obtain ⟨g, hg, rfl⟩ := mem_map.mp hPage
  exact ⟨padTo_length (hLength g hg), rfl, hRead g hg⟩

theorem buildIndex_indexedBy (hNe : ∀ g ∈ groups, g ≠ []) :
    Forall₂ (IndexedBy keyOf IndexEntry.firstKey)
      (buildIndex md5 keyOf (groups.map (pageOf write pageSize))) groups := by
  rw [buildIndex, List.map_map, forall₂_map_left_iff, forall₂_same]
  intro g hg
  cases g with
  | nil => exact absurd rfl (hNe _ hg)
  | cons x rest => exact ⟨x, rest, rfl, rfl⟩

/-- A lookup in the pages of the sorted entries is a scan of the entries as they were added. -/
theorem findEntry_pages {dataKey : α → Key 16} {f : α → τ} (hKey : ∀ a, keyOf (f a) = dataKey a)
    {xs : List α} (hDistinct : (xs.map dataKey).Nodup)
    (hFlatten : groups.flatten = (xs.insertionSort fun a b => dataKey a ≤ dataKey b).map f)
    (hNe : ∀ g ∈ groups, g ≠ []) (k : Key 16) :
    findEntry keyOf (buildIndex md5 keyOf (groups.map (pageOf write pageSize)))
        (groups.map (pageOf write pageSize)) k =
      .ok ((xs.find? fun a => dataKey a = k).map f) := by
  have hSorted : groups.flatten.Pairwise fun a b => keyOf a < keyOf b := by
    rw [hFlatten, pairwise_map]
    exact (insertionSort_strict hDistinct).imp fun h => by simpa only [hKey] using h
  have hScan : groups.flatten.find? (fun x => keyOf x = k) =
      (xs.find? fun a => dataKey a = k).map f := by
    rw [hFlatten, find?_map]
    have hPred : ((fun x => decide (keyOf x = k)) ∘ f) = fun a => decide (dataKey a = k) := by
      funext a
      simp only [Function.comp_apply, hKey]
    rw [hPred, find?_eq_of_perm (perm_insertionSort _ xs) hDistinct]
  have hIndexed : Forall₂ (IndexedBy keyOf IndexEntry.firstKey)
      (buildIndex md5 keyOf (groups.map (pageOf write pageSize))) groups :=
    buildIndex_indexedBy hNe
  rw [← hScan, findEntry]
  rcases find?_page hIndexed hSorted k with ⟨hZero, hNone⟩ | hPage
  · rw [if_pos hZero, hNone]
  · obtain ⟨p, g, hPoint, hGroup, hFind⟩ := hPage
    have hGet : getAt (groups.map (pageOf write pageSize)) p = .ok (pageOf write pageSize g) := by
      simp only [getAt, getElem?_map, hGroup, Option.map_some]
    simp only [hPoint, Nat.add_one_ne_zero, if_false, Nat.add_sub_cancel, hGet, ok_bind, pageOf,
      hFind]

end Pages

/-! ## What the format can hold -/

/-- Distinct keys, entries that fit a page and are not taken for padding, and specifications that
can be terminated by a NUL byte. -/
structure Admissible (builder : EncodingBuilder) : Prop where
  ckeyNonempty : builder.ckeyEntries ≠ []
  ekeyNonempty : builder.ekeyEntries ≠ []
  ckeyDistinct : (builder.ckeyEntries.map CKeyEntryData.contentKey).Nodup
  ekeyDistinct : (builder.ekeyEntries.map EKeyEntryData.encodingKey).Nodup
  keyCount : ∀ e ∈ builder.ckeyEntries, 1 ≤ e.encodingKeys.length ∧ e.encodingKeys.length ≤ 255
  ckeyFits : ∀ e ∈ builder.ckeyEntries,
    1 + 5 + 16 + 16 * e.encodingKeys.length ≤ builder.ckeyPageSizeKb.toNat * 1024
  ckeyFileSize : ∀ e ∈ builder.ckeyEntries, e.fileSize < 2 ^ 40
  ekeyFileSize : ∀ e ∈ builder.ekeyEntries, e.fileSize < 2 ^ 40
  espec : ∀ e ∈ builder.ekeyEntries, e.espec.1 ≠ [] ∧ 0 ∉ e.espec.1
  /-- The specification of the first entry has index zero. -/
  notPadding : ∀ e ∈ builder.ekeyEntries,
    ¬ (e.encodingKey.1 = List.replicate 16 0 ∧
      builder.ekeyEntries.head?.map EKeyEntryData.espec = some e.espec)

/-- The size of the ESpec table: every specification once, with its NUL byte. -/
def especTableSize (builder : EncodingBuilder) : Nat :=
  ((builder.ekeyEntries.map EKeyEntryData.espec).dedup.map fun spec => spec.1.length + 1).sum

/-- The counts and sizes fit the fields of the header, and encoding keys have pages at all. -/
structure WithinLimits (builder : EncodingBuilder) : Prop where
  ekeyPageSize : builder.ekeyPageSizeKb ≠ 0
  especTable : builder.especTableSize < 2 ^ 32
  ckeyPages : ∀ pages, builder.buildCkeyPages (builder.ckeyPageSizeKb.toNat * 1024) = .ok pages →
    pages.length < 2 ^ 32
  ekeyPages : ∀ table pages, builder.buildEspecTable = .ok table →
    builder.buildEkeyPages (builder.ekeyPageSizeKb.toNat * 1024) table = .ok pages →
    pages.length < 2 ^ 32

/-! ## The pages of a builder -/

/-- The pages hold consecutive groups of the entries, each of which fits a page. -/
structure Grouped (pages : Except EncodingError (List (Page τ))) (write : τ → Bytes)
    (pageSize : Nat) (entries : List τ) (groups : List (List τ)) : Prop where
  pages : pages = .ok (groups.map (pageOf write pageSize))
  flatten : groups.flatten = entries
  nonempty : ∀ g ∈ groups, g ≠ []
  fits : ∀ g ∈ groups, (g.map write).flatten.length ≤ pageSize

variable {f : α → τ} {xs : List α} {write : τ → Bytes} {pageSize : Nat}

theorem packPages_grouped {size : α → Nat} {convert : α → Except EncodingError τ}
    (hConvert : ∀ a ∈ xs, convert a = .ok (f a))
    (hWidth : ∀ a ∈ xs, (write (f a)).length = size a) (hFits : ∀ a ∈ xs, size a ≤ pageSize) :
    ∃ groups, Grouped (packPages pageSize size convert (pageOf write pageSize) xs) write pageSize
      (xs.map f) groups := by
  obtain ⟨groups, hPages, hFlatten, hGroups⟩ :=
    packPages_spec (fun x => (write x).length) (pageOf write pageSize) hConvert hWidth hFits
  refine ⟨groups, hPages, hFlatten, fun g hg => (hGroups g hg).1, fun g hg => ?_⟩
  rw [List.length_flatten, List.map_map]
  exact (hGroups g hg).2

variable {builder : EncodingBuilder} {table : ESpecTable} {groups : List (List τ)} {p : τ → Prop}

theorem exists_ckeyGroups (h : builder.Admissible) :
    ∃ groups, Grouped (builder.buildCkeyPages (builder.ckeyPageSizeKb.toNat * 1024))
      (CKeyPageEntry.write 16 16) (builder.ckeyPageSizeKb.toNat * 1024)
      (builder.sortedCkeyEntries.map ckeyPageEntry) groups :=
  packPages_grouped (fun _ _ => rfl) (fun e _ => (ckeyPageEntry e).write_length)
    fun e he => h.ckeyFits e (mem_insertionSort.mp he)

/-- The page entry of an encoding key, with the index of its specification. -/
def indexedEntry (table : ESpecTable) (entry : EKeyEntryData) : EKeyPageEntry where
  encodingKey := entry.encodingKey
  especIndex := ((especIndices table).lookup entry.espec).getD 0
  fileSize := entry.fileSize

/-- The table of a builder: every specification is at the index its entries store. -/
structure TableOf (builder : EncodingBuilder) (table : ESpecTable) : Prop where
  built : builder.buildEspecTable = .ok table
  length : table.build.length = builder.especTableSize
  mem : ∀ spec ∈ table.entries, ∃ e ∈ builder.ekeyEntries, e.espec = spec
  index : ∀ e ∈ builder.ekeyEntries, ∃ i, table.entries[i]? = some e.espec ∧
    (especIndices table).lookup e.espec = some (UInt32.ofNat i)
  first : table.entries.head? = builder.ekeyEntries.head?.map EKeyEntryData.espec

theorem length_dedup_lt (h : builder.especTableSize < 2 ^ 32) :
    (builder.ekeyEntries.map EKeyEntryData.espec).dedup.length < 2 ^ 32 := by
  refine lt_of_le_of_lt ?_ h
  rw [especTableSize]
  generalize (builder.ekeyEntries.map EKeyEntryData.espec).dedup = specs
  induction specs with
  | nil => rfl
  | cons spec specs ih =>
    simp only [length_cons, map_cons, sum_cons]
    omega

theorem exists_tableOf (h : builder.especTableSize < 2 ^ 32) : ∃ table, TableOf builder table := by
  obtain ⟨table, hBuilt, hPerm, hFirst⟩ := buildEspecTable_spec (length_dedup_lt h)
  have hNodup : table.entries.Nodup := hPerm.nodup_iff.mpr (nodup_dedup _)
  have hMem (spec : Text) : spec ∈ table.entries ↔ ∃ e ∈ builder.ekeyEntries, e.espec = spec := by
    rw [hPerm.mem_iff, mem_dedup, mem_map]
  refine ⟨table, hBuilt, ?_, fun spec hSpec => (hMem spec).mp hSpec, fun e he => ?_, hFirst⟩
  · have hLengths : (table.entries.map fun spec => spec.1 ++ [0]).map List.length =
        table.entries.map fun spec => spec.1.length + 1 := by
      simp
    rw [ESpecTable.build, List.length_flatten, hLengths]
    exact (hPerm.map _).sum_eq
  · obtain ⟨i, hi⟩ := mem_iff_getElem?.mp ((hMem e.espec).mpr ⟨e, he, rfl⟩)
    exact ⟨i, hi, lookup_especIndices hNodup hi⟩

theorem exists_ekeyGroups (hTable : TableOf builder table) (hSize : builder.ekeyPageSizeKb ≠ 0) :
    ∃ groups, Grouped (builder.buildEkeyPages (builder.ekeyPageSizeKb.toNat * 1024) table)
      (EKeyPageEntry.write 16) (builder.ekeyPageSizeKb.toNat * 1024)
      (builder.sortedEkeyEntries.map (indexedEntry table)) groups := by
  refine packPages_grouped (fun e he => ?_) (fun e _ => (indexedEntry table e).write_length)
    fun e _ => ?_
  · obtain ⟨i, -, hLookup⟩ := hTable.index e (mem_insertionSort.mp he)
    simp only [ekeyPageEntry, indexedEntry, hLookup, Option.getD_some]
  · have hPos : builder.ekeyPageSizeKb.toNat ≠ 0 := fun hZero => hSize (UInt16.toNat_inj.mp hZero)
    omega

/-! ## The file that is read back -/

theorem storable_ckeyPageEntry (h : builder.Admissible) {e : CKeyEntryData}
    (he : e ∈ builder.ckeyEntries) : (ckeyPageEntry e).Storable where
  keyCount := by
    have hCount := (h.keyCount e he).2
    exact UInt8.toNat_ofNat_of_lt' (show e.encodingKeys.length < 2 ^ 8 by omega)
  encodingKeys := length_pos_iff.mp (h.keyCount e he).1
  fileSize := h.ckeyFileSize e he

theorem index_lt {i : Nat} (hi : i < table.entries.length)
    (hNe : ∀ spec ∈ table.entries, spec.1 ≠ []) : 2 * i < table.build.length := by
  obtain ⟨specs⟩ := table
  have hTwo : 2 * specs.length ≤ (ESpecTable.build ⟨specs⟩).length := by
    clear hi
    induction specs with
    | nil => simp
    | cons spec specs ih =>
      have hPos := length_pos_iff.mpr (hNe spec mem_cons_self)
      have hTail := ih fun s hs => hNe s (mem_cons_of_mem spec hs)
      simp only [ESpecTable.build, map_cons, flatten_cons, length_append,
        length_cons, length_nil] at hTail ⊢
      omega
  simp only at hi
  omega

theorem storable_indexedEntry (h : builder.Admissible) (hTable : TableOf builder table)
    (hSize : builder.especTableSize < 2 ^ 32) {e : EKeyEntryData} (he : e ∈ builder.ekeyEntries) :
    (indexedEntry table e).Storable where
  notPadding := by
    obtain ⟨i, hi, hLookup⟩ := hTable.index e he
    have hNe : ∀ spec ∈ table.entries, spec.1 ≠ [] := by
      intro spec hSpec
      obtain ⟨e', he', rfl⟩ := hTable.mem spec hSpec
      exact (h.espec e' he').1
    have hBound := index_lt (List.getElem?_eq_some_iff.mp hi).1 hNe
    rw [hTable.length] at hBound
    have hIndex : (UInt32.ofNat i).toNat = i := toNat_ofNat_of_lt' (show i < 2 ^ 32 by omega)
    have hSentinel : UInt32.ofNat i ≠ 0xffffffff := by
      intro hEq
      rw [hEq] at hIndex
      have : (0xffffffff : UInt32).toNat = 4294967295 := rfl
      omega
    simp only [EKeyPageEntry.isPadding, indexedEntry, hLookup, Option.getD_some, hSentinel,
      decide_false, Bool.false_or, Bool.and_eq_false_imp, decide_eq_true_eq]
    -- index zero belongs to the specification of the first entry
    intro hZero
    rw [hZero] at hIndex
    have hFirst := hTable.first
    rw [head?_eq_getElem?, show 0 = i from hIndex, hi] at hFirst
    by_contra hAll
    refine h.notPadding e he ⟨?_, hFirst.symm⟩
    rw [Bool.not_eq_false, all_eq_true] at hAll
    exact eq_replicate_iff.mpr ⟨e.encodingKey.2, fun b hb => by simpa using hAll b hb⟩
  fileSize := h.ekeyFileSize e he

theorem build_eq_ok_iff {md5 : Bytes → Key 16} {file : EncodingFile} :
    build md5 builder = .ok file ↔
      ∃ table ckeyPages ekeyPages, builder.buildEspecTable = .ok table ∧
        builder.buildCkeyPages (builder.ckeyPageSizeKb.toNat * 1024) = .ok ckeyPages ∧
        builder.buildEkeyPages (builder.ekeyPageSizeKb.toNat * 1024) table = .ok ekeyPages ∧
        file = builtFile md5 builder table ckeyPages ekeyPages := by
  simp only [build, bind_eq_ok, mapError_eq_ok, Except.ok.injEq]
  constructor
  · rintro ⟨table, hTable, ckeyPages, hCkey, ekeyPages, hEkey, rfl⟩
    exact ⟨table, ckeyPages, ekeyPages, hTable, hCkey, hEkey, rfl⟩
  · rintro ⟨table, ckeyPages, ekeyPages, hTable, hCkey, hEkey, rfl⟩
    exact ⟨table, hTable, ckeyPages, hCkey, ekeyPages, hEkey, rfl⟩

/-! ## Whole pages -/

theorem mem_group (hFlatten : groups.flatten = xs.map f) (h : ∀ a ∈ xs, p (f a)) :
    ∀ g ∈ groups, ∀ x ∈ g, p x := by
  intro g hg x hx
  have hMem : x ∈ xs.map f := hFlatten ▸ mem_flatten.mpr ⟨g, hg, hx⟩
  obtain ⟨a, ha, rfl⟩ := mem_map.mp hMem
  exact h a ha

section PageSizes

variable {size : α → Nat} {convert : α → Except EncodingError τ} {f : α → τ}
  {write : τ → Bytes} {pageSize : Nat} {xs : List α} {pages : List (Page τ)}
  (hPages : packPages pageSize size convert (pageOf write pageSize) xs = .ok pages)
  (hConvert : ∀ a x, convert a = .ok x → x = f a)

include hPages hConvert

theorem exists_groups : ∃ groups : List (List τ),
    pages = groups.map (pageOf write pageSize) ∧ groups.flatten = xs.map f ∧
      ∀ a ∈ xs, convert a = .ok (f a) := by
  obtain ⟨groups, hGroups, hAll⟩ := packPages_ok hPages
  refine ⟨groups, hGroups, ?_, fun a ha => ?_⟩
  · rw [eq_comm, ← forall₂_eq_eq_eq, forall₂_map_left_iff]
    exact hAll.imp fun a x hx => (hConvert a x hx).symm
  · obtain ⟨x, -, hx⟩ := forall₂_mem_left hAll ha
    rw [hx, hConvert a x hx]

theorem forall_pages_iff : (∀ page ∈ pages, ∀ x ∈ page.entries, p x) ↔ ∀ a ∈ xs, p (f a) := by
  obtain ⟨groups, rfl, hFlatten, -⟩ := exists_groups hPages hConvert
  constructor
  · intro h a ha
    have hMem : f a ∈ groups.flatten := hFlatten ▸ mem_map_of_mem ha
    obtain ⟨g, hg, hx⟩ := mem_flatten.mp hMem
    exact h _ (mem_map_of_mem hg) _ hx
  · intro h page hPage x hx
    obtain ⟨g, hg, rfl⟩ := mem_map.mp hPage
    exact mem_group hFlatten h g hg x hx

/-- The pages have the page size just if every entry fits a page: a larger entry has a longer
page of its own. -/
theorem length_pages_iff (hWidth : ∀ a, (write (f a)).length = size a) :
    (∀ page ∈ pages, page.originalData.length = pageSize) ↔ ∀ a ∈ xs, size a ≤ pageSize := by
  obtain ⟨groups, rfl, hFlatten, hOk⟩ := exists_groups hPages hConvert
  constructor
  · intro h a ha
    have hMem : f a ∈ groups.flatten := hFlatten ▸ mem_map_of_mem ha
    obtain ⟨g, hg, hx⟩ := mem_flatten.mp hMem
    have hLength := h _ (mem_map_of_mem hg)
    have hEntry := (sublist_flatten_of_mem (mem_map_of_mem (f := write) hx)).length_le
    simp only [pageOf, padTo, length_append, length_replicate] at hLength
    rw [hWidth] at hEntry
    omega
  · intro h page hPage
    obtain ⟨groups', hGrouped⟩ := packPages_grouped hOk (fun a _ => hWidth a) h
    rw [hGrouped.pages, Except.ok.injEq] at hPages
    rw [← hPages] at hPage
    obtain ⟨g, hg, rfl⟩ := mem_map.mp hPage
    exact padTo_length (hGrouped.fits g hg)

end PageSizes

/-- The pages of a built file have the configured sizes and the entries their own key counts just
if every content key entry fits a page and counts its keys in a byte. -/
theorem pages_exact_iff {md5 : Bytes → Key 16} {file : EncodingFile}
    (h : build md5 builder = .ok file) :
    ((∀ page ∈ file.ckeyPages, page.originalData.length = builder.ckeyPageSizeKb.toNat * 1024) ∧
        (∀ page ∈ file.ekeyPages, page.originalData.length = builder.ekeyPageSizeKb.toNat * 1024) ∧
        ∀ page ∈ file.ckeyPages, ∀ e ∈ page.entries, e.keyCount.toNat = e.encodingKeys.length) ↔
      (∀ e ∈ builder.ckeyEntries,
        1 + 5 + 16 + 16 * e.encodingKeys.length ≤ builder.ckeyPageSizeKb.toNat * 1024 ∧
          e.encodingKeys.length ≤ 255) ∧
      (builder.ekeyEntries = [] ∨ builder.ekeyPageSizeKb ≠ 0) := by
  obtain ⟨table, ckeyPages, ekeyPages, -, hCkey, hEkey, rfl⟩ := build_eq_ok_iff.mp h
  have hCkeyEntry : ∀ e x, (.ok (ckeyPageEntry e) : Except EncodingError _) = .ok x →
      x = ckeyPageEntry e := fun e x hx => (Except.ok.inj hx).symm
  have hEkeyEntry : ∀ e x, ekeyPageEntry (especIndices table) e = .ok x →
      x = indexedEntry table e := by
    intro e x hx
    unfold ekeyPageEntry at hx
    split at hx
    · cases hx
    next index hLookup =>
      cases hx
      simp only [indexedEntry, hLookup, Option.getD_some]
  have hCount (n : Nat) : (UInt8.ofNat n).toNat = n ↔ n ≤ 255 := by
    rw [UInt8.toNat_ofNat']
    omega
  have hEkeyFits : (∀ e ∈ builder.sortedEkeyEntries,
      16 + 4 + 5 ≤ builder.ekeyPageSizeKb.toNat * 1024) ↔
      builder.ekeyEntries = [] ∨ builder.ekeyPageSizeKb ≠ 0 := by
    rw [ne_eq, ← UInt16.toNat_inj, eq_nil_iff_forall_not_mem]
    simp only [sortedEkeyEntries, mem_insertionSort, UInt16.toNat_zero]
    by_cases hZero : builder.ekeyPageSizeKb.toNat = 0
    · simp [hZero]
    · simp only [hZero, not_false_eq_true, or_true, iff_true]
      omega
  simp only [builtFile]
  rw [length_pages_iff hCkey hCkeyEntry fun e => (ckeyPageEntry e).write_length,
    length_pages_iff hEkey hEkeyEntry fun e => (indexedEntry table e).write_length,
    forall_pages_iff hCkey hCkeyEntry, hEkeyFits]
  simp only [sortedCkeyEntries, mem_insertionSort, ckeyPageEntry, hCount]
  constructor
  · rintro ⟨hFits, hEkeys, hKeys⟩
    exact ⟨fun e he => ⟨hFits e he, hKeys e he⟩, hEkeys⟩
  · rintro ⟨hEntries, hEkeys⟩
    exact ⟨fun e he => (hEntries e he).1, hEkeys, fun e he => (hEntries e he).2⟩

theorem pages_exact_sample :
    let builder := new.addCkeyEntry ⟨.fill 16 1, 5, [.fill 16 2, .fill 16 3]⟩
    ∃ file, build (fun _ => .fill 16 0) builder = .ok file ∧
      (∀ page ∈ file.ckeyPages, page.originalData.length = builder.ckeyPageSizeKb.toNat * 1024) ∧
      (∀ page ∈ file.ekeyPages, page.originalData.length = builder.ekeyPageSizeKb.toNat * 1024) ∧
      ∀ page ∈ file.ckeyPages, ∀ e ∈ page.entries, e.keyCount.toNat = e.encodingKeys.length := by
  intro builder
  have hBuild : build (fun _ => .fill 16 0) builder = .ok _ := rfl
  exact ⟨_, hBuild, (pages_exact_iff hBuild).mpr (by decide +kernel)⟩

/-- At the default page size an entry of 256 keys makes a page of 4118 bytes, on which it is
written with a key count of zero. -/
theorem pages_exact_refuted : ∃ file,
    build (fun _ => .fill 16 0)
        (new.addCkeyEntry ⟨.fill 16 1, 5, List.replicate 256 (.fill 16 2)⟩) = .ok file ∧
      (file.ckeyPages.map fun page => page.originalData.length) = [4118] ∧
      (file.ckeyPages.map fun page =>
        page.entries.map fun e => (e.keyCount.toNat, e.encodingKeys.length)) = [[(0, 256)]] :=
  ⟨_, rfl, by decide +kernel, by decide +kernel⟩

theorem ofNat_ne_zero {n : Nat} (hPos : n ≠ 0) (hLt : n < 2 ^ 32) : UInt32.ofNat n ≠ 0 := by
  intro hZero
  have hToNat : (UInt32.ofNat n).toNat = n := toNat_ofNat_of_lt' hLt
  rw [hZero] at hToNat
  exact hPos hToNat.symm

section ReadBack

variable {md5 : Bytes → Key 16} {builder : EncodingBuilder} {table : ESpecTable}
  {ckeyGroups : List (List CKeyPageEntry)} {ekeyGroups : List (List EKeyPageEntry)}

/-- The table and the groups of entries that the builder's pages hold. -/
structure Parts (builder : EncodingBuilder) (table : ESpecTable)
    (ckeyGroups : List (List CKeyPageEntry)) (ekeyGroups : List (List EKeyPageEntry)) : Prop where
  espec : TableOf builder table
  ckey : Grouped (builder.buildCkeyPages (builder.ckeyPageSizeKb.toNat * 1024))
    (CKeyPageEntry.write 16 16) (builder.ckeyPageSizeKb.toNat * 1024)
    (builder.sortedCkeyEntries.map ckeyPageEntry) ckeyGroups
  ekey : Grouped (builder.buildEkeyPages (builder.ekeyPageSizeKb.toNat * 1024) table)
    (EKeyPageEntry.write 16) (builder.ekeyPageSizeKb.toNat * 1024)
    (builder.sortedEkeyEntries.map (indexedEntry table)) ekeyGroups

/-- The built file of these parts. -/
def fileOf (md5 : Bytes → Key 16) (builder : EncodingBuilder) (table : ESpecTable)
    (ckeyGroups : List (List CKeyPageEntry)) (ekeyGroups : List (List EKeyPageEntry)) :
    EncodingFile :=
  builtFile md5 builder table
    (ckeyGroups.map (pageOf (CKeyPageEntry.write 16 16) (builder.ckeyPageSizeKb.toNat * 1024)))
    (ekeyGroups.map (pageOf (EKeyPageEntry.write 16) (builder.ekeyPageSizeKb.toNat * 1024)))

theorem map_insertionSort_ne_nil {r : α → α → Prop} [DecidableRel r]
    (h : xs ≠ []) : (xs.insertionSort r).map f ≠ [] := by
  rw [← length_pos_iff, length_map, length_insertionSort]
  exact length_pos_iff.mpr h

theorem Grouped.groups_ne_nil {pages : Except EncodingError (List (Page τ))} {entries : List τ}
    (h : Grouped pages write pageSize entries groups) (hNe : entries ≠ []) :
    groups.length ≠ 0 := by
  intro hZero
  have hFlatten := h.flatten
  rw [length_eq_zero_iff.mp hZero] at hFlatten
  exact hNe hFlatten.symm

theorem Parts.header_valid (md5 : Bytes → Key 16) (h : builder.Admissible)
    (hLimits : builder.WithinLimits) (parts : Parts builder table ckeyGroups ekeyGroups) :
    (fileOf md5 builder table ckeyGroups ekeyGroups).header.validate = .ok () := by
  obtain ⟨e, he⟩ := exists_mem_of_ne_nil _ h.ckeyNonempty
  have hCkeySize : builder.ckeyPageSizeKb ≠ 0 := by
    intro hZero
    have hFits := h.ckeyFits e he
    rw [hZero] at hFits
    simp at hFits
  obtain ⟨e', he'⟩ := exists_mem_of_ne_nil _ h.ekeyNonempty
  have hCkeyCount := hLimits.ckeyPages _ parts.ckey.pages
  have hEkeyCount := hLimits.ekeyPages _ _ parts.espec.built parts.ekey.pages
  rw [length_map] at hCkeyCount hEkeyCount
  have hCkeyPos := ofNat_ne_zero
    (parts.ckey.groups_ne_nil (map_insertionSort_ne_nil h.ckeyNonempty)) hCkeyCount
  have hEkeyPos := ofNat_ne_zero
    (parts.ekey.groups_ne_nil (map_insertionSort_ne_nil h.ekeyNonempty)) hEkeyCount
  -- the first specification takes space in the table
  have hEspecPos : table.build.length ≠ 0 := by
    obtain ⟨i, hi, -⟩ := parts.espec.index e' he'
    have hBound := index_lt (List.getElem?_eq_some_iff.mp hi).1 fun spec hSpec => by
      obtain ⟨e'', he'', rfl⟩ := parts.espec.mem spec hSpec
      exact (h.espec e'' he'').1
    omega
  have hEspec := ofNat_ne_zero hEspecPos (parts.espec.length ▸ hLimits.especTable)
  simp [EncodingHeader.validate, fileOf, builtFile, hCkeySize, hLimits.ekeyPageSize, hCkeyPos,
    hEkeyPos, hEspec]

/-- The file with another specification of its own. -/
def withTrailing (file : EncodingFile) (trailingEspec : Option Text) : EncodingFile :=
  { file with trailingEspec }

theorem Parts.parsedFrom (md5 : Bytes → Key 16) (h : builder.Admissible)
    (hLimits : builder.WithinLimits) (parts : Parts builder table ckeyGroups ekeyGroups)
    (trailing : Bytes) :
    (withTrailing (fileOf md5 builder table ckeyGroups ekeyGroups)
      (trailingText trailing)).ParsedFrom md5 table.build trailing where
  magic := rfl
  valid := parts.header_valid md5 h hLimits
  especLength := (toNat_ofNat_of_lt' (parts.espec.length ▸ hLimits.especTable)).symm
  espec := ESpecTable.parse_build fun spec hSpec => by
    obtain ⟨e, he, rfl⟩ := parts.espec.mem spec hSpec
    exact h.espec e he
  ckeyCount := by
    have hCount := hLimits.ckeyPages _ parts.ckey.pages
    simp only [withTrailing, fileOf, builtFile, buildIndex, length_map] at hCount ⊢
    exact (toNat_ofNat_of_lt' hCount).symm
  ckeyPages := buildIndex_pageRead parts.ckey.fits fun g hg =>
    ckeyPageEntries_padTo rfl rfl (mem_group parts.ckey.flatten
      (fun e he => storable_ckeyPageEntry h (mem_insertionSort.mp he)) g hg) _
  ekeyCount := by
    have hCount := hLimits.ekeyPages _ _ parts.espec.built parts.ekey.pages
    simp only [withTrailing, fileOf, builtFile, buildIndex, length_map] at hCount ⊢
    exact (toNat_ofNat_of_lt' hCount).symm
  ekeyPages := buildIndex_pageRead parts.ekey.fits fun g hg =>
    ekeyPageEntries_padTo rfl (mem_group parts.ekey.flatten
      (fun e he => storable_indexedEntry h parts.espec hLimits.especTable
        (mem_insertionSort.mp he)) g hg) _
  trailing := rfl

end ReadBack

end EncodingBuilder

end Cascette.Encoding
