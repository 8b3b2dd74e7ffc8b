import Cascette.Encoding.File
import Cascette.Lib.Paging

/-!
# Building an encoding file

`EncodingBuilder.build` collects the distinct specifications of the encoding key entries into a
table, sorts the entries of both kinds by key, packs them greedily into pages padded with zeros,
and indexes every page by its first key and its checksum. The counts and sizes of the header are
32 bits wide and are cut off there.
-/

namespace Cascette.Encoding

open Lib List

structure CKeyEntryData where
  contentKey : Key 16
  fileSize : Nat
  encodingKeys : List (Key 16)
deriving DecidableEq

structure EKeyEntryData where
  encodingKey : Key 16
  espec : Text
  fileSize : Nat
deriving DecidableEq

structure EncodingBuilder where
  ckeyEntries : List CKeyEntryData
  ekeyEntries : List EKeyEntryData
  ckeyPageSizeKb : UInt16
  ekeyPageSizeKb : UInt16
  trailingEspec : Option Text
deriving DecidableEq

/-- Appends a specification and returns its index; an index beyond 32 bits panics. -/
def ESpecTable.add (table : ESpecTable) (spec : Text) : Checked (UInt32 × ESpecTable) :=
  if table.entries.length < 2 ^ 32 then
    .ok (UInt32.ofNat table.entries.length, { entries := table.entries ++ [spec] })
  else .error .overflow

namespace EncodingBuilder

variable {τ : Type}

def new : EncodingBuilder where
  ckeyEntries := []
  ekeyEntries := []
  ckeyPageSizeKb := 4
  ekeyPageSizeKb := 4
  trailingEspec := none

def withPageSizes (builder : EncodingBuilder) (ckeyPageSizeKb ekeyPageSizeKb : UInt16) :
    EncodingBuilder :=
  { builder with ckeyPageSizeKb, ekeyPageSizeKb }

def addCkeyEntry (builder : EncodingBuilder) (entry : CKeyEntryData) : EncodingBuilder :=
  { builder with ckeyEntries := builder.ckeyEntries ++ [entry] }

def addEkeyEntry (builder : EncodingBuilder) (entry : EKeyEntryData) : EncodingBuilder :=
  { builder with ekeyEntries := builder.ekeyEntries ++ [entry] }

/-! ## ESpec table -/

/-- The map from specifications to indices has its last insertion first. -/
abbrev EspecMap := List (Text × UInt32)

def especStep (st : ESpecTable × EspecMap) (entry : EKeyEntryData) :
    Checked (ESpecTable × EspecMap) :=
  if (st.2.lookup entry.espec).isSome then .ok st
  else do
    let (index, table) ← st.1.add entry.espec
    .ok (table, (entry.espec, index) :: st.2)

def buildEspecTable (builder : EncodingBuilder) : Checked ESpecTable := do
  let (table, _) ← builder.ekeyEntries.foldlM especStep ({ entries := [] }, [])
  .ok table

/-! ## Pages -/

def serializeCkeyPage (pageSize : Nat) (entries : List CKeyPageEntry) : Bytes :=
  padTo pageSize (entries.map (CKeyPageEntry.write 16 16)).flatten

def serializeEkeyPage (pageSize : Nat) (entries : List EKeyPageEntry) : Bytes :=
  padTo pageSize (entries.map (EKeyPageEntry.write 16)).flatten

def ckeyPageEntry (entry : CKeyEntryData) : CKeyPageEntry where
  keyCount := UInt8.ofNat entry.encodingKeys.length
  fileSize := entry.fileSize
  contentKey := entry.contentKey
  encodingKeys := entry.encodingKeys

def sortedCkeyEntries (builder : EncodingBuilder) : List CKeyEntryData :=
  builder.ckeyEntries.insertionSort fun a b => a.contentKey ≤ b.contentKey

def buildCkeyPages (builder : EncodingBuilder) (pageSize : Nat) :
    Except EncodingError (List (Page CKeyPageEntry)) :=
  packPages pageSize (fun entry => 1 + 5 + 16 + 16 * entry.encodingKeys.length)
    (fun entry => .ok (ckeyPageEntry entry))
    (fun entries => { entries, originalData := serializeCkeyPage pageSize entries })
    builder.sortedCkeyEntries

def especIndices (table : ESpecTable) : EspecMap :=
  table.entries.zipIdx.foldl (fun indices (espec, index) => (espec, UInt32.ofNat index) :: indices)
    []

def ekeyPageEntry (indices : EspecMap) (entry : EKeyEntryData) :
    Except EncodingError EKeyPageEntry :=
  match indices.lookup entry.espec with
  | none => .error (.invalidESpec entry.espec)
  | some especIndex =>
    .ok { encodingKey := entry.encodingKey, especIndex, fileSize := entry.fileSize }

def sortedEkeyEntries (builder : EncodingBuilder) : List EKeyEntryData :=
  builder.ekeyEntries.insertionSort fun a b => a.encodingKey ≤ b.encodingKey

def buildEkeyPages (builder : EncodingBuilder) (pageSize : Nat) (especTable : ESpecTable) :
    Except EncodingError (List (Page EKeyPageEntry)) :=
  packPages pageSize (fun _ => 16 + 4 + 5) (ekeyPageEntry (especIndices especTable))
    (fun entries => { entries, originalData := serializeEkeyPage pageSize entries })
    builder.sortedEkeyEntries

/-- The first key and the checksum of every page. -/
def buildIndex (md5 : Bytes → Key 16) (firstKey : τ → Key 16) (pages : List (Page τ)) :
    List IndexEntry :=
  pages.map fun page =>
    { firstKey := (page.entries.head?).elim (.fill 16 0) firstKey
      checksum := md5 page.originalData }

/-- The file that the builder makes of its table and its pages. -/
def builtFile (md5 : Bytes → Key 16) (builder : EncodingBuilder) (especTable : ESpecTable)
    (ckeyPages : List (Page CKeyPageEntry)) (ekeyPages : List (Page EKeyPageEntry)) :
    EncodingFile where
  header := {
    magic := EncodingHeader.encodingMagic
    version := 1
    ckeyHashSize := 16
    ekeyHashSize := 16
    ckeyPageSizeKb := builder.ckeyPageSizeKb
    ekeyPageSizeKb := builder.ekeyPageSizeKb
    ckeyPageCount := UInt32.ofNat ckeyPages.length
    ekeyPageCount := UInt32.ofNat ekeyPages.length
    flags := 0
    especBlockSize := UInt32.ofNat especTable.build.length }
  especTable := especTable
  ckeyIndex := buildIndex md5 CKeyPageEntry.contentKey ckeyPages
  ckeyPages := ckeyPages
  ekeyIndex := buildIndex md5 EKeyPageEntry.encodingKey ekeyPages
  ekeyPages := ekeyPages
  trailingEspec := builder.trailingEspec

def build (md5 : Bytes → Key 16) (builder : EncodingBuilder) :
    Except (Halt EncodingError) EncodingFile := do
  let ckeyPageSize := builder.ckeyPageSizeKb.toNat * 1024
  let ekeyPageSize := builder.ekeyPageSizeKb.toNat * 1024
  let especTable ← builder.buildEspecTable.mapError .panic
  let ckeyPages ← (builder.buildCkeyPages ckeyPageSize).mapError .error
  let ekeyPages ← (builder.buildEkeyPages ekeyPageSize especTable).mapError .error
  .ok (builtFile md5 builder especTable ckeyPages ekeyPages)

/-! ## The table holds every specification once -/

/-- The table holds the specifications seen so far, and the map knows what it holds. -/
structure Collected (seen : List Text) (st : ESpecTable × EspecMap) : Prop where
  nodup : st.1.entries.Nodup
  mem (spec : Text) : spec ∈ st.1.entries ↔ spec ∈ seen
  map (spec : Text) : (st.2.lookup spec).isSome ↔ spec ∈ st.1.entries

variable {seen : List Text} {st : ESpecTable × EspecMap} {spec : Text}

variable (h : Collected seen st)
include h

theorem Collected.length_le {all : List Text} (hSeen : seen ⊆ all) :
    st.1.entries.length ≤ all.dedup.length := by
  refine (h.nodup.subperm ?_).length_le
  intro spec hSpec
  exact mem_dedup.mpr (hSeen ((h.mem spec).mp hSpec))

theorem especStep_collected (hRoom : st.1.entries.length < 2 ^ 32) (entry : EKeyEntryData) :
    ∃ st', especStep st entry = .ok st' ∧ Collected (seen ++ [entry.espec]) st' ∧
      st.1.entries <+: st'.1.entries := by
  unfold especStep
  split_ifs with hKnown
  · have hMem := (h.map entry.espec).mp hKnown
    refine ⟨st, rfl, ⟨h.nodup, fun spec => ?_, h.map⟩, prefix_rfl⟩
    rw [h.mem spec, mem_append, mem_singleton]
    constructor
    · exact Or.inl
    · rintro (hSpec | rfl)
      · exact hSpec
      · exact (h.mem _).mp hMem
  · rw [h.map] at hKnown
    simp only [ESpecTable.add, hRoom, if_true, ok_bind]
    refine ⟨_, rfl, ⟨?_, fun spec => ?_, fun spec => ?_⟩, prefix_append _ _⟩
    · exact nodup_append.mpr ⟨h.nodup, nodup_singleton _, by
        rintro a ha b hb rfl
        exact hKnown (mem_singleton.mp hb ▸ ha)⟩
    · simp [h.mem spec]
    · rw [mem_append, mem_singleton, ← h.map spec, lookup_cons]
      by_cases hEq : spec = entry.espec
      · simp [hEq]
      · simp [hEq, beq_eq_false_iff_ne.mpr hEq]

theorem foldlM_especStep {entries : List EKeyEntryData}
    (hRoom : (seen ++ entries.map EKeyEntryData.espec).dedup.length < 2 ^ 32) :
    ∃ st', entries.foldlM especStep st = .ok st' ∧
      Collected (seen ++ entries.map EKeyEntryData.espec) st' ∧
      st.1.entries <+: st'.1.entries := by
  induction entries generalizing seen st with
  | nil => exact ⟨st, rfl, by simpa using h, prefix_rfl⟩
  | cons entry entries ih =>
    have hLength := h.length_le (subset_append_left seen
      ((entry :: entries).map EKeyEntryData.espec))
    obtain ⟨st₁, hStep, h₁, hGrow₁⟩ := especStep_collected h (by omega) entry
    obtain ⟨st₂, hRun, h₂, hGrow₂⟩ := ih h₁ (by simpa using hRoom)
    refine ⟨st₂, ?_, by simpa using h₂, hGrow₁.trans hGrow₂⟩
    rw [foldlM_cons, hStep, ok_bind, hRun]

omit h

theorem buildEspecTable_spec {builder : EncodingBuilder}
    (hRoom : (builder.ekeyEntries.map EKeyEntryData.espec).dedup.length < 2 ^ 32) :
    ∃ table, builder.buildEspecTable = .ok table ∧
      table.entries.Perm (builder.ekeyEntries.map EKeyEntryData.espec).dedup ∧
      table.entries.head? = builder.ekeyEntries.head?.map EKeyEntryData.espec := by
  have hStart : Collected [] (({ entries := [] }, []) : ESpecTable × EspecMap) :=
    ⟨nodup_nil, fun _ => Iff.rfl, fun _ => by simp⟩
  obtain ⟨⟨table, map⟩, hRun, h, -⟩ := foldlM_especStep hStart (by simpa using hRoom)
  refine ⟨table, by rw [buildEspecTable, hRun, ok_bind], ?_, ?_⟩
  · refine (perm_ext_iff_of_nodup h.nodup (nodup_dedup _)).mpr fun spec => ?_
    rw [mem_dedup, h.mem spec, nil_append]
  · cases hEntries : builder.ekeyEntries with
    | nil =>
      rw [hEntries] at hRun
      cases hRun
      rfl
    | cons entry entries =>
      -- the first entry starts the table, which only grows afterwards
      rw [hEntries] at hRun hRoom
      obtain ⟨st₁, hStep, h₁, -⟩ := especStep_collected hStart (by simp) entry
      have hFirst : st₁.1.entries = [entry.espec] := by
        cases hStep
        rfl
      rw [foldlM_cons, hStep, ok_bind] at hRun
      obtain ⟨st₂, hRun₂, -, hGrow⟩ := foldlM_especStep h₁ (by simpa using hRoom)
      rw [hRun] at hRun₂
      cases hRun₂
      rw [hFirst] at hGrow
      obtain ⟨rest, hRest⟩ := hGrow
      rw [← hRest]
      rfl

theorem lookup_of_mem {m : EspecMap} (hNodup : (m.map Prod.fst).Nodup)
    {index : UInt32} (h : (spec, index) ∈ m) : m.lookup spec = some index := by
  induction m with
  | nil => cases h
  | cons head m ih =>
    rw [map_cons, nodup_cons] at hNodup
    rcases mem_cons.mp h with rfl | h
    · simp
    · have hNe : spec ≠ head.1 := by
        rintro rfl
        exact hNodup.1 (mem_map.mpr ⟨_, h, rfl⟩)
      rw [lookup_cons, beq_eq_false_iff_ne.mpr hNe]
      exact ih hNodup.2 h

theorem especIndices_eq (table : ESpecTable) :
    especIndices table = (table.entries.zipIdx.map fun p => (p.1, UInt32.ofNat p.2)).reverse := by
  simp [especIndices]

theorem lookup_especIndices {table : ESpecTable} (hNodup : table.entries.Nodup)
    {i : Nat} (h : table.entries[i]? = some spec) :
    (especIndices table).lookup spec = some (UInt32.ofNat i) := by
  rw [especIndices_eq]
  refine lookup_of_mem ?_ ?_
  · rw [map_reverse, nodup_reverse, map_map]
    have hKeys : (Prod.fst ∘ fun p : Text × Nat => (p.1, UInt32.ofNat p.2)) = Prod.fst := rfl
    rw [hKeys, zipIdx_map_fst]
    exact hNodup
  · rw [mem_reverse, mem_map]
    exact ⟨(spec, i), mem_zipIdx_iff_getElem?.mpr h, rfl⟩

end EncodingBuilder

end Cascette.Encoding
