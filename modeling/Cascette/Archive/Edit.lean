import Cascette.Archive.Builder
import Cascette.Archive.Search

/-!
# Changing an archive index

An index that was read is turned into a builder, entries are added and removed, and it is built
again. A key is removed with every entry whose key agrees with it as far as both go. In the new
file a lookup finds the entries that the builder has for its key (`edits_readBack`).
-/

namespace Cascette.Archive.ArchiveIndexBuilder

open Lib List

def agrees (encodingKey : Bytes) (entry : IndexEntry) : Bool :=
  let minLen := min entry.encodingKey.length encodingKey.length
  entry.encodingKey.take minLen = encodingKey.take minLen

/-- Whether an entry was removed, and the builder after it. -/
def removeEntry (builder : ArchiveIndexBuilder) (encodingKey : Bytes) :
    Bool × ArchiveIndexBuilder :=
  let entries := builder.entries.filter fun entry => !agrees encodingKey entry
  (entries.length < builder.entries.length, { builder with entries })

inductive Edit
  | add (encodingKey : Bytes) (size : UInt32) (offset : UInt64)
  | remove (encodingKey : Bytes)

def edit (builder : ArchiveIndexBuilder) : Edit → ArchiveIndexBuilder
  | .add encodingKey size offset => builder.addEntry encodingKey size offset
  | .remove encodingKey => (builder.removeEntry encodingKey).2

/-- The builder has the layout of the footer, which holds its entries. -/
structure Follows (footer : IndexFooter) (builder : ArchiveIndexBuilder) : Prop where
  layout : builder = (fromArchiveIndex ⟨[], [], footer⟩).addEntries builder.entries
  entries : ∀ entry ∈ builder.entries,
    entry.Holds footer.ekeyLength footer.offsetBytes ∧ entry.isZero = false

/-- An entry that is added fits the layout and is not taken for padding. -/
def Edit.Fits (footer : IndexFooter) : Edit → Prop
  | .add encodingKey size offset =>
    (IndexEntry.mk encodingKey size offset none).Holds footer.ekeyLength footer.offsetBytes ∧
      (IndexEntry.mk encodingKey size offset none).isZero = false
  | .remove _ => True

variable {md5 : Bytes → Key 16} {index : ArchiveIndex} {builder : ArchiveIndexBuilder}

theorem Follows.edit {footer : IndexFooter} (h : builder.Follows footer) {change : Edit}
    (hFits : change.Fits footer) : (builder.edit change).Follows footer := by
  obtain ⟨hLayout, hEntries⟩ := h
  cases change with
  | add encodingKey size offset =>
    refine ⟨by rw [hLayout]; rfl, forall_mem_append.mpr ⟨hEntries, ?_⟩⟩
    exact forall_mem_singleton.mpr hFits
  | remove encodingKey =>
    exact ⟨by rw [hLayout]; rfl, fun entry hEntry => hEntries entry (mem_of_mem_filter hEntry)⟩

theorem Follows.ready (h : builder.Follows index.footer) (hValid : index.Valid md5)
    (hCount : builder.entries.length < 2 ^ 32) : builder.Ready := by
  have hKey : index.footer.ekeyLength.toNat ≠ 0 := fun hZero =>
    hValid.format.ekey_pos (UInt8.toNat_inj.mp hZero)
  obtain ⟨hLayout, hEntries⟩ := h
  generalize builder.entries = entries at *
  subst hLayout
  exact ⟨Nat.one_le_iff_ne_zero.mpr hKey, UInt8.le_iff_toNat_le.mp hValid.format.ekey_le,
    hValid.format.offset, hValid.format.size, rfl, hCount, hEntries⟩

/-- An index that was read and changed by calls whose new entries fit its layout is built, and in
the new file every key is found with the entries that the builder has for it. -/
theorem edits_readBack {data : Bytes} (h : ArchiveIndex.parse md5 data = .ok index)
    {edits : List Edit} (hFits : ∀ change ∈ edits, change.Fits index.footer)
    (hCount : (edits.foldl edit (fromArchiveIndex index)).entries.length < 2 ^ 32) :
    let builder := edits.foldl edit (fromArchiveIndex index)
    ∃ data' index', builder.build md5 = .ok (data', index') ∧
      ArchiveIndex.parse md5 data' = .ok index' ∧ index'.entries.Perm builder.entries ∧
        ∀ key, index'.findAllEntries key =
          .ok (builder.entries.filter fun entry => entry.encodingKey = key) := by
  intro builder
  have hFollows : builder.Follows index.footer :=
    foldlRecOn edits _ ⟨rfl, fun _ => ArchiveIndex.parse_holds h⟩ fun _ hBuilder change hChange =>
      hBuilder.edit (hFits change hChange)
  have hReady := hFollows.ready (ArchiveIndex.parse_eq_ok_iff.mp h).1 hCount
  obtain ⟨data', tocHash, hBuild, hRead⟩ := hReady.readBack md5
  refine ⟨data', _, hBuild, hRead, perm_insertionSort _ _, fun key => ?_⟩
  have hKeys (entry) (hEntry : entry ∈ builder.sorted) := (hReady.sorted hEntry).1.key
  rw [(hReady.valid md5 tocHash).findAllEntries_scan hKeys]
  exact congrArg _ (filter_insertionSort_key key)

/-- Of two entries one is removed by the first byte of its key. -/
theorem edits_readBack_sample : ∃ data index data' index',
    sampleBuilder.build zeroDigest = .ok (data, index) ∧
      ((fromArchiveIndex index).edit (.remove [7])).build zeroDigest = .ok (data', index') ∧
        index'.findAllEntries (replicate 16 7) = .ok [] := by
  obtain ⟨data, tocHash, hBuild, hRead⟩ := sampleBuilder_ready.readBack zeroDigest
  obtain ⟨data', index', hBuild', -, -, hFind⟩ := @edits_readBack _ _ _ hRead [.remove [7]]
    (forall_mem_singleton.mpr trivial) (Nat.le_of_ble_eq_true rfl)
  exact ⟨data, _, data', index', hBuild, hBuild', (hFind _).trans rfl⟩

end Cascette.Archive.ArchiveIndexBuilder
