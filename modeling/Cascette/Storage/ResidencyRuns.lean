import Cascette.Storage.Residency
import Mathlib.Data.List.Nodup

/-!
# Runs of the residency database

A run is a sequence of calls on a database and its file. A key is resident exactly if the last call
about it marked it as resident (`isResident_run`). Calls whose changes were not saved before a
`load` do not count.
-/

namespace Cascette.Storage

open Lib ResidencyEntry List

namespace ResidencyDb

/-! ## Entries of all buckets -/

structure Inv (db : ResidencyDb) : Prop where
  size : db.buckets.length = residencyBucketCount
  ok : ∀ id pages, db.buckets[id]? = some pages → BucketOk id pages
  index : ∀ entry ∈ db.allEntries, entry.updateType.isLive = true →
    keyHash entry.ekey ∈ db.hashIndex

variable {db : ResidencyDb} {entry : ResidencyEntry} {ops : List Op} {ekey : Key 16} {state : State}
  {op : Op} (keys : List (Key 16))

theorem mem_allEntries :
    entry ∈ db.allEntries ↔ ∃ (id : Nat) (pages : Bucket), db.buckets[id]? = some pages ∧
      entry ∈ pages.entries := by
  rw [allEntries, mem_flatMap]
  constructor
  · rintro ⟨pages, hPages, hEntry⟩
    obtain ⟨id, hId⟩ := mem_iff_getElem?.mp hPages
    exact ⟨id, pages, hId, hEntry⟩
  · rintro ⟨id, pages, hId, hEntry⟩
    exact ⟨pages, mem_of_getElem? hId, hEntry⟩

theorem Inv.mem_entriesIn (h : db.Inv) :
    entry ∈ db.allEntries ↔ entry ∈ db.entriesIn (ResidencyEntry.bucketHash entry.ekey).toNat := by
  rw [mem_allEntries]
  constructor
  · rintro ⟨id, pages, hId, hEntry⟩
    rw [(h.ok id pages hId).own entry hEntry, entriesIn, hId]
    exact hEntry
  · intro hEntry
    rw [entriesIn] at hEntry
    cases hId : db.buckets[(ResidencyEntry.bucketHash entry.ekey).toNat]? with
    | none =>
      rw [hId] at hEntry
      cases hEntry
    | some pages =>
      rw [hId] at hEntry
      exact ⟨_, pages, hId, hEntry⟩

theorem Inv.nodup (h : db.Inv) : (db.allEntries.map (·.ekey)).Nodup := by
  rw [allEntries, map_flatMap, nodup_flatMap]
  constructor
  · intro pages hPages
    obtain ⟨id, hId⟩ := mem_iff_getElem?.mp hPages
    exact (h.ok id pages hId).nodup
  · rw [pairwise_iff_getElem]
    intro i j hi hj hij
    rw [Function.onFun, disjoint_left]
    intro ekey hFirst hSecond
    obtain ⟨first, hMem, rfl⟩ := mem_map.mp hFirst
    obtain ⟨second, hMem', hEq⟩ := mem_map.mp hSecond
    have hOwn := (h.ok i _ (getElem?_eq_getElem hi)).own first hMem
    have hOwn' := (h.ok j _ (getElem?_eq_getElem hj)).own second hMem'
    rw [hEq, hOwn] at hOwn'
    omega

/-- The entry of the key says that it is resident. -/
def Resident (db : ResidencyDb) (ekey : Key 16) : Prop :=
  ∃ entry ∈ db.allEntries, entry.ekey = ekey ∧ entry.updateType.isResident = true

theorem mem_scanKeys : ekey ∈ db.scanKeys ↔ db.Resident ekey := by
  rw [scanKeys, mem_map]
  constructor
  · rintro ⟨entry, hEntry, hKey⟩
    obtain ⟨hEntry, hType⟩ := mem_filter.mp hEntry
    exact ⟨entry, hEntry, hKey, hType⟩
  · rintro ⟨entry, hEntry, hKey, hType⟩
    exact ⟨entry, mem_filter.mpr ⟨hEntry, hType⟩, hKey⟩

theorem Inv.isResident_iff (h : db.Inv) (ekey : Key 16) :
    db.isResident ekey = true ↔ db.Resident ekey := by
  have hBucket := bucketHash_lt ekey
  have hUnique : ∀ a ∈ db.allEntries, ∀ b ∈ db.allEntries, a.ekey = b.ekey → a = b :=
    fun a ha b hb hEq => inj_on_of_nodup_map h.nodup ha hb hEq
  have hMem : ∀ entry, entry.ekey = ekey → (entry ∈ db.allEntries ↔
      entry ∈ db.entriesIn (ResidencyEntry.bucketHash ekey).toNat) := by
    rintro entry rfl
    exact h.mem_entriesIn
  unfold isResident
  rw [if_neg (not_le.mpr hBucket)]
  constructor
  · intro hResident
    split at hResident
    · cases hResident
    · split at hResident
      next entry hFind =>
        have hFound := find?_some hFind
        rw [decide_eq_true_eq] at hFound
        obtain ⟨hKey, hLive⟩ := hFound
        refine ⟨entry, (hMem entry hKey).mpr (mem_of_find?_eq_some hFind), hKey, ?_⟩
        rw [ResidencyUpdateType.isResident, hLive, hResident]
        rfl
      · cases hResident
  · rintro ⟨entry, hEntry, hKey, hType⟩
    obtain ⟨hLive, hNot⟩ := Bool.and_eq_true_iff.mp hType
    rw [if_neg (not_not.mpr (hKey ▸ h.index entry hEntry hLive))]
    cases hFind : (db.entriesIn (ResidencyEntry.bucketHash ekey).toNat).find? fun entry =>
        entry.ekey = ekey ∧ entry.updateType.isLive with
    | none =>
      have hNone := find?_eq_none.mp hFind entry ((hMem entry hKey).mp hEntry)
      exact absurd (decide_eq_true ⟨hKey, hLive⟩) hNone
    | some found =>
      have hFound := find?_some hFind
      rw [decide_eq_true_eq] at hFound
      rw [hUnique found ((hMem found hFound.1).mpr (mem_of_find?_eq_some hFind)) entry hEntry
        (hFound.1.trans hKey.symm)]
      exact hNot

/-! ## Calls -/

variable (h : db.Inv)
include h

theorem Inv.mem_insertEntry (entry existing : ResidencyEntry) :
    existing ∈ (db.insertEntry entry).allEntries ↔
      existing = entry ∨ existing ∈ db.allEntries ∧ existing.ekey ≠ entry.ekey := by
  have hBucket := bucketHash_lt entry.ekey
  have hLt : (ResidencyEntry.bucketHash entry.ekey).toNat < db.buckets.length := h.size ▸ hBucket
  have hPages := getElem?_eq_getElem hLt
  have hOk := h.ok _ _ hPages
  rw [insertEntry, if_neg (not_le.mpr hBucket), mem_allEntries, mem_allEntries]
  constructor
  · rintro ⟨id, pages, hId, hExisting⟩
    rw [getElem?_modify] at hId
    obtain ⟨old, hOld, rfl⟩ := Option.map_eq_some_iff.mp hId
    split at hExisting
    next hEq =>
      rcases ((h.ok _ old hOld).mem_insertEntry entry existing).mp hExisting with hEq | ⟨hMem, hNe⟩
      · exact .inl hEq
      · exact .inr ⟨⟨_, old, hOld, hMem⟩, hNe⟩
    next hNe =>
      refine .inr ⟨⟨id, old, hOld, hExisting⟩, fun hEq => hNe ?_⟩
      rw [← hEq]
      exact (h.ok id old hOld).own existing hExisting
  · intro hExisting
    rcases hExisting with rfl | ⟨⟨id, old, hOld, hMem⟩, hNe⟩
    · refine ⟨(ResidencyEntry.bucketHash existing.ekey).toNat, _, ?_,
        (hOk.mem_insertEntry existing existing).mpr (.inl rfl)⟩
      rw [getElem?_modify, hPages]
      exact congrArg some (if_pos rfl)
    · refine ⟨id, if (ResidencyEntry.bucketHash entry.ekey).toNat = id then old.insertEntry entry
        else old, ?_, ?_⟩
      · rw [getElem?_modify, hOld]
        rfl
      · split
        · exact ((h.ok id old hOld).mem_insertEntry entry existing).mpr (.inr ⟨hMem, hNe⟩)
        · exact hMem

theorem Inv.insertEntry (hFlags : entry.hashFlags ≠ 0) : (db.insertEntry entry).Inv := by
  have hBucket := bucketHash_lt entry.ekey
  have hMem := h.mem_insertEntry entry
  rw [ResidencyDb.insertEntry, if_neg (not_le.mpr hBucket)] at hMem ⊢
  refine ⟨(length_modify ..).trans h.size, fun id pages hId => ?_, fun existing hIn hLive => ?_⟩
  · dsimp only at hId
    rw [getElem?_modify] at hId
    obtain ⟨old, hOld, rfl⟩ := Option.map_eq_some_iff.mp hId
    split_ifs with hEq
    · exact (h.ok id old hOld).insertEntry hEq hFlags
    · exact h.ok id old hOld
  · rcases (hMem existing).mp hIn with rfl | ⟨hOld, -⟩
    · exact mem_cons_self
    · exact mem_cons_of_mem _ (h.index existing hOld hLive)

theorem Inv.mark (ekey : Key 16) (span : ResidencySpan)
    (updateType : ResidencyUpdateType) : (db.mark ekey span updateType).Inv := by
  have hInv := h.insertEntry (hashFlags_new_ne_zero ekey span updateType)
  exact ⟨hInv.size, hInv.ok, hInv.index⟩

theorem Inv.resident_mark (ekey other : Key 16) (span : ResidencySpan)
    (updateType : ResidencyUpdateType) :
    (db.mark ekey span updateType).Resident other ↔
      if other = ekey then updateType.isResident = true else db.Resident other := by
  have hMem := h.mem_insertEntry (ResidencyEntry.new ekey span updateType)
  constructor
  · rintro ⟨entry, hEntry, rfl, hType⟩
    rcases (hMem entry).mp hEntry with rfl | ⟨hOld, hNe⟩
    · exact (if_pos rfl).symm ▸ hType
    · rw [if_neg (show entry.ekey ≠ ekey from hNe)]
      exact ⟨entry, hOld, rfl, hType⟩
  · intro hResident
    split_ifs at hResident with hEq
    · exact ⟨_, (hMem _).mpr (.inl rfl), hEq.symm, hResident⟩
    · obtain ⟨entry, hEntry, rfl, hType⟩ := hResident
      exact ⟨entry, (hMem entry).mpr (.inr ⟨hEntry, hEq⟩), rfl, hType⟩

omit h

theorem index_rebuildHashIndex (db : ResidencyDb) :
    ∀ entry ∈ db.rebuildHashIndex.allEntries, entry.updateType.isLive = true →
      keyHash entry.ekey ∈ db.rebuildHashIndex.hashIndex := fun _ hEntry hLive =>
  mem_map_of_mem (mem_filter.mpr ⟨hEntry, hLive⟩)

/-- The entry of a deleted key. -/
def deletedIn (keys : List (Key 16)) (entry : ResidencyEntry) : ResidencyEntry :=
  if entry.ekey ∈ keys then { entry with updateType := .delete } else entry

theorem ekey_deletedIn (entry : ResidencyEntry) : (deletedIn keys entry).ekey = entry.ekey := by
  unfold deletedIn
  split <;> rfl

theorem entries_map_deletedIn (pages : Bucket) :
    Bucket.entries (pages.map fun page => { entries := page.entries.map (deletedIn keys) }) =
      pages.entries.map (deletedIn keys) := by
  rw [Bucket.entries, flatMap_map, Bucket.entries, map_flatMap]

theorem allEntries_batchDelete (db : ResidencyDb) (keys : List (Key 16)) :
    (db.batchDelete keys).allEntries = db.allEntries.map (deletedIn keys) := by
  change (db.buckets.map fun pages : Bucket => pages.map fun page =>
    ({ entries := page.entries.map (deletedIn keys) } : ResidencyPage)).flatMap Bucket.entries = _
  rw [flatMap_map, allEntries, map_flatMap]
  simp only [entries_map_deletedIn]

theorem BucketOk.map_deletedIn {id : Nat} {pages : Bucket} (h : BucketOk id pages)
    (keys : List (Key 16)) :
    BucketOk id (pages.map fun page => { entries := page.entries.map (deletedIn keys) }) := by
  have hAll : ∀ P : ResidencyEntry → Prop, (∀ entry ∈ pages.entries, P (deletedIn keys entry)) →
      ∀ entry ∈ Bucket.entries (pages.map fun page =>
        { entries := page.entries.map (deletedIn keys) }), P entry := by
    intro P hP entry hEntry
    rw [entries_map_deletedIn] at hEntry
    obtain ⟨old, hOld, rfl⟩ := mem_map.mp hEntry
    exact hP old hOld
  refine ⟨hAll _ fun entry hEntry => ?_, ?_, h.shaped.of_lengths ?_, hAll _ fun entry hEntry => ?_⟩
  · rw [ekey_deletedIn]
    exact h.own entry hEntry
  · rw [entries_map_deletedIn, map_map]
    exact (map_congr_left fun entry _ => ekey_deletedIn keys entry) ▸ h.nodup
  · rw [map_map]
    exact map_congr_left fun page _ => length_map _
  · unfold deletedIn
    split <;> exact h.flags entry hEntry

theorem Inv.batchDelete (h : db.Inv) (keys : List (Key 16)) : (db.batchDelete keys).Inv := by
  refine ⟨(length_map _).trans h.size, fun id pages hId => ?_, index_rebuildHashIndex _⟩
  obtain ⟨old, hOld, rfl⟩ := Option.map_eq_some_iff.mp ((getElem?_map ..).symm.trans hId)
  exact BucketOk.map_deletedIn (h.ok id old hOld) keys

theorem resident_batchDelete (db : ResidencyDb) (keys : List (Key 16)) (ekey : Key 16) :
    (db.batchDelete keys).Resident ekey ↔ ekey ∉ keys ∧ db.Resident ekey := by
  rw [Resident, allEntries_batchDelete]
  constructor
  · rintro ⟨entry, hEntry, rfl, hType⟩
    obtain ⟨old, hOld, rfl⟩ := mem_map.mp hEntry
    rw [ekey_deletedIn]
    unfold deletedIn at hType
    split_ifs at hType with hKeys
    · cases hType
    · exact ⟨hKeys, old, hOld, rfl, hType⟩
  · rintro ⟨hKeys, entry, hEntry, rfl, hType⟩
    have hSame : deletedIn keys entry = entry := if_neg hKeys
    exact ⟨entry, mem_map.mpr ⟨entry, hEntry, hSame⟩, rfl, hType⟩

theorem Inv.markAll (h : db.Inv) (keys : List (Key 16)) :
    (keys.foldl markNonResident db).Inv ∧
      ∀ ekey, (keys.foldl markNonResident db).Resident ekey ↔ ekey ∉ keys ∧ db.Resident ekey := by
  induction keys generalizing db with
  | nil => exact ⟨h, fun ekey => (and_iff_right not_mem_nil).symm⟩
  | cons key keys ih =>
    obtain ⟨hInv, hResident⟩ := ih (h.mark key .full .delete)
    refine ⟨hInv, fun ekey => ?_⟩
    rw [foldl_cons, markNonResident, hResident, h.resident_mark, mem_cons, not_or]
    by_cases hEq : ekey = key
    · rw [if_pos hEq]
      exact iff_of_false (fun hAnd => absurd hAnd.2 (by decide)) fun hAnd => hAnd.1.1 hEq
    · rw [if_neg hEq, and_iff_right hEq]

theorem Inv.deleteKeys (h : db.Inv) (keys : List (Key 16)) :
    (db.deleteKeys keys).Inv ∧
      ∀ ekey, (db.deleteKeys keys).Resident ekey ↔ ekey ∉ keys ∧ db.Resident ekey := by
  unfold ResidencyDb.deleteKeys
  split
  · exact ⟨h.batchDelete keys, resident_batchDelete db keys⟩
  · exact h.markAll keys

theorem inv_new : new.Inv := by
  refine ⟨length_replicate, fun id pages hId => ?_, ?_⟩
  · rw [eq_of_mem_replicate (mem_of_getElem? hId)]
    exact ⟨nofun, nodup_nil, nofun, nofun⟩
  · nofun

theorem Inv.load_serialize (h : db.Inv) (hCount : ∀ pages ∈ db.buckets, pages.length < 2 ^ 32) :
    (load (some db.serialize)).buckets = db.buckets := by
  have hRead := readBuckets_serializeFrom [] (fun i pages hi => by
    rw [length_nil, Nat.zero_add]
    exact h.ok i pages hi) hCount (by rw [length_nil, Nat.zero_add, h.size]) _ (le_refl _)
  rw [h.size] at hRead
  exact hRead

theorem Inv.load (h : db.Inv) (hCount : ∀ pages ∈ db.buckets, pages.length < 2 ^ 32) :
    (load (some db.serialize)).Inv ∧
      ∀ ekey, (load (some db.serialize)).Resident ekey ↔ db.Resident ekey := by
  have hBuckets := h.load_serialize hCount
  have hEntries : (ResidencyDb.load (some db.serialize)).allEntries = db.allEntries := by
    rw [allEntries, hBuckets, allEntries]
  refine ⟨⟨hBuckets ▸ h.size, hBuckets ▸ h.ok, index_rebuildHashIndex _⟩, fun ekey => ?_⟩
  rw [Resident, hEntries, Resident]

/-! ## Runs -/

inductive Op
  | markResident (ekey : Key 16)
  | markNonResident (ekey : Key 16)
  | markSpanNonResident (ekey : Key 16) (offset length : Int32)
  | deleteKeys (keys : List (Key 16))
  | save
  | load
deriving DecidableEq

structure State where
  db : ResidencyDb
  file : Option Bytes

/-- A new database without a file. -/
def fresh : State := { db := new, file := none }

def State.step (state : State) : Op → State
  | .markResident ekey => { state with db := state.db.markResident ekey }
  | .markNonResident ekey => { state with db := state.db.markNonResident ekey }
  | .markSpanNonResident ekey offset length =>
    { state with db := state.db.markSpanNonResident ekey offset length }
  | .deleteKeys keys => { state with db := state.db.deleteKeys keys }
  | .save =>
    let (db, file) := state.db.save state.file
    { db, file }
  | .load => { state with db := ResidencyDb.load state.file }

def State.run (state : State) (ops : List Op) : State := ops.foldl State.step state

/-- The calls that are about a key. -/
def Op.concerns (ekey : Key 16) : Op → Bool
  | .markResident other | .markNonResident other | .markSpanNonResident other _ _ => other = ekey
  | .deleteKeys keys => ekey ∈ keys
  | .save | .load => false

def lastOn (ekey : Key 16) (ops : List Op) : Option Op :=
  ops.reverse.find? fun op => op.concerns ekey

theorem lastOn_concat (ekey : Key 16) (ops : List Op) (op : Op) :
    lastOn ekey (ops ++ [op]) = if op.concerns ekey then some op else lastOn ekey ops := by
  rw [lastOn, reverse_concat, find?_cons, lastOn]
  cases op.concerns ekey <;> rfl

/-- The calls whose changes the database has, and those whose changes the file has. -/
structure History where
  current : List Op
  saved : List Op

/-- `load` drops the changes since the last `save`. -/
def History.step (history : History) : Op → History
  | .save => { history with saved := history.current }
  | .load => { history with current := history.saved }
  | op => { history with current := history.current ++ [op] }

def history (ops : List Op) : History := ops.foldl History.step { current := [], saved := [] }

/-- The database has the changes of the calls. -/
structure Shows (db : ResidencyDb) (ops : List Op) : Prop where
  inv : db.Inv
  resident : ∀ ekey, db.Resident ekey ↔ lastOn ekey ops = some (.markResident ekey)

theorem shows_new : new.Shows [] := by
  refine ⟨inv_new, fun ekey => iff_of_false ?_ nofun⟩
  rintro ⟨entry, hEntry, -⟩
  cases hEntry

theorem Shows.mark (h : db.Shows ops) (span : ResidencySpan) {updateType : ResidencyUpdateType}
    (hConcerns : ∀ other, op.concerns other = decide (ekey = other))
    (hType : updateType.isResident = true ↔ op = .markResident ekey) :
    (db.mark ekey span updateType).Shows (ops ++ [op]) := by
  refine ⟨h.inv.mark ekey span updateType, fun other => ?_⟩
  rw [h.inv.resident_mark, lastOn_concat, hConcerns]
  by_cases hEq : other = ekey
  · subst hEq
    rw [if_pos rfl, decide_eq_true rfl, if_pos rfl, Option.some.injEq]
    exact hType
  · rw [if_neg hEq, decide_eq_false (Ne.symm hEq), if_neg Bool.false_ne_true]
    exact h.resident other

theorem Shows.deleteKeys (h : db.Shows ops) (keys : List (Key 16)) :
    (db.deleteKeys keys).Shows (ops ++ [.deleteKeys keys]) := by
  obtain ⟨hInv, hResident⟩ := h.inv.deleteKeys keys
  refine ⟨hInv, fun ekey => ?_⟩
  rw [hResident, lastOn_concat, Op.concerns]
  by_cases hMem : ekey ∈ keys
  · rw [decide_eq_true hMem, if_pos rfl]
    exact iff_of_false (fun hAnd => hAnd.1 hMem) nofun
  · rw [decide_eq_false hMem, if_neg Bool.false_ne_true, and_iff_right hMem]
    exact h.resident ekey

theorem dirty_deleteKeys {keys : List (Key 16)} (h : keys ≠ []) :
    (db.deleteKeys keys).dirty = true := by
  unfold ResidencyDb.deleteKeys
  split
  · rfl
  · obtain ⟨front, key, rfl⟩ := (eq_nil_or_concat' keys).resolve_left h
    rw [foldl_append]
    rfl

/-- A bucket that is saved has fewer than `2 ^ 32` pages. -/
def State.SmallSaves : State → List Op → Prop
  | _, [] => True
  | state, op :: ops =>
    (op = .save → ∀ pages ∈ state.db.buckets, pages.length < 2 ^ 32) ∧
      (state.step op).SmallSaves ops

structure State.Good (state : State) (history : History) : Prop where
  db : state.db.Shows history.current
  file : (ResidencyDb.load state.file).Shows history.saved
  clean : state.db.dirty = false → (ResidencyDb.load state.file).Shows history.current

theorem State.Good.step {history : History} (h : state.Good history)
    (hSmall : op = .save → ∀ pages ∈ state.db.buckets, pages.length < 2 ^ 32) :
    (state.step op).Good (history.step op) := by
  cases op with
  | markResident ekey => exact ⟨h.db.mark _ (fun _ => rfl) (iff_of_true rfl rfl), h.file, nofun⟩
  | markNonResident ekey | markSpanNonResident ekey offset length =>
    exact ⟨h.db.mark _ (fun _ => rfl) (iff_of_false (by decide) nofun), h.file, nofun⟩
  | deleteKeys keys =>
    refine ⟨h.db.deleteKeys keys, h.file, fun hDirty => ?_⟩
    by_cases hKeys : keys = []
    · subst hKeys
      have hClean := h.clean hDirty
      refine ⟨hClean.inv, fun ekey => ?_⟩
      change _ ↔ lastOn ekey (history.current ++ [Op.deleteKeys []]) = _
      rw [lastOn_concat]
      exact hClean.resident ekey
    · exact absurd (dirty_deleteKeys hKeys) (ne_true_of_eq_false hDirty)
  | save =>
    change State.Good ⟨(state.db.save state.file).1, (state.db.save state.file).2⟩ _
    unfold ResidencyDb.save
    split_ifs with hDirty
    · obtain ⟨hInv, hResident⟩ := h.db.inv.load (hSmall rfl)
      have hFile : (ResidencyDb.load (some state.db.serialize)).Shows history.current :=
        ⟨hInv, fun ekey => (hResident ekey).trans (h.db.resident ekey)⟩
      exact ⟨⟨⟨h.db.inv.size, h.db.inv.ok, h.db.inv.index⟩, h.db.resident⟩, hFile, fun _ => hFile⟩
    · have hFile := h.clean (Bool.eq_false_iff.mpr hDirty)
      exact ⟨h.db, hFile, fun _ => hFile⟩
  | load => exact ⟨h.file, h.file, fun _ => h.file⟩

theorem State.Good.run {history : History} (h : state.Good history)
    (hSmall : state.SmallSaves ops) : (state.run ops).Good (ops.foldl History.step history) := by
  induction ops generalizing state history with
  | nil => exact h
  | cons op ops ih => exact ih (h.step hSmall.1) hSmall.2

/-- A key is resident exactly if the last call about it marked it so. -/
theorem isResident_run {ops : List Op} (hSmall : fresh.SmallSaves ops) :
    (∀ ekey, (fresh.run ops).db.isResident ekey = true ↔
      lastOn ekey (history ops).current = some (.markResident ekey)) ∧
    (fresh.run ops).db.scanKeys.Nodup ∧
    ∀ ekey, ekey ∈ (fresh.run ops).db.scanKeys ↔
      lastOn ekey (history ops).current = some (.markResident ekey) := by
  have hFresh : fresh.Good { current := [], saved := [] } :=
    ⟨shows_new, shows_new, fun _ => shows_new⟩
  have hShows := (hFresh.run hSmall).db
  refine ⟨fun ekey => ?_, hShows.inv.nodup.sublist (filter_sublist.map _), fun ekey => ?_⟩
  · exact (hShows.inv.isResident_iff ekey).trans (hShows.resident ekey)
  · exact mem_scanKeys.trans (hShows.resident ekey)

/-- Three keys, of which one is deleted before and one after the database is saved. -/
def sampleOps : List Op :=
  [.markResident ⟨List.replicate 16 1, rfl⟩, .markResident ⟨List.replicate 16 2, rfl⟩,
    .markSpanNonResident ⟨List.replicate 16 3, rfl⟩ 4 5,
    .deleteKeys [⟨List.replicate 16 2, rfl⟩], .save, .markResident ⟨List.replicate 16 3, rfl⟩,
    .load]

theorem isResident_run_sample :
    fresh.SmallSaves sampleOps ∧
      ∀ ekey, (fresh.run sampleOps).db.isResident ekey = true ↔
        lastOn ekey (history sampleOps).current = some (.markResident ekey) := by
  have hSmall : fresh.SmallSaves sampleOps := by
    refine ⟨nofun, nofun, nofun, nofun, fun _ => ?_, nofun, nofun, trivial⟩
    decide
  exact ⟨hSmall, (isResident_run hSmall).1⟩

/-- A change that is not saved is lost by `load`. -/
theorem isResident_run_unsaved :
    ¬ ∀ ekey, (fresh.run [.markResident ⟨List.replicate 16 1, rfl⟩, .load]).db.isResident ekey =
        true ↔
      lastOn ekey [.markResident ⟨List.replicate 16 1, rfl⟩, .load] =
        some (.markResident ekey) := by
  intro h
  have hResident := (h ⟨replicate 16 1, rfl⟩).mpr (by decide)
  revert hResident
  decide

/-! ## Two ways to delete -/

/-- The guard of every stored entry matches its contents. -/
def Guarded (db : ResidencyDb) : Prop := ∀ entry ∈ db.allEntries, entry.validateHashGuard = true

theorem Inv.guarded_mark (h : db.Inv) (hGuarded : db.Guarded) (ekey : Key 16) (span : ResidencySpan)
    (updateType : ResidencyUpdateType) : (db.mark ekey span updateType).Guarded := by
  intro entry hEntry
  rcases (h.mem_insertEntry (ResidencyEntry.new ekey span updateType) entry).mp hEntry with
    rfl | ⟨hOld, -⟩
  · exact validateHashGuard_new ekey span updateType
  · exact hGuarded entry hOld

theorem Inv.guarded_markAll (h : db.Inv) (hGuarded : db.Guarded) (keys : List (Key 16)) :
    (keys.foldl markNonResident db).Guarded := by
  induction keys generalizing db with
  | nil => exact hGuarded
  | cons key keys ih =>
    exact ih (h.mark key .full .delete) (h.guarded_mark hGuarded key .full .delete)

/-- The guard of an entry that becomes a deletion is not computed again. -/
theorem guarded_batchDelete (h : db.Guarded) (keys : List (Key 16)) :
    (db.batchDelete keys).Guarded ↔ ∀ entry ∈ db.allEntries, entry.ekey ∈ keys →
      { entry with updateType := .delete }.validateHashGuard = true := by
  rw [Guarded, allEntries_batchDelete]
  constructor
  · intro hGuarded entry hEntry hKey
    have hDeleted : deletedIn keys entry = { entry with updateType := .delete } := if_pos hKey
    exact hDeleted ▸ hGuarded _ (mem_map_of_mem hEntry)
  · intro hDeleted entry hEntry
    obtain ⟨old, hOld, rfl⟩ := mem_map.mp hEntry
    unfold deletedIn
    split_ifs with hKey
    · exact hDeleted old hOld hKey
    · exact h old hOld

/-- Deleting the keys at once and one by one show the same keys, and all guards match after both. -/
structure DeletesAlike (db : ResidencyDb) (keys : List (Key 16)) : Prop where
  isResident : ∀ ekey, (db.batchDelete keys).isResident ekey =
    (keys.foldl markNonResident db).isResident ekey
  scanKeys : ∀ ekey, ekey ∈ (db.batchDelete keys).scanKeys ↔
    ekey ∈ (keys.foldl markNonResident db).scanKeys
  batch : (db.batchDelete keys).Guarded
  single : (keys.foldl markNonResident db).Guarded

/-- The two ways to delete agree exactly if no entry of a deleted key needs another guard. -/
theorem deletesAlike_iff {db : ResidencyDb} (h : db.Inv) (hGuarded : db.Guarded)
    (keys : List (Key 16)) :
    db.DeletesAlike keys ↔ ∀ entry ∈ db.allEntries, entry.ekey ∈ keys →
      { entry with updateType := .delete }.validateHashGuard = true := by
  obtain ⟨hInv, hResident⟩ := h.markAll keys
  have hSame : ∀ ekey, (db.batchDelete keys).Resident ekey ↔
      (keys.foldl markNonResident db).Resident ekey := fun ekey =>
    (resident_batchDelete db keys ekey).trans (hResident ekey).symm
  rw [← guarded_batchDelete hGuarded]
  refine ⟨DeletesAlike.batch, fun hBatch => ⟨fun ekey => ?_, fun ekey => ?_, hBatch,
    h.guarded_markAll hGuarded keys⟩⟩
  · rw [Bool.eq_iff_iff, (h.batchDelete keys).isResident_iff, hInv.isResident_iff]
    exact hSame ekey
  · rw [mem_scanKeys, mem_scanKeys]
    exact hSame ekey

/-- A key whose entry is a deletion already can be deleted again. -/
theorem deletesAlike_sample :
    (new.markNonResident (Key.fill 16 1)).Guarded ∧
      (new.markNonResident (Key.fill 16 1)).DeletesAlike [Key.fill 16 1] := by
  have hNew : new.Guarded := fun _ hEntry => absurd hEntry not_mem_nil
  have hGuarded := inv_new.guarded_mark hNew (Key.fill 16 1) .full .delete
  refine ⟨hGuarded, (deletesAlike_iff (inv_new.mark (Key.fill 16 1) .full .delete) hGuarded _).mpr
    fun entry hEntry _ => ?_⟩
  rcases (inv_new.mem_insertEntry _ entry).mp hEntry with rfl | ⟨hOld, -⟩
  · exact validateHashGuard_new (Key.fill 16 1) .full .delete
  · exact absurd hOld not_mem_nil

/-- Of more than ten thousand keys, one is stored as resident; its guard does not match after the
deletion. -/
theorem deletesAlike_refuted :
    let db := new.markResident (Key.fill 16 1)
    db.Guarded ∧ ¬ (db.deleteKeys (List.replicate 10001 (Key.fill 16 1))).Guarded := by
  intro db
  have hNew : new.Guarded := fun _ hEntry => absurd hEntry not_mem_nil
  have hGuarded : db.Guarded := inv_new.guarded_mark hNew (Key.fill 16 1) .full .set
  refine ⟨hGuarded, fun hBatch => ?_⟩
  have hMany : (replicate 10001 (Key.fill 16 1)).length > batchDeleteThreshold := by
    rw [length_replicate]
    decide
  rw [deleteKeys, if_pos hMany, guarded_batchDelete hGuarded] at hBatch
  have hEntry := hBatch (ResidencyEntry.new (Key.fill 16 1) .full .set)
    ((inv_new.mem_insertEntry _ _).mpr (.inl rfl)) (mem_replicate.mpr ⟨by decide, rfl⟩)
  revert hEntry
  decide +kernel

end ResidencyDb

end Cascette.Storage
