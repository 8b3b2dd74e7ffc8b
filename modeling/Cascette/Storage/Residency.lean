import Cascette.Crypto.Jenkins
import Cascette.Lib.Records

/-!
# Residency database

The database keeps one entry for each key, in sixteen buckets of pages. An entry replaces the entry
of its key or goes to the end of its bucket (`BucketOk.insertEntry`). The file lists the buckets
that are not empty, and loading it gives the same buckets again (`load_serialize`).
-/

namespace Cascette.Storage

open Lib Crypto List Option

def residencyEntrySize : Nat := 40

def residencyPageSize : Nat := 1024

def residencyEntriesPerPage : Nat := residencyPageSize / residencyEntrySize

def residencyBucketCount : Nat := 16

def batchDeleteThreshold : Nat := 10000

/-! ## Entries -/

inductive ResidencyUpdateType
  | invalid
  | set
  | create
  | delete
  | markResident
  | markNonResident
deriving DecidableEq

namespace ResidencyUpdateType

def toByte : ResidencyUpdateType → UInt8
  | invalid => 0
  | set => 1
  | create => 2
  | delete => 3
  | markResident => 6
  | markNonResident => 7

def fromByte (b : UInt8) : ResidencyUpdateType :=
  if b = 1 then set
  else if b = 2 then create
  else if b = 3 then delete
  else if b = 6 then markResident
  else if b = 7 then markNonResident
  else invalid

def isLive : ResidencyUpdateType → Bool
  | set | create | markResident | markNonResident => true
  | invalid | delete => false

theorem fromByte_toByte (updateType : ResidencyUpdateType) :
    fromByte updateType.toByte = updateType := by
  cases updateType <;> rfl

/-- The types of the entries that `scan_keys` lists. -/
def isResident (updateType : ResidencyUpdateType) : Bool :=
  updateType.isLive && updateType ≠ markNonResident

end ResidencyUpdateType

structure ResidencySpan where
  offset : Int32
  length : Int32
  reserved1 : Int32
  reserved2 : Int32
deriving DecidableEq

namespace ResidencySpan

def full : ResidencySpan := ⟨0, Int32.maxValue, 0, 0⟩

def range (offset length : Int32) : ResidencySpan := ⟨offset, length, 0, 0⟩

def toBytes (span : ResidencySpan) : Bytes :=
  beBytes 4 span.offset.toUInt32.toNat ++ (beBytes 4 span.length.toUInt32.toNat ++
    (beBytes 4 span.reserved1.toUInt32.toNat ++ beBytes 4 span.reserved2.toUInt32.toNat))

def fromBytes (data : Bytes) : ResidencySpan where
  offset := (UInt32.ofNat (ofBe (data.take 4))).toInt32
  length := (UInt32.ofNat (ofBe ((data.drop 4).take 4))).toInt32
  reserved1 := (UInt32.ofNat (ofBe ((data.drop 8).take 4))).toInt32
  reserved2 := (UInt32.ofNat (ofBe ((data.drop 12).take 4))).toInt32

theorem toBytes_length (span : ResidencySpan) : span.toBytes.length = 16 := by
  simp only [toBytes, length_append, beBytes_length]

theorem ofBe_int32 (v : Int32) (rest : Bytes) :
    (UInt32.ofNat (ofBe ((beBytes 4 v.toUInt32.toNat ++ rest).take 4))).toInt32 = v := by
  rw [take_left' (beBytes_length 4 _), ofBe_beBytes_of_lt v.toUInt32.toNat_lt, UInt32.ofNat_toNat]
  rfl

theorem fromBytes_toBytes (span : ResidencySpan) : fromBytes span.toBytes = span := by
  have hLength : ∀ v : Int32, (beBytes 4 v.toUInt32.toNat).length = 4 := fun v => beBytes_length 4 _
  have hDrop₁ : span.toBytes.drop 4 = beBytes 4 span.length.toUInt32.toNat ++
      (beBytes 4 span.reserved1.toUInt32.toNat ++ beBytes 4 span.reserved2.toUInt32.toNat) :=
    drop_left' (hLength _)
  have hDrop₂ : span.toBytes.drop 8 = beBytes 4 span.reserved1.toUInt32.toNat ++
      beBytes 4 span.reserved2.toUInt32.toNat := by
    rw [← drop_drop (i := 4) (j := 4), hDrop₁, drop_left' (hLength _)]
  have hDrop₃ : span.toBytes.drop 12 = beBytes 4 span.reserved2.toUInt32.toNat ++ [] := by
    rw [← drop_drop (i := 4) (j := 8), hDrop₂, drop_left' (hLength _), append_nil]
  rw [fromBytes, hDrop₁, hDrop₂, hDrop₃, ofBe_int32, ofBe_int32, ofBe_int32, toBytes, ofBe_int32]

end ResidencySpan

structure ResidencyEntry where
  hashFlags : UInt32
  ekey : Key 16
  span : ResidencySpan
  updateType : ResidencyUpdateType
deriving DecidableEq

namespace ResidencyEntry

def toBytes (entry : ResidencyEntry) : Bytes :=
  leBytes 4 entry.hashFlags.toNat ++ (entry.ekey.1 ++ (entry.span.toBytes ++
    [entry.updateType.toByte, 0, 0, 0]))

def computeHashGuard (bytes : Bytes) : UInt32 :=
  hashlittle ((bytes.take 37).drop 4) 0 ||| 0x80000000

def new (ekey : Key 16) (span : ResidencySpan) (updateType : ResidencyUpdateType) :
    ResidencyEntry :=
  let entry : ResidencyEntry := { hashFlags := 0, ekey, span, updateType }
  { entry with hashFlags := computeHashGuard entry.toBytes }

def validateHashGuard (entry : ResidencyEntry) : Bool :=
  entry.hashFlags = computeHashGuard entry.toBytes

/-- All bytes of the key, folded to four bits. -/
def bucketHash (ekey : Key 16) : UInt8 :=
  let xor := ekey.1.foldl (· ^^^ ·) 0
  (xor >>> 4 ^^^ xor) &&& 0x0f

def fromBytes (data : Key residencyEntrySize) : ResidencyEntry where
  hashFlags := UInt32.ofNat (ofLe (data.1.take 4))
  ekey := ⟨(data.1.drop 4).take 16, by simp [data.2, residencyEntrySize]⟩
  span := ResidencySpan.fromBytes ((data.1.drop 20).take 16)
  updateType := ResidencyUpdateType.fromByte ((data.1.drop 36).headD 0)

variable (entry : ResidencyEntry) (ekey : Key 16)

theorem toBytes_length : entry.toBytes.length = residencyEntrySize := by
  simp only [toBytes, length_append, leBytes_length, entry.ekey.2,
    ResidencySpan.toBytes_length, length_cons, length_nil, residencyEntrySize]

theorem fromBytes_toBytes : fromBytes ⟨entry.toBytes, entry.toBytes_length⟩ = entry := by
  have hDrop₁ : entry.toBytes.drop 4 = entry.ekey.1 ++ (entry.span.toBytes ++
      [entry.updateType.toByte, 0, 0, 0]) := drop_left' (leBytes_length 4 _)
  have hDrop₂ : entry.toBytes.drop 20 = entry.span.toBytes ++
      [entry.updateType.toByte, 0, 0, 0] := by
    rw [← drop_drop (i := 16) (j := 4), hDrop₁, drop_left' entry.ekey.2]
  have hDrop₃ : entry.toBytes.drop 36 = [entry.updateType.toByte, 0, 0, 0] := by
    rw [← drop_drop (i := 16) (j := 20), hDrop₂, drop_left' entry.span.toBytes_length]
  have hFlags : UInt32.ofNat (ofLe (entry.toBytes.take 4)) = entry.hashFlags := by
    rw [toBytes, take_left' (leBytes_length 4 _), ofLe_leBytes_of_lt entry.hashFlags.toNat_lt,
      UInt32.ofNat_toNat]
  unfold fromBytes
  simp only [hFlags, hDrop₁, hDrop₂, hDrop₃, take_left' entry.ekey.2,
    take_left' entry.span.toBytes_length, ResidencySpan.fromBytes_toBytes, headD_cons,
    ResidencyUpdateType.fromByte_toByte]

theorem computeHashGuard_congr (hashFlags : UInt32) :
    computeHashGuard { entry with hashFlags }.toBytes = computeHashGuard entry.toBytes := by
  have hBody : ∀ flags : UInt32, ({ entry with hashFlags := flags }.toBytes.take 37).drop 4 =
      (entry.ekey.1 ++ (entry.span.toBytes ++ [entry.updateType.toByte, 0, 0, 0])).take 33 := by
    intro flags
    rw [drop_take, toBytes, drop_left' (leBytes_length 4 _)]
  rw [computeHashGuard, hBody, computeHashGuard, hBody]

theorem validateHashGuard_new (span : ResidencySpan)
    (updateType : ResidencyUpdateType) : (new ekey span updateType).validateHashGuard = true :=
  decide_eq_true (computeHashGuard_congr _ _).symm

theorem hashFlags_new_ne_zero (span : ResidencySpan)
    (updateType : ResidencyUpdateType) : (new ekey span updateType).hashFlags ≠ 0 :=
  or_high_ne_zero _

theorem bucketHash_lt : (bucketHash ekey).toNat < residencyBucketCount := by
  exact Nat.lt_of_le_of_lt Nat.and_le_right (by decide)

end ResidencyEntry

/-- The hash that the index of the database is about. -/
def murmurhash3Finalize (k : UInt64) : UInt64 :=
  let k := k ^^^ (k >>> 33)
  let k := k * 0xff51afd7ed558ccd
  let k := k ^^^ (k >>> 33)
  let k := k * 0xc4ceb9fe1a85ec53
  k ^^^ (k >>> 33)

def keyHash (ekey : Key 16) : UInt64 := murmurhash3Finalize (UInt64.ofNat (ofLe (ekey.1.take 8)))

/-! ## Pages -/

structure ResidencyPage where
  entries : List ResidencyEntry
deriving DecidableEq

namespace ResidencyPage

def isFull (page : ResidencyPage) : Bool := page.entries.length ≥ residencyEntriesPerPage

def toBytes (page : ResidencyPage) : Bytes :=
  resize residencyPageSize (page.entries.map ResidencyEntry.toBytes).flatten

/-- An entry of a page; no entry has the flags zero. -/
def decodeEntry (data : Bytes) : Option ResidencyEntry :=
  if h : data.length = residencyEntrySize then
    if ofLe (data.take 4) = 0 then none else some (ResidencyEntry.fromBytes ⟨data, h⟩)
  else none

def fromBytes (data : Bytes) : Option ResidencyPage :=
  if data.length < residencyPageSize then none
  else
    let entries := readRecords residencyEntrySize decodeEntry (data.take residencyPageSize)
    if entries.isEmpty then none else some { entries }

end ResidencyPage

/-- The pages of one bucket. -/
abbrev Bucket := List ResidencyPage

namespace Bucket

def entries (pages : Bucket) : List ResidencyEntry := pages.flatMap (·.entries)

/-- The first entry of the page with the key of the new entry is replaced. -/
def replaceIn (entry : ResidencyEntry) : List ResidencyEntry → Option (List ResidencyEntry)
  | [] => none
  | existing :: entries =>
    if existing.ekey = entry.ekey then some (entry :: entries)
    else (replaceIn entry entries).map (existing :: ·)

/-- The first page with the key of the new entry is changed. -/
def replace (entry : ResidencyEntry) : Bucket → Option Bucket
  | [] => none
  | page :: pages =>
    match replaceIn entry page.entries with
    | some entries => some ({ entries } :: pages)
    | none => (replace entry pages).map (page :: ·)

/-- A new entry goes to the last page or to a new one. -/
def push (pages : Bucket) (entry : ResidencyEntry) : Bucket :=
  match pages.getLast? with
  | some last =>
    if last.isFull then pages ++ [{ entries := [entry] }]
    else pages.dropLast ++ [{ entries := last.entries ++ [entry] }]
  | none => [{ entries := [entry] }]

def insertEntry (pages : Bucket) (entry : ResidencyEntry) : Bucket :=
  (replace entry pages).getD (push pages entry)

def toBytes (pages : Bucket) : Bytes := pages.flatMap ResidencyPage.toBytes

end Bucket

/-! ## The database -/

/-- Of the index only the hashes are read. -/
structure ResidencyDb where
  buckets : List Bucket
  hashIndex : List UInt64
  dirty : Bool

namespace ResidencyDb

def new : ResidencyDb :=
  { buckets := List.replicate residencyBucketCount [], hashIndex := [], dirty := false }

def allEntries (db : ResidencyDb) : List ResidencyEntry := db.buckets.flatMap Bucket.entries

def rebuildHashIndex (db : ResidencyDb) : ResidencyDb :=
  { db with
    hashIndex := (db.allEntries.filter fun entry => entry.updateType.isLive).map fun entry =>
      keyHash entry.ekey }

/-- `page_count` pages, as far as there are bytes; pages without entries are left out. -/
def readPages : Nat → Bytes → Bucket × Bytes
  | 0, data => ([], data)
  | count + 1, data =>
    if residencyPageSize ≤ data.length then
      let (pages, rest) := readPages count (data.drop residencyPageSize)
      match ResidencyPage.fromBytes data with
      | some page => (page :: pages, rest)
      | none => (pages, rest)
    else ([], data)

/-- Each round reads a bucket; `fuel` bounds their number. -/
def readBuckets : Nat → List Bucket → Bytes → List Bucket
  | 0, buckets, _ => buckets
  | fuel + 1, buckets, data =>
    match data with
    | [] => buckets
    | id :: rest =>
      if rest.length < 4 then buckets
      else if id.toNat ≥ residencyBucketCount then buckets
      else
        let (pages, rest) := readPages (ofLe (rest.take 4)) (rest.drop 4)
        readBuckets fuel (buckets.modify id.toNat (· ++ pages)) rest

/-- The database of a file, or an empty one if there is no file. -/
def load : Option Bytes → ResidencyDb
  | none => new
  | some data => rebuildHashIndex { new with buckets := readBuckets data.length new.buckets data }

/-- The bucket with its number; the number of pages is cut to 32 bits. -/
def bucketBytes (id : Nat) (pages : Bucket) : Bytes :=
  if pages.isEmpty then [] else UInt8.ofNat id :: leBytes 4 pages.length ++ pages.toBytes

def serializeFrom : Nat → List Bucket → Bytes
  | _, [] => []
  | id, pages :: buckets => bucketBytes id pages ++ serializeFrom (id + 1) buckets

def serialize (db : ResidencyDb) : Bytes := serializeFrom 0 db.buckets

/-- The file after a successful call. A database without changes is not written. -/
def save (db : ResidencyDb) (file : Option Bytes) : ResidencyDb × Option Bytes :=
  if db.dirty then ({ db with dirty := false }, some db.serialize) else (db, file)

def entriesIn (db : ResidencyDb) (bucket : Nat) : List ResidencyEntry :=
  (db.buckets[bucket]?.getD []).entries

def isResident (db : ResidencyDb) (ekey : Key 16) : Bool :=
  let bucket := (ResidencyEntry.bucketHash ekey).toNat
  if bucket ≥ residencyBucketCount then false
  else if keyHash ekey ∉ db.hashIndex then false
  else
    match (db.entriesIn bucket).find? fun entry => entry.ekey = ekey ∧ entry.updateType.isLive with
    | some entry => entry.updateType ≠ .markNonResident
    | none => false

def insertEntry (db : ResidencyDb) (entry : ResidencyEntry) : ResidencyDb :=
  let bucket := (ResidencyEntry.bucketHash entry.ekey).toNat
  if bucket ≥ residencyBucketCount then db
  else
    { db with
      buckets := db.buckets.modify bucket fun pages => pages.insertEntry entry
      hashIndex := keyHash entry.ekey :: db.hashIndex }

/-- The three ways to mark a key make an entry and note the change. -/
def mark (db : ResidencyDb) (ekey : Key 16) (span : ResidencySpan)
    (updateType : ResidencyUpdateType) : ResidencyDb :=
  { db.insertEntry (ResidencyEntry.new ekey span updateType) with dirty := true }

def markResident (db : ResidencyDb) (ekey : Key 16) : ResidencyDb := db.mark ekey .full .set

def markNonResident (db : ResidencyDb) (ekey : Key 16) : ResidencyDb := db.mark ekey .full .delete

def markSpanNonResident (db : ResidencyDb) (ekey : Key 16) (offset length : Int32) : ResidencyDb :=
  db.mark ekey (.range offset length) .markNonResident

def scanKeys (db : ResidencyDb) : List (Key 16) :=
  (db.allEntries.filter fun entry => entry.updateType.isResident).map (·.ekey)

def batchDelete (db : ResidencyDb) (keys : List (Key 16)) : ResidencyDb :=
  rebuildHashIndex
    { db with
      buckets := db.buckets.map fun pages => pages.map fun page =>
        { entries := page.entries.map fun entry =>
            if entry.ekey ∈ keys then { entry with updateType := .delete } else entry }
      dirty := true }

def deleteKeys (db : ResidencyDb) (keys : List (Key 16)) : ResidencyDb :=
  if keys.length > batchDeleteThreshold then db.batchDelete keys
  else keys.foldl markNonResident db

end ResidencyDb

/-! ## Inserting an entry -/

namespace Bucket

variable {entry : ResidencyEntry} {pages pages' : Bucket}

theorem replaceIn_eq_some {entries entries' : List ResidencyEntry}
    (h : replaceIn entry entries = some entries') :
    ∃ before old after, entries = before ++ old :: after ∧ old.ekey = entry.ekey ∧
      entries' = before ++ entry :: after := by
  induction entries generalizing entries' with
  | nil => cases h
  | cons existing entries ih =>
    rw [replaceIn] at h
    split_ifs at h with hEq
    · cases h
      exact ⟨[], existing, entries, rfl, hEq, rfl⟩
    · obtain ⟨rest, hRest, rfl⟩ := map_eq_some_iff.mp h
      obtain ⟨before, old, after, rfl, hOld, rfl⟩ := ih hRest
      exact ⟨existing :: before, old, after, rfl, hOld, rfl⟩

theorem replaceIn_eq_none {entries : List ResidencyEntry} (h : replaceIn entry entries = none) :
    ∀ existing ∈ entries, existing.ekey ≠ entry.ekey := by
  induction entries with
  | nil => nofun
  | cons existing entries ih =>
    rw [replaceIn] at h
    split at h
    · cases h
    next hNe =>
      exact forall_mem_cons.mpr ⟨hNe, ih (map_eq_none_iff.mp h)⟩

theorem entries_cons (page : ResidencyPage) (pages : Bucket) :
    Bucket.entries (page :: pages) = page.entries ++ Bucket.entries pages := flatMap_cons

/-- The entry takes the place of an entry with its key, and no page changes its length. -/
theorem replace_eq_some (h : replace entry pages = some pages') :
    pages'.map (·.entries.length) = pages.map (·.entries.length) ∧
      ∃ before old after, entries pages = before ++ old :: after ∧ old.ekey = entry.ekey ∧
        entries pages' = before ++ entry :: after := by
  induction pages generalizing pages' with
  | nil => cases h
  | cons page pages ih =>
    rw [replace] at h
    split at h
    next changed hChanged =>
      cases h
      obtain ⟨before, old, after, hEntries, hOld, rfl⟩ := replaceIn_eq_some hChanged
      refine ⟨?_, before, old, after ++ entries pages, ?_, hOld, ?_⟩
      · rw [map_cons, map_cons, hEntries, length_append, length_append, length_cons, length_cons]
      · rw [entries_cons, hEntries, append_assoc, cons_append]
      · rw [entries_cons, append_assoc, cons_append]
    · obtain ⟨rest, hRest, rfl⟩ := map_eq_some_iff.mp h
      obtain ⟨hLengths, before, old, after, hEntries, hOld, hEntries'⟩ := ih hRest
      refine ⟨?_, page.entries ++ before, old, after, ?_, hOld, ?_⟩
      · rw [map_cons, map_cons, hLengths]
      · rw [entries_cons, hEntries, append_assoc]
      · rw [entries_cons, hEntries', append_assoc]

theorem replace_eq_none (h : replace entry pages = none) :
    ∀ existing ∈ entries pages, existing.ekey ≠ entry.ekey := by
  induction pages with
  | nil => nofun
  | cons page pages ih =>
    rw [replace] at h
    split at h
    · cases h
    next hNone =>
      exact forall_mem_append.mpr ⟨replaceIn_eq_none hNone, ih (map_eq_none_iff.mp h)⟩

theorem entries_push (pages : Bucket) (entry : ResidencyEntry) :
    entries (push pages entry) = entries pages ++ [entry] := by
  unfold push
  split
  next last hLast =>
    split
    · rw [entries, flatMap_append, flatMap_singleton]
      rfl
    · have hPages : pages = pages.dropLast ++ [last] := (dropLast_append_getLast? _ hLast).symm
      rw [entries, flatMap_append, flatMap_singleton]
      conv_rhs => rw [hPages, entries, flatMap_append, flatMap_singleton]
      rw [append_assoc]
  next hNone =>
    rw [getLast?_eq_none_iff.mp hNone]
    rfl

/-- No page is empty or too long. -/
def Shaped (pages : Bucket) : Prop :=
  ∀ page ∈ pages, page.entries ≠ [] ∧ page.entries.length ≤ residencyEntriesPerPage

theorem Shaped.of_lengths (h : Shaped pages)
    (hLengths : pages'.map (·.entries.length) = pages.map (·.entries.length)) : Shaped pages' := by
  intro page hPage
  have hMem : page.entries.length ∈ pages'.map (·.entries.length) := mem_map_of_mem hPage
  rw [hLengths] at hMem
  obtain ⟨other, hOther, hEq⟩ := mem_map.mp hMem
  obtain ⟨hNe, hLe⟩ := h other hOther
  exact ⟨length_pos_iff.mp (hEq ▸ length_pos_iff.mpr hNe), hEq ▸ hLe⟩

theorem Shaped.push (h : Shaped pages) (entry : ResidencyEntry) : Shaped (push pages entry) := by
  have hSingle : ([entry] : List ResidencyEntry) ≠ [] ∧
      [entry].length ≤ residencyEntriesPerPage := ⟨nofun, (by decide : 1 ≤ residencyEntriesPerPage)⟩
  unfold Bucket.push
  split
  next last hLast =>
    split_ifs with hRoom
    · exact forall_mem_append.mpr ⟨h, forall_mem_singleton.mpr hSingle⟩
    · refine forall_mem_append.mpr ⟨fun page hPage => h page (mem_of_mem_dropLast hPage),
        forall_mem_singleton.mpr ⟨append_ne_nil_of_right_ne_nil _ nofun, ?_⟩⟩
      rw [ResidencyPage.isFull, decide_eq_true_eq] at hRoom
      rw [length_append, length_singleton]
      omega
  · exact forall_mem_singleton.mpr hSingle

end Bucket

/-- What holds of the bucket with number `id`. -/
structure BucketOk (id : Nat) (pages : Bucket) : Prop where
  own : ∀ entry ∈ pages.entries, (ResidencyEntry.bucketHash entry.ekey).toNat = id
  nodup : (pages.entries.map (·.ekey)).Nodup
  shaped : pages.Shaped
  flags : ∀ entry ∈ pages.entries, entry.hashFlags ≠ 0

variable {id : Nat} {pages : Bucket}

theorem BucketOk.mem_insertEntry (h : BucketOk id pages) (entry existing : ResidencyEntry) :
    existing ∈ (pages.insertEntry entry).entries ↔
      existing = entry ∨ existing ∈ pages.entries ∧ existing.ekey ≠ entry.ekey := by
  unfold Bucket.insertEntry
  cases hReplace : Bucket.replace entry pages with
  | none =>
    have hNe := Bucket.replace_eq_none hReplace
    rw [getD_none, Bucket.entries_push, mem_append, mem_singleton, or_comm]
    exact or_congr_right ⟨fun hMem => ⟨hMem, hNe existing hMem⟩, And.left⟩
  | some pages' =>
    obtain ⟨-, before, old, after, hEntries, hOld, hEntries'⟩ := Bucket.replace_eq_some hReplace
    have hNodup := h.nodup
    rw [hEntries, map_append, map_cons] at hNodup
    obtain ⟨-, hAfter, hApart⟩ := nodup_append.mp hNodup
    have hBefore : ∀ x ∈ before, x.ekey ≠ entry.ekey := fun x hx =>
      hOld ▸ hApart _ (mem_map_of_mem hx) _ mem_cons_self
    have hLater : ∀ x ∈ after, x.ekey ≠ entry.ekey := by
      intro x hx hEq
      exact (nodup_cons.mp hAfter).1 (mem_map.mpr ⟨x, hx, hEq.trans hOld.symm⟩)
    rw [getD_some, hEntries', hEntries, mem_append, mem_cons, mem_append, mem_cons]
    constructor
    · rintro (hMem | rfl | hMem)
      · exact .inr ⟨.inl hMem, hBefore existing hMem⟩
      · exact .inl rfl
      · exact .inr ⟨.inr (.inr hMem), hLater existing hMem⟩
    · rintro (rfl | ⟨hMem | rfl | hMem, hNe⟩)
      · exact .inr (.inl rfl)
      · exact .inl hMem
      · exact absurd hOld hNe
      · exact .inr (.inr hMem)

variable {entry : ResidencyEntry}

theorem BucketOk.insertEntry (h : BucketOk id pages)
    (hOwn : (ResidencyEntry.bucketHash entry.ekey).toNat = id)
    (hFlags : entry.hashFlags ≠ 0) : BucketOk id (pages.insertEntry entry) := by
  have hAll : ∀ P : ResidencyEntry → Prop, P entry → (∀ x ∈ pages.entries, P x) →
      ∀ x ∈ (pages.insertEntry entry).entries, P x := by
    intro P hEntry hOld x hx
    rcases (h.mem_insertEntry entry x).mp hx with rfl | ⟨hx, -⟩
    · exact hEntry
    · exact hOld x hx
  refine ⟨hAll _ hOwn h.own, ?_, ?_, hAll _ hFlags h.flags⟩
  · unfold Bucket.insertEntry
    cases hReplace : Bucket.replace entry pages with
    | none =>
      have hNe := Bucket.replace_eq_none hReplace
      rw [getD_none, Bucket.entries_push, map_append, map_singleton]
      refine nodup_append.mpr ⟨h.nodup, nodup_singleton _, fun x hx y hy hEq => ?_⟩
      obtain ⟨existing, hMem, rfl⟩ := mem_map.mp hx
      exact hNe existing hMem (hEq.trans (mem_singleton.mp hy))
    | some pages' =>
      obtain ⟨-, before, old, after, hEntries, hOld, hEntries'⟩ := Bucket.replace_eq_some hReplace
      have hNodup := h.nodup
      rw [hEntries, map_append, map_cons, hOld] at hNodup
      rwa [getD_some, hEntries', map_append, map_cons]
  · unfold Bucket.insertEntry
    cases hReplace : Bucket.replace entry pages with
    | none => exact h.shaped.push entry
    | some pages' => exact h.shaped.of_lengths (Bucket.replace_eq_some hReplace).1

/-! ## Loading what was saved -/

theorem ResidencyPage.toBytes_length (page : ResidencyPage) :
    page.toBytes.length = residencyPageSize := resize_length _ _

theorem ResidencyPage.decodeEntry_toBytes (h : entry.hashFlags ≠ 0) :
    decodeEntry entry.toBytes = some entry := by
  have hFlags : ofLe (entry.toBytes.take 4) ≠ 0 := by
    rw [ResidencyEntry.toBytes, take_left' (leBytes_length 4 _),
      ofLe_leBytes_of_lt entry.hashFlags.toNat_lt]
    exact fun hEq => h (UInt32.toNat_inj.mp hEq)
  rw [decodeEntry, dif_pos entry.toBytes_length, if_neg hFlags, ResidencyEntry.fromBytes_toBytes]

theorem ResidencyPage.fromBytes_toBytes {page : ResidencyPage} (hNe : page.entries ≠ [])
    (hLength : page.entries.length ≤ residencyEntriesPerPage)
    (hFlags : ∀ entry ∈ page.entries, entry.hashFlags ≠ 0) (rest : Bytes) :
    fromBytes (page.toBytes ++ rest) = some page := by
  have hEncoded : (page.entries.map ResidencyEntry.toBytes).flatten.length =
      page.entries.length * 40 :=
    length_flatten_map fun entry _ => entry.toBytes_length
  have hPer : residencyEntriesPerPage = 25 := rfl
  have hPage : residencyPageSize = 1024 := rfl
  have hRead : readRecords residencyEntrySize decodeEntry page.toBytes = page.entries := by
    rw [toBytes, resize_of_le (by omega), padTo]
    refine readRecordsLoop_of_decode
      (fun entry hEntry => ⟨entry.toBytes_length, decodeEntry_toBytes (hFlags entry hEntry)⟩)
      (fun hLe => ?_) _ ?_
    · -- Zeros are not an entry.
      rw [length_replicate] at hLe
      rw [take_replicate, Nat.min_eq_left hLe, decodeEntry, dif_pos length_replicate]
      exact if_pos rfl
    · rw [length_append, length_replicate]
      omega
  rw [fromBytes, if_neg (by rw [length_append, page.toBytes_length]; omega),
    take_left' page.toBytes_length, hRead]
  exact if_neg fun hEmpty => hNe (isEmpty_iff.mp hEmpty)

namespace ResidencyDb

variable {pages : Bucket}

theorem readPages_toBytes (hShaped : pages.Shaped)
    (hFlags : ∀ entry ∈ pages.entries, entry.hashFlags ≠ 0) (rest : Bytes) :
    readPages pages.length (pages.toBytes ++ rest) = (pages, rest) := by
  induction pages with
  | nil => rfl
  | cons page pages ih =>
    obtain ⟨⟨hNe, hLength⟩, hShaped⟩ := forall_mem_cons.mp hShaped
    obtain ⟨hPage, hPages⟩ := forall_mem_append.mp hFlags
    have hBytes : Bucket.toBytes (page :: pages) ++ rest =
        page.toBytes ++ (Bucket.toBytes pages ++ rest) := by
      rw [Bucket.toBytes, flatMap_cons, append_assoc]
      rfl
    rw [hBytes, length_cons, readPages, if_pos (by
      rw [length_append, page.toBytes_length]
      exact Nat.le_add_right _ _), drop_left' page.toBytes_length, ih hShaped hPages,
        ResidencyPage.fromBytes_toBytes hNe hLength hPage]

theorem le_length_bucketBytes (id : Nat) (h : pages ≠ []) : 5 ≤ (bucketBytes id pages).length := by
  rw [bucketBytes, if_neg fun hEmpty => h (isEmpty_iff.mp hEmpty), cons_append,
    length_cons, length_append, leBytes_length]
  omega

theorem readBuckets_bucketBytes (hOk : BucketOk id pages)
    (hId : id < residencyBucketCount) (hNe : pages ≠ []) (hCount : pages.length < 2 ^ 32)
    (fuel : Nat) (buckets : List Bucket) (rest : Bytes) :
    readBuckets (fuel + 1) buckets (bucketBytes id pages ++ rest) =
      readBuckets fuel (buckets.modify id (· ++ pages)) rest := by
  have hByte : (UInt8.ofNat id).toNat = id := UInt8.toNat_ofNat_of_lt' (hId.trans (by decide))
  have hLength : (leBytes 4 pages.length ++ (pages.toBytes ++ rest)).length =
      4 + (pages.toBytes ++ rest).length := by
    rw [length_append, leBytes_length]
  rw [bucketBytes, if_neg fun hEmpty => hNe (isEmpty_iff.mp hEmpty), cons_append,
    cons_append, append_assoc, readBuckets]
  rw [if_neg (by omega), hByte, if_neg (by omega), take_left' (leBytes_length 4 _),
    drop_left' (leBytes_length 4 _), ofLe_leBytes_of_lt hCount,
    readPages_toBytes hOk.shaped hOk.flags]

theorem readBuckets_serializeFrom (done : List Bucket) {buckets : List Bucket}
    (hOk : ∀ i pages, buckets[i]? = some pages → BucketOk (done.length + i) pages)
    (hCount : ∀ pages ∈ buckets, pages.length < 2 ^ 32)
    (hSize : done.length + buckets.length ≤ residencyBucketCount) :
    ∀ fuel, (serializeFrom done.length buckets).length ≤ fuel →
      readBuckets fuel (done ++ replicate buckets.length [])
        (serializeFrom done.length buckets) = done ++ buckets := by
  induction buckets generalizing done with
  | nil =>
    intro fuel _
    cases fuel with
    | zero => rfl
    | succ fuel => rfl
  | cons pages buckets ih =>
    intro fuel hFuel
    rw [length_cons] at hSize
    have hNext : ∀ fuel, (serializeFrom (done.length + 1) buckets).length ≤ fuel →
        readBuckets fuel (done ++ pages :: replicate buckets.length [])
          (serializeFrom (done.length + 1) buckets) = done ++ pages :: buckets := by
      intro fuel hFuel
      have hLength : (done ++ [pages]).length = done.length + 1 := by
        rw [length_append, length_singleton]
      have hRest := ih (done ++ [pages]) (fun i other hOther => by
        rw [hLength, Nat.add_right_comm]
        exact hOk (i + 1) other hOther) (forall_mem_cons.mp hCount).2 (by omega) fuel (by
        rwa [hLength])
      rwa [hLength, append_assoc, append_assoc] at hRest
    rw [serializeFrom] at hFuel ⊢
    by_cases hNe : pages = []
    · subst hNe
      exact hNext fuel hFuel
    · have hPos := le_length_bucketBytes done.length hNe
      rw [length_append] at hFuel
      obtain ⟨fuel, rfl⟩ := Nat.exists_eq_succ_of_ne_zero (show fuel ≠ 0 by omega)
      have hFirst : BucketOk done.length pages := hOk 0 pages rfl
      rw [readBuckets_bucketBytes hFirst (by omega) hNe (hCount pages mem_cons_self)]
      have hModify : (done ++ replicate (pages :: buckets).length []).modify done.length
          (· ++ pages) = done ++ pages :: replicate buckets.length [] := by
        rw [length_cons, replicate_succ, modify_eq_take_drop, take_left, drop_left]
        rfl
      rw [hModify]
      exact hNext fuel (by omega)

end ResidencyDb

end Cascette.Storage
