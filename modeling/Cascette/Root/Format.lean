import Cascette.Lib.Codec

/-!
# Blocks of a root file

A block has a header with its flags and the number of its records, and then the records: the ids as
differences, the content keys and, depending on the version and the flags, the hashes of the names.
The number and the flags decide how the bytes behind the header are read. A block that keeps to the
limits of its version is read as it was written (`RootBlock.parse_write`).
-/

namespace Cascette.Root

open Lib List Nat UInt32 Function Codec

inductive RootError
  | io
  | binRw
  | corruptedBlockHeader (message : String)
deriving DecidableEq

inductive RootVersion
  | v1
  | v2
  | v3
  | v4
deriving DecidableEq

def RootVersion.hasHeader (version : RootVersion) : Bool := version ≠ .v1

/-- The flag of a block without hashes of names. -/
def noNameHash : UInt64 := 0x10000000

def hasNameHashes (contentFlags : UInt64) : Bool := contentFlags &&& noNameHash = 0

structure RootRecord where
  fileDataId : UInt32
  contentKey : Key 16
  nameHash : Option UInt64
deriving DecidableEq

def RootRecord.hasNameHash (record : RootRecord) : Bool := record.nameHash.isSome

structure RootBlockHeader where
  numRecords : UInt32
  contentFlags : UInt64
  localeFlags : UInt32
deriving DecidableEq

structure RootBlock where
  header : RootBlockHeader
  records : List RootRecord
deriving DecidableEq

/-! ## Ids as differences -/

/-- The ids from `currentId` on: each difference counts from the id after the last one. -/
def decodeFrom : UInt32 → List UInt32 → List UInt32
  | _, [] => []
  | currentId, delta :: deltas =>
    let fileId := currentId + delta
    fileId :: decodeFrom (fileId + 1) deltas

def decodeFileDataIdsTact (deltas : List UInt32) : List UInt32 := decodeFrom 0 deltas

/-- The differences behind `prev`. -/
def encodeFrom : UInt32 → List UInt32 → List UInt32
  | _, [] => []
  | prev, current :: fdids => (current - prev - 1) :: encodeFrom current fdids

def encodeFileDataIdsTact : List UInt32 → List UInt32
  | [] => []
  | first :: fdids => first :: encodeFrom first fdids

@[simp]
theorem length_decodeFrom (currentId : UInt32) (deltas : List UInt32) :
    (decodeFrom currentId deltas).length = deltas.length := by
  induction deltas generalizing currentId with
  | nil => rfl
  | cons delta deltas ih => rw [decodeFrom, length_cons, ih, length_cons]

theorem decodeFrom_encodeFrom (prev : UInt32) (fdids : List UInt32) :
    decodeFrom (prev + 1) (encodeFrom prev fdids) = fdids := by
  induction fdids generalizing prev with
  | nil => rfl
  | cons current fdids ih =>
    have hCurrent : prev + 1 + (current - prev - 1) = current := by grind
    rw [encodeFrom, decodeFrom, hCurrent, ih]

/-- The order of the ids does not matter. -/
theorem decodeFileDataIdsTact_encode (fdids : List UInt32) :
    decodeFileDataIdsTact (encodeFileDataIdsTact fdids) = fdids := by
  cases fdids with
  | nil => rfl
  | cons first fdids =>
    rw [encodeFileDataIdsTact, decodeFileDataIdsTact, decodeFrom, UInt32.zero_add,
      decodeFrom_encodeFrom]

theorem encodeFrom_decodeFrom (prev : UInt32) (deltas : List UInt32) :
    encodeFrom prev (decodeFrom (prev + 1) deltas) = deltas := by
  induction deltas generalizing prev with
  | nil => rfl
  | cons delta deltas ih =>
    have hDelta : prev + 1 + delta - prev - 1 = delta := by grind
    rw [decodeFrom, encodeFrom, hDelta, ih]

theorem decodeFileDataIdsTact_eq_iff {deltas fdids : List UInt32} :
    decodeFileDataIdsTact deltas = fdids ↔ deltas = encodeFileDataIdsTact fdids := by
  constructor
  · rintro rfl
    cases deltas with
    | nil => rfl
    | cons delta deltas =>
      rw [decodeFileDataIdsTact, decodeFrom, encodeFileDataIdsTact, encodeFrom_decodeFrom,
        UInt32.zero_add]
  · rintro rfl
    exact decodeFileDataIdsTact_encode fdids

@[simp]
theorem length_encodeFileDataIdsTact (fdids : List UInt32) :
    (encodeFileDataIdsTact fdids).length = fdids.length := by
  have hLength := congrArg List.length (decodeFileDataIdsTact_encode fdids)
  rwa [decodeFileDataIdsTact, length_decodeFrom] at hLength

/-! ## Ids as signed differences -/

/-- `i32::checked_add`. -/
def checkedAdd (a b : Int32) : Option Int32 :=
  if -2 ^ 31 ≤ a.toInt + b.toInt ∧ a.toInt + b.toInt < 2 ^ 31 then some (a + b) else none

def nextId (currentId delta : Int32) : Option Int32 :=
  (checkedAdd currentId delta).bind (checkedAdd · 1)

/-- The ids behind `currentId`. A difference that leads out of the range is skipped. -/
def decodeBehind : Int32 → List Int32 → List UInt32
  | _, [] => []
  | currentId, delta :: deltas =>
    match nextId currentId delta with
    | some newId => newId.toUInt32 :: decodeBehind newId deltas
    | none => decodeBehind currentId deltas

def decodeFileDataIds (deltas : List Int32) : List UInt32 := decodeBehind (-1) deltas

/-- The subtraction of `i32`. -/
def difference (a b : Int32) : Checked Int32 :=
  if -2 ^ 31 ≤ a.toInt - b.toInt ∧ a.toInt - b.toInt < 2 ^ 31 then .ok (a - b) else .error .overflow

def encodeBehind : Int32 → List UInt32 → Checked (List Int32)
  | _, [] => .ok []
  | prevId, id :: ids => do
    let distance ← difference id.toInt32 prevId
    let delta ← difference distance 1
    let deltas ← encodeBehind id.toInt32 ids
    .ok (delta :: deltas)

def encodeFileDataIds (ids : List UInt32) : Checked (List Int32) := encodeBehind (-1) ids

/-- The distance of the two is in the range, and it and the id are so without the implicit one. -/
def Follows (prevId id : Int32) : Prop :=
  -2 ^ 31 < id.toInt ∧ -2 ^ 31 < id.toInt - prevId.toInt ∧ id.toInt - prevId.toInt < 2 ^ 31

theorem checkedAdd_eq_some {a b x : Int32} :
    checkedAdd a b = some x ↔ a.toInt + b.toInt = x.toInt := by
  have hX := And.intro x.le_toInt x.toInt_lt
  have hAdd := Int32.toInt_add a b
  rw [Int.bmod] at hAdd
  rw [checkedAdd, Option.ite_none_right_eq_some, Option.some.injEq, ← Int32.toInt_inj]
  omega

theorem difference_eq_ok {a b x : Int32} :
    difference a b = .ok x ↔ a.toInt - b.toInt = x.toInt := by
  have hX := And.intro x.le_toInt x.toInt_lt
  have hSub := Int32.toInt_sub a b
  rw [Int.bmod] at hSub
  rw [difference]
  split
  · rw [Except.ok.injEq, ← Int32.toInt_inj]
    omega
  · exact iff_of_false nofun (by omega)

theorem nextId_difference {prevId id distance delta x : Int32}
    (hDistance : difference id prevId = .ok distance) (hDelta : difference distance 1 = .ok delta) :
    nextId prevId delta = some x ↔ -2 ^ 31 < id.toInt ∧ x = id := by
  rw [difference_eq_ok] at hDistance hDelta
  have hId := And.intro id.le_toInt id.toInt_lt
  have hOne : Int32.toInt 1 = 1 := rfl
  have hBefore := Int32.toInt_sub id 1
  rw [Int.bmod] at hBefore
  simp only [nextId, Option.bind_eq_some_iff, checkedAdd_eq_some]
  constructor
  · rintro ⟨y, hY, hX⟩
    have hLeast := y.le_toInt
    rw [← Int32.toInt_inj]
    omega
  · rintro ⟨hLeast, rfl⟩
    exact ⟨x - 1, by omega, by omega⟩

theorem length_encodeBehind {prevId : Int32} {ids : List UInt32} {deltas : List Int32}
    (h : encodeBehind prevId ids = .ok deltas) : deltas.length = ids.length := by
  induction ids generalizing prevId deltas with
  | nil =>
    cases h
    rfl
  | cons id ids ih =>
    obtain ⟨distance, -, h⟩ := bind_eq_ok.mp h
    obtain ⟨delta, -, h⟩ := bind_eq_ok.mp h
    obtain ⟨others, hOthers, h⟩ := bind_eq_ok.mp h
    cases h
    exact congrArg (· + 1) (ih hOthers)

theorem length_decodeBehind_le (currentId : Int32) (deltas : List Int32) :
    (decodeBehind currentId deltas).length ≤ deltas.length := by
  induction deltas generalizing currentId with
  | nil => exact le_rfl
  | cons delta deltas ih =>
    rw [decodeBehind]
    split
    · exact succ_le_succ (ih _)
    · exact (ih _).trans (le_succ _)

theorem decodeBehind_encodeBehind (prevId : Int32) (ids : List UInt32) :
    (∃ deltas, encodeBehind prevId ids = .ok deltas ∧ decodeBehind prevId deltas = ids) ↔
      (prevId :: ids.map UInt32.toInt32).IsChain Follows := by
  induction ids generalizing prevId with
  | nil => exact ⟨fun _ => .singleton _, fun _ => ⟨[], rfl, rfl⟩⟩
  | cons id ids ih =>
    rw [map_cons, isChain_cons_cons, ← ih]
    have hOne : Int32.toInt 1 = 1 := rfl
    constructor
    · rintro ⟨deltas, hEncode, hDecode⟩
      obtain ⟨distance, hDistance, hEncode⟩ := bind_eq_ok.mp hEncode
      obtain ⟨delta, hDelta, hEncode⟩ := bind_eq_ok.mp hEncode
      obtain ⟨others, hOthers, hEncode⟩ := bind_eq_ok.mp hEncode
      cases hEncode
      rw [decodeBehind] at hDecode
      cases hNext : nextId prevId delta with
      | some newId =>
        obtain ⟨hLeast, rfl⟩ := (nextId_difference hDistance hDelta).mp hNext
        rw [hNext] at hDecode
        rw [difference_eq_ok] at hDistance hDelta
        have hRange := And.intro distance.toInt_lt delta.le_toInt
        exact ⟨⟨hLeast, by omega, by omega⟩, others, hOthers, (cons.inj hDecode).2⟩
      | none =>
        -- The skipped id leaves the list too short.
        rw [hNext] at hDecode
        dsimp only at hDecode
        have hLength := length_decodeBehind_le prevId others
        rw [hDecode, length_encodeBehind hOthers] at hLength
        exact absurd hLength (not_succ_le_self _)
    · rintro ⟨⟨hLeast, hAbove, hBelow⟩, others, hOthers, hDecode⟩
      have hDistance : difference id.toInt32 prevId = .ok (id.toInt32 - prevId) :=
        if_pos ⟨hAbove.le, hBelow⟩
      have hDelta : difference (id.toInt32 - prevId) 1 = .ok (id.toInt32 - prevId - 1) := by
        have hExact := difference_eq_ok.mp hDistance
        exact if_pos (by omega)
      refine ⟨_, bind_eq_ok.mpr ⟨_, hDistance, bind_eq_ok.mpr ⟨_, hDelta,
        bind_eq_ok.mpr ⟨others, hOthers, rfl⟩⟩⟩, ?_⟩
      rw [decodeBehind, (nextId_difference hDistance hDelta).mpr ⟨hLeast, rfl⟩]
      exact congrArg (id :: ·) hDecode

/-- The unsigned differences lead back to every list of ids. With the signed ones an id that lies
too far from the one before it overflows, and the least one is skipped. -/
theorem decode_fileDataIds (ids : List UInt32) :
    decodeFileDataIdsTact (encodeFileDataIdsTact ids) = ids ∧
      ((∃ deltas, encodeFileDataIds ids = .ok deltas ∧ decodeFileDataIds deltas = ids) ↔
        (-1 :: ids.map UInt32.toInt32).IsChain Follows) :=
  ⟨decodeFileDataIdsTact_encode ids, decodeBehind_encodeBehind (-1) ids⟩

/-- The difference of the least id is written, but then skipped. -/
theorem decode_fileDataIds_refuted :
    encodeFileDataIds [0x80000000] = .ok [-0x80000000] ∧ decodeFileDataIds [-0x80000000] = [] := by
  decide

/-! ## Headers of blocks -/

def uint32 : Codec RootError UInt32 := .uint32Le .binRw

def uint8 : Codec RootError UInt8 := .uint8 .binRw

def uint64 : Codec RootError UInt64 := .uint64Le .binRw

def contentKey : Codec RootError (Key 16) := .key .binRw 16

namespace RootBlockHeader

/-- The flags of the second and third version, which are put together from three fields. -/
def reconstructV2ContentFlags (flags1 flags2 : UInt32) (flags3 : UInt8) : UInt64 :=
  flags1.toUInt64 ||| flags2.toUInt64 ||| (flags3.toUInt64 <<< 17)

def v1Codec : Codec RootError (UInt32 × UInt32 × UInt32) := uint32.pair (uint32.pair uint32)

def v2Codec : Codec RootError (UInt32 × UInt32 × UInt32 × UInt32 × UInt8) :=
  uint32.pair (uint32.pair (uint32.pair (uint32.pair uint8)))

/-- The flags have forty bits, and two fields without a meaning follow. -/
def v4Codec : Codec RootError (UInt32 × UInt32 × UInt32 × UInt8 × UInt32 × UInt8) :=
  uint32.pair (uint32.pair (uint32.pair (uint8.pair (uint32.pair uint8))))

def read (version : RootVersion) (bytes : Bytes) : Except RootError (RootBlockHeader × Bytes) :=
  match version with
  | .v1 => do
    let ((numRecords, contentFlags, localeFlags), rest) ← v1Codec.read bytes
    .ok ({ numRecords, contentFlags := contentFlags.toUInt64, localeFlags }, rest)
  | .v2 | .v3 => do
    let ((numRecords, localeFlags, flags1, flags2, flags3), rest) ← v2Codec.read bytes
    .ok ({ numRecords, contentFlags := reconstructV2ContentFlags flags1 flags2 flags3,
           localeFlags }, rest)
  | .v4 => do
    let ((numRecords, localeFlags, low, high, _, _), rest) ← v4Codec.read bytes
    .ok ({ numRecords, contentFlags := low.toUInt64 ||| (high.toUInt64 <<< 32), localeFlags }, rest)

def write (version : RootVersion) (h : RootBlockHeader) : Bytes :=
  match version with
  | .v1 => v1Codec.write (h.numRecords, h.contentFlags.toUInt32, h.localeFlags)
  | .v2 | .v3 => v2Codec.write (h.numRecords, h.localeFlags, h.contentFlags.toUInt32, 0, 0)
  | .v4 => v4Codec.write (h.numRecords, h.localeFlags, h.contentFlags.toUInt32,
      (h.contentFlags >>> 32).toUInt8, 0, 0)

end RootBlockHeader

/-! ## Records -/

/-- The hashes of the records, which a block without them leaves out. -/
def readHashes (contentFlags : UInt64) (count : Nat) (bytes : Bytes) :
    Except RootError (List (Option UInt64) × Bytes) :=
  if hasNameHashes contentFlags then do
    let (hashes, rest) ← uint64.readMany count bytes
    .ok (hashes.map some, rest)
  else .ok (List.replicate count none, bytes)

/-- Keys and hashes side by side. -/
def readInterleaved (count : Nat) (bytes : Bytes) :
    Except RootError (List (Key 16 × Option UInt64) × Bytes) := do
  let (rows, rest) ← (contentKey.pair uint64).readMany count bytes
  .ok (rows.map fun row => (row.1, some row.2), rest)

/-- All keys and then all hashes. -/
def readSeparated (contentFlags : UInt64) (count : Nat) (bytes : Bytes) :
    Except RootError (List (Key 16 × Option UInt64) × Bytes) := do
  let (keys, rest) ← contentKey.readMany count bytes
  let (hashes, rest) ← readHashes contentFlags count rest
  .ok (keys.zip hashes, rest)

def readColumns (version : RootVersion) (contentFlags : UInt64) (count : Nat) (bytes : Bytes) :
    Except RootError (List (Key 16 × Option UInt64) × Bytes) :=
  if version = .v1 then readInterleaved count bytes else readSeparated contentFlags count bytes

def readRecords (version : RootVersion) (contentFlags : UInt64) (count : Nat) (bytes : Bytes) :
    Except RootError (List RootRecord × Bytes) := do
  let (deltas, rest) ← uint32.readMany count bytes
  let (columns, rest) ← readColumns version contentFlags count rest
  .ok (List.zipWith (fun fdid row => ⟨fdid, row.1, row.2⟩) (decodeFileDataIdsTact deltas) columns,
    rest)

/-- A missing hash is written as zero. -/
def RootRecord.storedHash (record : RootRecord) : UInt64 := record.nameHash.getD 0

def writeInterleaved (records : List RootRecord) : Bytes :=
  (contentKey.pair uint64).writeMany
    (records.map fun record => (record.contentKey, record.storedHash))

def writeSeparated (contentFlags : UInt64) (records : List RootRecord) : Bytes :=
  contentKey.writeMany (records.map RootRecord.contentKey) ++
    if hasNameHashes contentFlags then uint64.writeMany (records.map RootRecord.storedHash) else []

def writeColumns (version : RootVersion) (contentFlags : UInt64) (records : List RootRecord) :
    Bytes :=
  if version = .v1 then writeInterleaved records else writeSeparated contentFlags records

def writeRecords (version : RootVersion) (contentFlags : UInt64) (records : List RootRecord) :
    Bytes :=
  uint32.writeMany (encodeFileDataIdsTact (records.map RootRecord.fileDataId)) ++
    writeColumns version contentFlags records

/-! ## Blocks -/

/-- The most records that a block is read with. -/
def maxRecords : Nat := 1000000

namespace RootBlock

/-- A block that says it has too many records is read without them. -/
def parse (version : RootVersion) (bytes : Bytes) : Except RootError (RootBlock × Bytes) := do
  let (header, rest) ← RootBlockHeader.read version bytes
  if header.numRecords = 0 ∨ header.numRecords.toNat > maxRecords then
    .ok ({ header, records := [] }, rest)
  else do
    let (records, rest) ← readRecords version header.contentFlags header.numRecords.toNat rest
    .ok ({ header, records }, rest)

def write (version : RootVersion) (block : RootBlock) : Bytes :=
  block.header.write version ++
    if block.records = [] then []
    else writeRecords version block.header.contentFlags block.records

end RootBlock

/-! ## What was written is read -/

def RootVersion.flagBits : RootVersion → Nat
  | .v4 => 40
  | _ => 32

/-- Whether a block stores hashes of names. -/
def storesHashes (version : RootVersion) (contentFlags : UInt64) : Bool :=
  version = .v1 ∨ hasNameHashes contentFlags

theorem toUInt64_toUInt32 {v : UInt64} (h : v.toNat < 2 ^ 32) : v.toUInt32.toUInt64 = v := by
  apply UInt64.toNat_inj.mp
  rw [toNat_toUInt64, UInt64.toNat_toUInt32, mod_eq_of_lt h]

theorem low_or_high {v : UInt64} (h : v.toNat < 2 ^ 40) :
    v.toUInt32.toUInt64 ||| ((v >>> 32).toUInt8.toUInt64 <<< 32) = v := by
  apply UInt64.toNat_inj.mp
  have hShift : (32 : UInt64).toNat % 64 = 32 := rfl
  have hHigh : v.toNat / 2 ^ 32 % 2 ^ 8 = v.toNat / 2 ^ 32 := mod_eq_of_lt (by omega)
  have hFits : (v.toNat / 2 ^ 32) <<< 32 % 2 ^ 64 = (v.toNat / 2 ^ 32) <<< 32 :=
    mod_eq_of_lt (by rw [shiftLeft_eq]; omega)
  rw [UInt64.toNat_or, toNat_toUInt64, UInt64.toNat_toUInt32, UInt64.toNat_shiftLeft, hShift,
    UInt8.toNat_toUInt64, UInt64.toNat_toUInt8, UInt64.toNat_shiftRight, hShift,
    shiftRight_eq_div_pow, hHigh, hFits, Nat.or_comm, ← shiftLeft_add_eq_or_of_lt
    (mod_lt _ (by decide)), shiftLeft_eq]
  omega

namespace RootBlockHeader

theorem read_write {version : RootVersion} {h : RootBlockHeader}
    (hFlags : h.contentFlags.toNat < 2 ^ version.flagBits) (rest : Bytes) :
    read version (h.write version ++ rest) = .ok (h, rest) := by
  cases version with
  | v1 =>
    rw [read, write, v1Codec.read_write, ok_bind]
    dsimp only
    rw [toUInt64_toUInt32 hFlags]
  | v2 | v3 =>
    rw [read, write, v2Codec.read_write, ok_bind]
    dsimp only
    simp [reconstructV2ContentFlags, toUInt64_toUInt32 hFlags]
  | v4 =>
    rw [read, write, v4Codec.read_write, ok_bind]
    dsimp only
    rw [low_or_high hFlags]

end RootBlockHeader

variable {records : List RootRecord} {contentFlags : UInt64} {version : RootVersion} {count : Nat}
  {bytes rest : Bytes} {columns : List (Key 16 × Option UInt64)} {hashes : List (Option UInt64)}

theorem map_some_eq_iff {values : List UInt64} :
    values.map some = hashes ↔
      values = hashes.map (·.getD 0) ∧ ∀ hash ∈ hashes, hash.isSome = true := by
  induction hashes generalizing values with
  | nil => simp
  | cons hash hashes ih => cases values <;> cases hash <;> simp [ih, and_assoc]

theorem map_pair_some_eq_iff {rows : List (Key 16 × UInt64)} :
    rows.map (fun row => (row.1, some row.2)) = columns ↔
      rows = columns.map (fun column => (column.1, column.2.getD 0)) ∧
        ∀ column ∈ columns, column.2.isSome = true := by
  induction columns generalizing rows with
  | nil => simp
  | cons column columns ih =>
    obtain ⟨key, hash⟩ := column
    rw [forall_mem_cons]
    cases rows <;> cases hash <;> simp [ih, Prod.ext_iff, and_assoc, -Prod.forall]

theorem zipWith_eq_iff {α β γ : Type} {f : α → β → γ} {g : γ → α} {h : γ → β}
    (hf : ∀ a b c, f a b = c ↔ a = g c ∧ b = h c) {xs : List α} {ys : List β} {zs : List γ}
    (hLength : xs.length = ys.length) :
    zipWith f xs ys = zs ↔ xs = zs.map g ∧ ys = zs.map h := by
  induction zs generalizing xs ys with
  | nil => cases xs <;> cases ys <;> simp_all
  | cons z zs ih =>
    cases xs <;> cases ys <;> simp_all
    tauto

theorem zip_eq_iff {α β : Type} {xs : List α} {ys : List β} {zs : List (α × β)}
    (h : xs.length = ys.length) : xs.zip ys = zs ↔ xs = zs.map Prod.fst ∧ ys = zs.map Prod.snd :=
  zipWith_eq_iff (fun _ _ _ => Prod.ext_iff) h

theorem readInterleaved_eq_ok :
    readInterleaved count bytes = .ok (columns, rest) ↔
      bytes = (contentKey.pair uint64).writeMany
          (columns.map fun column => (column.1, column.2.getD 0)) ++ rest ∧
        columns.length = count ∧ ∀ column ∈ columns, column.2.isSome = true := by
  simp only [readInterleaved, bind_pair_eq_ok, readMany_eq_ok, Except.ok.injEq,
    Prod.mk.injEq, map_pair_some_eq_iff]
  grind

theorem readHashes_eq_ok :
    readHashes contentFlags count bytes = .ok (hashes, rest) ↔
      bytes = (if hasNameHashes contentFlags then uint64.writeMany (hashes.map (·.getD 0))
        else []) ++ rest ∧ hashes.length = count ∧
      ∀ hash ∈ hashes, hash.isSome = hasNameHashes contentFlags := by
  rw [readHashes]
  cases hasNameHashes contentFlags with
  | true =>
    simp [map_some_eq_iff]
    grind
  | false =>
    simp [eq_comm (a := replicate _ _), eq_replicate_iff]
    tauto

theorem readSeparated_eq_ok :
    readSeparated contentFlags count bytes = .ok (columns, rest) ↔
      bytes = contentKey.writeMany (columns.map Prod.fst) ++
          (if hasNameHashes contentFlags then uint64.writeMany (columns.map (·.2.getD 0))
            else []) ++ rest ∧
        columns.length = count ∧
        ∀ column ∈ columns, column.2.isSome = hasNameHashes contentFlags := by
  simp only [readSeparated, bind_pair_eq_ok, readMany_eq_ok, readHashes_eq_ok,
    Except.ok.injEq, Prod.mk.injEq]
  constructor
  · rintro ⟨keys, _, ⟨rfl, hKeys⟩, hashes, _, ⟨rfl, hHashes, hEach⟩, hZip, rfl⟩
    obtain ⟨rfl, rfl⟩ := (zip_eq_iff (hKeys.trans hHashes.symm)).mp hZip
    rw [forall_mem_map] at hEach
    exact ⟨by simp [comp_def], by simpa using hKeys, hEach⟩
  · rintro ⟨rfl, hCount, hEach⟩
    exact ⟨_, _, ⟨append_assoc _ _ _, by simpa⟩, columns.map Prod.snd, rest,
      ⟨by simp [comp_def], by simpa, forall_mem_map.mpr hEach⟩,
      (zip_eq_iff (by simp)).mpr ⟨rfl, rfl⟩, rfl⟩

/-- What is stored of a record beside its id. -/
def RootRecord.column (record : RootRecord) : Key 16 × Option UInt64 :=
  (record.contentKey, record.nameHash)

theorem readColumns_eq_ok :
    readColumns version contentFlags count bytes = .ok (records.map RootRecord.column, rest) ↔
      bytes = writeColumns version contentFlags records ++ rest ∧ records.length = count ∧
      ∀ record ∈ records, record.hasNameHash = storesHashes version contentFlags := by
  rw [readColumns, writeColumns]
  by_cases hVersion : version = .v1
  · simp [hVersion, readInterleaved_eq_ok, writeInterleaved, storesHashes, RootRecord.column,
      RootRecord.storedHash, RootRecord.hasNameHash, comp_def]
  · simp [hVersion, readSeparated_eq_ok, writeSeparated, storesHashes, RootRecord.column,
      RootRecord.hasNameHash, comp_def]
    exact fun _ _ => Iff.rfl

theorem length_of_readColumns
    (h : readColumns version contentFlags count bytes = .ok (columns, rest)) :
    columns.length = count := by
  unfold readColumns at h
  split at h
  · exact (readInterleaved_eq_ok.mp h).2.1
  · exact (readSeparated_eq_ok.mp h).2.1

theorem readRecords_eq_ok :
    readRecords version contentFlags count bytes = .ok (records, rest) ↔
      bytes = writeRecords version contentFlags records ++ rest ∧ records.length = count ∧
      ∀ record ∈ records, record.hasNameHash = storesHashes version contentFlags := by
  have hRow (fdid : UInt32) (column : Key 16 × Option UInt64) (record : RootRecord) :
      ⟨fdid, column.1, column.2⟩ = record ↔ fdid = record.fileDataId ∧ column = record.column := by
    obtain ⟨⟩ := record
    simp [RootRecord.column, Prod.ext_iff]
  simp only [readRecords, bind_pair_eq_ok, readMany_eq_ok, Except.ok.injEq, Prod.mk.injEq]
  constructor
  · rintro ⟨deltas, _, ⟨rfl, hDeltas⟩, columns, _, hColumns, hZip, rfl⟩
    have hLength : (decodeFileDataIdsTact deltas).length = columns.length := by
      rw [length_of_readColumns hColumns, decodeFileDataIdsTact, length_decodeFrom, hDeltas]
    obtain ⟨hIds, rfl⟩ := (zipWith_eq_iff hRow hLength).mp hZip
    obtain ⟨rfl, hCount⟩ := readColumns_eq_ok.mp hColumns
    rw [decodeFileDataIdsTact_eq_iff] at hIds
    exact ⟨by simp [writeRecords, hIds], hCount⟩
  · rintro ⟨rfl, hCount⟩
    refine ⟨_, _, ⟨append_assoc _ _ _, by simpa using hCount.1⟩, _, _,
      readColumns_eq_ok.mpr ⟨rfl, hCount⟩, ?_, rfl⟩
    rw [decodeFileDataIdsTact_encode]
    exact (zipWith_eq_iff hRow (by simp)).mpr ⟨rfl, rfl⟩

namespace RootBlock

/-- The block keeps to what its version can store. -/
structure Storable (version : RootVersion) (block : RootBlock) : Prop where
  flags : block.header.contentFlags.toNat < 2 ^ version.flagBits
  count : block.header.numRecords.toNat = block.records.length
  nonempty : block.records ≠ []
  limit : block.records.length ≤ maxRecords
  hashes : ∀ record ∈ block.records,
    record.hasNameHash = storesHashes version block.header.contentFlags

theorem parse_write {version : RootVersion} {block : RootBlock} (h : block.Storable version)
    (rest : Bytes) : parse version (block.write version ++ rest) = .ok (block, rest) := by
  have hPos := length_pos_iff.mpr h.nonempty
  have hCount : ¬ (block.header.numRecords = 0 ∨ block.header.numRecords.toNat > maxRecords) := by
    rintro (hZero | hMore)
    · have hNat := congrArg UInt32.toNat hZero
      rw [h.count] at hNat
      change block.records.length = 0 at hNat
      omega
    · have hLimit := h.limit
      rw [h.count] at hMore
      omega
  rw [parse, write, if_neg h.nonempty, append_assoc, RootBlockHeader.read_write h.flags, ok_bind]
  dsimp only
  rw [if_neg hCount, readRecords_eq_ok.mpr ⟨rfl, h.count.symm, h.hashes⟩, ok_bind]

end RootBlock

/-! ## What is read -/

theorem width_uint32 : uint32.Width 4 := width_uint32Le _

theorem width_uint64 : uint64.Width 8 := width_uint64Le _

theorem width_uint8 : uint8.Width 1 := Codec.width_uint8 _

theorem width_contentKey : contentKey.Width 16 := fun k => k.2

def RootVersion.blockHeaderSize : RootVersion → Nat
  | .v1 => 12
  | .v2 | .v3 => 17
  | .v4 => 18

def recordSize (version : RootVersion) (contentFlags : UInt64) : Nat :=
  4 + 16 + if storesHashes version contentFlags then 8 else 0

namespace RootBlockHeader

theorem width_v1Codec : v1Codec.Width 12 := width_uint32.pair (width_uint32.pair width_uint32)

theorem width_v2Codec : v2Codec.Width 17 :=
  width_uint32.pair (width_uint32.pair (width_uint32.pair (width_uint32.pair width_uint8)))

theorem width_v4Codec : v4Codec.Width 18 :=
  width_uint32.pair (width_uint32.pair (width_uint32.pair
    (width_uint8.pair (width_uint32.pair width_uint8))))

theorem length_write (version : RootVersion) (h : RootBlockHeader) :
    (h.write version).length = version.blockHeaderSize := by
  cases version with
  | v1 => exact width_v1Codec _
  | v2 | v3 => exact width_v2Codec _
  | v4 => exact width_v4Codec _

theorem reconstructV2ContentFlags_lt (flags1 flags2 : UInt32) (flags3 : UInt8) :
    (reconstructV2ContentFlags flags1 flags2 flags3).toNat < 2 ^ 32 := by
  have hShift : (17 : UInt64).toNat % 64 = 17 := rfl
  have hFlags3 := flags3.toNat_lt
  rw [reconstructV2ContentFlags, UInt64.toNat_or, UInt64.toNat_or, toNat_toUInt64,
    toNat_toUInt64, UInt64.toNat_shiftLeft, hShift, UInt8.toNat_toUInt64, shiftLeft_eq]
  refine or_lt_two_pow (or_lt_two_pow flags1.toNat_lt flags2.toNat_lt) ?_
  exact lt_of_le_of_lt (mod_le _ _) (by omega)

theorem read_eq_ok {version : RootVersion} {bytes rest : Bytes} {h : RootBlockHeader}
    (hRead : read version bytes = .ok (h, rest)) :
    h.contentFlags.toNat < 2 ^ version.flagBits ∧
      bytes.length = version.blockHeaderSize + rest.length := by
  cases version with
  | v1 =>
    obtain ⟨⟨⟨num, content, locale⟩, rest⟩, hCodec, hRead⟩ := bind_eq_ok.mp hRead
    cases hRead
    refine ⟨?_, width_v1Codec.length_of_read hCodec⟩
    exact (toNat_toUInt64 content).symm ▸ content.toNat_lt
  | v2 | v3 =>
    obtain ⟨⟨⟨num, locale, flags1, flags2, flags3⟩, rest⟩, hCodec, hRead⟩ := bind_eq_ok.mp hRead
    cases hRead
    exact ⟨reconstructV2ContentFlags_lt _ _ _, width_v2Codec.length_of_read hCodec⟩
  | v4 =>
    obtain ⟨⟨⟨num, locale, low, high, _, _⟩, rest⟩, hCodec, hRead⟩ := bind_eq_ok.mp hRead
    cases hRead
    refine ⟨?_, width_v4Codec.length_of_read hCodec⟩
    have hShift : (32 : UInt64).toNat % 64 = 32 := rfl
    have hLow := low.toNat_lt
    have hHigh := high.toNat_lt
    change (low.toUInt64 ||| (high.toUInt64 <<< 32)).toNat < 2 ^ 40
    rw [UInt64.toNat_or, toNat_toUInt64, UInt64.toNat_shiftLeft, hShift,
      UInt8.toNat_toUInt64, shiftLeft_eq]
    refine or_lt_two_pow (by omega) ?_
    exact lt_of_le_of_lt (mod_le _ _) (by omega)

end RootBlockHeader

theorem length_writeColumns (version : RootVersion) (contentFlags : UInt64)
    (records : List RootRecord) : (writeColumns version contentFlags records).length =
      records.length * (16 + if storesHashes version contentFlags then 8 else 0) := by
  unfold writeColumns
  split
  next hVersion =>
    have hStores : storesHashes version contentFlags = true := decide_eq_true (.inl hVersion)
    rw [writeInterleaved, (width_contentKey.pair width_uint64).length_writeMany, length_map,
      hStores, if_pos rfl]
  next hVersion =>
    have hStores : storesHashes version contentFlags = hasNameHashes contentFlags := by
      simp [storesHashes, hVersion]
    rw [writeSeparated, length_append, width_contentKey.length_writeMany, length_map,
      hStores, Nat.mul_add]
    split
    · rw [width_uint64.length_writeMany, length_map]
    · rw [length_nil, Nat.mul_zero]

theorem length_writeRecords (version : RootVersion) (contentFlags : UInt64)
    (records : List RootRecord) : (writeRecords version contentFlags records).length =
      records.length * recordSize version contentFlags := by
  rw [writeRecords, length_append, width_uint32.length_writeMany, length_writeColumns,
    length_encodeFileDataIdsTact, length_map, recordSize, Nat.add_assoc 4, Nat.mul_add _ 4]

namespace RootBlock

def byteLength (version : RootVersion) (block : RootBlock) : Nat :=
  version.blockHeaderSize + block.records.length * recordSize version block.header.contentFlags

/-- A block that was read has no records or keeps to what its version can store. -/
theorem parse_eq_ok {version : RootVersion} {bytes rest : Bytes} {block : RootBlock}
    (h : parse version bytes = .ok (block, rest)) :
    (block.records = [] ∨ block.Storable version) ∧
      bytes.length = block.byteLength version + rest.length := by
  obtain ⟨⟨header, rest₁⟩, hHeader, h⟩ := bind_eq_ok.mp h
  obtain ⟨hFlags, hBytes⟩ := RootBlockHeader.read_eq_ok hHeader
  dsimp only at h
  split_ifs at h with hCount
  · cases h
    refine ⟨.inl rfl, ?_⟩
    rw [hBytes, byteLength, length_nil, Nat.zero_mul, Nat.add_zero]
  · obtain ⟨⟨records, rest₂⟩, hRecords, h⟩ := bind_eq_ok.mp h
    cases h
    obtain ⟨rfl, hLength, hHashes⟩ := readRecords_eq_ok.mp hRecords
    obtain ⟨hZero, hLimit⟩ := not_or.mp hCount
    refine ⟨.inr ⟨hFlags, hLength.symm, ?_, ?_, hHashes⟩, ?_⟩
    · intro hNil
      have hNone : records.length = 0 := congrArg List.length hNil
      exact hZero (UInt32.toNat_inj.mp (hLength.symm.trans hNone))
    · exact hLength ▸ not_lt.mp hLimit
    · rw [hBytes, length_append, length_writeRecords, byteLength, Nat.add_assoc]

theorem length_write (version : RootVersion) (block : RootBlock) :
    (block.write version).length = block.byteLength version := by
  rw [write, length_append, RootBlockHeader.length_write, byteLength]
  by_cases hNil : block.records = []
  · rw [if_pos hNil, hNil, length_nil, length_nil, Nat.zero_mul]
  · rw [if_neg hNil, length_writeRecords]

end RootBlock

end Cascette.Root
