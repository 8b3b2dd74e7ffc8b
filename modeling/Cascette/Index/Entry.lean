import Cascette.Lib.Bytes

/-!
# Entries of the local index

An `.idx` entry is eighteen bytes: nine key bytes, a five-byte archive location and the encoded
size. The location packs a ten-bit archive id and a thirty-bit offset, one high byte and one
big-endian word; the size is little-endian. `toPacked` writes eighteen zero bytes for an archive
id that does not fit, and `fromPacked` rejects the all-zero key, so exactly the entries with a
packable location and a non-zero key survive (`fromPacked_toPacked`).
-/

namespace Cascette.Index

open Lib List Nat UInt32

inductive StorageError
  | index (message : String)
deriving DecidableEq

/-- Encoding keys are sixteen bytes; the index keeps the first nine. -/
abbrev EncodingKey := Key 16

structure ArchiveLocation where
  archiveId : UInt16
  archiveOffset : UInt32
deriving DecidableEq

structure IndexEntry where
  key : Key 9
  archiveLocation : ArchiveLocation
  size : UInt32
deriving DecidableEq

/-- The all-zero key, which marks an empty slot on disk. -/
def zeroKey : Key 9 := ⟨List.replicate 9 0, by simp⟩

/-! ## The packed location -/

/-- The low two bits of the archive id above the low thirty bits of the offset. -/
def ArchiveLocation.packed (location : ArchiveLocation) : UInt32 :=
  ((location.archiveId &&& 3).toUInt32 <<< 30) ||| (location.archiveOffset &&& 0x3fffffff)

def unpackLocation (high : UInt8) (packed : UInt32) : ArchiveLocation where
  archiveId := (high.toUInt16 <<< 2) ||| (packed >>> 30).toUInt16
  archiveOffset := packed &&& 0x3fffffff

/-- `write_archive_location`: the high byte must hold the archive id without its low two bits. -/
def writeArchiveLocation (location : ArchiveLocation) : Option Bytes :=
  if (location.archiveId >>> 2).toNat < 256 then
    some ((location.archiveId >>> 2).toUInt8 :: beBytes 4 location.packed.toNat)
  else none

/-- `parse_archive_location`, on five bytes. -/
def parseArchiveLocation (bytes : Bytes) : ArchiveLocation :=
  unpackLocation (bytes.headD 0) (UInt32.ofNat (ofBe (bytes.drop 1)))

/-- Ten bits of archive id and thirty bits of offset. -/
def ArchiveLocation.Packable (location : ArchiveLocation) : Prop :=
  location.archiveId.toNat < 1024 ∧ location.archiveOffset.toNat < 2 ^ 30

instance (location : ArchiveLocation) : Decidable location.Packable := instDecidableAnd

theorem packed_toNat (location : ArchiveLocation) :
    location.packed.toNat =
      location.archiveId.toNat % 4 * 2 ^ 30 + location.archiveOffset.toNat % 2 ^ 30 := by
  have hLow : (location.archiveOffset &&& 0x3fffffff).toNat =
      location.archiveOffset.toNat % 2 ^ 30 := by
    exact and_two_pow_sub_one_eq_mod _ 30
  have hId : (location.archiveId &&& 3).toUInt32.toNat = location.archiveId.toNat % 4 := by
    exact and_two_pow_sub_one_eq_mod _ 2
  have hHigh : ((location.archiveId &&& 3).toUInt32 <<< 30).toNat =
      location.archiveId.toNat % 4 * 2 ^ 30 := by
    rw [UInt32.toNat_shiftLeft, hId, shiftLeft_eq]
    have : location.archiveId.toNat % 4 < 4 := mod_lt _ (by norm_num)
    apply mod_eq_of_lt
    have hShift : (30 : UInt32).toNat % 32 = 30 := rfl
    rw [hShift]
    omega
  rw [ArchiveLocation.packed, UInt32.toNat_or, hHigh, hLow, ← shiftLeft_eq,
    shiftLeft_add_eq_or_of_lt (mod_lt _ (by norm_num))]

variable {location : ArchiveLocation} {entry : IndexEntry} {bytes : Bytes}

theorem unpackLocation_packed (h : location.Packable) :
    unpackLocation (location.archiveId >>> 2).toUInt8 location.packed = location := by
  obtain ⟨hId, hOffset⟩ := h
  have hPacked := packed_toNat location
  rw [mod_eq_of_lt hOffset] at hPacked
  have hHigh : (location.archiveId >>> 2).toUInt8.toNat = location.archiveId.toNat / 4 := by
    rw [UInt16.toNat_toUInt8, UInt16.toNat_shiftRight]
    have hShift : (2 : UInt16).toNat % 16 = 2 := rfl
    rw [hShift, shiftRight_eq_div_pow]
    omega
  have hId' : ((location.archiveId >>> 2).toUInt8.toUInt16 <<< 2 |||
      (location.packed >>> 30).toUInt16) = location.archiveId := by
    apply UInt16.toNat_inj.mp
    have hTop : (location.packed >>> 30).toUInt16.toNat = location.archiveId.toNat % 4 := by
      rw [toNat_toUInt16, UInt32.toNat_shiftRight, hPacked]
      have hShift : (30 : UInt32).toNat % 32 = 30 := rfl
      rw [hShift, shiftRight_eq_div_pow]
      omega
    have hBase : ((location.archiveId >>> 2).toUInt8.toUInt16 <<< 2).toNat =
        location.archiveId.toNat / 4 * 2 ^ 2 := by
      rw [UInt16.toNat_shiftLeft, UInt8.toNat_toUInt16, hHigh]
      have hShift : (2 : UInt16).toNat % 16 = 2 := rfl
      rw [hShift, shiftLeft_eq]
      omega
    rw [UInt16.toNat_or, hTop, hBase, ← shiftLeft_eq,
      ← shiftLeft_add_eq_or_of_lt (mod_lt _ (by norm_num)), shiftLeft_eq]
    omega
  have hOffset' : location.packed &&& 0x3fffffff = location.archiveOffset := by
    apply UInt32.toNat_inj.mp
    rw [UInt32.toNat_and, hPacked]
    have hMask := and_two_pow_sub_one_eq_mod
      (location.archiveId.toNat % 4 * 2 ^ 30 + location.archiveOffset.toNat) 30
    have hConst : (0x3fffffff : UInt32).toNat = 2 ^ 30 - 1 := rfl
    rw [hConst, hMask]
    omega
  simp only [unpackLocation, hId', hOffset']

/-! ## The eighteen-byte entry -/

/-- An archive id that does not fit is replaced by an empty slot. -/
def IndexEntry.toPacked (entry : IndexEntry) : Bytes :=
  match writeArchiveLocation entry.archiveLocation with
  | some location => entry.key.1 ++ location ++ leBytes 4 entry.size.toNat
  | none => List.replicate 18 0

def readEntry (data : Bytes) (h : 18 ≤ data.length) : IndexEntry where
  key := ⟨data.take 9, by simp; omega⟩
  archiveLocation := parseArchiveLocation ((data.drop 9).take 5)
  size := UInt32.ofNat (ofLe ((data.drop 14).take 4))

def fromPacked (data : Bytes) : Except StorageError IndexEntry :=
  if h : 18 ≤ data.length then
    let entry := readEntry data h
    if entry.key = zeroKey then .error (.index "Empty entry") else .ok entry
  else .error (.index "Entry data too small")

theorem writeArchiveLocation_length (h : writeArchiveLocation location =
    some bytes) :
    bytes.length = 5 := by
  unfold writeArchiveLocation at h
  split at h
  · obtain rfl := Option.some.inj h
    simp
  · cases h

theorem writeArchiveLocation_none (h : writeArchiveLocation location = none) :
    ¬ location.Packable := by
  unfold writeArchiveLocation at h
  split at h
  · cases h
  next hHigh =>
    rintro ⟨hId, -⟩
    rw [UInt16.toNat_shiftRight] at hHigh
    have hShift : (2 : UInt16).toNat % 16 = 2 := rfl
    rw [hShift, shiftRight_eq_div_pow] at hHigh
    omega

theorem parseArchiveLocation_write (hFit : location.Packable)
    (h : writeArchiveLocation location = some bytes) : parseArchiveLocation bytes = location := by
  unfold writeArchiveLocation at h
  split at h
  · obtain rfl := Option.some.inj h
    have hWord : UInt32.ofNat (ofBe (beBytes 4 location.packed.toNat)) = location.packed := by
      rw [ofBe_beBytes_of_lt (toNat_lt _), UInt32.ofNat_toNat]
    simp only [parseArchiveLocation, headD_cons, drop_succ_cons, drop_zero, hWord]
    exact unpackLocation_packed hFit
  · cases h

@[simp]
theorem toPacked_length (entry : IndexEntry) : entry.toPacked.length = 18 := by
  unfold IndexEntry.toPacked
  split
  next location hLocation =>
    simp [writeArchiveLocation_length hLocation, entry.key.2]
  · simp

theorem readEntry_parts {key location size : Bytes} (hKey : key.length = 9)
    (hLocation : location.length = 5) (hSize : size.length = 4)
    (h : 18 ≤ (key ++ location ++ size).length) :
    readEntry (key ++ location ++ size) h =
      ⟨⟨key, hKey⟩, parseArchiveLocation location, UInt32.ofNat (ofLe size)⟩ := by
  have h1 : (key ++ location ++ size).take 9 = key := by
    rw [append_assoc, take_left' hKey]
  have h2 : ((key ++ location ++ size).drop 9).take 5 = location := by
    rw [append_assoc, drop_left' hKey, take_left' hLocation]
  have h3 : ((key ++ location ++ size).drop 14).take 4 = size := by
    rw [drop_left' (by simp [hKey, hLocation]), take_of_length_le (by omega)]
  simp only [readEntry, h1, h2, h3]

theorem fromPacked_of_location {location : Bytes}
    (h : writeArchiveLocation entry.archiveLocation = some location) :
    fromPacked entry.toPacked = if entry.key = zeroKey then .error (.index "Empty entry") else
      .ok { entry with archiveLocation := parseArchiveLocation location } := by
  have hBytes : entry.toPacked = entry.key.1 ++ location ++ leBytes 4 entry.size.toNat := by
    simp [IndexEntry.toPacked, h]
  have hLength : 18 ≤ (entry.key.1 ++ location ++ leBytes 4 entry.size.toNat).length := by
    rw [← hBytes, toPacked_length]
  have hSize : UInt32.ofNat (ofLe (leBytes 4 entry.size.toNat)) = entry.size := by
    rw [ofLe_leBytes_of_lt (toNat_lt _), UInt32.ofNat_toNat]
  rw [hBytes, fromPacked, dif_pos hLength,
    readEntry_parts entry.key.2 (writeArchiveLocation_length h) (leBytes_length _ _), hSize]

/-- An entry with a non-zero key is read back with its key and size; a packable location is
read back as well. -/
theorem fromPacked_toPacked (hKey : entry.key ≠ zeroKey)
    (hFit : entry.archiveLocation.Packable) : fromPacked entry.toPacked = .ok entry := by
  cases hLocation : writeArchiveLocation entry.archiveLocation with
  | none => exact absurd hFit (writeArchiveLocation_none hLocation)
  | some location =>
    rw [fromPacked_of_location hLocation, if_neg hKey, parseArchiveLocation_write hFit hLocation]

end Cascette.Index
