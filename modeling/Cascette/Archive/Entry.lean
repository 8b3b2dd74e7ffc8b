import Cascette.Lib.Except
import Cascette.Lib.Records

/-!
# Entries of an archive index

An entry is a key of the length that the footer gives, a size of four bytes and an offset field of
zero, four, five or six bytes; the field of six bytes is an archive number and an offset. An entry
that its layout can hold is read back as it was written, and what was read is written back
(`parse_eq_ok_iff`).
-/

namespace Cascette.Archive

open Lib List

inductive ArchiveError
  | unsupportedVersion (version : UInt8)
  | invalidFormat (reason : String)
  | checksumMismatch (expected actual : Bytes)
  | footerChecksum
  | unsortedEntries
  | tocInconsistent
  | fileSizeMismatch (expected actual : Nat)
  | ioError
deriving DecidableEq

structure IndexEntry where
  encodingKey : Bytes
  size : UInt32
  offset : UInt64
  archiveIndex : Option UInt16
deriving DecidableEq

namespace IndexEntry

def isZero (entry : IndexEntry) : Bool :=
  entry.encodingKey.all (· = 0) && entry.size = 0 && entry.offset = 0

def unsupportedOffset (offsetBytes : UInt8) : ArchiveError :=
  .invalidFormat ("Unsupported offset_bytes: " ++ toString offsetBytes.toNat)

/-- The offset and the archive number in the offset field. -/
def parseOffset (field : Bytes) (offsetBytes : UInt8) :
    Except ArchiveError (UInt64 × Option UInt16) :=
  match offsetBytes.toNat with
  | 0 => .ok (0, none)
  | 4 => .ok (UInt64.ofNat (ofBe (field.take 4)), none)
  | 5 => .ok (UInt64.ofNat (ofBe (field.take 5)), none)
  | 6 => .ok (UInt64.ofNat (ofBe ((field.drop 2).take 4)),
      some (UInt16.ofNat (ofBe (field.take 2))))
  | _ => .error (unsupportedOffset offsetBytes)

def parse (data : Bytes) (keyBytes sizeBytes offsetBytes : UInt8) :
    Except ArchiveError IndexEntry :=
  let pos := keyBytes.toNat + sizeBytes.toNat
  if data.length < keyBytes.toNat then .error (.invalidFormat "Insufficient data for key")
  else if data.length < pos then .error (.invalidFormat "Insufficient data for size")
  else if sizeBytes ≠ 4 then
    .error (.invalidFormat ("Unsupported size_bytes: " ++ toString sizeBytes.toNat))
  else if data.length < pos + offsetBytes.toNat then
    .error (.invalidFormat "Insufficient data for offset")
  else do
    let (offset, archiveIndex) ← parseOffset (data.drop pos) offsetBytes
    .ok {
      encodingKey := data.take keyBytes.toNat
      size := UInt32.ofNat (ofBe ((data.drop keyBytes.toNat).take 4))
      offset
      archiveIndex }

def writeOffset (entry : IndexEntry) (offsetBytes : UInt8) : Except ArchiveError Bytes :=
  match offsetBytes.toNat with
  | 0 => .ok []
  | 4 => .ok (beBytes 4 entry.offset.toNat)
  | 5 => .ok (beBytes 5 entry.offset.toNat)
  | 6 =>
    match entry.archiveIndex with
    | some archiveIndex => .ok (beBytes 2 archiveIndex.toNat ++ beBytes 4 entry.offset.toNat)
    -- without an archive number the field holds the low six bytes of the offset
    | none => .ok (beBytes 6 entry.offset.toNat)
  | _ => .error (unsupportedOffset offsetBytes)

/-- The size always takes four bytes. -/
def toBytes (entry : IndexEntry) (_sizeBytes offsetBytes : UInt8) : Except ArchiveError Bytes := do
  let offset ← entry.writeOffset offsetBytes
  .ok (entry.encodingKey ++ beBytes 4 entry.size.toNat ++ offset)

/-! ## What a layout can hold -/

/-- The widths of the offset field that the format knows. -/
def Supported (offsetBytes : UInt8) : Prop :=
  offsetBytes = 0 ∨ offsetBytes = 4 ∨ offsetBytes = 5 ∨ offsetBytes = 6

def offsetWidth (offsetBytes : UInt8) : Nat := if offsetBytes = 6 then 4 else offsetBytes.toNat

/-- The entry fits a layout: its key has the length of the layout, its offset fits the field, and
it has an archive number exactly when the field has room for one. -/
structure Holds (entry : IndexEntry) (keyBytes offsetBytes : UInt8) : Prop where
  key : entry.encodingKey.length = keyBytes.toNat
  offset : entry.offset.toNat < 256 ^ offsetWidth offsetBytes
  archive : entry.archiveIndex.isSome ↔ offsetBytes = 6

variable {offsetBytes keyBytes : UInt8} {entry : IndexEntry} {field data : Bytes}

theorem exists_writeOffset (h : Supported offsetBytes) (entry : IndexEntry) :
    ∃ field, entry.writeOffset offsetBytes = .ok field ∧ field.length = offsetBytes.toNat := by
  rcases h with rfl | rfl | rfl | rfl
  · exact ⟨[], rfl, rfl⟩
  · exact ⟨_, rfl, beBytes_length 4 _⟩
  · exact ⟨_, rfl, beBytes_length 5 _⟩
  · cases hArchive : entry.archiveIndex with
    | none => exact ⟨_, by simp only [writeOffset, hArchive]; rfl, beBytes_length 6 _⟩
    | some archiveIndex =>
      refine ⟨beBytes 2 archiveIndex.toNat ++ beBytes 4 entry.offset.toNat, ?_, by simp⟩
      simp only [writeOffset, hArchive]
      rfl

theorem ofNat_ofBe_eq_iff {w : Nat} {v : UInt64} (hLength : data.length = w) (hw : w ≤ 8) :
    UInt64.ofNat (ofBe data) = v ↔ v.toNat < 256 ^ w ∧ data = beBytes w v.toNat := by
  have hLt : ofBe data < 256 ^ w := hLength ▸ ofBe_lt data
  have hWide : ofBe data < 2 ^ 64 := hLt.trans_le (Nat.pow_le_pow_right (by norm_num) hw)
  rw [← ofBe_eq_iff hLength, ← UInt64.toNat_inj, UInt64.toNat_ofNat_of_lt' hWide]

theorem parseOffset_eq_ok (hSupported : Supported offsetBytes)
    (hLength : field.length = offsetBytes.toNat) (entry : IndexEntry) :
    parseOffset field offsetBytes = .ok (entry.offset, entry.archiveIndex) ↔
      entry.writeOffset offsetBytes = .ok field ∧
      entry.offset.toNat < 256 ^ offsetWidth offsetBytes ∧
      (entry.archiveIndex.isSome ↔ offsetBytes = 6) := by
  obtain ⟨key, size, offset, archiveIndex⟩ := entry
  rcases hSupported with rfl | rfl | rfl | rfl
  · obtain rfl := length_eq_zero_iff.mp hLength
    cases archiveIndex <;> simp [parseOffset, writeOffset, offsetWidth, ← UInt64.toNat_inj]
    omega
  · have hTake : field.take 4 = field := take_of_length_le hLength.le
    have hValue := ofNat_ofBe_eq_iff (v := offset) hLength (by decide)
    cases archiveIndex <;> simp [parseOffset, writeOffset, offsetWidth, hTake, hValue]
    grind
  · have hTake : field.take 5 = field := take_of_length_le hLength.le
    have hValue := ofNat_ofBe_eq_iff (v := offset) hLength (by decide)
    cases archiveIndex <;> simp [parseOffset, writeOffset, offsetWidth, hTake, hValue]
    grind
  · have hHigh : (field.take 2).length = 2 := by simp [hLength]
    have hLow : (field.drop 2).length = 4 := by simp [hLength]
    cases archiveIndex with
    | none => simp [parseOffset, offsetWidth]
    | some number =>
      have hLt := ofBe_lt (field.take 2)
      rw [hHigh] at hLt
      have hNumber : UInt16.ofNat (ofBe (field.take 2)) = number ↔
          field.take 2 = beBytes 2 number.toNat := by
        rw [← UInt16.toNat_inj, UInt16.toNat_ofNat_of_lt' hLt, ofBe_eq_iff hHigh]
        simp [number.toNat_lt]
      have hField : beBytes 2 number.toNat ++ beBytes 4 offset.toNat = field ↔
          field.take 2 = beBytes 2 number.toNat ∧ field.drop 2 = beBytes 4 offset.toNat := by
        constructor
        · rintro rfl
          simp
        · rintro ⟨hTake, hDrop⟩
          rw [← hTake, ← hDrop, take_append_drop]
      simp [parseOffset, writeOffset, offsetWidth, hNumber, hField, take_of_length_le hLow.le,
        ofNat_ofBe_eq_iff hLow (by decide : 4 ≤ 8)]
      tauto

/-! ## Whole entries -/

/-- The bytes of an entry in a layout with four bytes for the size. -/
def recordSize (keyBytes offsetBytes : UInt8) : Nat := keyBytes.toNat + 4 + offsetBytes.toNat

theorem parse_eq {key size : Bytes} (hKey : key.length = keyBytes.toNat) (hSize : size.length = 4)
    (hField : field.length = offsetBytes.toNat) :
    parse (key ++ size ++ field) keyBytes 4 offsetBytes =
      (parseOffset field offsetBytes >>= fun res => .ok {
        encodingKey := key
        size := UInt32.ofNat (ofBe size)
        offset := res.1
        archiveIndex := res.2 }) := by
  have hFour : (4 : UInt8).toNat = 4 := rfl
  have hDrop : (key ++ size ++ field).drop (keyBytes.toNat + 4) = field :=
    drop_left' (by simp [hKey, hSize])
  have hTakeKey : (key ++ size ++ field).take keyBytes.toNat = key := by
    rw [append_assoc]
    exact take_left' hKey
  have hTakeSize : ((key ++ size ++ field).drop keyBytes.toNat).take 4 = size := by
    rw [append_assoc, drop_left' hKey]
    exact take_left' hSize
  have hLength : (key ++ size ++ field).length = keyBytes.toNat + 4 + offsetBytes.toNat := by
    simp only [length_append, hKey, hSize, hField]
  simp only [parse, hFour, hLength, hDrop, hTakeKey, hTakeSize, ne_eq, not_true_eq_false, if_false]
  rw [if_neg (by omega), if_neg (by omega), if_neg (by omega)]

/-- A record is read as the entry that the layout holds and that is written as the record. -/
theorem parse_eq_ok_iff (hSupported : Supported offsetBytes)
    (hLength : data.length = recordSize keyBytes offsetBytes) :
    parse data keyBytes 4 offsetBytes = .ok entry ↔
      entry.toBytes 4 offsetBytes = .ok data ∧ entry.Holds keyBytes offsetBytes := by
  rw [recordSize] at hLength
  obtain ⟨key, hKey, size, hSize, field, hField, rfl⟩ :
      ∃ key : Bytes, key.length = keyBytes.toNat ∧ ∃ size : Bytes, size.length = 4 ∧
        ∃ field : Bytes, field.length = offsetBytes.toNat ∧ key ++ size ++ field = data := by
    refine ⟨data.take keyBytes.toNat, by simp; omega, (data.drop keyBytes.toNat).take 4,
      by simp; omega, data.drop (keyBytes.toNat + 4), by simp [hLength], ?_⟩
    rw [append_assoc, ← drop_drop, take_append_drop, take_append_drop]
  have hLt := ofBe_lt size
  rw [hSize] at hLt
  have hValue : UInt32.ofNat (ofBe size) = entry.size ↔ size = beBytes 4 entry.size.toNat := by
    rw [← UInt32.toNat_inj, UInt32.toNat_ofNat_of_lt' hLt, ofBe_eq_iff hSize]
    simp [entry.size.toNat_lt]
  rw [parse_eq hKey hSize hField, toBytes, bind_eq_ok, bind_eq_ok]
  constructor
  · rintro ⟨⟨offset, archiveIndex⟩, hOffset, hEntry⟩
    obtain rfl := Except.ok.inj hEntry
    obtain ⟨hWrite, hFits, hArchive⟩ := (parseOffset_eq_ok hSupported hField
      ⟨key, _, offset, archiveIndex⟩).mp hOffset
    exact ⟨⟨field, hWrite, by rw [← hValue.mp rfl]⟩, hKey, hFits, hArchive⟩
  · rintro ⟨⟨field', hWrite, hData⟩, hHolds⟩
    obtain ⟨hFront, rfl⟩ := append_inj (Except.ok.inj hData) (by simp [hHolds.key, hKey, hSize])
    obtain ⟨rfl, hBytes⟩ := append_inj hFront (hHolds.key.trans hKey.symm)
    refine ⟨_, (parseOffset_eq_ok hSupported hField entry).mpr
      ⟨hWrite, hHolds.offset, hHolds.archive⟩, ?_⟩
    rw [hValue.mpr hBytes.symm]

theorem exists_parse (hSupported : Supported offsetBytes)
    (hLength : data.length = recordSize keyBytes offsetBytes) :
    ∃ entry, parse data keyBytes 4 offsetBytes = .ok entry := by
  have hFour : (4 : UInt8).toNat = 4 := rfl
  rw [recordSize] at hLength
  simp only [parse, hFour, hLength, ne_eq, not_true_eq_false, if_false]
  rw [if_neg (by omega), if_neg (by omega), if_neg (by omega)]
  rcases hSupported with rfl | rfl | rfl | rfl <;> exact ⟨_, rfl⟩

/-! ## Records of a block -/

/-- The bytes of an entry; empty when the width of its offset field is not supported. -/
def record (offsetBytes : UInt8) (entry : IndexEntry) : Bytes :=
  match entry.toBytes 4 offsetBytes with
  | .ok data => data
  | .error _ => []

/-- The entry in a record, unless the record is padding. -/
def ofRecord (keyBytes sizeBytes offsetBytes : UInt8) (data : Bytes) : Option IndexEntry :=
  match parse data keyBytes sizeBytes offsetBytes with
  | .ok entry => if entry.isZero then none else some entry
  | .error _ => none

theorem toBytes_eq_record (hSupported : Supported offsetBytes) (entry : IndexEntry) :
    entry.toBytes 4 offsetBytes = .ok (entry.record offsetBytes) := by
  obtain ⟨field, hField, -⟩ := exists_writeOffset hSupported entry
  rw [record, toBytes, hField, ok_bind]

theorem record_length (hSupported : Supported offsetBytes)
    (hKey : entry.encodingKey.length = keyBytes.toNat) :
    (entry.record offsetBytes).length = recordSize keyBytes offsetBytes := by
  obtain ⟨field, hField, hLength⟩ := exists_writeOffset hSupported entry
  rw [record, toBytes, hField, ok_bind]
  simp only [length_append, beBytes_length, hKey, hLength, recordSize]

theorem ofRecord_eq_some :
    ofRecord keyBytes 4 offsetBytes data = some entry ↔
      parse data keyBytes 4 offsetBytes = .ok entry ∧ entry.isZero = false := by
  rw [ofRecord]
  cases hParse : parse data keyBytes 4 offsetBytes with
  | error e => simp
  | ok entry' => cases hZero : entry'.isZero <;> grind

theorem parseOffset_zero (hSupported : Supported offsetBytes) :
    ∃ archiveIndex, parseOffset (replicate offsetBytes.toNat 0) offsetBytes =
      .ok (0, archiveIndex) := by
  rcases hSupported with rfl | rfl | rfl | rfl
  · exact ⟨none, rfl⟩
  · exact ⟨none, rfl⟩
  · exact ⟨none, rfl⟩
  · exact ⟨some 0, rfl⟩

theorem ofRecord_zero (hSupported : Supported offsetBytes) :
    ofRecord keyBytes 4 offsetBytes (replicate (recordSize keyBytes offsetBytes) 0)
    = none := by
  obtain ⟨archiveIndex, hOffset⟩ := parseOffset_zero hSupported
  have hSplit : replicate (recordSize keyBytes offsetBytes) (0 : UInt8) =
      replicate keyBytes.toNat 0 ++ replicate 4 0 ++ replicate offsetBytes.toNat 0 := by
    rw [replicate_append_replicate, replicate_append_replicate, recordSize]
  have hSize : UInt32.ofNat (ofBe (replicate 4 0)) = 0 := rfl
  rw [ofRecord, hSplit, parse_eq length_replicate length_replicate
    length_replicate, hOffset, ok_bind, hSize]
  simp [isZero]

/-- The records of a layout hold the entries that fit it and are not padding. -/
def recordFormat (keyBytes offsetBytes : UInt8) (hSupported : Supported offsetBytes) :
    RecordFormat IndexEntry where
  size := recordSize keyBytes offsetBytes
  size_pos := by rw [recordSize]; omega
  Admits entry := entry.Holds keyBytes offsetBytes ∧ entry.isZero = false
  encode := record offsetBytes
  decode := ofRecord keyBytes 4 offsetBytes
  encode_length h := record_length hSupported h.1.key
  decode_encode h := ofRecord_eq_some.mpr ⟨(parse_eq_ok_iff hSupported
    (record_length hSupported h.1.key)).mpr ⟨toBytes_eq_record hSupported _, h.1⟩, h.2⟩
  encode_decode {data entry} hLength h := by
    obtain ⟨hParse, hZero⟩ := ofRecord_eq_some.mp h
    obtain ⟨hBytes, hHolds⟩ := (parse_eq_ok_iff hSupported hLength).mp hParse
    rw [toBytes_eq_record hSupported] at hBytes
    exact ⟨Except.ok.inj hBytes, hHolds, hZero⟩
  decode_zero := ofRecord_zero hSupported

end IndexEntry

end Cascette.Archive
