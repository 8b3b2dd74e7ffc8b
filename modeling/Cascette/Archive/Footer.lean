import Cascette.Archive.Entry
import Cascette.Lib.Codec

/-!
# Footer of an archive index

The footer has twenty fixed bytes and a hash at the end of the file. Its reader finds out how long
the hash is from the byte thirteen places before the end, which is the hash length field only when
the hash has eight bytes; `Marked` says when the byte found there agrees with the footer, and
`readFooter_eq_ok_iff` that this is all the reader asks for. The functions that check the footer
are the hash, the format and the size of the file.
-/

namespace Cascette.Archive

open Lib List Codec

structure IndexFooter where
  tocHash : Key 8
  version : UInt8
  reserved : Key 2
  pageSizeKb : UInt8
  offsetBytes : UInt8
  sizeBytes : UInt8
  ekeyLength : UInt8
  footerHashBytes : UInt8
  elementCount : UInt32
  footerHash : Bytes
deriving DecidableEq

def minFooterSize : Nat := 20

namespace IndexFooter

/-- The fixed fields in file order. -/
abbrev Fields := Key 8 × UInt8 × Key 2 × UInt8 × UInt8 × UInt8 × UInt8 × UInt8 × UInt32

def fieldsCodec : Codec ArchiveError Fields :=
  (Codec.key .ioError 8).pair <| (Codec.uint8 .ioError).pair <| (Codec.key .ioError 2).pair <|
  (Codec.uint8 .ioError).pair <| (Codec.uint8 .ioError).pair <| (Codec.uint8 .ioError).pair <|
  (Codec.uint8 .ioError).pair <| (Codec.uint8 .ioError).pair (Codec.uint32Le .ioError)

def fields (f : IndexFooter) : Fields :=
  (f.tocHash, f.version, f.reserved, f.pageSizeKb, f.offsetBytes, f.sizeBytes, f.ekeyLength,
    f.footerHashBytes, f.elementCount)

def ofFields (footerHash : Bytes) : Fields → IndexFooter
  | (tocHash, version, reserved, pageSizeKb, offsetBytes, sizeBytes, ekeyLength, footerHashBytes,
      elementCount) =>
    { tocHash, version, reserved, pageSizeKb, offsetBytes, sizeBytes, ekeyLength,
      footerHashBytes, elementCount, footerHash }

def write (f : IndexFooter) : Bytes := fieldsCodec.write f.fields ++ f.footerHash

/-- The hash of the fields after the hash of the table of contents, padded to twenty bytes. -/
def calculateFooterHash (md5 : Bytes → Key 16) (f : IndexFooter) : Bytes :=
  (md5 (padTo 20 ([f.version] ++ f.reserved.1 ++ [f.pageSizeKb, f.offsetBytes, f.sizeBytes,
    f.ekeyLength, f.footerHashBytes] ++ leBytes 4 f.elementCount.toNat))).1.take 8

def isValid (md5 : Bytes → Key 16) (f : IndexFooter) : Bool :=
  let expected := f.calculateFooterHash md5
  let actualLen := min (min f.footerHash.length f.footerHashBytes.toNat) expected.length
  if actualLen = 0 then false else f.footerHash.take actualLen = expected.take actualLen

/-- The footer with its hash computed. -/
def sealed (md5 : Bytes → Key 16) (f : IndexFooter) : IndexFooter :=
  { f with footerHash := f.calculateFooterHash md5 }

/-- The footer of an index in the standard layout. -/
def new (md5 : Bytes → Key 16) (tocHash : Bytes) (elementCount : UInt32) : IndexFooter :=
  sealed md5 {
    tocHash := ⟨(padTo 8 tocHash).take 8, by
      have := le_padTo_length 8 tocHash
      rw [List.length_take]
      omega⟩
    version := 1
    reserved := ⟨[0, 0], rfl⟩
    pageSizeKb := 4
    offsetBytes := 4
    sizeBytes := 4
    ekeyLength := 16
    footerHashBytes := 8
    elementCount
    footerHash := List.replicate 8 0 }

def validateFormat (f : IndexFooter) : Except ArchiveError Unit :=
  if f.version > 1 then .error (.unsupportedVersion f.version)
  else if f.reserved.1 ≠ [0, 0] then
    .error (.invalidFormat ("Reserved bytes should be [0,0], got " ++
      toString (f.reserved.1.map UInt8.toNat)))
  else if f.pageSizeKb ≠ 4 then
    .error (.invalidFormat ("Page size should be 4KB, got " ++ toString f.pageSizeKb.toNat))
  else if f.offsetBytes ∉ [0, 4, 5, 6] then
    .error (.invalidFormat ("Offset bytes should be 0, 4, 5, or 6, got " ++
      toString f.offsetBytes.toNat))
  else if f.sizeBytes ≠ 4 then
    .error (.invalidFormat ("Size bytes should be 4, got " ++ toString f.sizeBytes.toNat))
  else if f.ekeyLength = 0 ∨ f.ekeyLength > 16 then
    .error (.invalidFormat ("EKey length should be between 1 and 16, got " ++
      toString f.ekeyLength.toNat))
  else if f.footerHashBytes ≠ 8 then
    .error (.invalidFormat ("Footer hash bytes should be 8, got " ++
      toString f.footerHashBytes.toNat))
  else .ok ()

def blockSize (f : IndexFooter) : Nat := f.pageSizeKb.toNat * 1024

def recordSize (f : IndexFooter) : Nat :=
  f.ekeyLength.toNat + f.sizeBytes.toNat + f.offsetBytes.toNat

def recordsPerBlock (f : IndexFooter) : Nat := f.blockSize / f.recordSize

/-- The number of blocks that the element count asks for. -/
def chunkCount (f : IndexFooter) : Nat := divCeil f.elementCount.toNat f.recordsPerBlock

def validateFileSize (f : IndexFooter) (actualFileSize : Nat) : Except ArchiveError Unit :=
  if f.recordsPerBlock = 0 then .error (.invalidFormat "Records per page is 0")
  else
    let tocEntrySize := f.ekeyLength.toNat + f.footerHashBytes.toNat
    let footerSize := minFooterSize + f.footerHashBytes.toNat
    let expected := f.chunkCount * f.blockSize + f.chunkCount * tocEntrySize + footerSize
    if actualFileSize ≠ expected then .error (.fileSizeMismatch expected actualFileSize)
    else .ok ()

end IndexFooter

/-! ## Reading the footer -/

/-- The bytes from a position counted from the end of the file. -/
def seekEnd (n : Nat) (data : Bytes) : Except ArchiveError Bytes :=
  if n ≤ data.length then .ok (data.drop (data.length - n)) else .error .ioError

def readFooter (data : Bytes) : Except ArchiveError IndexFooter := do
  let mark ← seekEnd 13 data
  let (footerHashBytes, _) ← (Codec.uint8 .ioError).read mark
  let footerData ← seekEnd (minFooterSize + footerHashBytes.toNat) data
  let (fields, rest) ← IndexFooter.fieldsCodec.read footerData
  let (footerHash, _) ← (Codec.key ArchiveError.ioError footerHashBytes.toNat).read rest
  .ok (IndexFooter.ofFields footerHash.1 fields)

/-- The check of the footer hash. Reporting a mismatch copies eight bytes of the stored hash, which
panics when it is shorter. -/
def checkFooter (md5 : Bytes → Key 16) (f : IndexFooter) : Except (Halt ArchiveError) Unit :=
  if f.isValid md5 then .ok ()
  else if f.footerHash.length < 8 then .error (.panic .indexOutOfRange)
  else
    .error (.error (.checksumMismatch (f.calculateFooterHash md5) (f.footerHash.take 8)))

namespace IndexFooter

/-- The byte thirteen places before the end is the length of the hash. -/
structure Marked (f : IndexFooter) : Prop where
  lt : f.footerHash.length < 256
  mark : f.write[f.footerHash.length + 7]? = some (UInt8.ofNat f.footerHash.length)

variable (f : IndexFooter)

theorem fieldsCodec_write :
    fieldsCodec.write f.fields = f.tocHash.1 ++ ([f.version] ++ (f.reserved.1 ++ ([f.pageSizeKb] ++
      ([f.offsetBytes] ++ ([f.sizeBytes] ++ ([f.ekeyLength] ++ ([f.footerHashBytes] ++
        leBytes 4 f.elementCount.toNat))))))) := by
  simp [fieldsCodec, Codec.pair, fields, Codec.key]

theorem fieldsCodec_length : (fieldsCodec.write f.fields).length = 20 := by
  simp [fieldsCodec_write, f.tocHash.2, f.reserved.2]

theorem write_length : f.write.length = 20 + f.footerHash.length := by
  rw [write, length_append, fieldsCodec_length]

variable {f} (md5 : Bytes → Key 16)

theorem marked_of_length (hHash : f.footerHash.length = 8) (hField : f.footerHashBytes = 8) :
    f.Marked where
  lt := by omega
  mark := by
    have hSplit : f.write = (f.tocHash.1 ++ [f.version] ++ f.reserved.1 ++ [f.pageSizeKb,
        f.offsetBytes, f.sizeBytes, f.ekeyLength]) ++ f.footerHashBytes ::
          (leBytes 4 f.elementCount.toNat ++ f.footerHash) := by
      simp [write, fieldsCodec_write]
    have hFront : (f.tocHash.1 ++ [f.version] ++ f.reserved.1 ++ [f.pageSizeKb,
        f.offsetBytes, f.sizeBytes, f.ekeyLength]).length = 15 := by
      simp [f.tocHash.2, f.reserved.2]
    rw [hSplit, hHash, getElem?_append_right (by omega), hFront, hField]
    rfl

theorem calculateFooterHash_length (f : IndexFooter) : (f.calculateFooterHash md5).length = 8 := by
  rw [calculateFooterHash, length_take_of_le]
  rw [(md5 _).2]
  decide

theorem isValid_sealed (h : f.footerHashBytes = 8) : (f.sealed md5).isValid md5 = true := by
  have hHash : (f.sealed md5).calculateFooterHash md5 = (f.sealed md5).footerHash := rfl
  have hLength : (f.sealed md5).footerHash.length = 8 := f.calculateFooterHash_length md5
  have hEight : (f.sealed md5).footerHashBytes.toNat = 8 := by
    change f.footerHashBytes.toNat = 8
    rw [h]
    rfl
  simp [isValid, hHash, hLength, hEight]

theorem marked_sealed (h : f.footerHashBytes = 8) : (f.sealed md5).Marked :=
  marked_of_length (f.calculateFooterHash_length md5) h

/-- The layouts that the format check accepts. -/
@[mk_iff]
structure Format (f : IndexFooter) : Prop where
  version : f.version ≤ 1
  reserved : f.reserved.1 = [0, 0]
  pageSize : f.pageSizeKb = 4
  offset : IndexEntry.Supported f.offsetBytes
  size : f.sizeBytes = 4
  ekey_pos : f.ekeyLength ≠ 0
  ekey_le : f.ekeyLength ≤ 16
  hashBytes : f.footerHashBytes = 8

theorem validateFormat_eq_ok_iff : f.validateFormat = .ok () ↔ f.Format := by
  have hOffset : f.offsetBytes ∈ ([0, 4, 5, 6] : List UInt8) ↔
      IndexEntry.Supported f.offsetBytes := by simp [IndexEntry.Supported]
  simp only [validateFormat, ite_error_eq_ok, gt_iff_lt, not_or, not_lt, not_not, hOffset,
    and_true, and_assoc, format_iff]

namespace Format

variable {f : IndexFooter} (h : f.Format)

include h

theorem blockSize : f.blockSize = 4096 := by
  rw [IndexFooter.blockSize, h.pageSize]
  rfl

theorem recordSize : f.recordSize = IndexEntry.recordSize f.ekeyLength f.offsetBytes := by
  rw [IndexFooter.recordSize, h.size]
  rfl

theorem ekey_bounds : 1 ≤ f.ekeyLength.toNat ∧ f.ekeyLength.toNat ≤ 16 := by
  refine ⟨Nat.one_le_iff_ne_zero.mpr fun hZero => h.ekey_pos (UInt8.toNat_inj.mp hZero), ?_⟩
  exact UInt8.le_iff_toNat_le.mp h.ekey_le

theorem offset_le : f.offsetBytes.toNat ≤ 6 := by
  rcases h.offset with hOffset | hOffset | hOffset | hOffset <;> rw [hOffset] <;> decide

theorem recordSize_bounds : 5 ≤ f.recordSize ∧ f.recordSize ≤ 26 := by
  have hKey := h.ekey_bounds
  have hOffset := h.offset_le
  rw [h.recordSize, IndexEntry.recordSize]
  omega

theorem recordsPerBlock_bounds :
    157 ≤ f.recordsPerBlock ∧ f.recordsPerBlock * f.recordSize ≤ 4096 := by
  obtain ⟨hPos, hLe⟩ := h.recordSize_bounds
  rw [IndexFooter.recordsPerBlock, h.blockSize]
  refine ⟨?_, Nat.div_mul_le_self 4096 _⟩
  exact (Nat.div_le_div_left hLe (by omega) : 4096 / 26 ≤ 4096 / f.recordSize)

theorem validateFileSize_eq_ok_iff {n : Nat} :
    f.validateFileSize n = .ok () ↔
      n = f.chunkCount * 4096 + f.chunkCount * (f.ekeyLength.toNat + 8) + 28 := by
  have hPer := h.recordsPerBlock_bounds.1
  have hHash : f.footerHashBytes.toNat = 8 := by rw [h.hashBytes]; rfl
  rw [validateFileSize, if_neg (by omega)]
  simp only [hHash, h.blockSize, minFooterSize]
  split <;> simp_all

end Format

end IndexFooter

variable {data : Bytes} {f : IndexFooter} {n : Nat}

theorem seekEnd_eq_ok {back : Bytes} :
    seekEnd n data = .ok back ↔ ∃ front, data = front ++ back ∧ back.length = n := by
  unfold seekEnd
  constructor
  · intro h
    split at h
    next hLe =>
      cases h
      refine ⟨data.take (data.length - n), (take_append_drop _ _).symm, ?_⟩
      rw [length_drop]
      omega
    · cases h
  · rintro ⟨front, rfl, rfl⟩
    simp

theorem readMark_iff {n : UInt8} :
    (∃ mark, seekEnd 13 data = .ok mark ∧
        ∃ rest, (Codec.uint8 ArchiveError.ioError).read mark = .ok (n, rest)) ↔
      13 ≤ data.length ∧ data[data.length - 13]? = some n := by
  simp only [seekEnd_eq_ok, read_eq_ok, uint8_write]
  constructor
  · rintro ⟨mark, ⟨front, rfl, hLength⟩, rest, rfl⟩
    rw [length_append, hLength, Nat.add_sub_cancel]
    exact ⟨Nat.le_add_left _ _, by simp⟩
  · rintro ⟨hLe, hGet⟩
    obtain ⟨hIndex, rfl⟩ := List.getElem?_eq_some_iff.mp hGet
    refine ⟨_, ⟨_, (take_append_drop (data.length - 13) data).symm, ?_⟩, _,
      drop_eq_getElem_cons hIndex⟩
    rw [length_drop]
    omega

theorem readFields_iff :
    (∃ footerData, seekEnd (minFooterSize + n) data = .ok footerData ∧
        ∃ fields, IndexFooter.fieldsCodec.read footerData = .ok fields ∧
          ∃ hash, (Codec.key ArchiveError.ioError n).read fields.2 = .ok hash ∧
            IndexFooter.ofFields hash.1.1 fields.1 = f) ↔
      ∃ body, data = body ++ f.write ∧ f.footerHash.length = n := by
  constructor
  · rintro ⟨_, hSeek, ⟨fields, _⟩, hFields, ⟨hash, rest⟩, hHash, rfl⟩
    obtain ⟨body, rfl, hLength⟩ := seekEnd_eq_ok.mp hSeek
    obtain rfl := write_read _ hFields
    obtain rfl := write_read _ hHash
    have hTwenty : (IndexFooter.fieldsCodec.write fields).length = 20 :=
      IndexFooter.fieldsCodec_length (.ofFields hash.1 fields)
    rw [length_append, key_write, length_append, hash.2, hTwenty, minFooterSize] at hLength
    obtain rfl : rest = [] := length_eq_zero_iff.mp (by omega)
    rw [append_nil]
    exact ⟨body, rfl, hash.2⟩
  · rintro ⟨body, rfl, rfl⟩
    refine ⟨f.write, seekEnd_eq_ok.mpr ⟨body, rfl, f.write_length⟩, (f.fields, f.footerHash), ?_,
      (⟨f.footerHash, rfl⟩, []), ?_, rfl⟩
    · exact read_write ..
    · exact (read_eq_ok _).mpr (append_nil _).symm

theorem readFooter_eq_ok_iff :
    readFooter data = .ok f ↔ ∃ body, data = body ++ f.write ∧ f.Marked := by
  have hGet (body : Bytes) : (body ++ f.write)[(body ++ f.write).length - 13]? =
      f.write[f.footerHash.length + 7]? := by
    rw [length_append, f.write_length, getElem?_append_right (by omega)]
    congr 1
    omega
  simp only [readFooter, bind_eq_ok, Except.ok.injEq]
  constructor
  · rintro ⟨mark, hMark, ⟨n, rest⟩, hCount, hFields⟩
    obtain ⟨-, hByte⟩ := readMark_iff.mp ⟨mark, hMark, rest, hCount⟩
    obtain ⟨body, rfl, hLength⟩ := readFields_iff.mp hFields
    rw [hGet] at hByte
    refine ⟨body, rfl, hLength ▸ n.toNat_lt, ?_⟩
    rw [hByte, hLength, UInt8.ofNat_toNat]
  · rintro ⟨body, rfl, hLt, hMark⟩
    have hCount : (UInt8.ofNat f.footerHash.length).toNat = f.footerHash.length :=
      UInt8.toNat_ofNat_of_lt' hLt
    have hLe : 13 ≤ (body ++ f.write).length := by
      rw [length_append, f.write_length]
      omega
    obtain ⟨mark, hSeek, rest, hRead⟩ := readMark_iff.mpr ⟨hLe, (hGet body).trans hMark⟩
    exact ⟨mark, hSeek, _, hRead, readFields_iff.mpr ⟨body, rfl, hCount.symm⟩⟩

end Cascette.Archive
