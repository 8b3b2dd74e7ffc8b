import Cascette.Lib.Codec
import Cascette.Lib.Utf8

/-!
# The encoding file: header, ESpec table and page entries

The pieces of an encoding file with their readers and writers: the header of 22 bytes with its
validation, the table of NUL-terminated compression specifications, the index entries of the
pages, and the two kinds of page entries. All integers are big-endian, and file sizes have 40
bits. Keys are stored with the number of bytes that the header gives and padded to 16 with zeros
when they are read.
-/

namespace Cascette.Encoding

open Lib List

inductive BinError
  | io
  | assertFail (message : String)
  | custom (message : String)
deriving DecidableEq

inductive EncodingError
  | invalidMagic (magic : Bytes)
  | unsupportedVersion (version : UInt8)
  | checksumMismatch
  | invalidESpec (espec : Text)
  | io
  | binRw (error : BinError)
  | invalidPageSize (size : Nat)
  | invalidESpecSize
  | invalidFlags (flags : UInt8)
  | invalidHashSize (field : String) (value : UInt8)
  | invalidPageCount (field : String) (value : UInt32)
  | invalidESpecBlockSize (size : UInt32)
  | emptyESpec
  | unterminatedESpec
deriving DecidableEq

/-! ## Header -/

structure EncodingHeader where
  magic : Key 2
  version : UInt8
  ckeyHashSize : UInt8
  ekeyHashSize : UInt8
  ckeyPageSizeKb : UInt16
  ekeyPageSizeKb : UInt16
  ckeyPageCount : UInt32
  ekeyPageCount : UInt32
  flags : UInt8
  especBlockSize : UInt32
deriving DecidableEq

namespace EncodingHeader

/-- The bytes `EN`. -/
def encodingMagic : Key 2 := ⟨[0x45, 0x4e], rfl⟩

/-- The fields after the magic bytes, in file order. -/
abbrev Fields := UInt8 × UInt8 × UInt8 × UInt16 × UInt16 × UInt32 × UInt32 × UInt8 × UInt32

def fieldsCodec : Codec BinError Fields :=
  (Codec.uint8 .io).pair <| (Codec.uint8 .io).pair <| (Codec.uint8 .io).pair <|
  (Codec.uint16Be .io).pair <| (Codec.uint16Be .io).pair <|
  (Codec.uint32Be .io).pair <| (Codec.uint32Be .io).pair <|
  (Codec.uint8 .io).pair (Codec.uint32Be .io)

def fields (h : EncodingHeader) : Fields :=
  (h.version, h.ckeyHashSize, h.ekeyHashSize, h.ckeyPageSizeKb, h.ekeyPageSizeKb,
    h.ckeyPageCount, h.ekeyPageCount, h.flags, h.especBlockSize)

def ofFields (magic : Key 2) : Fields → EncodingHeader
  | (version, ckeyHashSize, ekeyHashSize, ckeyPageSizeKb, ekeyPageSizeKb, ckeyPageCount,
      ekeyPageCount, flags, especBlockSize) =>
    { magic, version, ckeyHashSize, ekeyHashSize, ckeyPageSizeKb, ekeyPageSizeKb, ckeyPageCount,
      ekeyPageCount, flags, especBlockSize }

def read (data : Bytes) : Except BinError (EncodingHeader × Bytes) := do
  let (magic, rest) ← (Codec.key .io 2).read data
  if magic ≠ encodingMagic then .error (.assertFail "Invalid encoding magic")
  else
    let (fields, rest) ← fieldsCodec.read rest
    .ok (ofFields magic fields, rest)

def write (h : EncodingHeader) : Bytes := h.magic.1 ++ fieldsCodec.write h.fields

def validate (h : EncodingHeader) : Except EncodingError Unit :=
  if h.version ≠ 1 then .error (.unsupportedVersion h.version)
  else if h.flags ≠ 0 then .error (.invalidFlags h.flags)
  else if h.ckeyHashSize = 0 ∨ h.ckeyHashSize > 16 then
    .error (.invalidHashSize "ckey_hash_size" h.ckeyHashSize)
  else if h.ekeyHashSize = 0 ∨ h.ekeyHashSize > 16 then
    .error (.invalidHashSize "ekey_hash_size" h.ekeyHashSize)
  else if h.ckeyPageSizeKb = 0 then .error (.invalidPageSize 0)
  else if h.ekeyPageSizeKb = 0 then .error (.invalidPageSize 0)
  else if h.ckeyPageCount = 0 then .error (.invalidPageCount "ckey_page_count" h.ckeyPageCount)
  else if h.ekeyPageCount = 0 then .error (.invalidPageCount "ekey_page_count" h.ekeyPageCount)
  else if h.especBlockSize = 0 then .error (.invalidESpecBlockSize h.especBlockSize)
  else .ok ()

def ckeyPageSize (h : EncodingHeader) : Nat := h.ckeyPageSizeKb.toNat * 1024

def ekeyPageSize (h : EncodingHeader) : Nat := h.ekeyPageSizeKb.toNat * 1024

/-- The size of everything before the file's own specification. -/
def dataSize (h : EncodingHeader) : Nat :=
  22 + h.ckeyPageCount.toNat * (32 + h.ckeyPageSize) +
    h.ekeyPageCount.toNat * (32 + h.ekeyPageSize) + h.especBlockSize.toNat

theorem write_length (h : EncodingHeader) : h.write.length = 22 := by
  simp [write, fieldsCodec, Codec.pair]

variable {h : EncodingHeader}

theorem ofFields_eq_iff {magic : Key 2} {values : Fields} :
    ofFields magic values = h ↔ magic = h.magic ∧ values = h.fields := by
  obtain ⟨⟩ := h
  simp [ofFields, fields, Prod.ext_iff]

theorem read_eq_ok {data rest : Bytes} :
    read data = .ok (h, rest) ↔ h.magic = encodingMagic ∧ data = h.write ++ rest := by
  simp [read, write, ofFields_eq_iff, -Subtype.exists]
  grind

end EncodingHeader

/-! ## ESpec table -/

structure ESpecTable where
  entries : List Text
deriving DecidableEq

namespace ESpecTable

/-- A specification that is not valid UTF-8 is converted with replacement characters. -/
def specText (bytes : Bytes) : Text :=
  if h : validUtf8 bytes = true then ⟨bytes, h⟩ else Text.lossy bytes

def parseStep (st : List Text × Bytes) (byte : UInt8) : Except EncodingError (List Text × Bytes) :=
  if byte = 0 then
    if st.2 = [] then .error .emptyESpec else .ok (st.1 ++ [specText st.2], [])
  else .ok (st.1, st.2 ++ [byte])

def parse (data : Bytes) : Except EncodingError ESpecTable :=
  match data.foldlM parseStep ([], []) with
  | .error e => .error e
  | .ok (entries, current) => if current ≠ [] then .error .unterminatedESpec else .ok { entries }

def build (table : ESpecTable) : Bytes := (table.entries.map fun spec => spec.1 ++ [0]).flatten

def get (table : ESpecTable) (index : UInt32) : Option Text := table.entries[index.toNat]?

theorem specText_of_valid (spec : Text) : specText spec.1 = spec := by
  rw [specText, dif_pos spec.2]

theorem foldlM_parseStep_body {body : Bytes} (hBody : 0 ∉ body) (entries : List Text)
    (current : Bytes) :
    body.foldlM parseStep (entries, current) = .ok (entries, current ++ body) := by
  induction body generalizing current with
  | nil => simp only [foldlM_nil, append_nil]; rfl
  | cons b body ih =>
    rw [mem_cons, not_or] at hBody
    have hStep : parseStep (entries, current) b = .ok (entries, current ++ [b]) :=
      if_neg (Ne.symm hBody.1)
    rw [foldlM_cons, hStep, ok_bind, ih hBody.2, append_assoc]
    rfl

theorem foldlM_parseStep_build {specs : List Text}
    (hSpecs : ∀ spec ∈ specs, spec.1 ≠ [] ∧ 0 ∉ spec.1) (entries : List Text) :
    (build ⟨specs⟩).foldlM parseStep (entries, []) = .ok (entries ++ specs, []) := by
  induction specs generalizing entries with
  | nil => simp only [append_nil]; rfl
  | cons spec specs ih =>
    obtain ⟨hNe, hNul⟩ := hSpecs spec mem_cons_self
    have hBuild : build ⟨spec :: specs⟩ = spec.1 ++ 0 :: build ⟨specs⟩ := by simp [build]
    have hStep : parseStep (entries, spec.1) 0 = .ok (entries ++ [spec], []) := by
      simp [parseStep, hNe, specText_of_valid]
    rw [hBuild, foldlM_append, foldlM_parseStep_body hNul, ok_bind, nil_append,
      foldlM_cons, hStep, ok_bind, ih fun s hs => hSpecs s (mem_cons_of_mem spec hs)]
    simp

variable {table : ESpecTable}

theorem parse_build (hSpecs : ∀ spec ∈ table.entries, spec.1 ≠ [] ∧ 0 ∉ spec.1) :
    parse table.build = .ok table := by
  simp only [parse, foldlM_parseStep_build hSpecs]
  rfl

theorem foldlM_parseStep_bytes {data current current' : Bytes} {entries entries' : List Text}
    (hCurrent : 0 ∉ current) (hValid : ∀ raw ∈ (current ++ data).splitOn 0, validUtf8 raw = true)
    (h : data.foldlM parseStep (entries, current) = .ok (entries', current')) :
    build ⟨entries'⟩ ++ current' = build ⟨entries⟩ ++ current ++ data := by
  induction data generalizing entries current with
  | nil =>
    cases h
    simp
  | cons b data ih =>
    obtain ⟨st, hStep, h⟩ := bind_eq_ok.mp h
    unfold parseStep at hStep
    split at hStep
    next hb =>
      subst hb
      split at hStep
      · cases hStep
      · cases hStep
        -- the NUL byte ends the string that was open
        have hSplit : (current ++ 0 :: data).splitOn 0 = current :: data.splitOn 0 := by
          refine splitOnP_append_cons_of_forall_mem ?_ 0 rfl data
          intro x hx
          rw [beq_eq_false_iff_ne]
          rintro rfl
          exact hCurrent hx
        rw [hSplit] at hValid
        rw [ih not_mem_nil (fun raw hRaw => hValid raw (mem_cons_of_mem _ hRaw)) h]
        simp [build, specText, hValid current mem_cons_self]
    next hb =>
      cases hStep
      have hCurrent' : 0 ∉ current ++ [b] := by simp [hCurrent, Ne.symm hb]
      rw [ih hCurrent' (by simpa using hValid) h]
      simp

theorem build_of_parse {data : Bytes} (h : parse data = .ok table)
    (hValid : ∀ raw ∈ data.splitOn 0, validUtf8 raw = true) : table.build = data := by
  unfold parse at h
  split at h
  · cases h
  next entries current hRun =>
    split at h
    · cases h
    next hCurrent =>
      cases h
      have hBytes := foldlM_parseStep_bytes not_mem_nil hValid hRun
      simpa [not_not.mp hCurrent, build] using hBytes

end ESpecTable

end Cascette.Encoding
