import Cascette.Encoding.File

/-!
# Writing a parsed encoding file

A parsed file keeps the bytes of its pages, and the checksums computed from them are the ones that
were verified. So writing it again gives the bytes it was read from, as long as the two parts that
it keeps as strings were strings: the ESpec table and the file's own specification at the end
(`build_parse_iff`).
-/

namespace Cascette.Encoding

open Lib List

variable {τ : Type}

namespace EncodingFile

/-! ## The index -/

theorem mapM_zipIdx_ok {ε α β : Type} {f : α × Nat → Except ε β} {xs : List α} {ys : List β}
    {start : Nat} (hLength : ys.length = xs.length)
    (h : ∀ i (hx : i < xs.length) (hy : i < ys.length), f (xs[i], start + i) = .ok ys[i]) :
    (xs.zipIdx start).mapM f = .ok ys := by
  induction xs generalizing ys start with
  | nil =>
    rw [length_eq_zero_iff.mp hLength]
    rfl
  | cons x xs ih =>
    cases ys with
    | nil => cases hLength
    | cons y ys =>
      have hHead : f (x, start) = .ok y := h 0 (by simp) (by simp)
      have hTail : (xs.zipIdx (start + 1)).mapM f = .ok ys := by
        refine ih (by simpa using hLength) ?_
        intro i hx hy
        have := h (i + 1) (by simpa using hx) (by simpa using hy)
        simpa [Nat.add_assoc, Nat.add_comm 1 i] using this
      rw [zipIdx_cons, mapM_cons, hHead, ok_bind, hTail, ok_bind]
      rfl

variable {md5 : Bytes → Key 16} {pages : List (Page τ)}

theorem updatedIndex_eq {index : List IndexEntry}
    (h : Forall₂ (fun i page => md5 page.originalData = i.checksum) index pages) :
    updatedIndex md5 index pages = .ok index := by
  have hLength := h.length_eq
  refine mapM_zipIdx_ok hLength ?_
  intro i hPage hIndex
  have hChecksum := h.get hIndex hPage
  simp only [get_eq_getElem] at hChecksum
  simp only [Nat.zero_add, getAt_eq hIndex, Except.mapError, ok_bind, hChecksum]

theorem build_eq {file : EncodingFile}
    (hEspec : file.especTable.build.length = file.header.especBlockSize.toNat)
    (hCkey : Forall₂ (fun i page => md5 page.originalData = i.checksum) file.ckeyIndex
      file.ckeyPages)
    (hEkey : Forall₂ (fun i page => md5 page.originalData = i.checksum) file.ekeyIndex
      file.ekeyPages) :
    build md5 file =
      .ok (file.layout file.especTable.build (trailingBytes file.trailingEspec)) := by
  simp only [build, hEspec, ne_eq, not_true_eq_false, if_false, updatedIndex_eq hCkey,
    updatedIndex_eq hEkey, ok_bind, layout]

/-! ## Where the parts are -/

theorem writeMany_length (index : List IndexEntry) :
    (indexEntryCodec.writeMany index).length = index.length * 32 := by
  refine length_flatten_map fun entry _ => ?_
  simp [indexEntryCodec, Codec.map, Codec.pair, Codec.key, entry.firstKey.2, entry.checksum.2]

theorem pagesData_length {size : Nat} (h : ∀ page ∈ pages, page.originalData.length = size) :
    (pagesData pages).length = pages.length * size :=
  length_flatten_map h

/-- The bytes of the ESpec table in a file that was accepted. -/
def especBlock (header : EncodingHeader) (data : Bytes) : Bytes :=
  (data.drop 22).take header.especBlockSize.toNat

/-- What follows the pages in a file that was accepted. -/
def trailingData (header : EncodingHeader) (data : Bytes) : Bytes := data.drop header.dataSize

variable {md5 : Bytes → Key 16} {file : EncodingFile} {especData trailing : Bytes}

variable (h : file.ParsedFrom md5 especData trailing)
include h

theorem ParsedFrom.especBlock_layout :
    especBlock file.header (file.layout especData trailing) = especData := by
  have hHeader := file.header.write_length
  simp only [especBlock, layout, append_assoc]
  rw [drop_left' hHeader, take_left' h.especLength]

theorem ParsedFrom.trailingData_layout :
    trailingData file.header (file.layout especData trailing) = trailing := by
  have hCkey : ∀ page ∈ file.ckeyPages, page.originalData.length = file.header.ckeyPageSize := by
    intro page hPage
    obtain ⟨i, -, hRead⟩ := forall₂_mem_right h.ckeyPages hPage
    exact hRead.length
  have hEkey : ∀ page ∈ file.ekeyPages, page.originalData.length = file.header.ekeyPageSize := by
    intro page hPage
    obtain ⟨i, -, hRead⟩ := forall₂_mem_right h.ekeyPages hPage
    exact hRead.length
  refine drop_left' ?_
  simp only [length_append, file.header.write_length, h.especLength, writeMany_length,
    pagesData_length hCkey, pagesData_length hEkey, ← h.ckeyPages.length_eq,
    ← h.ekeyPages.length_eq, h.ckeyCount, h.ekeyCount, EncodingHeader.dataSize]
  ring

omit h

/-! ## The file's own specification -/

theorem trailingBytes_trailingText_iff (bytes : Bytes) :
    trailingBytes (trailingText bytes) = bytes ↔ validUtf8 bytes = true := by
  unfold trailingText
  split_ifs with hEmpty
  · subst hEmpty
    exact ⟨fun _ => rfl, fun _ => rfl⟩
  · exact lossyChars_eq_self_iff le_rfl

theorem ParsedFrom.build_iff (h : file.ParsedFrom md5 especData trailing)
    (hTable : file.especTable.build = especData) :
    build md5 file = .ok (file.layout especData trailing) ↔ validUtf8 trailing = true := by
  rw [build_eq (by rw [hTable, h.especLength])
    (h.ckeyPages.imp fun _ _ hRead => hRead.checksum)
    (h.ekeyPages.imp fun _ _ hRead => hRead.checksum), hTable, h.trailing, layout, layout,
    Except.ok.injEq, append_cancel_left_eq, trailingBytes_trailingText_iff]

/-- An accepted file whose specifications are valid UTF-8 is reproduced byte by byte exactly when
the data after its pages is valid UTF-8 as well. -/
theorem build_parse_iff (md5 : Bytes → Key 16) (data : Bytes) (file : EncodingFile)
    (hParse : parse md5 data = .ok file)
    (hEspec : ∀ raw ∈ (especBlock file.header data).splitOn 0, validUtf8 raw = true) :
    build md5 file = .ok data ↔ validUtf8 (trailingData file.header data) = true := by
  obtain ⟨especData, trailing, rfl, h⟩ := parse_eq_ok_iff.mp hParse
  rw [h.especBlock_layout] at hEspec
  rw [h.trailingData_layout]
  exact h.build_iff (ESpecTable.build_of_parse h.espec hEspec)

/-! ## A file of empty pages -/

def sampleHeader : EncodingHeader where
  magic := EncodingHeader.encodingMagic
  version := 1
  ckeyHashSize := 16
  ekeyHashSize := 16
  ckeyPageSizeKb := 1
  ekeyPageSizeKb := 1
  ckeyPageCount := 1
  ekeyPageCount := 1
  flags := 0
  especBlockSize := 2

def zeroKey : Key 16 := .fill 16 0

def emptyPage (pageSize : Nat) : Page τ := { entries := [], originalData := padTo pageSize [] }

/-- The specification `z`. -/
def zlibText : Text := ⟨[0x7a], rfl⟩

def sampleTable : ESpecTable := { entries := [zlibText] }

/-- One empty page of each kind, and any data after them. -/
def sampleFile (md5 : Bytes → Key 16) (trailing : Bytes) : EncodingFile where
  header := sampleHeader
  especTable := sampleTable
  ckeyIndex := [{ firstKey := zeroKey, checksum := md5 (padTo sampleHeader.ckeyPageSize []) }]
  ckeyPages := [emptyPage sampleHeader.ckeyPageSize]
  ekeyIndex := [{ firstKey := zeroKey, checksum := md5 (padTo sampleHeader.ekeyPageSize []) }]
  ekeyPages := [emptyPage sampleHeader.ekeyPageSize]
  trailingEspec := trailingText trailing

theorem sampleFile_parsedFrom (md5 : Bytes → Key 16) (trailing : Bytes) :
    (sampleFile md5 trailing).ParsedFrom md5 [0x7a, 0] trailing where
  magic := rfl
  valid := rfl
  especLength := rfl
  espec := rfl
  ckeyCount := rfl
  ckeyPages := .cons ⟨padTo_length (Nat.zero_le _), rfl,
    ckeyPageEntries_padTo rfl rfl (forall_mem_nil _) _⟩ .nil
  ekeyCount := rfl
  ekeyPages := .cons ⟨padTo_length (Nat.zero_le _), rfl,
    ekeyPageEntries_padTo rfl (forall_mem_nil _) _⟩ .nil
  trailing := rfl

theorem parse_sampleFile (md5 : Bytes → Key 16) (trailing : Bytes) :
    parse md5 ((sampleFile md5 trailing).layout [0x7a, 0] trailing) =
      .ok (sampleFile md5 trailing) :=
  parse_eq_ok_iff.mpr ⟨_, _, rfl, sampleFile_parsedFrom md5 trailing⟩

theorem sampleFile_espec_valid (md5 : Bytes → Key 16) (trailing : Bytes) :
    ∀ raw ∈ (especBlock sampleHeader
      ((sampleFile md5 trailing).layout [0x7a, 0] trailing)).splitOn 0, validUtf8 raw = true := by
  have hBlock := (sampleFile_parsedFrom md5 trailing).especBlock_layout
  rw [sampleFile] at hBlock
  rw [sampleFile, hBlock]
  decide

/-- With a specification of the file's own, here `n`, the bytes are reproduced. -/
theorem build_parse_sample :
    build (fun _ => zeroKey) (sampleFile (fun _ => zeroKey) [0x6e]) =
      .ok ((sampleFile (fun _ => zeroKey) [0x6e]).layout [0x7a, 0] [0x6e]) := by
  refine (build_parse_iff (fun _ => zeroKey) _ _ (parse_sampleFile _ _)
    (sampleFile_espec_valid _ _)).mpr ?_
  have hTrailing := (sampleFile_parsedFrom (fun _ => zeroKey) [0x6e]).trailingData_layout
  rw [hTrailing]
  rfl

/-- A byte after the pages that is not UTF-8 is not written back, whatever the digest function. -/
theorem build_parse_trailing_changed :
    ∃ (data : (Bytes → Key 16) → Bytes) (file : (Bytes → Key 16) → EncodingFile), ∀ md5,
      parse md5 (data md5) = .ok (file md5) ∧
        (∀ raw ∈ (especBlock (file md5).header (data md5)).splitOn 0, validUtf8 raw = true) ∧
        build md5 (file md5) ≠ .ok (data md5) := by
  refine ⟨fun md5 => (sampleFile md5 [0xff]).layout [0x7a, 0] [0xff],
    fun md5 => sampleFile md5 [0xff], fun md5 => ⟨parse_sampleFile md5 [0xff],
      sampleFile_espec_valid md5 [0xff], ?_⟩⟩
  intro hBuild
  have hValid := ((sampleFile_parsedFrom md5 [0xff]).build_iff rfl).mp hBuild
  exact absurd hValid (by decide)

end EncodingFile

end Cascette.Encoding
