import Cascette.Encoding.Entry
import Cascette.Lib.Search

/-!
# Parsing, writing and searching an encoding file

`EncodingFile.parse` reads the header, the ESpec table, the index and pages of the content keys,
the index and pages of the encoding keys, and what is left as the file's own specification.
`EncodingFile.build` writes these parts again, and the lookups search the first keys of the pages
and scan one page. `parse_eq_ok_iff` says what an accepted file is: the parts in order, each
within its own conditions.
-/

namespace Cascette.Encoding

open Lib List CKeyPageEntry EKeyPageEntry

/-- The entries of a page, and its bytes as they were read. -/
structure Page (τ : Type) where
  entries : List τ
  originalData : Bytes
deriving DecidableEq

structure EncodingFile where
  header : EncodingHeader
  especTable : ESpecTable
  ckeyIndex : List IndexEntry
  ckeyPages : List (Page CKeyPageEntry)
  ekeyIndex : List IndexEntry
  ekeyPages : List (Page EKeyPageEntry)
  trailingEspec : Option Text
deriving DecidableEq

variable {τ : Type}

/-! ## Reading -/

/-- The loop over the entries of a page. An entry takes at least one byte, so that the length of
the page is enough fuel. -/
def readPageEntries (readEntry : Bytes → Except BinError (τ × Bytes)) (minEntrySize : Nat)
    (hitPadding : Bytes → Bool) : Nat → Bytes → Except EncodingError (List τ)
  | 0, _ => .ok []
  | fuel + 1, rest =>
    if rest = [] then .ok []
    else
      match readEntry rest with
      | .ok (entry, rest) =>
        (readPageEntries readEntry minEntrySize hitPadding fuel rest).map (entry :: ·)
      | .error e =>
        if rest.length < minEntrySize then .ok []
        else if hitPadding rest then .ok []
        else .error (.binRw e)

def ckeyPageEntries (header : EncodingHeader) (pageData : Bytes) :
    Except EncodingError (List CKeyPageEntry) :=
  readPageEntries (CKeyPageEntry.read header.ckeyHashSize header.ekeyHashSize)
    (1 + 5 + header.ckeyHashSize.toNat) (fun rest => rest.head? = some 0) pageData.length pageData

/-- The check for padding after an entry could not be read. -/
def ekeyPadding (ekeyHashSize : Nat) (rest : Bytes) : Bool :=
  match readExact (ekeyHashSize + 4) rest with
  | none => false
  | some (check, _) =>
    EKeyPageEntry.isPadding (check.take ekeyHashSize)
      (UInt32.ofNat (ofBe (check.drop ekeyHashSize)))

def ekeyPageEntries (header : EncodingHeader) (pageData : Bytes) :
    Except EncodingError (List EKeyPageEntry) :=
  readPageEntries (EKeyPageEntry.read header.ekeyHashSize) (header.ekeyHashSize.toNat + 4 + 5)
    (ekeyPadding header.ekeyHashSize.toNat) pageData.length pageData

def parsePages (md5 : Bytes → Key 16) (pageSize : Nat)
    (pageEntries : Bytes → Except EncodingError (List τ)) :
    List IndexEntry → Bytes → Except EncodingError (List (Page τ) × Bytes)
  | [], rest => .ok ([], rest)
  | index :: more, rest => do
    let (pageData, rest) ← (Codec.key .io pageSize).read rest
    if index.verify md5 pageData.1 = false then .error .checksumMismatch
    else
      let entries ← pageEntries pageData.1
      let (pages, rest) ← parsePages md5 pageSize pageEntries more rest
      .ok ({ entries, originalData := pageData.1 } :: pages, rest)

def parseCkeyPages (md5 : Bytes → Key 16) (header : EncodingHeader) (ckeyIndex : List IndexEntry)
    (rest : Bytes) : Except EncodingError (List (Page CKeyPageEntry) × Bytes) :=
  parsePages md5 header.ckeyPageSize (ckeyPageEntries header) ckeyIndex rest

def parseEkeyPages (md5 : Bytes → Key 16) (header : EncodingHeader) (ekeyIndex : List IndexEntry)
    (rest : Bytes) : Except EncodingError (List (Page EKeyPageEntry) × Bytes) :=
  parsePages md5 header.ekeyPageSize (ekeyPageEntries header) ekeyIndex rest

/-- The header, with the failed assertion on the magic bytes reported as its own error. -/
def readHeader (data : Bytes) : Except EncodingError (EncodingHeader × Bytes) :=
  match EncodingHeader.read data with
  | .ok res => .ok res
  | .error (.assertFail _) => .error (.invalidMagic (data.take 2))
  | .error e => .error (.binRw e)

def trailingText (bytes : Bytes) : Option Text :=
  if bytes = [] then none else some (Text.lossy bytes)

namespace EncodingFile

def parse (md5 : Bytes → Key 16) (data : Bytes) : Except EncodingError EncodingFile := do
  let (header, rest) ← readHeader data
  let _ ← header.validate
  let (especData, rest) ← (Codec.key EncodingError.io header.especBlockSize.toNat).read rest
  let especTable ← ESpecTable.parse especData.1
  let (ckeyIndex, rest) ← indexEntryCodec.readMany header.ckeyPageCount.toNat rest
  let (ckeyPages, rest) ← parseCkeyPages md5 header ckeyIndex rest
  let (ekeyIndex, rest) ← indexEntryCodec.readMany header.ekeyPageCount.toNat rest
  let (ekeyPages, rest) ← parseEkeyPages md5 header ekeyIndex rest
  .ok {
    header, especTable, ckeyIndex, ckeyPages, ekeyIndex, ekeyPages
    trailingEspec := trailingText rest }

/-! ## Writing -/

/-- The index with the checksums of the pages computed again. -/
def updatedIndex (md5 : Bytes → Key 16) (index : List IndexEntry) (pages : List (Page τ)) :
    Except (Halt EncodingError) (List IndexEntry) :=
  pages.zipIdx.mapM fun (page, pageIdx) => do
    let originalIndex ← (getAt index pageIdx).mapError .panic
    .ok { firstKey := originalIndex.firstKey, checksum := md5 page.originalData }

def pagesData (pages : List (Page τ)) : Bytes := (pages.map Page.originalData).flatten

def trailingBytes (trailing : Option Text) : Bytes :=
  match trailing with
  | some text => text.1
  | none => []

def build (md5 : Bytes → Key 16) (file : EncodingFile) : Except (Halt EncodingError) Bytes :=
  let especData := file.especTable.build
  if especData.length ≠ file.header.especBlockSize.toNat then .error (.error .invalidESpecSize)
  else do
    let ckeyIndexUpdated ← updatedIndex md5 file.ckeyIndex file.ckeyPages
    let ekeyIndexUpdated ← updatedIndex md5 file.ekeyIndex file.ekeyPages
    .ok (file.header.write ++ especData ++
      indexEntryCodec.writeMany ckeyIndexUpdated ++ pagesData file.ckeyPages ++
      indexEntryCodec.writeMany ekeyIndexUpdated ++ pagesData file.ekeyPages ++
      trailingBytes file.trailingEspec)

/-! ## Searching -/

/-- The entry of a key: the last page whose first key is not above it is scanned. -/
def findEntry (keyOf : τ → Key 16) (index : List IndexEntry) (pages : List (Page τ))
    (key : Key 16) : Checked (Option τ) :=
  let pageIdx := partitionPoint (fun idx : IndexEntry => idx.firstKey ≤ key) index
  if pageIdx = 0 then .ok none
  else do
    let page ← getAt pages (pageIdx - 1)
    .ok (page.entries.find? fun entry => keyOf entry = key)

def findAllEncodings (file : EncodingFile) (contentKey : Key 16) : Checked (List (Key 16)) := do
  let entry ← findEntry CKeyPageEntry.contentKey file.ckeyIndex file.ckeyPages contentKey
  .ok (entry.elim [] CKeyPageEntry.encodingKeys)

def findEspec (file : EncodingFile) (encodingKey : Key 16) : Checked (Option Text) := do
  let entry ← findEntry EKeyPageEntry.encodingKey file.ekeyIndex file.ekeyPages encodingKey
  .ok (entry.bind fun e => file.especTable.get e.especIndex)

end EncodingFile

/-! ## Pages of entries -/

/-- Entries followed by zeros are read back, when each entry is and zeros are taken as padding. -/
theorem readPageEntries_padded {readEntry : Bytes → Except BinError (τ × Bytes)}
    {minEntrySize : Nat} {hitPadding : Bytes → Bool} {write : τ → Bytes} {entries : List τ}
    {padding fuel : Nat}
    (hRead : ∀ e ∈ entries, ∀ rest, readEntry (write e ++ rest) = .ok (e, rest))
    (hNe : ∀ e ∈ entries, write e ≠ [])
    (hZero : ∃ err, readEntry (replicate padding 0) = .error err)
    (hStop : minEntrySize ≤ padding → hitPadding (replicate padding 0) = true)
    (hFuel : ((entries.map write).flatten ++ replicate padding 0).length ≤ fuel) :
    readPageEntries readEntry minEntrySize hitPadding fuel
      ((entries.map write).flatten ++ replicate padding 0) = .ok entries := by
  induction entries generalizing fuel with
  | nil =>
    obtain ⟨err, hErr⟩ := hZero
    cases fuel with
    | zero => rfl
    | succ fuel =>
      simp only [map_nil, flatten_nil, nil_append, readPageEntries, hErr, length_replicate]
      split
      · rfl
      · split
        · rfl
        next hRoom =>
          rw [if_pos (hStop (Nat.not_lt.mp hRoom))]
  | cons e entries ih =>
    have hWrite := hNe e mem_cons_self
    have hPos := length_pos_iff.mpr hWrite
    simp only [map_cons, flatten_cons, append_assoc] at hFuel ⊢
    rw [length_append] at hFuel
    cases fuel with
    | zero => omega
    | succ fuel =>
      have hRest : ((entries.map write).flatten ++ replicate padding 0).length ≤ fuel := by
        omega
      have hTail := ih (fun e' he' => hRead e' (mem_cons_of_mem e he'))
        (fun e' he' => hNe e' (mem_cons_of_mem e he')) hRest
      simp only [readPageEntries, append_eq_nil_iff, hWrite, false_and, if_false,
        hRead e mem_cons_self, hTail, Except.map]

variable {header : EncodingHeader} {md5 : Bytes → Key 16}

theorem ckeyPageEntries_padTo (hCkey : header.ckeyHashSize = 16)
    (hEkey : header.ekeyHashSize = 16) {entries : List CKeyPageEntry}
    (h : ∀ e ∈ entries, e.Storable) (pageSize : Nat) :
    ckeyPageEntries header (padTo pageSize (entries.map (CKeyPageEntry.write 16 16)).flatten) =
      .ok entries := by
  rw [ckeyPageEntries, hCkey, hEkey, padTo]
  refine readPageEntries_padded (fun e he rest => read_write (h e he) rest) ?_
    (read_zero _) ?_ le_rfl
  · intro e _ hNil
    have hLength := e.write_length
    rw [hNil, length_nil] at hLength
    omega
  · intro hRoom
    obtain ⟨n, hn⟩ := Nat.exists_eq_add_of_le' (Nat.le_of_add_right_le hRoom)
    rw [hn]
    rfl

theorem ekeyPadding_zero {ekeyHashSize n : Nat} (h : ekeyHashSize + 4 ≤ n) :
    ekeyPadding ekeyHashSize (replicate n 0) = true := by
  obtain ⟨k, rfl⟩ := Nat.exists_eq_add_of_le h
  have hSplit : (replicate (ekeyHashSize + 4 + k) 0 : Bytes) =
      replicate (ekeyHashSize + 4) 0 ++ replicate k 0 := replicate_add _ _ _
  rw [ekeyPadding, hSplit, readExact_append length_replicate]
  have hZero : UInt32.ofNat (ofBe (replicate 4 0)) = 0 := rfl
  simp only [EKeyPageEntry.isPadding, take_replicate, drop_replicate,
    Nat.add_sub_cancel_left, hZero]
  simp

theorem ekeyPageEntries_padTo (hEkey : header.ekeyHashSize = 16)
    {entries : List EKeyPageEntry} (h : ∀ e ∈ entries, e.Storable) (pageSize : Nat) :
    ekeyPageEntries header (padTo pageSize (entries.map (EKeyPageEntry.write 16)).flatten) =
      .ok entries := by
  rw [ekeyPageEntries, hEkey, padTo]
  refine readPageEntries_padded (fun e he rest => read_write (h e he) rest) ?_
    (read_zero _) (fun hRoom => ekeyPadding_zero (by omega)) le_rfl
  intro e _ hNil
  have hLength := e.write_length
  rw [hNil, length_nil] at hLength
  omega

/-! ## What is accepted -/

/-- A page goes with its index entry: it has the page's size, the checksum agrees, and its entries
are the ones read from it. -/
@[mk_iff pageRead_iff]
structure PageRead (md5 : Bytes → Key 16) (pageSize : Nat)
    (pageEntries : Bytes → Except EncodingError (List τ)) (index : IndexEntry) (page : Page τ) :
    Prop where
  length : page.originalData.length = pageSize
  checksum : md5 page.originalData = index.checksum
  entries : pageEntries page.originalData = .ok page.entries

theorem parsePages_eq_ok_iff {pageSize : Nat}
    {pageEntries : Bytes → Except EncodingError (List τ)} {index : List IndexEntry}
    {pages : List (Page τ)} {bytes rest : Bytes} :
    parsePages md5 pageSize pageEntries index bytes = .ok (pages, rest) ↔
      bytes = EncodingFile.pagesData pages ++ rest ∧
        Forall₂ (PageRead md5 pageSize pageEntries) index pages := by
  induction index generalizing pages bytes with
  | nil =>
    simp only [parsePages, Except.ok.injEq, Prod.mk.injEq, forall₂_nil_left_iff]
    constructor
    · rintro ⟨rfl, rfl⟩
      exact ⟨rfl, rfl⟩
    · rintro ⟨rfl, rfl⟩
      exact ⟨rfl, rfl⟩
  | cons i index ih =>
    cases pages with
    | nil => simp [parsePages, bind_eq_ok]
    | cons page pages =>
      obtain ⟨entries, originalData⟩ := page
      simp [parsePages, bind_eq_ok, ih, EncodingFile.pagesData, IndexEntry.verify, pageRead_iff]
      tauto

namespace EncodingFile

/-- The conditions under which the bytes are an encoding file: `especData` and `trailing` are the
two parts that the parsed file keeps only as strings. -/
@[mk_iff parsedFrom_iff]
structure ParsedFrom (md5 : Bytes → Key 16) (file : EncodingFile) (especData trailing : Bytes) :
    Prop where
  magic : file.header.magic = EncodingHeader.encodingMagic
  valid : file.header.validate = .ok ()
  especLength : especData.length = file.header.especBlockSize.toNat
  espec : ESpecTable.parse especData = .ok file.especTable
  ckeyCount : file.ckeyIndex.length = file.header.ckeyPageCount.toNat
  ckeyPages : List.Forall₂ (PageRead md5 file.header.ckeyPageSize (ckeyPageEntries file.header))
    file.ckeyIndex file.ckeyPages
  ekeyCount : file.ekeyIndex.length = file.header.ekeyPageCount.toNat
  ekeyPages : List.Forall₂ (PageRead md5 file.header.ekeyPageSize (ekeyPageEntries file.header))
    file.ekeyIndex file.ekeyPages
  trailing : file.trailingEspec = trailingText trailing

/-- The bytes of a file with the given bytes for its two string parts. -/
def layout (file : EncodingFile) (especData trailing : Bytes) : Bytes :=
  file.header.write ++ especData ++
    indexEntryCodec.writeMany file.ckeyIndex ++ pagesData file.ckeyPages ++
    indexEntryCodec.writeMany file.ekeyIndex ++ pagesData file.ekeyPages ++ trailing

theorem readHeader_eq_ok {data rest : Bytes} :
    readHeader data = .ok (header, rest) ↔ EncodingHeader.read data = .ok (header, rest) := by
  unfold readHeader
  cases EncodingHeader.read data with
  | ok res => simp
  | error e => cases e <;> simp

theorem parse_eq_ok_iff {data : Bytes} {file : EncodingFile} :
    parse md5 data = .ok file ↔
      ∃ especData trailing, data = file.layout especData trailing ∧
        file.ParsedFrom md5 especData trailing := by
  obtain ⟨header, especTable, ckeyIndex, ckeyPages, ekeyIndex, ekeyPages, trailingEspec⟩ := file
  simp [parse, bind_eq_ok, readHeader_eq_ok, EncodingHeader.read_eq_ok, parseCkeyPages,
    parseEkeyPages, parsePages_eq_ok_iff, layout, parsedFrom_iff, Unique.exists_iff,
    eq_comm (b := trailingText _)]
  exact exists_congr fun _ => exists_congr fun _ => by rw [and_assoc, and_left_comm]

end EncodingFile

end Cascette.Encoding
