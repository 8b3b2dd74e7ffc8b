import Cascette.Index.File
import Cascette.Lib.Windows

/-!
# Loading without a panic

`load_index` with every addition, subtraction and slice that could stop it. The loops end, their
slices are in range and nothing overflows whatever the file holds (`loadIndexChecked_eq`), with one
exception: the three widths of the header are added as bytes, and only the width of the key is
checked before (`loadIndexChecked_returns_iff`).
-/

namespace Cascette.Index

open Lib List Nat

/-- What a file holds. Its length is an offset of the file system. -/
structure IndexContent where
  bytes : Bytes
  length_lt : bytes.length < 2 ^ 63

/-- An index file with the pages of its update section as plain lists. -/
structure RawIndex where
  version : IndexVersion
  header : IndexHeader
  entries : List IndexEntry
  pages : List (List UpdateEntry)
  capacityPages : Nat

def IndexFile.raw (index : IndexFile) : RawIndex where
  version := index.version
  header := index.header
  entries := index.entries
  pages := index.updateSection.pages.map UpdatePage.entries
  capacityPages := index.updateSection.capacityPages

/-- The readers of the header panic only where the widths are added. -/
def Fault.halt : Fault → Halt StorageError
  | .error e => .error e
  | .panic _ => .panic .overflow

/-- `arr.copy_from_slice(bytes)` for an array of `n` bytes. -/
def copyFromSlice (n : Nat) (bytes : Bytes) : Checked (Key n) :=
  if h : bytes.length = n then .ok ⟨bytes, h⟩ else .error .indexOutOfRange

/-! ## The entry block -/

def slotChecked (window : Bytes) : Checked (List IndexEntry × Bool) := do
  let key ← slice window 0 9
  if key.any (· ≠ 0) then .ok ((fromPacked window).toOption.toList, true) else .ok ([], true)

def parseEntriesChecked (entryData : Bytes) (entrySize : Nat) : Checked (List IndexEntry) :=
  scanLoop entrySize entryData.length slotChecked entryData (entryData.length + 1) 0 []

variable {window data bytes rest : Bytes} {entrySize n : Nat} {header : IndexHeader}
  (content : IndexContent)

theorem slotChecked_eq (h : 9 ≤ window.length) :
    slotChecked window = .ok ((parseSlot window).toList, true) := by
  rw [slotChecked, slice_eq (zero_le _) h, ok_bind, drop_zero, parseSlot]
  split
  · rfl
  · rfl

theorem parseEntries_eq_scan (entrySize fuel : Nat) (data : Bytes) :
    parseEntries entrySize fuel data =
      scan entrySize (fun window => ((parseSlot window).toList, true)) fuel data := by
  induction fuel generalizing data with
  | zero => rfl
  | succ fuel ih =>
    rw [parseEntries, scan, ih]
    rfl

theorem parseEntriesChecked_eq {entryData : Bytes} (hEntry : 9 ≤ entrySize)
    (hSize : entryData.length + entrySize < 2 ^ 64) :
    parseEntriesChecked entryData entrySize =
      .ok (parseEntries entrySize entryData.length entryData) := by
  rw [parseEntriesChecked, scanLoop_eq (by omega) (le_refl _) hSize
    (fun window hWindow => slotChecked_eq (hEntry.trans hWindow.ge)) (n := entryData.length)
    (by omega) (zero_le _), parseEntries_eq_scan, take_length, drop_zero,
    nil_append]
  rw [Nat.sub_zero, Nat.add_mul]
  nlinarith

/-! ## The update section -/

/-- One slot of a page; the first one whose hash guard is zero ends the page. -/
def updateSlotChecked (window : Bytes) : Checked (List UpdateEntry × Bool) := do
  let guard ← slice window 0 4
  if UInt32.ofNat (ofLe guard) = 0 then .ok ([], false)
  else
    let bytes ← copyFromSlice 24 window
    .ok ([UpdateEntry.fromBytes bytes], true)

def pageChecked (data : Bytes) : Checked (Option (List UpdateEntry)) :=
  if data.length < updatePageSize then .ok none
  else do
    let first ← slice data 0 4
    if first = List.replicate 4 0 then .ok none
    else
      let entries ← scanLoop updateEntrySize updatePageSize updateSlotChecked data
        (updatePageSize + 1) 0 []
      .ok (if entries.isEmpty then none else some entries)

/-- One page of the section; an empty one ends it. -/
def pageStepChecked (window : Bytes) : Checked (List (List UpdateEntry) × Bool) := do
  match ← pageChecked window with
  | some entries => .ok ([entries], true)
  | none => .ok ([], false)

def pagesChecked (data : Bytes) : Checked (List (List UpdateEntry)) :=
  scanLoop updatePageSize data.length pageStepChecked data (data.length + 1) 0 []

/-- What a slot gives and whether the page goes on. -/
def updateSlot (window : Bytes) : List UpdateEntry × Bool :=
  if UInt32.ofNat (ofLe (window.take 4)) = 0 then ([], false)
  else if h : window.length = 24 then ([UpdateEntry.fromBytes ⟨window, h⟩], true)
  else ([], false)

theorem updateSlotChecked_eq (h : window.length = updateEntrySize) :
    updateSlotChecked window = .ok (updateSlot window) := by
  have hLength : window.length = 24 := h
  rw [updateSlotChecked, slice_eq (zero_le _) (by omega), ok_bind, drop_zero, updateSlot]
  split
  · rfl
  · rw [copyFromSlice, dif_pos hLength]
    rfl

theorem readSlots_eq_scan (slots : Nat) (data : Bytes) :
    readSlots slots data = scan updateEntrySize updateSlot slots data := by
  induction slots generalizing data with
  | zero => rfl
  | succ slots ih =>
    rw [readSlots, scan]
    by_cases hLength : updateEntrySize ≤ data.length
    · have hTake : (data.take updateEntrySize).take 4 = data.take 4 := by
        rw [take_take]
        rfl
      have hWindow : (data.take updateEntrySize).length = 24 := length_take_of_le hLength
      rw [dif_pos (show 24 ≤ data.length from hLength), if_pos hLength, updateSlot, hTake]
      split
      · rfl
      · rw [ih]
        rfl
    · rw [dif_neg (show ¬ 24 ≤ data.length from hLength), if_neg hLength]

theorem take_four_eq_zeros (h : 4 ≤ data.length) :
    data.take 4 = replicate 4 0 ↔ UInt32.ofNat (ofLe (data.take 4)) = 0 := by
  have hLength : (data.take 4).length = 4 := length_take_of_le h
  constructor
  · intro hZeros
    rw [hZeros, ofLe_replicate_zero]
    rfl
  · intro hZero
    have hLt := ofLe_lt (data.take 4)
    rw [hLength] at hLt
    have hValue : ofLe (data.take 4) = 0 := by
      have hNat := congrArg UInt32.toNat hZero
      rwa [UInt32.toNat_ofNat_of_lt' (by omega)] at hNat
    rw [← leBytes_ofLe (data.take 4), hLength, hValue, leBytes_zero]

theorem pageChecked_eq (h : data.length = updatePageSize) :
    pageChecked data = .ok ((UpdatePage.fromBytes data).map UpdatePage.entries) := by
  have hLength : data.length = 4096 := h
  have hTest : data.take 4 = replicate 4 0 ↔ UInt32.ofNat (ofLe (data.take 4)) = 0 :=
    take_four_eq_zeros (by omega)
  have hNot : ¬ data.length < updatePageSize := not_lt.mpr h.ge
  rw [pageChecked, UpdatePage.fromBytes, if_neg hNot, if_neg hNot,
    slice_eq (zero_le _) (by omega), ok_bind, drop_zero]
  by_cases hZero : UInt32.ofNat (ofLe (data.take 4)) = 0
  · rw [if_pos (hTest.mpr hZero), if_pos hZero]
    rfl
  · rw [if_neg (mt hTest.mp hZero), if_neg hZero,
      scanLoop_eq (n := entriesPerPage) (by decide) h.ge (by decide)
        (fun window hWindow => updateSlotChecked_eq hWindow) (by decide) (zero_le _)
        (by decide), ok_bind, nil_append, ← h, take_length, drop_zero,
      ← readSlots_eq_scan]
    dsimp only
    split <;> rfl

/-- What a page gives and whether the section goes on. -/
def pageStep (window : Bytes) : List (List UpdateEntry) × Bool :=
  match UpdatePage.fromBytes window with
  | some page => ([page.entries], true)
  | none => ([], false)

theorem pageStepChecked_eq (h : window.length = updatePageSize) :
    pageStepChecked window = .ok (pageStep window) := by
  rw [pageStepChecked, pageChecked_eq h, ok_bind, pageStep]
  cases UpdatePage.fromBytes window <;> rfl

theorem readPages_map_entries (fuel : Nat) (data : Bytes) :
    (readPages fuel data).map UpdatePage.entries = scan updatePageSize pageStep fuel data := by
  induction fuel generalizing data with
  | zero => rfl
  | succ fuel ih =>
    rw [readPages, scan, pageStep]
    split
    · cases UpdatePage.fromBytes (data.take updatePageSize) with
      | some page =>
        rw [map_cons, ih, if_pos rfl]
        rfl
      | none => rfl
    · rfl

theorem pagesChecked_eq (h : data.length + updatePageSize < 2 ^ 64) :
    pagesChecked data =
      .ok ((readPages (data.length / updatePageSize) data).map UpdatePage.entries) := by
  have hPages : data.length - 0 < (data.length / updatePageSize + 1) * updatePageSize := by
    have hMod := lt_div_mul_add (a := data.length) (by decide : 0 < updatePageSize)
    rw [Nat.add_mul, Nat.one_mul]
    omega
  rw [pagesChecked, readPages_map_entries, scanLoop_eq (by decide) (le_refl _) h
    (fun window => pageStepChecked_eq) (by omega) (zero_le _) hPages, nil_append,
    take_length, drop_zero]

/-- The pages and the capacity of the update section. -/
def updateSectionChecked (content : IndexContent) (sortedEnd : Nat) :
    Checked (List (List UpdateEntry) × Nat) := do
  let upper ← checkedAdd 64 sortedEnd updatePageSize
  let upper ← checkedSub upper 1
  let updateStart := upper / updatePageSize * updatePageSize
  if updateStart < content.bytes.length then
    let updateSize ← checkedSub content.bytes.length updateStart
    let updateData ← slice content.bytes updateStart (updateStart + updateSize)
    let pages ← pagesChecked updateData
    .ok (pages, max (updateData.length / updatePageSize) (minUpdateSectionSize / updatePageSize))
  else .ok ([], minUpdateSectionSize / updatePageSize)

/-- The update section that a file of this content has. -/
def updateSectionAt (bytes : Bytes) (sortedEnd : Nat) : UpdateSection :=
  if alignUp updatePageSize sortedEnd < bytes.length then
    UpdateSection.fromBytes (bytes.drop (alignUp updatePageSize sortedEnd))
  else UpdateSection.new

theorem updateSectionChecked_eq {sortedEnd : Nat} (h : sortedEnd + updatePageSize < 2 ^ 64) :
    updateSectionChecked content sortedEnd =
      .ok ((updateSectionAt content.bytes sortedEnd).pages.map UpdatePage.entries,
        (updateSectionAt content.bytes sortedEnd).capacityPages) := by
  have hSize : updatePageSize = 4096 := rfl
  have hFile := content.length_lt
  rw [updateSectionChecked, checkedAdd_eq h, ok_bind, checkedSub_eq (by omega), ok_bind,
    updateSectionAt]
  dsimp only
  rw [← alignUp]
  split_ifs with hStart
  · have hStop : alignUp updatePageSize sortedEnd +
        (content.bytes.length - alignUp updatePageSize sortedEnd) = content.bytes.length := by
      omega
    have hData : content.bytes.length - alignUp updatePageSize sortedEnd =
        (content.bytes.drop (alignUp updatePageSize sortedEnd)).length := length_drop.symm
    rw [checkedSub_eq hStart.le, ok_bind, hStop, slice_eq hStart.le (le_refl _), ok_bind,
      take_length, pagesChecked_eq (by omega), ok_bind]
    rfl
  · rfl

/-! ## The file -/

def loadIndexChecked (content : IndexContent) : Except (Halt StorageError) RawIndex := do
  let (header, entrySize, rest) ← (readIndexHeader content.bytes).mapError Fault.halt
  let entryData ← (readEntryBlock rest).mapError Fault.halt
  let entries ← (parseEntriesChecked entryData entrySize).mapError Halt.panic
  let sortedEnd ← (checkedAdd 64 (8 + 16 + 8 + 8) entryData.length).mapError Halt.panic
  let (pages, capacityPages) ← (updateSectionChecked content sortedEnd).mapError Halt.panic
  .ok { version := .v7, header, entries := sortEntries entries, pages, capacityPages }

theorem entrySize_ok (h : header.entrySize = .ok entrySize) :
    header.keySize.toNat + header.locationSize.toNat + header.lengthSize.toNat = entrySize ∧
      entrySize < 256 := by
  unfold IndexHeader.entrySize at h
  dsimp only at h
  split at h
  next hLt =>
    cases h
    exact ⟨rfl, hLt⟩
  · cases h

theorem nine_le_keySize {keySize : UInt8} (h : ¬ (keySize ≠ 9 ∧ keySize ≠ 16)) :
    9 ≤ keySize.toNat := by
  by_cases hNine : keySize = 9
  · rw [hNine]
    decide
  · have hSixteen : keySize = 16 := by
      by_contra hNe
      exact h ⟨hNine, hNe⟩
    rw [hSixteen]
    decide

theorem readIndexHeader_ok (h : readIndexHeader data = .ok (header, entrySize, rest)) :
    9 ≤ entrySize ∧ entrySize < 256 := by
  obtain ⟨⟨block, rest'⟩, -, h⟩ := bind_eq_ok.mp h
  obtain ⟨⟨bytes, rest''⟩, -, h⟩ := bind_eq_ok.mp h
  dsimp only at h
  split_ifs at h with hKey
  · cases h
  · obtain ⟨size, hSize, h⟩ := bind_eq_ok.mp h
    cases h
    obtain ⟨hSum, hLt⟩ := entrySize_ok hSize
    have hNine := nine_le_keySize hKey
    dsimp only at hSum
    exact ⟨by omega, hLt⟩

theorem readOr_ok {context : String} {front : Bytes}
    (h : readOr context n bytes = .ok (front, rest)) : front.length = n := by
  unfold readOr at h
  split at h
  next parts hParts =>
    cases h
    exact (readExact_eq_some.mp hParts).2
  · cases h

theorem readEntryBlock_ok {block : Bytes} (h : readEntryBlock data = .ok block) :
    block.length < 2 ^ 32 := by
  obtain ⟨⟨hash, rest⟩, -, h⟩ := bind_eq_ok.mp h
  obtain ⟨⟨header, rest'⟩, hHeader, h⟩ := bind_eq_ok.mp h
  obtain ⟨⟨entries, rest''⟩, hEntries, h⟩ := bind_eq_ok.mp h
  cases h
  have hHeaderLength := readOr_ok hHeader
  rw [readOr_ok hEntries]
  have hLt := ofLe_lt (header.take 4)
  rwa [length_take, hHeaderLength] at hLt

/-- Apart from the widths of the header, nothing can stop the loader. -/
theorem loadIndexChecked_eq :
    loadIndexChecked content =
      ((loadIndexFile content.bytes).map IndexFile.raw).mapError Fault.halt := by
  rw [loadIndexChecked, loadIndexFile]
  cases hHeader : readIndexHeader content.bytes with
  | error fault => rfl
  | ok parts =>
    obtain ⟨header, entrySize, rest⟩ := parts
    obtain ⟨hNine, hEntry⟩ := readIndexHeader_ok hHeader
    rw [mapError_ok, ok_bind, ok_bind]
    dsimp only
    cases hBlock : readEntryBlock rest with
    | error fault => rfl
    | ok block =>
      have hLength := readEntryBlock_ok hBlock
      have hPage : updatePageSize = 4096 := rfl
      rw [mapError_ok, ok_bind, ok_bind, parseEntriesChecked_eq hNine (by omega), mapError_ok,
        ok_bind, checkedAdd_eq (by omega), mapError_ok, ok_bind,
        updateSectionChecked_eq content (by omega), mapError_ok, ok_bind]
      rfl

/-! ## When it returns -/

/-- The widths that the header declares for the key, the location and the length. -/
def keyWidth (data : Bytes) : UInt8 := byteAt data 14

def locationWidth (data : Bytes) : UInt8 := byteAt data 13

def lengthWidth (data : Bytes) : UInt8 := byteAt data 12

/-- In a file with a header and a key width that is accepted, the widths add up to a byte. -/
def WidthsFit (data : Bytes) : Prop :=
  24 ≤ data.length → keyWidth data = 9 ∨ keyWidth data = 16 →
    (keyWidth data).toNat + (locationWidth data).toNat + (lengthWidth data).toNat < 256

theorem readOr_cases (context : String) (n : Nat) (bytes : Bytes) :
    n ≤ bytes.length ∧ readOr context n bytes = .ok (bytes.take n, bytes.drop n) ∨
      bytes.length < n ∧ ∃ e, readOr context n bytes = .error (.error e) := by
  rw [readOr, readExact]
  by_cases h : n ≤ bytes.length
  · exact .inl ⟨h, by rw [if_pos h]⟩
  · exact .inr ⟨not_le.mp h, _, by rw [if_neg h]; rfl⟩

theorem headD_header (data : Bytes) {i : Nat} (h : i < 16) :
    (((data.drop 8).take 16).drop i).headD 0 = byteAt data (8 + i) := by
  rw [byteAt, headD_eq_head?_getD, headD_eq_head?_getD, head?_drop, head?_drop,
    getElem?_take_of_lt h, getElem?_drop]

theorem entrySize_panic_iff (header : IndexHeader) :
    (∃ message, header.entrySize = .error (.panic message)) ↔
      ¬ header.keySize.toNat + header.locationSize.toNat + header.lengthSize.toNat < 256 := by
  unfold IndexHeader.entrySize
  dsimp only
  split_ifs with hLt
  · exact ⟨nofun, fun hNot => absurd hLt hNot⟩
  · exact ⟨fun _ => hLt, fun _ => ⟨_, rfl⟩⟩

theorem exists_panic_bind {α β : Type} {x : Except Fault α} {f : α → β} :
    (∃ message, (x >>= fun a => Except.ok (f a)) = .error (.panic message)) ↔
      ∃ message, x = .error (.panic message) := by
  cases x with
  | ok a => exact ⟨nofun, nofun⟩
  | error fault => simp only [error_bind, Except.error.injEq]

theorem readIndexHeader_panic_iff (data : Bytes) :
    (∃ message, readIndexHeader data = .error (.panic message)) ↔ ¬ WidthsFit data := by
  rw [readIndexHeader]
  rcases readOr_cases "Failed to read header block" 8 data with
    ⟨hBlock, hRead⟩ | ⟨hShort, e, hRead⟩
  · rw [hRead, ok_bind]
    dsimp only
    rcases readOr_cases "Failed to read header" 16 (data.drop 8) with
      ⟨hHeader, hRead⟩ | ⟨hShort, e, hRead⟩
    · rw [length_drop] at hHeader
      rw [hRead, ok_bind]
      rw [headD_header data (by decide : 4 < 16), headD_header data (by decide : 5 < 16),
        headD_header data (by decide : 6 < 16)]
      split_ifs with hKey
      · refine ⟨nofun, fun hNot => absurd (fun _ hWidth => ?_) hNot⟩
        rcases hWidth with hNine | hSixteen
        · exact absurd hNine hKey.1
        · exact absurd hSixteen hKey.2
      · have hWidth : keyWidth data = 9 ∨ keyWidth data = 16 := by
          by_contra hNot
          exact hKey (not_or.mp hNot)
        rw [exists_panic_bind, entrySize_panic_iff]
        exact not_congr ⟨fun hSum _ _ => hSum, fun hFit => hFit (by omega) hWidth⟩
    · rw [length_drop] at hShort
      rw [hRead]
      exact ⟨nofun, fun hNot => absurd (fun hLong => absurd hLong (by omega)) hNot⟩
  · rw [hRead]
    exact ⟨nofun, fun hNot => absurd (fun hLong => absurd hLong (by omega)) hNot⟩

theorem readEntryBlock_ne_panic (data : Bytes) (message : String) :
    readEntryBlock data ≠ .error (.panic message) := by
  rw [readEntryBlock]
  rcases readOr_cases "Failed to read header hash" 8 data with ⟨-, hRead⟩ | ⟨-, e, hRead⟩
  · rw [hRead, ok_bind]
    dsimp only
    rcases readOr_cases "Failed to read entry block header" 8 (data.drop 8) with
      ⟨-, hRead⟩ | ⟨-, e, hRead⟩
    · rw [hRead, ok_bind]
      rcases readOr_cases "Failed to read entry data" (ofLe (((data.drop 8).take 8).take 4))
        ((data.drop 8).drop 8) with ⟨-, hRead⟩ | ⟨-, e, hRead⟩
      · rw [hRead]
        nofun
      · rw [hRead]
        nofun
    · rw [hRead]
      nofun
  · rw [hRead]
    nofun

theorem loadIndexFile_panic_iff (data : Bytes) :
    (∃ message, loadIndexFile data = .error (.panic message)) ↔ ¬ WidthsFit data := by
  rw [← readIndexHeader_panic_iff, loadIndexFile]
  cases hHeader : readIndexHeader data with
  | error fault =>
    constructor
    · rintro ⟨message, hPanic⟩
      cases hPanic
      exact ⟨message, rfl⟩
    · rintro ⟨message, hPanic⟩
      cases hPanic
      exact ⟨message, rfl⟩
  | ok parts =>
    obtain ⟨header, entrySize, rest⟩ := parts
    rw [ok_bind]
    dsimp only
    cases hBlock : readEntryBlock rest with
    | error fault =>
      refine ⟨?_, nofun⟩
      rintro ⟨message, hPanic⟩
      cases hPanic
      exact absurd hBlock (readEntryBlock_ne_panic rest message)
    | ok block => exact ⟨nofun, nofun⟩

/-- The loader returns a file or an error exactly if the three widths of the header add up to a
byte. -/
theorem loadIndexChecked_returns_iff (content : IndexContent) :
    ((∃ index, loadIndexChecked content = .ok index) ∨
      ∃ e, loadIndexChecked content = .error (.error e)) ↔ WidthsFit content.bytes := by
  rw [loadIndexChecked_eq, ← not_not (a := WidthsFit _), ← loadIndexFile_panic_iff]
  cases hLoad : loadIndexFile content.bytes with
  | ok index => exact ⟨fun _ => nofun, fun _ => .inl ⟨_, rfl⟩⟩
  | error fault =>
    cases fault with
    | error e => exact ⟨fun _ => nofun, fun _ => .inr ⟨e, rfl⟩⟩
    | panic message =>
      refine ⟨?_, fun hNot => absurd ⟨message, rfl⟩ hNot⟩
      rintro (⟨index, hIndex⟩ | ⟨e, hError⟩)
      · cases hIndex
      · cases hError

/-- A header that declares keys of 16 bytes and locations of 240. -/
theorem loadIndexChecked_refuted :
    loadIndexChecked ⟨List.replicate 12 0 ++ ([0, 240, 16] ++ List.replicate 9 0), by decide⟩ =
      .error (.panic .overflow) := rfl

end Cascette.Index
