import Cascette.Blte.Builder
import Cascette.Espec.Accepted

/-!
# Re-encoding

`applyReencodePatch` decodes a BLTE file and encodes its content as an encoding specification says.
For a block table it takes a segment of the content for each chunk of the table. A chunk without a
size takes what is left, but does not move on; and a size whose count is open (`256K*`) stands for
one block. So the content is preserved exactly if the table covers it (`Covers`), and the segments
keep to the limit of decompression (`applyReencodePatch_iff`).
-/

namespace Cascette.Espec

/-- The mode of a chunk; the other codecs have none. -/
def ESpec.blteCompressionMode : ESpec → Option Blte.CompressionMode
  | .none => some .none
  | .zlib _ variant _ => if variant = some .lz4hc then some .lz4 else some .zLib
  | .bcPack _ | .gDeflate _ | .encrypted _ _ _ | .blockTable _ => Option.none

end Cascette.Espec

namespace Cascette.Installation

open Lib Blte Espec List

inductive PatchError
  | blteDecode (e : BlteError)
  | espec (e : ESpecError)
  | format (message : String)
deriving DecidableEq

abbrev Patched (α : Type) := Except (Halt PatchError) α

/-- An error that is passed on. -/
def PatchError.lift {ε : Type} (f : ε → PatchError) : Halt ε → Halt PatchError
  | .error e => .error (f e)
  | .panic p => .panic p

/-! ## The source -/

/-- A specification without a mode is encoded with zlib. -/
def chunkMode (spec : ESpec) : CompressionMode := spec.blteCompressionMode.getD .zLib

/-- The bytes of a sized chunk; an open count counts as one. The product saturates. -/
def chunkBytes (spec : BlockSizeSpec) : Nat :=
  min (spec.size.toNat * (spec.count.getD 1).toNat) (2 ^ 64 - 1)

/-- The segment of a chunk and the offset after it. -/
def takeSegment (raw : Bytes) (offset : Nat) : Option BlockSizeSpec → Checked (Bytes × Nat)
  | some spec =>
    if offset + chunkBytes spec < 2 ^ 64 then do
      let segment ← slice raw offset (min (offset + chunkBytes spec) raw.length)
      .ok (segment, min (offset + chunkBytes spec) raw.length)
    else .error .overflow
  | none => do
    let segment ← sliceFrom raw offset
    .ok (segment, offset)

/-- The loop over the chunks of a table. Empty segments are skipped, except at the end. -/
def reencodeChunks (lib : External) (raw : Bytes) : Nat → List BlockChunk → Patched (List ChunkData)
  | _, [] => .ok []
  | offset, (sizeSpec, spec) :: chunks => do
    let (segment, offset) ← (takeSegment raw offset sizeSpec).mapError .panic
    if segment = [] ∧ chunks ≠ [] then reencodeChunks lib raw offset chunks
    else do
      let chunk ← (ChunkData.new lib segment (chunkMode spec)).mapError
        (PatchError.lift .blteDecode)
      let others ← reencodeChunks lib raw offset chunks
      .ok (chunk :: others)

/-- Without a chunk, all of the content is one. -/
def orUncompressed (lib : External) (raw : Bytes) (chunks : List ChunkData) :
    Patched (List ChunkData) :=
  if chunks = [] then do
    let chunk ← (ChunkData.new lib raw .none).mapError (PatchError.lift .blteDecode)
    .ok [chunk]
  else .ok chunks

def reencodeBlockTable (md5 : Bytes → Key 16) (lib : External) (raw : Bytes)
    (chunks : List BlockChunk) : Patched BlteFile := do
  let blteChunks ← reencodeChunks lib raw 0 chunks
  let blteChunks ← orUncompressed lib raw blteChunks
  (BlteFile.multiChunk md5 lib blteChunks).mapError (PatchError.lift .blteDecode)

/-- A specification without blocks: the builder cuts the content. -/
def reencodeSimple (md5 : Bytes → Key 16) (lib : External) (raw : Bytes) (mode : CompressionMode) :
    Except (Halt BlteError) BlteFile := do
  let b ← BlteBuilder.addData lib { BlteBuilder.new with defaultMode := mode } raw
  b.build md5 lib

def reencodeWithEspec (md5 : Bytes → Key 16) (lib : External) (raw : Bytes) (espec : ESpec) :
    Patched BlteFile :=
  match espec with
  | .blockTable chunks => reencodeBlockTable md5 lib raw chunks
  | .encrypted _ _ _ => .error (.error (.format "re-encode of encrypted ESpec is not supported"))
  | other => (reencodeSimple md5 lib raw (chunkMode other)).mapError (PatchError.lift .blteDecode)

def formatError (lib : External) (e : ReadError) : PatchError :=
  .format ("binary parsing error: " ++ lib.display e)

def applyReencodePatch (md5 : Bytes → Key 16) (lib : External) (base : Bytes)
    (target : List Char) : Patched Bytes := do
  let baseBlte ← (BlteFile.parse base).mapError (PatchError.lift (formatError lib))
  let raw ← (baseBlte.decompress lib).mapError (PatchError.lift .blteDecode)
  let espec ← (ESpec.parse target).mapError (PatchError.lift .espec)
  let newBlte ← reencodeWithEspec md5 lib raw espec
  .ok newBlte.build

/-! ## Segments -/

/-- The segment of a chunk in what is left of the content, and what is left for the next one. -/
def segment (rest : Bytes) : Option BlockSizeSpec → Bytes × Bytes
  | some spec => (rest.take (chunkBytes spec), rest.drop (chunkBytes spec))
  | none => (rest, rest)

/-- The segments that become chunks, with their modes. -/
def pieces : Bytes → List BlockChunk → List (Bytes × CompressionMode)
  | _, [] => []
  | rest, (sizeSpec, spec) :: chunks =>
    (if (segment rest sizeSpec).1 = [] ∧ chunks ≠ [] then []
      else [((segment rest sizeSpec).1, chunkMode spec)]) ++ pieces (segment rest sizeSpec).2 chunks

/-- A table covers a length: its sizes add up to it or more, or a chunk without a size has only
empty ones behind it. -/
def Covers : Nat → List BlockChunk → Prop
  | length, [] => length = 0
  | length, (some spec, _) :: chunks => Covers (length - chunkBytes spec) chunks
  | length, (none, _) :: chunks => length = 0 ∨ ∀ chunk ∈ chunks, chunk.1.map chunkBytes = some 0

theorem takeSegment_eq_ok {raw part : Bytes} {offset next : Nat} {sizeSpec : Option BlockSizeSpec}
    (h : takeSegment raw offset sizeSpec = .ok (part, next)) :
    segment (raw.drop offset) sizeSpec = (part, raw.drop next) := by
  cases sizeSpec with
  | none =>
    obtain ⟨part', hSlice, h⟩ := bind_eq_ok.mp h
    cases h
    unfold sliceFrom at hSlice
    split at hSlice
    · cases hSlice
      rfl
    · cases hSlice
  | some spec =>
    rw [takeSegment] at h
    split at h
    · obtain ⟨part', hSlice, h⟩ := bind_eq_ok.mp h
      cases h
      unfold slice at hSlice
      split at hSlice
      next hOrder =>
        cases hSlice
        rw [segment, drop_drop]
        refine Prod.ext ?_ ?_
        · dsimp only
          rw [drop_take, show min (offset + chunkBytes spec) raw.length - offset =
            min (chunkBytes spec) (raw.drop offset).length by rw [length_drop]; omega,
            ← take_take, take_length]
        · dsimp only
          rcases Nat.le_total (offset + chunkBytes spec) raw.length with hLe | hLe
          · rw [min_eq_left hLe]
          · rw [min_eq_right hLe, drop_eq_nil_of_le hLe, drop_length]
      · cases hSlice
    · cases h

variable {lib : External}

variable {chunks : List BlockChunk} (rest : Bytes)

theorem reencodeChunks_pieces {raw : Bytes} {offset : Nat} {out : List ChunkData}
    (h : reencodeChunks lib raw offset chunks = .ok out) :
    Forall₂ (fun piece chunk => ChunkData.new lib piece.1 piece.2 = .ok chunk)
      (pieces (raw.drop offset) chunks) out := by
  induction chunks generalizing offset out with
  | nil =>
    cases h
    exact .nil
  | cons chunk chunks ih =>
    obtain ⟨sizeSpec, spec⟩ := chunk
    obtain ⟨⟨part, next⟩, hPart, h⟩ := bind_eq_ok.mp h
    have hSegment := takeSegment_eq_ok (mapError_eq_ok.mp hPart)
    rw [pieces, hSegment]
    dsimp only at h ⊢
    split_ifs at h with hSkip
    · rw [if_pos hSkip]
      exact ih h
    · obtain ⟨made, hMade, h⟩ := bind_eq_ok.mp h
      obtain ⟨others, hOthers, h⟩ := bind_eq_ok.mp h
      cases h
      rw [if_neg hSkip]
      exact .cons (mapError_eq_ok.mp hMade) (ih hOthers)

theorem flatten_pieces_cons (sizeSpec : Option BlockSizeSpec) (spec : ESpec)
    (chunks : List BlockChunk) :
    ((pieces rest ((sizeSpec, spec) :: chunks)).map Prod.fst).flatten =
      (segment rest sizeSpec).1 ++ ((pieces (segment rest sizeSpec).2 chunks).map
        Prod.fst).flatten := by
  rw [pieces, map_append, flatten_append]
  split_ifs with hSkip
  · rw [hSkip.1]
    rfl
  · simp

theorem flatten_pieces_eq_nil_iff (chunks : List BlockChunk) :
    ((pieces rest chunks).map Prod.fst).flatten = [] ↔
      rest = [] ∨ ∀ chunk ∈ chunks, chunk.1.map chunkBytes = some 0 := by
  induction chunks generalizing rest with
  | nil => simp [pieces]
  | cons chunk chunks ih =>
    obtain ⟨sizeSpec, spec⟩ := chunk
    rw [flatten_pieces_cons, append_eq_nil_iff, ih, forall_mem_cons]
    cases sizeSpec with
    | none =>
      constructor
      · exact fun h => .inl h.1
      · rintro (hNil | ⟨hNone, -⟩)
        · exact ⟨hNil, .inl hNil⟩
        · cases hNone
    | some size =>
      simp only [segment, take_eq_nil_iff, drop_eq_nil_iff, Option.map_some, Option.some.injEq]
      constructor
      · rintro ⟨hZero | hNil, hRest⟩
        · rcases hRest with hLength | hAll
          · left
            exact eq_nil_of_length_eq_zero (by omega)
          · exact .inr ⟨hZero, hAll⟩
        · exact .inl hNil
      · rintro (hNil | ⟨hZero, hAll⟩)
        · subst hNil
          exact ⟨.inr rfl, .inl (Nat.zero_le _)⟩
        · exact ⟨.inl hZero, .inr hAll⟩

theorem flatten_pieces_eq_iff (chunks : List BlockChunk) :
    ((pieces rest chunks).map Prod.fst).flatten = rest ↔ Covers rest.length chunks := by
  induction chunks generalizing rest with
  | nil =>
    rw [Covers, length_eq_zero_iff]
    exact eq_comm
  | cons chunk chunks ih =>
    obtain ⟨sizeSpec, spec⟩ := chunk
    rw [flatten_pieces_cons]
    cases sizeSpec with
    | none =>
      rw [Covers, segment]
      rw [append_right_eq_self, flatten_pieces_eq_nil_iff, length_eq_zero_iff]
    | some size =>
      rw [Covers, segment]
      rw [← length_drop, ← ih]
      conv_lhs => rhs; rw [← take_append_drop (chunkBytes size) rest]
      exact append_cancel_left_eq _ _ _ |>.to_iff

/-! ## Decoding -/

section Parts

variable (hLib : lib.Inverts) {parts : List (Bytes × CompressionMode)} {chunks : List ChunkData}
  (hParts : List.Forall₂ (fun piece chunk => ChunkData.new lib piece.1 piece.2 = .ok chunk)
    parts chunks) {file : BlteFile}

include hLib hParts

theorem mapM_decompress_iff (hSize : ∀ chunk ∈ chunks, chunk.size < 2 ^ 32) (out : List Bytes) :
    (chunks.map ChunkData.stored).mapM (ChunkData.decompress lib) = .ok out ↔
      (∀ piece ∈ parts, ChunkFits piece.1 piece.2) ∧ out = parts.map Prod.fst := by
  rw [mapM_eq_ok]
  induction hParts generalizing out with
  | nil => simp
  | cons hNew hOthers ih =>
    rw [forall_mem_cons] at hSize ⊢
    have hOne := decompress_stored_iff hLib hNew hSize.1
    cases out with
    | nil => simp
    | cons bytes out =>
      rw [map_cons, map_cons, forall₂_cons, hOne, ih hSize.2, List.cons.injEq]
      exact and_and_and_comm

/-- Chunks that are made of pieces are decompressed to a content exactly if the pieces keep to the
limit and are the content. -/
theorem decompress_pieces_iff (hSize : ∀ chunk ∈ chunks, chunk.size < 2 ^ 32)
    (hFile : file.chunks = chunks.map ChunkData.stored) (content : Bytes) :
    file.decompress lib = .ok content ↔
      (∀ piece ∈ parts, ChunkFits piece.1 piece.2) ∧ (parts.map Prod.fst).flatten = content := by
  rw [BlteFile.decompress, hFile, bind_eq_ok]
  constructor
  · rintro ⟨out, hOut, hContent⟩
    obtain ⟨hFits, rfl⟩ := (mapM_decompress_iff hLib hParts hSize out).mp hOut
    exact ⟨hFits, Except.ok.inj hContent⟩
  · rintro ⟨hFits, hContent⟩
    exact ⟨_, (mapM_decompress_iff hLib hParts hSize _).mpr ⟨hFits, rfl⟩, congrArg _ hContent⟩

/-- The bytes are a file that is decompressed to the content. -/
def Decodes (lib : External) (bytes content : Bytes) : Prop :=
  ∃ file, BlteFile.parse bytes = .ok file ∧ file.decompress lib = .ok content

/-- The sizes of the chunks can be written to the table, if there is one. -/
def TableFits (file : BlteFile) : Prop :=
  file.header.isSingleChunk = false →
    ∀ chunk ∈ file.chunks, chunk.compressedData.length < 2 ^ 32 ∧ chunk.size < 2 ^ 32

variable {md5 : Bytes → Key 16}

theorem decodes_multiChunk_iff (h : BlteFile.multiChunk md5 lib chunks = .ok file)
    (hTable : TableFits file) (content : Bytes) :
    Decodes lib file.build content ↔
      (∀ piece ∈ parts, ChunkFits piece.1 piece.2) ∧ (parts.map Prod.fst).flatten = content := by
  obtain ⟨hHeader, hChunks⟩ := BlteFile.multiChunk_eq_ok h
  have hSizes := hTable (Bool.eq_false_iff.mpr (BlteHeader.not_isSingleChunk_multiChunk hHeader))
  rw [hChunks] at hSizes
  have hParse := (BlteFile.parse_build_multiChunk h fun chunk hChunk => (hSizes chunk hChunk).1).2
  have hDecompress := @decompress_pieces_iff lib hLib parts chunks hParts
    { file with chunks := chunks.map ChunkData.stored }
    (fun chunk hChunk => (hSizes chunk hChunk).2) rfl content
  rw [← hDecompress]
  constructor
  · rintro ⟨parsed, hParsed, hContent⟩
    rw [hParse] at hParsed
    cases hParsed
    exact hContent
  · exact fun hContent => ⟨_, hParse, hContent⟩

end Parts

theorem pieces_ne_nil (h : chunks ≠ []) : pieces rest chunks ≠ [] := by
  induction chunks generalizing rest with
  | nil => exact absurd rfl h
  | cons chunk chunks ih =>
    rw [pieces]
    cases chunks with
    | nil => simp
    | cons next others => simp [ih]

variable {content : Bytes} {file : BlteFile}

theorem reencodeBlockTable_iff (hLib : lib.Inverts) (hNe : chunks ≠ [])
    (h : reencodeBlockTable md5 lib content chunks = .ok file)
    (hTable : TableFits file) :
    Decodes lib file.build content ↔ Covers content.length chunks ∧
      ∀ piece ∈ pieces content chunks, ChunkFits piece.1 piece.2 := by
  obtain ⟨made, hMade, h⟩ := bind_eq_ok.mp h
  obtain ⟨blteChunks, hChunks, h⟩ := bind_eq_ok.mp h
  have hParts := reencodeChunks_pieces hMade
  -- The last segment is never skipped.
  have hMadeNe : made ≠ [] := by
    intro hNil
    subst hNil
    exact pieces_ne_nil content hNe (forall₂_nil_right_iff.mp hParts)
  rw [orUncompressed, if_neg hMadeNe] at hChunks
  cases hChunks
  have hMulti := mapError_eq_ok.mp h
  rw [← flatten_pieces_eq_iff]
  exact (decodes_multiChunk_iff hLib hParts hMulti hTable content).trans and_comm

theorem defaultChunkSize_le : BlteBuilder.defaultChunkSize ≤ maxDecompressionSize := by decide

/-- The builder's pieces are short, so that they come back. -/
theorem decodes_reencodeSimple (hLib : lib.Inverts) {mode : CompressionMode}
    (h : reencodeSimple md5 lib content mode = .ok file) (hTable : TableFits file) :
    Decodes lib file.build content := by
  obtain ⟨b, hAdd, hBuild⟩ := bind_eq_ok.mp h
  obtain ⟨chunks, parts, rfl, hFlatten, hEach, hParts⟩ := BlteBuilder.addPieces_pieces hAdd
  have hFits : ∀ piece ∈ parts, ChunkFits piece mode := fun piece hPiece _ =>
    le_trans (hEach piece hPiece).2 (le_trans (min_le_right _ _) defaultChunkSize_le)
  have hDecoded := BlteFile.decompress_pieces hLib hFits hParts
  rw [← hFlatten]
  rcases BlteBuilder.build_cases hBuild with ⟨hSingle, -, rfl⟩ | hMulti
  · obtain ⟨chunk, rfl⟩ := length_eq_one_iff.mp hSingle
    exact ⟨_, congrArg (Except.map Prod.fst) (BlteFile.read_build_single chunk),
      BlteFile.decompress_eq_ok hDecoded⟩
  · obtain ⟨hHeader, hChunks⟩ := BlteFile.multiChunk_eq_ok hMulti
    have hSizes := hTable (Bool.eq_false_iff.mpr (BlteHeader.not_isSingleChunk_multiChunk hHeader))
    rw [hChunks] at hSizes
    exact ⟨_, (BlteFile.parse_build_multiChunk hMulti fun chunk hChunk =>
      (hSizes chunk hChunk).1).2, BlteFile.decompress_eq_ok hDecoded⟩

/-- Simple specifications preserve every content; a block table, what it covers in segments that
keep to the limit. -/
def Preserves (content : Bytes) : ESpec → Prop
  | .blockTable chunks => Covers content.length chunks ∧
      ∀ piece ∈ pieces content chunks, ChunkFits piece.1 piece.2
  | _ => True

/-- Re-encoding keeps the content exactly if the specification preserves it. -/
theorem applyReencodePatch_iff {md5 : Bytes → Key 16} {lib : External} (hLib : lib.Inverts)
    {base content result : Bytes} {target : List Char} {espec : ESpec}
    (hBase : Decodes lib base content) (hEspec : ESpec.parse target = .ok espec)
    (hResult : applyReencodePatch md5 lib base target = .ok result)
    (hTable : ∀ file, reencodeWithEspec md5 lib content espec = .ok file → TableFits file) :
    Decodes lib result content ↔ Preserves content espec := by
  obtain ⟨baseFile, hParse, hContent⟩ := hBase
  rw [applyReencodePatch, hParse, mapError_ok, ok_bind, hContent, mapError_ok, ok_bind, hEspec,
    mapError_ok, ok_bind] at hResult
  obtain ⟨file, hFile, hResult⟩ := bind_eq_ok.mp hResult
  cases hResult
  have hFits := hTable file hFile
  cases espec with
  | blockTable chunks =>
    cases ESpec.wellFormed_of_parse hEspec with
    | blockTable hNe _ _ => exact reencodeBlockTable_iff hLib hNe hFile hFits
  | encrypted key iv spec => cases hFile
  | none => exact iff_of_true (decodes_reencodeSimple hLib (mapError_eq_ok.mp hFile) hFits) trivial
  | zlib level variant windowBits | bcPack bcn | gDeflate level =>
    exact iff_of_true (decodes_reencodeSimple hLib (mapError_eq_ok.mp hFile) hFits) trivial

/-- A file with the content `05 06`. -/
def sampleBase : Bytes := blteMagic.1 ++ [0, 0, 0, 0, 78, 5, 6]

theorem decodes_sampleBase : Decodes BlteFile.storing sampleBase [5, 6] :=
  ⟨⟨.singleChunk, [⟨.none, [5, 6], none⟩]⟩, rfl, rfl⟩

/-- The specification `b:{1=n,*=n}`. -/
def sampleTable : List Char := ['b', ':', '{', '1', '=', 'n', ',', '*', '=', 'n', '}']

/-- The specification that `sampleTable` is read to. -/
def sampleEspec : ESpec := .blockTable [(some ⟨1, none⟩, .none), (none, .none)]

/-- The content in two chunks. -/
def sampleReencoded : BlteFile where
  header := {
    magic := blteMagic
    headerSize := 60
    extended := some {
      flags := .standard
      chunkCount := 2
      chunkInfos := [⟨2, 1, .fill 16 0, none⟩, ⟨2, 1, .fill 16 0, none⟩] } }
  chunks := [⟨.none, [5], some 1⟩, ⟨.none, [6], some 1⟩]

theorem applyReencodePatch_sample :
    applyReencodePatch BlteFile.zeroHash BlteFile.storing sampleBase sampleTable =
        .ok sampleReencoded.build ∧
      (Decodes BlteFile.storing sampleReencoded.build [5, 6] ↔ Preserves [5, 6] sampleEspec) := by
  refine ⟨rfl, applyReencodePatch_iff BlteFile.storing_inverts decodes_sampleBase
    (show ESpec.parse sampleTable = .ok sampleEspec from rfl)
    (show applyReencodePatch BlteFile.zeroHash BlteFile.storing sampleBase sampleTable =
      .ok sampleReencoded.build from rfl) ?_⟩
  intro file hFile hSingle chunk hChunk
  have hReencode : reencodeWithEspec BlteFile.zeroHash BlteFile.storing [5, 6] sampleEspec =
      .ok sampleReencoded := rfl
  obtain rfl : sampleReencoded = file := Except.ok.inj (hReencode.symm.trans hFile)
  rcases mem_cons.mp hChunk with rfl | hChunk
  · exact ⟨by decide, by decide⟩
  · rw [mem_singleton.mp hChunk]
    exact ⟨by decide, by decide⟩

/-- With the specification `b:1*=n`, whose count is open, the second byte is dropped. -/
theorem applyReencodePatch_refuted :
    Decodes BlteFile.storing sampleBase [5, 6] ∧ ∃ result,
      applyReencodePatch BlteFile.zeroHash BlteFile.storing sampleBase
        ['b', ':', '1', '*', '=', 'n'] = .ok result ∧
      Decodes BlteFile.storing result [5] ∧ ¬ Decodes BlteFile.storing result [5, 6] := by
  refine ⟨decodes_sampleBase, _, rfl, ⟨_, rfl, rfl⟩, ?_⟩
  rintro ⟨file, hParse, hContent⟩
  cases hParse
  cases hContent

end Cascette.Installation
