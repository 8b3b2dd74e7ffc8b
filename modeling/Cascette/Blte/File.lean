import Cascette.Blte.Encryption

/-!
# Compression and decompression of files

`compress` cuts the data into chunks and writes a table when there is more than one. What it has
built is parsed and decompressed to the same data, unless a chunk is longer than decompression
allows or than the table can say (`decompress_compress`).

There are two ways to decompress, without and with keys. They open frames in different ways: only
the first one has a limit for their depth.
-/

namespace Cascette.Blte

open Lib List UInt32 ChunkData

namespace ChunkData

def new (lib : External) (data : Bytes) (mode : CompressionMode) :
    Except (Halt BlteError) ChunkData :=
  if mode = .none then .ok { mode, data, decompressedSize := some data.length }
  else
    match compressChunk lib data mode with
    | .error e => .error (.error e)
    | .ok compressed => .ok { mode, data := compressed, decompressedSize := some data.length }

def compressedData (chunk : ChunkData) : Bytes := chunk.write

/-- The size before compression; without it, the size of the data. -/
def size (chunk : ChunkData) : Nat := chunk.decompressedSize.getD chunk.data.length

def decompress (lib : External) (chunk : ChunkData) : Except (Halt BlteError) Bytes :=
  decompressChunk lib chunk.data chunk.mode

end ChunkData

/-! ## The table of the chunks -/

section Table

variable (md5 : Bytes → Key 16)

def ChunkInfo.fromChunkData (chunk : ChunkData) : ChunkInfo where
  compressedSize := UInt32.ofNat chunk.compressedData.length
  decompressedSize := UInt32.ofNat chunk.size
  checksum := md5 chunk.compressedData
  decompressedChecksum := none

/-- A chunk that cannot be decompressed counts as it is. -/
def ChunkInfo.fromChunkDataExtended (lib : External) (chunk : ChunkData) :
    Except (Halt BlteError) ChunkInfo :=
  let info (decompressed : Bytes) : ChunkInfo :=
    { ChunkInfo.fromChunkData md5 chunk with decompressedChecksum := some (md5 decompressed) }
  match chunk.decompress lib with
  | .ok decompressed => .ok (info decompressed)
  | .error (.error _) => .ok (info chunk.compressedData)
  | .error (.panic p) => .error (.panic p)

def BlteHeader.multiChunkWithFlags (lib : External) (chunks : List ChunkData)
    (flags : HeaderFlags) : Except (Halt BlteError) BlteHeader :=
  if chunks = [] then .error (.error (.invalidChunkCount 0))
  else if chunks.length > 0xFFFFFF then
    .error (.error (.invalidChunkCount (UInt32.ofNat chunks.length)))
  else do
    let chunkInfos ← match flags with
      | .standard => .ok (chunks.map (ChunkInfo.fromChunkData md5))
      | .extended => chunks.mapM (ChunkInfo.fromChunkDataExtended md5 lib)
    .ok {
      magic := blteMagic
      headerSize := UInt32.ofNat (12 + chunks.length * flags.chunkInfoSize)
      extended := some { flags, chunkCount := UInt32.ofNat chunks.length, chunkInfos } }

def BlteHeader.multiChunk (lib : External) (chunks : List ChunkData) :
    Except (Halt BlteError) BlteHeader :=
  multiChunkWithFlags md5 lib chunks .standard

def BlteFile.multiChunk (lib : External) (chunks : List ChunkData) :
    Except (Halt BlteError) BlteFile := do
  let header ← BlteHeader.multiChunk md5 lib chunks
  .ok { header, chunks }

end Table

/-! ## Cutting into chunks -/

/-- The loop that takes pieces off the data. Without a size for the pieces it does not end. -/
def cutLoop (create : Nat → Bytes → Except (Halt BlteError) ChunkData) (chunkSize : Nat) :
    Nat → Nat → Bytes → Except (Halt BlteError) (List ChunkData)
  | _, _, [] => .ok []
  | 0, _, _ :: _ => .error (.panic .outOfFuel)
  | fuel + 1, index, byte :: rest => do
    let chunk ← create index ((byte :: rest).take chunkSize)
    let chunks ← cutLoop create chunkSize fuel (index + 1) ((byte :: rest).drop chunkSize)
    .ok (chunk :: chunks)

/-- The chunks of the data, numbered from `index` on. -/
def cut (create : Nat → Bytes → Except (Halt BlteError) ChunkData) (chunkSize index : Nat)
    (data : Bytes) : Except (Halt BlteError) (List ChunkData) :=
  cutLoop create chunkSize data.length index data

namespace BlteFile

def singleChunk (lib : External) (data : Bytes) (mode : CompressionMode) :
    Except (Halt BlteError) BlteFile := do
  let chunk ← ChunkData.new lib data mode
  .ok { header := .singleChunk, chunks := [chunk] }

def compress (md5 : Bytes → Key 16) (lib : External) (data : Bytes) (chunkSize : Nat)
    (mode : CompressionMode) : Except (Halt BlteError) BlteFile :=
  if data.length ≤ chunkSize then singleChunk lib data mode
  else do
    let chunks ← cut (fun _ piece => ChunkData.new lib piece mode) chunkSize 0 data
    multiChunk md5 lib chunks

def decompress (lib : External) (file : BlteFile) : Except (Halt BlteError) Bytes := do
  let parts ← file.chunks.mapM (ChunkData.decompress lib)
  .ok parts.flatten

/-! ## Decompression with keys -/

/-- A chunk at its index. `openFrame` is what is done with a frame. -/
def decompressPart (lib : External) (keyStore : KeyStore)
    (openFrame : Bytes → Except (Halt BlteError) Bytes) (part : ChunkData × Nat) :
    Except (Halt BlteError) Bytes :=
  match part.1.mode with
  | .encrypted => decryptChunkWithKeys lib part.1.data keyStore part.2
  | .frame => openFrame part.1.data
  | _ => part.1.decompress lib

def decompressParts (lib : External) (keyStore : KeyStore)
    (openFrame : Bytes → Except (Halt BlteError) Bytes) (file : BlteFile) :
    Except (Halt BlteError) Bytes :=
  if file.header.isSingleChunk ∧ (file.chunks.head?.map ChunkData.mode) = some .encrypted then
    .error (.error .singleChunkEncrypted)
  else do
    let parts ← file.chunks.zipIdx.mapM (decompressPart lib keyStore openFrame)
    .ok parts.flatten

/-- The recursion through frames, which are shorter than what they are in. -/
def decompressFrames (lib : External) (keyStore : KeyStore) :
    Nat → BlteFile → Except (Halt BlteError) Bytes
  | 0 => decompressParts lib keyStore fun _ => .error (.panic .outOfFuel)
  | fuel + 1 => decompressParts lib keyStore fun data => do
      let inner ← parseFrame lib data
      decompressFrames lib keyStore fuel inner

/-- The length of all data, which bounds the depth of the frames. -/
def dataLength (file : BlteFile) : Nat := (file.chunks.map fun chunk => chunk.data.length).sum

def decompressWithKeys (lib : External) (file : BlteFile) (keyStore : KeyStore) :
    Except (Halt BlteError) Bytes :=
  decompressFrames lib keyStore (file.dataLength + 1) file

end BlteFile

/-! ## Chunks are decompressed to their pieces -/

variable {lib : External} {data : Bytes} {chunks : List ChunkData}

variable {mode : CompressionMode} {chunk : ChunkData} {md5 : Bytes → Key 16} {header : BlteHeader}

theorem ChunkData.new_eq_ok (h : new lib data mode = .ok chunk) :
    chunk.mode = mode ∧ chunk.size = data.length ∧
      compressChunk lib data mode = .ok chunk.data := by
  unfold new at h
  split_ifs at h with hMode
  · cases h
    subst hMode
    exact ⟨rfl, rfl, rfl⟩
  · split at h
    · cases h
    next hCompress =>
      cases h
      exact ⟨rfl, rfl, hCompress⟩

theorem ChunkData.decompress_new (hLib : lib.Inverts) (hFits : ChunkFits data mode)
    (h : new lib data mode = .ok chunk) : chunk.decompress lib = .ok data := by
  obtain ⟨hMode, -, hCompress⟩ := new_eq_ok h
  rw [decompress, hMode]
  exact decompressChunk_compressChunk hLib hFits hCompress

theorem chunkFits_of_decompress (hLib : lib.Inverts) {bytes : Bytes}
    (hNew : ChunkData.new lib data mode = .ok chunk) (hSize : chunk.size < 2 ^ 32)
    (h : chunk.stored.decompress lib = .ok bytes) : ChunkFits data mode := by
  obtain ⟨hMode, hLength, hCompress⟩ := new_eq_ok hNew
  rw [hLength] at hSize
  intro hCompressed
  by_contra hMax
  have hData : maxDecompressionSize < data.length := Nat.lt_of_not_le hMax
  have hDecompress : decompressChunk lib chunk.data mode = .ok bytes := hMode ▸ h
  rcases hCompressed with rfl | rfl
  · have hDeflate := mapError_eq_ok.mp hCompress
    rw [decompressChunk, decompressChunkRecursive, inflateChunk,
      hLib.inflate hDeflate] at hDecompress
    dsimp only at hDecompress
    rw [if_pos hData] at hDecompress
    cases hDecompress
  · obtain ⟨e, hRefused⟩ := @decompressLz4Bnl_refused lib data hData hSize
    rw [← Except.ok.inj hCompress] at hDecompress
    change decompressLz4Bnl lib (compressLz4 lib data) = _ at hDecompress
    rw [hRefused] at hDecompress
    cases hDecompress

theorem decompress_stored_iff (hLib : lib.Inverts)
    (hNew : ChunkData.new lib data mode = .ok chunk) (hSize : chunk.size < 2 ^ 32) (bytes : Bytes) :
    chunk.stored.decompress lib = .ok bytes ↔ ChunkFits data mode ∧ bytes = data := by
  have hDecompress (hFits : ChunkFits data mode) : chunk.stored.decompress lib = .ok data := by
    have hPlain := decompress_new hLib hFits hNew
    exact hPlain
  constructor
  · intro h
    have hFits := chunkFits_of_decompress hLib hNew hSize h
    rw [hDecompress hFits] at h
    exact ⟨hFits, (Except.ok.inj h).symm⟩
  · rintro ⟨hFits, rfl⟩
    exact hDecompress hFits

theorem cutLoop_pieces {create : Nat → Bytes → Except (Halt BlteError) ChunkData}
    {chunkSize fuel index : Nat} (h : cutLoop create chunkSize fuel index data = .ok chunks) :
    ∃ pieces : List Bytes, pieces.flatten = data ∧
      (∀ piece ∈ pieces, piece ≠ [] ∧ piece.length ≤ min data.length chunkSize) ∧
      Forall₂ (fun piece part => create part.2 piece = .ok part.1) pieces
        (chunks.zipIdx index) := by
  induction fuel generalizing index data chunks with
  | zero =>
    cases data with
    | nil =>
      cases h
      exact ⟨[], rfl, by simp, .nil⟩
    | cons byte rest => cases h
  | succ fuel ih =>
    cases data with
    | nil =>
      cases h
      exact ⟨[], rfl, by simp, .nil⟩
    | cons byte rest =>
      obtain ⟨chunk, hChunk, h⟩ := bind_eq_ok.mp h
      obtain ⟨others, hOthers, h⟩ := bind_eq_ok.mp h
      cases h
      obtain ⟨pieces, hFlatten, hLength, hPieces⟩ := ih hOthers
      refine ⟨(byte :: rest).take chunkSize :: pieces, ?_, ?_, ?_⟩
      · rw [flatten_cons, hFlatten, take_append_drop]
      · -- Without a size the rest is all of the data, but its pieces would be empty.
        have hSize : 0 < chunkSize := by
          by_contra hZero
          obtain rfl : chunkSize = 0 := by omega
          cases pieces with
          | nil => cases hFlatten
          | cons piece pieces =>
            obtain ⟨hNe, hBound⟩ := hLength piece mem_cons_self
            exact hNe (eq_nil_of_length_eq_zero (Nat.le_zero.mp hBound))
        intro piece hPiece
        rcases mem_cons.mp hPiece with rfl | hPiece
        · rw [length_take]
          refine ⟨ne_nil_of_length_pos ?_, by omega⟩
          rw [length_take, length_cons]
          omega
        · obtain ⟨hNe, hBound⟩ := hLength piece hPiece
          rw [length_drop] at hBound
          exact ⟨hNe, by omega⟩
      · rw [zipIdx_cons]
        exact .cons hChunk hPieces

/-! ## Files that were compressed -/

theorem BlteHeader.multiChunk_eq_ok (h : multiChunk md5 lib chunks = .ok header) :
    0 < chunks.length ∧ chunks.length < 256 ^ 3 ∧ header = {
      magic := blteMagic
      headerSize := UInt32.ofNat (12 + chunks.length * 24)
      extended := some {
        flags := .standard
        chunkCount := UInt32.ofNat chunks.length
        chunkInfos := chunks.map (ChunkInfo.fromChunkData md5) } } := by
  unfold multiChunk multiChunkWithFlags at h
  split at h
  · cases h
  rename_i hNe
  split at h
  · cases h
  rename_i hCount
  cases h
  exact ⟨length_pos_iff.mpr hNe, by omega, rfl⟩

theorem BlteHeader.headerSize_multiChunk {n : Nat} (h : n < 256 ^ 3) :
    UInt32.ofNat (12 + n * 24) ≠ 0 := by
  intro hZero
  have hNat := congrArg UInt32.toNat hZero
  rw [toNat_ofNat_of_lt' (by change _ < 4294967296; omega)] at hNat
  change 12 + _ = 0 at hNat
  omega

theorem BlteHeader.not_isSingleChunk_multiChunk
    (h : multiChunk md5 lib chunks = .ok header) : ¬ header.isSingleChunk = true := by
  obtain ⟨-, hCount, rfl⟩ := multiChunk_eq_ok h
  exact fun hSingle => headerSize_multiChunk hCount (of_decide_eq_true hSingle)

namespace BlteFile

variable {lib : External} {file : BlteFile} {chunks : List ChunkData} {mode : CompressionMode}
  {pieces : List Bytes}

theorem multiChunk_eq_ok (h : multiChunk md5 lib chunks = .ok file) :
    BlteHeader.multiChunk md5 lib chunks = .ok file.header ∧ file.chunks = chunks := by
  obtain ⟨header, hHeader, h⟩ := bind_eq_ok.mp h
  cases h
  exact ⟨hHeader, rfl⟩

theorem parse_build_multiChunk (h : multiChunk md5 lib chunks = .ok file)
    (hTable : ∀ chunk ∈ chunks, chunk.compressedData.length < 2 ^ 32) :
    file.chunks = chunks ∧
      parse file.build = .ok { file with chunks := chunks.map ChunkData.stored } := by
  obtain ⟨header, hHeader, h⟩ := bind_eq_ok.mp h
  cases h
  obtain ⟨-, hCount, rfl⟩ := BlteHeader.multiChunk_eq_ok hHeader
  have hNumber : (UInt32.ofNat chunks.length).toNat = chunks.length :=
    toNat_ofNat_of_lt' (by change _ < 4294967296; omega)
  refine ⟨rfl, ?_⟩
  rw [parse, read_build_extended (BlteHeader.headerSize_multiChunk hCount)]
  · rfl
  · rw [hNumber, length_map]
  · rwa [length_map]
  · intro info hInfo
    obtain ⟨chunk, -, rfl⟩ := mem_map.mp hInfo
    simp [ChunkInfo.Fits, ChunkInfo.fromChunkData]
  · rw [forall₂_map_left_iff, forall₂_same]
    intro chunk hChunk
    exact toNat_ofNat_of_lt' (hTable chunk hChunk)

theorem decompress_eq_ok
    (h : Forall₂ (fun chunk piece => chunk.decompress lib = .ok piece) file.chunks pieces) :
    file.decompress lib = .ok pieces.flatten := by
  rw [decompress, mapM_eq_ok.mpr h, ok_bind]

theorem decompress_pieces (hLib : lib.Inverts)
    {index : Nat} (hFits : ∀ piece ∈ pieces, ChunkFits piece mode)
    (h : Forall₂ (fun piece part => ChunkData.new lib piece mode = .ok part.1) pieces
      (chunks.zipIdx index)) :
    Forall₂ (fun chunk piece => ChunkData.decompress lib chunk = .ok piece)
      (chunks.map ChunkData.stored) pieces := by
  induction pieces generalizing chunks index with
  | nil =>
    cases chunks with
    | nil => exact .nil
    | cons chunk chunks => cases h
  | cons piece pieces ih =>
    cases chunks with
    | nil => cases h
    | cons chunk chunks =>
      rw [zipIdx_cons, forall₂_cons] at h
      have hFirst := decompress_new hLib (hFits piece mem_cons_self) h.1
      exact .cons hFirst (ih (fun p hp => hFits p (mem_cons_of_mem _ hp)) h.2)

theorem decompress_singleChunk (hLib : lib.Inverts) {data : Bytes}
    (hFits : ChunkFits data mode) (h : singleChunk lib data mode = .ok file) :
    ∃ parsed, parse file.build = .ok parsed ∧ parsed.decompress lib = .ok data := by
  obtain ⟨chunk, hChunk, h⟩ := bind_eq_ok.mp h
  cases h
  have hDecompress := decompress_new hLib hFits hChunk
  refine ⟨_, congrArg (Except.map Prod.fst) (read_build_single chunk), ?_⟩
  have hParts := @decompress_eq_ok lib ⟨.singleChunk, [chunk.stored]⟩ [data]
    (.cons hDecompress .nil)
  rwa [flatten_cons, flatten_nil, append_nil] at hParts

/-- Data that was compressed comes back from the built file. The chunks that are compressed must
not be longer than the limit of decompression, and a table must be able to say how long its chunks
are. -/
theorem decompress_compress {md5 : Bytes → Key 16} {lib : External} (hLib : lib.Inverts)
    {data : Bytes} {chunkSize : Nat} {mode : CompressionMode} {file : BlteFile}
    (h : compress md5 lib data chunkSize mode = .ok file)
    (hLimit : mode = .zLib ∨ mode = .lz4 → min data.length chunkSize ≤ maxDecompressionSize)
    (hTable : chunkSize < data.length →
      ∀ chunk ∈ file.chunks, chunk.compressedData.length < 2 ^ 32) :
    ∃ parsed, parse file.build = .ok parsed ∧ parsed.decompress lib = .ok data := by
  unfold compress at h
  split_ifs at h with hLe
  · have hFits : ChunkFits data mode := by
      intro hMode
      have hMin := hLimit hMode
      rwa [Nat.min_eq_left hLe] at hMin
    exact decompress_singleChunk hLib hFits h
  · obtain ⟨chunks, hCut, h⟩ := bind_eq_ok.mp h
    obtain ⟨pieces, hFlatten, hLength, hPieces⟩ := cutLoop_pieces hCut
    have hFits : ∀ piece ∈ pieces, ChunkFits piece mode := fun piece hPiece hMode =>
      le_trans (hLength piece hPiece).2 (hLimit hMode)
    have hChunks : file.chunks = chunks := by
      obtain ⟨header, -, h⟩ := bind_eq_ok.mp h
      cases h
      rfl
    have hParse := parse_build_multiChunk h (hChunks ▸ hTable (Nat.lt_of_not_le hLe))
    refine ⟨_, hParse.2, ?_⟩
    rw [← hFlatten]
    exact decompress_eq_ok (decompress_pieces hLib hFits hPieces)

/-- Codecs that store data as it is, behind a header. -/
def storing : External where
  deflate data := .ok ([0x78, 0x01] ++ data)
  inflate data := (data.drop 2, none)
  lz4Compress _ input := (Lz4.Block.ofLiterals input).encode
  lz4Decompress block size _ := .ok (block.drop (block.length - size))
  display _ := ""

theorem storing_inverts : storing.Inverts where
  inflate h := by
    cases h
    rfl
  zlibHeader h := by
    cases h
    exact Nat.le_add_left 2 _
  lz4Format _ input := ⟨.ofLiterals input, rfl, Nat.zero_add _⟩
  lz4Bound _ input := by
    have hExtension : (Lz4.extension input.length).length ≤ 1 + input.length / 255 := by
      unfold Lz4.extension
      split
      · exact Nat.zero_le _
      · rw [length_append, length_replicate, length_singleton]
        omega
    change ((Lz4.Block.ofLiterals input).encode).length ≤ _
    simp only [Lz4.Block.encode, Lz4.Block.ofLiterals, Lz4.Block.encodeLast, map_nil,
      flatten_nil, nil_append, length_cons, length_append]
    omega
  lz4 _ input := by
    change Except.ok (((Lz4.Block.ofLiterals input).encode).drop
      (((Lz4.Block.ofLiterals input).encode).length - input.length)) = _
    have hEncode : (Lz4.Block.ofLiterals input).encode =
        (Lz4.token input.length 0 :: Lz4.extension input.length) ++ input := rfl
    rw [hEncode, length_append, Nat.add_sub_cancel, drop_left]

/-- A hash for samples. -/
def zeroHash (_ : Bytes) : Key 16 := .fill 16 0

theorem decompress_compress_sample : ∃ file,
    compress zeroHash storing [1, 2, 3] 2 .lz4 = .ok file ∧
      ∃ parsed, parse file.build = .ok parsed ∧ parsed.decompress storing = .ok [1, 2, 3] := by
  have hCompress : compress zeroHash storing [1, 2, 3] 2 .lz4 = .ok _ := rfl
  exact ⟨_, hCompress, decompress_compress storing_inverts hCompress (by decide) (by decide)⟩

/-- LZ4 data beyond the limit is compressed, but not decompressed. -/
theorem decompress_compress_refused : ∃ file,
    compress zeroHash storing (List.replicate (2 ^ 30 + 1) 0) (2 ^ 30 + 1) .lz4 = .ok file ∧
      ∃ parsed, parse file.build = .ok parsed ∧
        parsed.decompress storing ≠ .ok (List.replicate (2 ^ 30 + 1) 0) := by
  obtain ⟨data, hData, hLength⟩ : ∃ data : Bytes,
      replicate (2 ^ 30 + 1) 0 = data ∧ data.length = 2 ^ 30 + 1 :=
    ⟨_, rfl, length_replicate⟩
  rw [hData]
  set chunk : ChunkData := ⟨.lz4, compressLz4 storing data, some data.length⟩ with hChunk
  obtain ⟨e, hRefused⟩ : ∃ e, chunk.stored.decompress storing = .error e :=
    decompressLz4Bnl_refused (by rw [hLength]; decide) (by rw [hLength]; decide)
  refine ⟨⟨.singleChunk, [chunk]⟩, ?_, _,
    congrArg (Except.map Prod.fst) (read_build_single chunk), ?_⟩
  · rw [compress, if_pos (le_of_eq hLength)]
    rfl
  · change (BlteFile.mk .singleChunk [chunk.stored]).decompress storing ≠ _
    rw [decompress, mapM_cons, hRefused]
    exact fun h => nomatch h

end BlteFile

end Cascette.Blte
