import Cascette.Blte.File
import Cascette.Lib.Search

/-!
# The builder of files

Data is added call by call, and each call may encrypt it. Decryption uses the position of a chunk in
the file as its index, and so does `addMixedData`; but `addData` numbers its chunks from zero in
every call, and `addEncryptedData` takes any index. A run of calls in which Salsa20 chunks get their
positions, and nothing of less than two bytes is encrypted, builds a file that is decompressed to
the data that was added (`decompressWithKeys_run`).
-/

namespace Cascette.Blte

open Lib List UInt32 BlteFile

structure EncryptionConfig where
  spec : EncryptionSpec
  key : Key 16

structure BlteBuilder where
  chunks : List ChunkData
  defaultMode : CompressionMode
  chunkSize : Nat
  encryption : Option EncryptionConfig

namespace BlteBuilder

def minChunkSize : Nat := 1024

def maxChunkSize : Nat := 16 * 1024 * 1024

def defaultChunkSize : Nat := 256 * 1024

def new : BlteBuilder :=
  { chunks := [], defaultMode := .none, chunkSize := defaultChunkSize, encryption := none }

def withChunkSize (b : BlteBuilder) (size : Nat) : Except (Halt BlteError) BlteBuilder :=
  if minChunkSize ≤ size ∧ size ≤ maxChunkSize then .ok { b with chunkSize := size }
  else .error (.error (.invalidChunkSize size minChunkSize maxChunkSize))

/-! ## Encrypted chunks -/

/-- The mode of what is encrypted. -/
def innerMode (b : BlteBuilder) : CompressionMode :=
  if b.defaultMode ≠ .none ∧ b.defaultMode ≠ .encrypted then b.defaultMode else .none

def buildInnerPayload (lib : External) (b : BlteBuilder) (data : Bytes) :
    Except (Halt BlteError) Bytes :=
  if b.innerMode = .none then .ok (CompressionMode.none.asByte :: data)
  else
    match compressChunk lib data b.innerMode with
    | .error e => .error (.error e)
    | .ok compressed => .ok (b.innerMode.asByte :: compressed)

def createEncryptedChunkWithParams (lib : External) (b : BlteBuilder) (data : Bytes)
    (spec : EncryptionSpec) (key : Key 16) (blockIndex : Nat) :
    Except (Halt BlteError) ChunkData := do
  let inner ← b.buildInnerPayload lib data
  let encrypted ← encryptChunkWithKey inner spec key blockIndex
  .ok { mode := .encrypted, data := encrypted, decompressedSize := some inner.length }

def createEncryptedChunk (lib : External) (b : BlteBuilder) (data : Bytes) (blockIndex : Nat) :
    Except (Halt BlteError) ChunkData :=
  match b.encryption with
  | none => .error (compressionError "No encryption config set")
  | some encryption =>
    b.createEncryptedChunkWithParams lib data encryption.spec encryption.key blockIndex

/-! ## Adding data -/

/-- Data that fits one chunk is one chunk, even if it is empty; other data is cut. -/
def addPieces (b : BlteBuilder) (create : Nat → Bytes → Except (Halt BlteError) ChunkData)
    (index : Nat) (data : Bytes) : Except (Halt BlteError) BlteBuilder :=
  if data.length ≤ b.chunkSize then do
    let chunk ← create index data
    .ok { b with chunks := b.chunks ++ [chunk] }
  else do
    let chunks ← cut create b.chunkSize index data
    .ok { b with chunks := b.chunks ++ chunks }

def addData (lib : External) (b : BlteBuilder) (data : Bytes) :
    Except (Halt BlteError) BlteBuilder :=
  b.addPieces (fun index piece =>
    match b.encryption with
    | some _ => b.createEncryptedChunk lib piece index
    | none => ChunkData.new lib piece b.defaultMode) 0 data

def addEncryptedData (lib : External) (b : BlteBuilder) (data : Bytes) (spec : EncryptionSpec)
    (key : Key 16) (blockIndex : Nat) : Except (Halt BlteError) BlteBuilder := do
  let chunk ← b.createEncryptedChunkWithParams lib data spec key blockIndex
  .ok { b with chunks := b.chunks ++ [chunk] }

def addMixedData (lib : External) (b : BlteBuilder) (data : Bytes)
    (encryptionPerChunk : Option (EncryptionSpec × Key 16)) :
    Except (Halt BlteError) BlteBuilder :=
  b.addPieces (fun index piece =>
    match encryptionPerChunk with
    | some (spec, key) => b.createEncryptedChunkWithParams lib piece spec key index
    | none => ChunkData.new lib piece b.defaultMode) b.chunks.length data

def build (md5 : Bytes → Key 16) (lib : External) (b : BlteBuilder) :
    Except (Halt BlteError) BlteFile :=
  if b.chunks = [] then .error (.error (.invalidChunkCount 0))
  else
    let hasEncrypted := b.chunks.any fun chunk => chunk.mode = .encrypted
    if b.chunks.length = 1 ∧ ¬ hasEncrypted then
      .ok { header := .singleChunk, chunks := b.chunks }
    else do
      let header ← BlteHeader.multiChunk md5 lib b.chunks
      .ok { header, chunks := b.chunks }

end BlteBuilder

/-! ## Runs of calls -/

/-- The calls that set the builder up and those that add data. -/
inductive Call
  | withCompression (mode : CompressionMode)
  | withChunkSize (size : Nat)
  | withChunkSizeUnchecked (size : Nat)
  | withEncryption (spec : EncryptionSpec) (key : Key 16)
  | withoutEncryption
  | addData (data : Bytes)
  | addEncryptedData (data : Bytes) (spec : EncryptionSpec) (key : Key 16) (blockIndex : Nat)
  | addMixedData (data : Bytes) (encryptionPerChunk : Option (EncryptionSpec × Key 16))

namespace Call

def apply (lib : External) (b : BlteBuilder) : Call → Except (Halt BlteError) BlteBuilder
  | .withCompression mode => .ok { b with defaultMode := mode }
  | .withChunkSize size => b.withChunkSize size
  | .withChunkSizeUnchecked size => .ok { b with chunkSize := size }
  | .withEncryption spec key => .ok { b with encryption := some { spec, key } }
  | .withoutEncryption => .ok { b with encryption := none }
  | .addData data => b.addData lib data
  | .addEncryptedData data spec key blockIndex => b.addEncryptedData lib data spec key blockIndex
  | .addMixedData data encryptionPerChunk => b.addMixedData lib data encryptionPerChunk

def data : Call → Bytes
  | .addData data => data
  | .addEncryptedData data _ _ _ => data
  | .addMixedData data _ => data
  | _ => []

/-- How a call encrypts its data. -/
def encryption (b : BlteBuilder) : Call → Option (EncryptionSpec × Key 16)
  | .addData _ => b.encryption.map fun config => (config.spec, config.key)
  | .addEncryptedData _ spec key _ => some (spec, key)
  | .addMixedData _ encryptionPerChunk => encryptionPerChunk
  | _ => none

def firstIndex (b : BlteBuilder) : Call → Nat
  | .addEncryptedData _ _ _ blockIndex => blockIndex
  | .addMixedData _ _ => b.chunks.length
  | _ => 0

def longest (b : BlteBuilder) : Call → Nat
  | .addEncryptedData data _ _ _ => data.length
  | call => min call.data.length b.chunkSize

/-- The key store has the key that the call uses. -/
def KeyHeld (keyStore : KeyStore) (b : BlteBuilder) (call : Call) : Prop :=
  ∀ spec key, call.encryption b = some (spec, key) → keyStore spec.keyName = .ok (some key)

/-- What the call adds can be decrypted and decompressed at its place: with Salsa20 the first
chunk has its position as index, nothing empty is encrypted uncompressed, and what is compressed
keeps to the limit. -/
structure Readable (b : BlteBuilder) (call : Call) : Prop where
  index : ∀ spec key, call.encryption b = some (spec, key) →
    SameIndex spec (call.firstIndex b) b.chunks.length
  payload : call.encryption b ≠ none → b.innerMode = .none → call.data ≠ []
  limit : b.defaultMode = .zLib ∨ b.defaultMode = .lz4 → call.longest b ≤ maxDecompressionSize

end Call

/-- The calls one after the other, up to the first that fails. -/
def run (lib : External) : BlteBuilder → List Call → Except (Halt BlteError) BlteBuilder
  | b, [] => .ok b
  | b, call :: calls => do
    let b ← call.apply lib b
    run lib b calls

/-- A condition holds at every call of a run, of the builder before it. -/
def Always (lib : External) (P : BlteBuilder → Call → Prop) : BlteBuilder → List Call → Prop
  | _, [] => True
  | b, call :: calls => P b call ∧ ∀ b', call.apply lib b = .ok b' → Always lib P b' calls

/-! ## Chunks are decoded at their positions -/

section Decoding

variable {lib : External} {keyStore : KeyStore} {b : BlteBuilder}

/-- The chunk at its index is decompressed to a piece; it is not a frame. -/
def Decodes (lib : External) (keyStore : KeyStore) (part : ChunkData × Nat) (piece : Bytes) :
    Prop :=
  ∀ openFrame, BlteFile.decompressPart lib keyStore openFrame part = .ok piece

variable {data done inner piece : Bytes} {i j index : Nat} {chunk : ChunkData} {b' : BlteBuilder}
  {create : Nat → Bytes → Except (Halt BlteError) ChunkData} {chunks : List ChunkData} {call : Call}
  {mode : CompressionMode} {spec : EncryptionSpec} {pieces : List Bytes}

variable (hLib : lib.Inverts)
include hLib

theorem two_le_length_compressChunk {compressed : Bytes} (hMode : mode ≠ .none)
    (h : compressChunk lib data mode = .ok compressed) : 2 ≤ compressed.length := by
  cases mode with
  | none => exact absurd rfl hMode
  | zLib =>
    cases hDeflate : lib.deflate data with
    | error e =>
      rw [compressChunk, hDeflate] at h
      cases h
    | ok bytes =>
      rw [compressChunk, hDeflate] at h
      cases h
      exact hLib.zlibHeader hDeflate
  | lz4 =>
    cases h
    rw [compressLz4]
    simp only [length_append, beBytes_length, length_singleton]
    omega
  | encrypted => cases h
  | frame => cases h

theorem BlteBuilder.openPayload_buildInnerPayload
    (hFits : ChunkFits data b.innerMode) (h : b.buildInnerPayload lib data = .ok inner) :
    openPayload lib inner = .ok data := by
  unfold buildInnerPayload at h
  split_ifs at h with hMode
  · cases h
    rfl
  · split at h
    · cases h
    next compressed hCompress =>
      cases h
      have hDecompress := decompressChunk_compressChunk hLib hFits hCompress
      cases hInner : b.innerMode with
      | encrypted =>
        rw [hInner] at hCompress
        cases hCompress
      | _ =>
        rw [hInner] at hDecompress
        exact hDecompress

theorem BlteBuilder.two_le_length_buildInnerPayload
    (hData : b.innerMode = .none → data ≠ []) (h : b.buildInnerPayload lib data = .ok inner) :
    2 ≤ inner.length := by
  unfold buildInnerPayload at h
  split_ifs at h with hMode
  · cases h
    exact Nat.succ_le_succ (length_pos_iff.mpr (hData hMode))
  · split at h
    · cases h
    next hCompress =>
      cases h
      exact Nat.le_succ_of_le (two_le_length_compressChunk hLib hMode hCompress)

theorem BlteBuilder.decodes_createEncryptedChunkWithParams
    {key : Key 16} (hKey : keyStore spec.keyName = .ok (some key))
    (hIndex : SameIndex spec i j) (hData : b.innerMode = .none → data ≠ [])
    (hFits : ChunkFits data b.innerMode)
    (h : b.createEncryptedChunkWithParams lib data spec key i = .ok chunk) :
    Decodes lib keyStore (chunk, j) data := by
  obtain ⟨inner, hInner, h⟩ := bind_eq_ok.mp h
  obtain ⟨encrypted, hEncrypted, h⟩ := bind_eq_ok.mp h
  cases h
  intro openFrame
  change decryptChunkWithKeys lib encrypted keyStore j = _
  rw [decryptChunkWithKeys_encryptChunkWithKey hKey hIndex
    (b.two_le_length_buildInnerPayload hLib hData hInner) hEncrypted,
    b.openPayload_buildInnerPayload hLib hFits hInner]

theorem ChunkData.decodes_new
    (hFits : ChunkFits data mode) (h : new lib data mode = .ok chunk) (j : Nat) :
    Decodes lib keyStore (chunk, j) data := by
  have hDecompress := decompress_new hLib hFits h
  obtain ⟨hMode, -, hCompress⟩ := new_eq_ok h
  intro openFrame
  rw [BlteFile.decompressPart]
  cases mode with
  | encrypted | frame => cases hCompress
  | _ =>
    rw [hMode]
    exact hDecompress

omit hLib

/-- A chunk as the adding calls create it. -/
def BlteBuilder.createPart (lib : External) (b : BlteBuilder)
    (encryption : Option (EncryptionSpec × Key 16)) (index : Nat) (piece : Bytes) :
    Except (Halt BlteError) ChunkData :=
  match encryption with
  | some (spec, key) => b.createEncryptedChunkWithParams lib piece spec key index
  | none => ChunkData.new lib piece b.defaultMode

theorem BlteBuilder.chunkFits_innerMode (h : ChunkFits piece b.defaultMode) :
    ChunkFits piece b.innerMode := by
  unfold innerMode
  split
  · exact h
  · rintro (hMode | hMode) <;> cases hMode

theorem BlteBuilder.decodes_createPart (hLib : lib.Inverts)
    {encryption : Option (EncryptionSpec × Key 16)}
    (hKey : ∀ spec key, encryption = some (spec, key) → keyStore spec.keyName = .ok (some key))
    (hIndex : ∀ spec key, encryption = some (spec, key) → SameIndex spec i j)
    (hPiece : encryption ≠ none → b.innerMode = .none → piece ≠ [])
    (hFits : ChunkFits piece b.defaultMode) (h : b.createPart lib encryption i piece = .ok chunk) :
    Decodes lib keyStore (chunk, j) piece := by
  cases encryption with
  | none => exact ChunkData.decodes_new hLib hFits h j
  | some pair =>
    exact b.decodes_createEncryptedChunkWithParams hLib (hKey _ _ rfl) (hIndex _ _ rfl)
      (hPiece (Option.some_ne_none _)) (chunkFits_innerMode hFits) h

theorem decodes_zipIdx {n : Nat}
    (hDecodes : ∀ piece ∈ pieces, ∀ k chunk, create (index + k) piece = .ok chunk → Decodes lib
      keyStore (chunk, n + k) piece)
    (h : Forall₂ (fun piece part => create part.2 piece = .ok part.1) pieces (chunks.zipIdx
      index)) :
    Forall₂ (Decodes lib keyStore) (chunks.zipIdx n) pieces := by
  induction pieces generalizing chunks index n with
  | nil =>
    cases chunks with
    | nil => exact .nil
    | cons chunk chunks => cases h
  | cons piece pieces ih =>
    cases chunks with
    | nil => cases h
    | cons chunk chunks =>
      rw [zipIdx_cons, forall₂_cons] at h
      refine .cons (hDecodes piece mem_cons_self 0 chunk h.1) (ih ?_ h.2)
      intro piece' hPiece' k chunk' hCreate
      rw [Nat.add_right_comm] at hCreate ⊢
      exact hDecodes piece' (mem_cons_of_mem _ hPiece') (k + 1) chunk' hCreate

theorem SameIndex.add (h : SameIndex spec i j) (k : Nat) : SameIndex spec (i + k) (j + k) := by
  intro hType
  rw [ofNat_add, ofNat_add, h hType]

/-! ## Calls and runs -/

/-- The chunks of the builder are decoded to the data. -/
def BlteBuilder.Holds (lib : External) (keyStore : KeyStore) (b : BlteBuilder) (data : Bytes) :
    Prop :=
  ∃ pieces : List Bytes, pieces.flatten = data ∧
    List.Forall₂ (Decodes lib keyStore) b.chunks.zipIdx pieces

theorem BlteBuilder.Holds.append (hHolds : b.Holds lib keyStore data)
    (h : Forall₂ (Decodes lib keyStore) (chunks.zipIdx b.chunks.length) pieces) :
    BlteBuilder.Holds lib keyStore { b with chunks := b.chunks ++ chunks }
      (data ++ pieces.flatten) := by
  obtain ⟨before, hBefore, hDecodes⟩ := hHolds
  refine ⟨before ++ pieces, by rw [flatten_append, hBefore], ?_⟩
  rw [zipIdx_append, Nat.zero_add]
  exact rel_append hDecodes h

theorem BlteBuilder.addPieces_pieces (h : b.addPieces create index data = .ok b') :
    ∃ (chunks : List ChunkData) (pieces : List Bytes),
      b' = { b with chunks := b.chunks ++ chunks } ∧ pieces.flatten = data ∧
      (∀ piece ∈ pieces, (data ≠ [] → piece ≠ []) ∧ piece.length ≤ min data.length b.chunkSize) ∧
      Forall₂ (fun piece part => create part.2 piece = .ok part.1) pieces
        (chunks.zipIdx index) := by
  unfold addPieces at h
  split_ifs at h with hLe
  · obtain ⟨chunk, hChunk, h⟩ := bind_eq_ok.mp h
    cases h
    refine ⟨[chunk], [data], rfl, append_nil data, ?_, .cons hChunk .nil⟩
    intro piece hPiece
    cases mem_singleton.mp hPiece
    exact ⟨id, le_min (Nat.le_refl _) hLe⟩
  · obtain ⟨chunks, hCut, h⟩ := bind_eq_ok.mp h
    cases h
    obtain ⟨pieces, hFlatten, hLength, hPieces⟩ := cutLoop_pieces hCut
    exact ⟨chunks, pieces, rfl, hFlatten,
      fun piece hPiece => ⟨fun _ => (hLength piece hPiece).1, (hLength piece hPiece).2⟩, hPieces⟩

theorem BlteBuilder.addData_eq (data : Bytes) : b.addData lib data =
    b.addPieces (b.createPart lib (b.encryption.map fun config => (config.spec, config.key)))
      0 data := by
  rw [addData]
  congr 1
  funext index piece
  cases hEncryption : b.encryption with
  | none => rfl
  | some config =>
    rw [createEncryptedChunk, hEncryption]
    rfl

/-- What a call does to the chunks: it adds some, created of the pieces of its data. -/
theorem Call.apply_pieces (h : call.apply lib b = .ok b') :
    ∃ (chunks : List ChunkData) (pieces : List Bytes),
      b'.chunks = b.chunks ++ chunks ∧ pieces.flatten = call.data ∧
      (∀ piece ∈ pieces, (call.data ≠ [] → piece ≠ []) ∧ piece.length ≤ call.longest b) ∧
      Forall₂
        (fun piece part => b.createPart lib (call.encryption b) part.2 piece = .ok part.1)
        pieces (chunks.zipIdx (call.firstIndex b)) := by
  cases call with
  | withChunkSize size =>
    rw [apply, BlteBuilder.withChunkSize] at h
    split at h
    · cases h
      exact ⟨[], [], (append_nil _).symm, rfl, by simp, .nil⟩
    · cases h
  | addData data =>
    rw [apply, BlteBuilder.addData_eq] at h
    obtain ⟨chunks, pieces, rfl, hPieces⟩ := BlteBuilder.addPieces_pieces h
    exact ⟨chunks, pieces, rfl, hPieces⟩
  | addEncryptedData data spec key blockIndex =>
    obtain ⟨chunk, hChunk, h⟩ := bind_eq_ok.mp h
    cases h
    refine ⟨[chunk], [data], rfl, append_nil data, ?_, .cons hChunk .nil⟩
    intro piece hPiece
    cases mem_singleton.mp hPiece
    exact ⟨id, Nat.le_refl _⟩
  | addMixedData data encryptionPerChunk =>
    obtain ⟨chunks, pieces, rfl, hPieces⟩ := BlteBuilder.addPieces_pieces h
    exact ⟨chunks, pieces, rfl, hPieces⟩
  | _ =>
    -- A call that only sets the builder up keeps the chunks.
    cases h
    exact ⟨[], [], (append_nil _).symm, rfl, by simp, .nil⟩

theorem BlteBuilder.Holds.apply (hLib : lib.Inverts) (hHolds : b.Holds lib keyStore done)
    (hKey : call.KeyHeld keyStore b) (hReadable : call.Readable b)
    (h : call.apply lib b = .ok b') : b'.Holds lib keyStore (done ++ call.data) := by
  obtain ⟨chunks, pieces, hChunks, hData, hEach, hPieces⟩ := Call.apply_pieces h
  rw [Holds, hChunks, ← hData]
  refine hHolds.append (decodes_zipIdx ?_ hPieces)
  intro piece hPiece k chunk hCreate
  obtain ⟨hNe, hLength⟩ := hEach piece hPiece
  exact b.decodes_createPart hLib hKey
    (fun spec key hSome => (hReadable.index spec key hSome).add k)
    (fun hSome hMode => hNe (hReadable.payload hSome hMode))
    (fun hMode => le_trans hLength (hReadable.limit hMode)) hCreate

variable {calls : List Call}

theorem BlteBuilder.Holds.run (hLib : lib.Inverts) (hHolds : b.Holds lib keyStore done)
    (hKeys : Always lib (Call.KeyHeld keyStore) b calls)
    (hReadable : Always lib Call.Readable b calls) (h : Blte.run lib b calls = .ok b') :
    b'.Holds lib keyStore (done ++ (calls.map Call.data).flatten) := by
  induction calls generalizing b done with
  | nil =>
    cases h
    rwa [map_nil, flatten_nil, append_nil]
  | cons call calls ih =>
    obtain ⟨next, hNext, h⟩ := bind_eq_ok.mp h
    rw [map_cons, flatten_cons, ← append_assoc]
    exact ih (hHolds.apply hLib hKeys.1 hReadable.1 hNext) (hKeys.2 next hNext)
      (hReadable.2 next hNext) h

variable {md5 : Bytes → Key 16}

variable {file : BlteFile}

/-- What is built has a table, unless it has one chunk only that is not encrypted. -/
theorem BlteBuilder.build_cases (h : b.build md5 lib = .ok file) :
    (b.chunks.length = 1 ∧ (∀ chunk ∈ b.chunks, chunk.mode ≠ .encrypted) ∧
      file = ⟨.singleChunk, b.chunks⟩) ∨ BlteFile.multiChunk md5 lib b.chunks = .ok file := by
  unfold build at h
  split at h
  · cases h
  dsimp only at h
  split_ifs at h with hSingle
  · cases h
    refine .inl ⟨hSingle.1, fun chunk hChunk hMode => hSingle.2 ?_, rfl⟩
    exact any_eq_true.mpr ⟨chunk, hChunk, decide_eq_true hMode⟩
  · exact .inr h

theorem BlteBuilder.build_eq_ok (h : b.build md5 lib = .ok file) :
    file.chunks = b.chunks ∧
      ¬ (file.header.isSingleChunk = true ∧
        file.chunks.head?.map ChunkData.mode = some .encrypted) := by
  rcases build_cases h with ⟨-, hPlain, rfl⟩ | hMulti
  · refine ⟨rfl, fun hHead => ?_⟩
    obtain ⟨chunk, hChunk, hMode⟩ := Option.map_eq_some_iff.mp hHead.2
    exact hPlain chunk (mem_of_mem_head? hChunk) hMode
  · obtain ⟨hHeader, hChunks⟩ := multiChunk_eq_ok hMulti
    exact ⟨hChunks, fun hHead => absurd hHead.1 (BlteHeader.not_isSingleChunk_multiChunk hHeader)⟩

theorem BlteBuilder.Holds.decompressWithKeys (hHolds : b.Holds lib keyStore data)
    (h : b.build md5 lib = .ok file) : file.decompressWithKeys lib keyStore = .ok data := by
  obtain ⟨pieces, hFlatten, hDecodes⟩ := hHolds
  obtain ⟨hChunks, hTable⟩ := build_eq_ok h
  rw [BlteFile.decompressWithKeys, BlteFile.decompressFrames, BlteFile.decompressParts,
    if_neg hTable, hChunks, mapM_eq_ok.mpr (hDecodes.imp fun part piece hPart => hPart _), ok_bind,
    hFlatten]

/-- A run of calls whose data can be read at its place builds a file that is decompressed to the
data of all calls. -/
theorem decompressWithKeys_run (hLib : lib.Inverts) {md5 : Bytes → Key 16} {calls : List Call}
    {b : BlteBuilder} {file : BlteFile} (hRun : run lib .new calls = .ok b)
    (hBuild : b.build md5 lib = .ok file)
    (hKeys : Always lib (Call.KeyHeld keyStore) .new calls)
    (hReadable : Always lib Call.Readable .new calls) :
    file.decompressWithKeys lib keyStore = .ok (calls.map Call.data).flatten := by
  have hNew : BlteBuilder.new.Holds lib keyStore [] := ⟨[], rfl, .nil⟩
  exact (hNew.run hLib hKeys hReadable hRun).decompressWithKeys hBuild

/-! ## What the table records -/

/-- The chunks that are not encrypted are made of their pieces. -/
def BlteBuilder.Made (lib : External) (b : BlteBuilder) : Prop :=
  ∀ chunk ∈ b.chunks, chunk.mode ≠ .encrypted →
    ∃ piece mode, ChunkData.new lib piece mode = .ok chunk

theorem BlteBuilder.Made.apply (hMade : b.Made lib)
    (h : call.apply lib b = .ok b') : b'.Made lib := by
  obtain ⟨chunks, pieces, hChunks, -, -, hPieces⟩ := Call.apply_pieces h
  intro chunk hChunk hMode
  rw [hChunks] at hChunk
  rcases mem_append.mp hChunk with hOld | hNew
  · exact hMade chunk hOld hMode
  · obtain ⟨i, hi⟩ := getElem?_of_mem hNew
    obtain ⟨piece, -, hCreate⟩ := forall₂_mem_right hPieces (mk_add_mem_zipIdx_iff_getElem?.mpr hi)
    unfold createPart at hCreate
    split at hCreate
    · obtain ⟨inner, -, hCreate⟩ := bind_eq_ok.mp hCreate
      obtain ⟨encrypted, -, hCreate⟩ := bind_eq_ok.mp hCreate
      cases hCreate
      exact absurd rfl hMode
    · exact ⟨piece, b.defaultMode, hCreate⟩

theorem BlteBuilder.Made.run (hMade : b.Made lib) (h : Blte.run lib b calls = .ok b') :
    b'.Made lib := by
  induction calls generalizing b with
  | nil =>
    cases h
    exact hMade
  | cons call calls ih =>
    obtain ⟨next, hNext, h⟩ := bind_eq_ok.mp h
    exact ih (hMade.apply hNext) h

/-- What the table says of a chunk, if its fields can hold the sizes: how long it is and its hash
and, unless it is encrypted, the length of what it is decoded to. -/
structure Recorded (md5 : Bytes → Key 16) (lib : External) (keyStore : KeyStore) (info : ChunkInfo)
    (part : ChunkData × Nat) : Prop where
  compressed : part.1.write.length < 2 ^ 32 → info.compressedSize.toNat = part.1.write.length
  checksum : info.checksum = md5 part.1.write
  decompressed : part.1.mode ≠ .encrypted → part.1.size < 2 ^ 32 →
    ∀ piece, Decodes lib keyStore part piece → info.decompressedSize.toNat = piece.length

theorem BlteBuilder.Made.recorded (hMade : b.Made lib) (hLib : lib.Inverts) {chunk : ChunkData}
    (hChunk : chunk ∈ b.chunks) (i : Nat) :
    Recorded md5 lib keyStore (.fromChunkData md5 chunk) (chunk, i) := by
  refine ⟨toNat_ofNat_of_lt', rfl, fun hMode hSize piece hDecodes => ?_⟩
  obtain ⟨data, mode, hNew⟩ := hMade chunk hChunk hMode
  -- The piece is the one that the chunk is made of.
  have hDecompress : chunk.stored.decompress lib = .ok piece := by
    have hPart := hDecodes fun _ => .error (.panic .outOfFuel)
    unfold BlteFile.decompressPart at hPart
    split at hPart
    · contradiction
    · cases hPart
    · exact hPart
  obtain ⟨-, rfl⟩ := (decompress_stored_iff hLib hNew hSize piece).mp hDecompress
  exact (toNat_ofNat_of_lt' hSize).trans (ChunkData.new_eq_ok hNew).2.1

/-- The table of a run records its chunks. -/
theorem table_records (hLib : lib.Inverts) {table : ExtendedHeader}
    (hRun : run lib .new calls = .ok b) (hBuild : b.build md5 lib = .ok file)
    (hTable : file.header.extended = some table) :
    List.Forall₂ (Recorded md5 lib keyStore) table.chunkInfos file.chunks.zipIdx := by
  have hNew : BlteBuilder.new.Made lib := fun chunk hChunk => (nomatch hChunk)
  have hMade := hNew.run hRun
  rcases BlteBuilder.build_cases hBuild with ⟨-, -, rfl⟩ | hMulti
  · cases hTable
  · obtain ⟨hHeader, hChunks⟩ := multiChunk_eq_ok hMulti
    obtain ⟨-, -, hHeader⟩ := BlteHeader.multiChunk_eq_ok hHeader
    rw [hHeader] at hTable
    cases hTable
    have hInfos : Forall₂ (Recorded md5 lib keyStore)
        ((b.chunks.zipIdx.map Prod.fst).map (.fromChunkData md5)) b.chunks.zipIdx := by
      rw [map_map, forall₂_map_left_iff, forall₂_same]
      exact fun part hPart => hMade.recorded hLib (fst_mem_of_mem_zipIdx hPart) part.2
    rw [hChunks]
    rwa [zipIdx_map_fst] at hInfos

end Decoding

/-- A key and a use of it with Salsa20, for samples. -/
def sampleKey : Key 16 := .fill 16 0

def sampleSpec : EncryptionSpec := ⟨1, ⟨[0, 0, 0, 0], rfl⟩, salsa20Type⟩

/-- Plain data and then encrypted data. -/
def sampleCalls : List Call := [.addData [9], .addMixedData [1, 2] (some (sampleSpec, sampleKey))]

/-- What becomes of the calls, with the key at hand. -/
def readBack (calls : List Call) : Except (Halt BlteError) Bytes := do
  let b ← run BlteFile.storing .new calls
  let file ← b.build BlteFile.zeroHash BlteFile.storing
  file.decompressWithKeys BlteFile.storing fun _ => .ok (some sampleKey)

theorem decompressWithKeys_run_sample : ∃ b file,
    run BlteFile.storing .new sampleCalls = .ok b ∧
      b.build BlteFile.zeroHash BlteFile.storing = .ok file ∧
      file.decompressWithKeys BlteFile.storing (fun _ => .ok (some sampleKey)) = .ok [9, 1, 2] := by
  have hRun : run BlteFile.storing .new sampleCalls = .ok _ := rfl
  refine ⟨_, _, hRun, rfl, decompressWithKeys_run storing_inverts hRun rfl ?_ ?_⟩
  · refine ⟨fun spec key h => (nomatch h),
      fun b' hNext => ⟨fun spec key h => ?_, fun _ _ => trivial⟩⟩
    cases h
    rfl
  · refine ⟨⟨fun spec key h => (nomatch h), fun h => absurd rfl h, fun _ => by decide⟩,
      fun b' hNext => ⟨?_, fun _ _ => trivial⟩⟩
    cases hNext
    exact ⟨fun spec key _ _ => rfl, fun _ _ => by decide, fun _ => by decide⟩

/-- Two calls of `addData` with Salsa20 both use the index zero. -/
theorem decompressWithKeys_run_differs :
    readBack [.withEncryption sampleSpec sampleKey, .addData [1, 2], .addData [3, 4]] =
      .ok [1, 2, 99, 152, 141] := by
  decide +kernel

theorem table_records_sample :
    let b := { BlteBuilder.new with chunks := [⟨.none, [9], some 1⟩, ⟨.none, [8], some 1⟩] }
    run BlteFile.storing .new [.addData [9], .addData [8]] = .ok b ∧ ∃ file table,
      b.build BlteFile.zeroHash BlteFile.storing = .ok file ∧ file.header.extended = some table ∧
      List.Forall₂ (Recorded BlteFile.zeroHash BlteFile.storing fun _ => .ok none)
        table.chunkInfos file.chunks.zipIdx := by
  have hRun : run BlteFile.storing .new [.addData [9], .addData [8]] = .ok _ := rfl
  exact ⟨hRun, _, _, rfl, rfl, table_records storing_inverts hRun rfl rfl⟩

/-- The two bytes of an encrypted chunk are recorded with the byte of the inner mode. -/
theorem table_records_refuted : (do
    let b ← run BlteFile.storing .new [.addEncryptedData [1, 2] sampleSpec sampleKey 0]
    let file ← b.build BlteFile.zeroHash BlteFile.storing
    let data ← file.decompressWithKeys BlteFile.storing fun _ => .ok (some sampleKey)
    .ok (file.header.extended.map fun table => table.chunkInfos.map ChunkInfo.decompressedSize,
      data)) = Except.ok (some [3], [1, 2]) := by
  decide +kernel

end Cascette.Blte
