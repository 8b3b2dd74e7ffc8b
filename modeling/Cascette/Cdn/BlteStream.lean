import Cascette.Blte.Frames
import Cascette.Cdn.Coalesce
import Cascette.Lib.Agree

/-!
# BLTE files over range requests

`StreamingBlteProcessor` decompresses a file that it fetches in ranges: first the header, then
chunk by chunk. It reads only twelve bytes of a header with a table, so that it opens the table only
if that is empty; and with keys it takes every chunk as an encrypted one. What it returns is
compared with parsing and decompressing the whole file (`decompressFromUrl_agree_iff`).
-/

namespace Cascette.Cdn

open Lib Blte

/-! ## Requests -/

inductive StreamingError
  | request (message : String)
  | invalidHeader (message : String)
  | invalidChunk (message : String)
  | blte (source : BlteError)
deriving DecidableEq

abbrev Streamed (α : Type) := Except (Halt StreamingError) α

/-- A range that ends before it begins fails the assertion. -/
def HttpRange.new (start stop : Nat) : Streamed HttpRange :=
  if start ≤ stop then .ok ⟨start, stop⟩ else .error (.panic .expectFailed)

structure HttpClient where
  getRange (url : String) (range : HttpRange) : Except StreamingError Bytes
  getContentLength (url : String) : Except StreamingError Nat

/-- The client gives the bytes of a file. A range ends where the file ends. -/
structure HttpClient.Serves (client : HttpClient) (url : String) (bytes : Bytes) : Prop where
  range (range : HttpRange) (hOrder : range.start ≤ range.stop) (h : range.start < bytes.length) :
    client.getRange url range =
      .ok ((bytes.drop range.start).take (range.stop + 1 - range.start))
  length : client.getContentLength url = .ok bytes.length

def streamingError : Halt BlteError → Halt StreamingError
  | .error e => .error (.blte e)
  | .panic p => .panic p

def fetch (client : HttpClient) (url : String) (first last : Nat) : Streamed Bytes := do
  let range ← HttpRange.new first last
  (client.getRange url range).mapError .error

/-! ## The processor -/

section Processor

variable (lib : External) (client : HttpClient) (url : String) (keys : Option KeyStore)

/-- A size of zero is taken for the sign of a table, whose length is read behind it. -/
def readBlteHeader : Streamed Bytes := do
  let initial ← fetch client url 0 11
  if 8 ≤ initial.length ∧ ofBe ((initial.drop 4).take 4) = 0 then do
    let extended ← fetch client url 0 15
    if 16 ≤ extended.length then
      fetch client url 0 (16 + ofBe ((extended.drop 12).take 4) * 12 - 1)
    else .ok extended
  else .ok initial

def parseBlteHeader (data : Bytes) : Streamed BlteHeader :=
  match BlteHeader.read data with
  | .ok (header, _) => .ok header
  | .error (.error e) => .error (.error (.invalidHeader ("Header parse error: " ++ lib.display e)))
  | .error (.panic p) => .error (.panic p)

def parseChunk (label : String) (size : Nat) (data : Bytes) : Streamed ChunkData :=
  match ChunkData.read size data with
  | .ok (chunk, _) => .ok chunk
  | .error (.error e) =>
    .error (.error (.invalidChunk (label ++ " parse error: " ++ lib.display e)))
  | .error (.panic p) => .error (.panic p)

/-- With keys every chunk is decrypted, whatever its mode is. -/
def openChunk (chunk : ChunkData) (index : Nat) : Streamed Bytes :=
  match keys with
  | some keyStore => (decryptChunkWithKeys lib chunk.data keyStore index).mapError streamingError
  | none => (chunk.decompress lib).mapError streamingError

def decompressSingleChunk : Streamed Bytes := do
  let contentLength ← (client.getContentLength url).mapError .error
  let chunkSize ← (checkedSub contentLength 8).mapError .panic
  let chunkData ← fetch client url 8 (contentLength - 1)
  let chunk ← parseChunk lib "Chunk" chunkSize chunkData
  openChunk lib keys chunk 0

/-- The chunks of a table, from an index and an offset on. -/
def decompressChunks : Nat → Nat → List ChunkInfo → Streamed Bytes
  | _, _, [] => .ok []
  | index, offset, info :: infos => do
    let chunkEnd ← (checkedSub (offset + info.compressedSize.toNat) 1).mapError .panic
    let chunkData ← fetch client url offset chunkEnd
    let chunk ← parseChunk lib ("Chunk " ++ toString index) info.compressedSize.toNat chunkData
    let decompressed ← openChunk lib keys chunk index
    let others ← decompressChunks (index + 1) (offset + info.compressedSize.toNat) infos
    .ok (decompressed ++ others)

def totalHeaderSize (header : BlteHeader) : Nat :=
  if header.isSingleChunk then 8 else header.headerSize.toNat

def decompressMultiChunk (header : BlteHeader) : Streamed Bytes :=
  match header.extended with
  | none => .error (.error (.invalidHeader "Missing extended header for multi-chunk"))
  | some extended =>
    decompressChunks lib client url keys 0 (totalHeaderSize header) extended.chunkInfos

def decompressFromUrl : Streamed Bytes := do
  let headerData ← readBlteHeader client url
  let header ← parseBlteHeader lib headerData
  if header.isSingleChunk then decompressSingleChunk lib client url keys
  else decompressMultiChunk lib client url keys header

end Processor

end Cascette.Cdn

/-! ## The whole file -/

namespace Cascette.Blte

open Lib

namespace BlteFile

/-- `decompress`, or `decompress_with_keys` if there are keys. -/
def decompressWhole (lib : External) (keys : Option KeyStore) (file : BlteFile) :
    Except (Halt BlteError) Bytes :=
  match keys with
  | none => file.decompress lib
  | some keyStore => file.decompressWithKeys lib keyStore

/-- A chunk of the file at its index. -/
def decodePart (lib : External) (keys : Option KeyStore) (file : BlteFile)
    (part : ChunkData × Nat) : Except (Halt BlteError) Bytes :=
  match keys with
  | none => part.1.decompress lib
  | some keyStore => decompressPart lib keyStore (openFrame lib keyStore (file.dataLength + 1)) part

/-- Some chunk of the file cannot be decoded. -/
def Broken (lib : External) (keys : Option KeyStore) (file : BlteFile) : Prop :=
  ∃ part ∈ file.chunks.zipIdx, ∃ e, file.decodePart lib keys part = .error e

/-- A single encrypted chunk is refused if there are keys. -/
def Refused (keys : Option KeyStore) (file : BlteFile) : Prop :=
  keys ≠ none ∧ file.header.isSingleChunk = true ∧
    file.chunks.head?.map ChunkData.mode = some .encrypted

variable {keys : Option KeyStore} {file : BlteFile} {lib : External} (h : ¬ file.Refused keys)
include h

theorem decompressWhole_eq :
    file.decompressWhole lib keys = (do
      let parts ← file.chunks.zipIdx.mapM (file.decodePart lib keys)
      .ok parts.flatten) := by
  cases keys with
  | none =>
    rw [decompressWhole, decompress, mapM_zipIdx (g := ChunkData.decompress lib) fun _ _ _ => rfl]
  | some keyStore =>
    have hParts : file.decompressWhole lib (some keyStore) =
        decompressParts lib keyStore (openFrame lib keyStore (file.dataLength + 1)) file := rfl
    rw [hParts, decompressParts, if_neg fun hPlain => h ⟨Option.some_ne_none _, hPlain⟩]
    rfl

theorem exists_decompressWhole_iff :
    (∃ e, file.decompressWhole lib keys = .error e) ↔ file.Broken lib keys := by
  rw [decompressWhole_eq h, Broken, ← exists_mapM_error_iff]
  constructor
  · rintro ⟨e, hError⟩
    cases hParts : file.chunks.zipIdx.mapM (file.decodePart lib keys) with
    | error e' => exact ⟨e', rfl⟩
    | ok parts =>
      rw [hParts] at hError
      cases hError
  · rintro ⟨e, hError⟩
    exact ⟨e, by rw [hError]; rfl⟩

end BlteFile

/-! ## Headers that were cut off -/

theorem ExtendedHeader.read_eq_ok {bytes rest : Bytes} {e : ExtendedHeader}
    (h : read bytes = .ok (e, rest)) : ∃ (byte : UInt8) (count : Key 3) (rest₁ : Bytes),
      bytes = byte :: (count.1 ++ rest₁) ∧ read (byte :: count.1) =
        if e.chunkInfos = [] then .ok (e, []) else .error (.error .io) := by
  obtain ⟨⟨byte, rest₁⟩, hByte, h⟩ := bind_eq_ok.mp h
  dsimp only at h
  split at h
  · cases h
  rename_i flags hFlags
  obtain ⟨⟨count, rest₂⟩, hCount, h⟩ := bind_eq_ok.mp h
  obtain ⟨⟨infos, rest₃⟩, hInfos, h⟩ := bind_eq_ok.mp h
  cases h
  have hLength := ((Codec.readMany_eq_ok _).mp hInfos).2
  have hRead : (Codec.key (Halt.error ReadError.io) 3).read count.1 = .ok (count, []) := by
    have h := Codec.key_read (Halt.error ReadError.io) count.2 []
    rwa [List.append_nil] at h
  refine ⟨byte, count, rest₂, ?_, ?_⟩
  · rw [Codec.eq_of_uint8_read hByte, (Codec.key _ 3).write_read hCount]
    rfl
  · rw [read, Codec.uint8_read, ok_bind]
    dsimp only
    rw [hFlags]
    dsimp only
    rw [hRead, ok_bind]
    cases infos with
    | nil =>
      rw [← hLength]
      rfl
    | cons info infos =>
      rw [← hLength, List.length_cons, Codec.readMany]
      cases flags <;> rfl

/-- The bytes of a file without a table. -/
def singleBytes (data : Bytes) : Bytes := blteMagic.1 ++ (beBytes 4 0 ++ data)

theorem length_singleBytes (data : Bytes) : (singleBytes data).length = 8 + data.length := by
  rw [singleBytes, List.length_append, List.length_append, beBytes_length, blteMagic.2]
  omega

/-- A header with a table of chunks. It can only be read from the first twelve bytes if the table is
empty. -/
structure BlteHeader.Tabled (header : BlteHeader) (bytes : Bytes) (extended : ExtendedHeader) :
    Prop where
  single : header.isSingleChunk = false
  table : header.extended = some extended
  length : 12 ≤ bytes.length
  size : ofBe ((bytes.drop 4).take 4) ≠ 0
  cut : read (bytes.take 12) =
    if extended.chunkInfos = [] then .ok (header, []) else .error (.error .io)

theorem BlteHeader.read_cases {bytes rest : Bytes} {header : BlteHeader}
    (h : read bytes = .ok (header, rest)) :
    (header = singleChunk ∧ bytes = singleBytes rest) ∨
      ∃ extended, header.Tabled bytes extended := by
  obtain ⟨rfl, rfl⟩ | ⟨headerSize, extended, data, hNe, rfl, rfl, hExtended⟩ := read_eq_ok.mp h
  · exact .inl ⟨rfl, rfl⟩
  · right
    obtain ⟨byte, count, rest₁, rfl, hCut⟩ := ExtendedHeader.read_eq_ok hExtended
    have hTwelve :
        (blteMagic.1 ++ (beBytes 4 headerSize.toNat ++ byte :: count.1)).length = 12 := by
      simp [blteMagic, count.2]
    have hAll : blteMagic.1 ++ (beBytes 4 headerSize.toNat ++ byte :: (count.1 ++ rest₁)) =
        (blteMagic.1 ++ (beBytes 4 headerSize.toNat ++ byte :: count.1)) ++ rest₁ := by
      simp
    refine ⟨extended, decide_eq_false hNe, rfl, ?_, ?_, ?_⟩
    · rw [hAll, List.length_append, hTwelve]
      omega
    · rw [List.drop_left' blteMagic.2, List.take_left' (beBytes_length 4 _),
        ofBe_beBytes_of_lt headerSize.toNat_lt]
      intro hZero
      exact hNe (UInt32.toNat_inj.mp hZero)
    · rw [hAll, List.take_left' hTwelve, read, Codec.key_read _ blteMagic.2, ok_bind]
      dsimp only
      rw [if_neg (by simp), Codec.uint32Be_read, ok_bind]
      rw [if_neg hNe, hCut]
      split <;> rfl

theorem BlteHeader.read_take_singleChunk (data : Bytes) {n : Nat} (h : 8 ≤ n) :
    read ((singleBytes data).take n) = .ok (singleChunk, data.take (n - 8)) := by
  have hTake : (singleBytes data).take n =
      blteMagic.1 ++ (beBytes 4 (0 : UInt32).toNat ++ data.take (n - 8)) := by
    rw [singleBytes, List.take_append, List.take_of_length_le (by rw [blteMagic.2]; omega),
      List.take_append, List.take_of_length_le (by rw [beBytes_length, blteMagic.2]; omega),
      blteMagic.2, beBytes_length, Nat.sub_sub]
    rfl
  exact read_eq_ok.mpr (.inl ⟨rfl, hTake⟩)

namespace BlteFile

/-- The files that are accepted: a single chunk, which may be missing, or a table of chunks. -/
theorem parse_cases {bytes : Bytes} {file : BlteFile} (h : parse bytes = .ok file) :
    (∃ data, file.header = .singleChunk ∧ bytes = singleBytes data ∧
      (data = [] ∧ file.chunks = [] ∨ data ≠ [] ∧ ∃ chunk rest,
        ChunkData.read data.length data = .ok (chunk, rest) ∧ file.chunks = [chunk])) ∨
    ∃ extended, file.header.Tabled bytes extended ∧
      (file.chunks = [] ↔ extended.chunkInfos = []) := by
  obtain ⟨rest, hRead, -⟩ := build_consumed h
  obtain ⟨⟨header, data⟩, hHeader, hRead⟩ := bind_eq_ok.mp hRead
  dsimp only at hRead
  rcases BlteHeader.read_cases hHeader with ⟨rfl, hBytes⟩ | ⟨extended, hTabled⟩
  · left
    rw [if_pos (show BlteHeader.singleChunk.isSingleChunk = true from rfl)] at hRead
    split_ifs at hRead with hLength
    · obtain ⟨⟨chunk, rest'⟩, hChunk, hRead⟩ := bind_eq_ok.mp hRead
      cases hRead
      exact ⟨data, rfl, hBytes, .inr ⟨List.ne_nil_of_length_pos hLength, chunk, _, hChunk, rfl⟩⟩
    · cases hRead
      exact ⟨_, rfl, hBytes, .inl ⟨List.eq_nil_of_length_eq_zero (by omega), rfl⟩⟩
  · right
    rw [if_neg (by rw [hTabled.single]; exact Bool.false_ne_true), hTabled.table] at hRead
    obtain ⟨⟨chunks, rest'⟩, hChunks, hRead⟩ := bind_eq_ok.mp hRead
    cases hRead
    refine ⟨extended, hTabled, ?_⟩
    cases hInfos : extended.chunkInfos with
    | nil =>
      rw [hInfos] at hChunks
      cases hChunks
      simp
    | cons info infos =>
      rw [hInfos] at hChunks
      obtain ⟨⟨chunk, rest₁⟩, -, hChunks⟩ := bind_eq_ok.mp hChunks
      obtain ⟨⟨others, rest₂⟩, -, hChunks⟩ := bind_eq_ok.mp hChunks
      cases hChunks
      simp

end BlteFile

end Cascette.Blte

namespace Cascette.Cdn

open Lib Blte

variable {lib : External} {client : HttpClient} {url : String} {keys : Option KeyStore}
  {bytes data : Bytes} {file : BlteFile}

/-! ## What is fetched -/

theorem fetch_eq (h : client.Serves url bytes) {first last : Nat} (hOrder : first ≤ last)
    (hFirst : first < bytes.length) :
    fetch client url first last = .ok ((bytes.drop first).take (last + 1 - first)) := by
  rw [fetch, HttpRange.new, if_pos hOrder, ok_bind, h.range ⟨first, last⟩ hOrder hFirst]
  rfl

theorem fetch_start (h : client.Serves url bytes) (hBytes : 0 < bytes.length) (last : Nat) :
    fetch client url 0 last = .ok (bytes.take (last + 1)) := by
  rw [fetch_eq h (Nat.zero_le last) hBytes]
  rfl

theorem take_drop_take {n i k : Nat} (h : i + k ≤ n) (bytes : Bytes) :
    ((bytes.take n).drop i).take k = (bytes.drop i).take k := by
  rw [List.drop_take, List.take_take, min_eq_left (by omega)]

theorem readBlteHeader_single (h : client.Serves url (singleBytes data)) :
    ∃ n, 8 ≤ n ∧ readBlteHeader client url = .ok ((singleBytes data).take n) := by
  have hLength := length_singleBytes data
  have hZero : ofBe (((singleBytes data).drop 4).take 4) = 0 := rfl
  rw [readBlteHeader, fetch_start h (by omega), ok_bind, take_drop_take (by omega),
    if_pos ⟨by rw [List.length_take, hLength]; omega, hZero⟩, fetch_start h (by omega), ok_bind]
  split
  · rw [fetch_start h (by omega)]
    exact ⟨_, by omega, rfl⟩
  · exact ⟨_, by omega, rfl⟩

/-! ## Agreement -/

/-- The bytes are an encrypted block whose key is in the store and whose payload holds the content:
as it is, or behind the byte of a mode. -/
def Seals (lib : External) (keyStore : KeyStore) (data content : Bytes) : Prop :=
  ∃ (block : EncryptedBlock keyStore data) (payload : Bytes),
    applyCipher "decryption" block.encryptionType block.encrypted block.key block.iv 0 =
      .ok payload ∧ openPayload lib payload = .ok content

/-- The data of the chunk is an encrypted block with the content that the chunk is decoded to, or
neither has one. A single encrypted chunk is not decoded. -/
def DecryptsAlike (lib : External) (keyStore : KeyStore) (file : BlteFile) (chunk : ChunkData) :
    Prop :=
  ∀ content, Seals lib keyStore chunk.data content ↔
    chunk.mode ≠ .encrypted ∧ file.decodePart lib (some keyStore) (chunk, 0) = .ok content

/-- A single chunk, which is not taken for an encrypted one; or a table that is empty or has a chunk
that cannot be decoded. -/
def Streamable (lib : External) (keys : Option KeyStore) (file : BlteFile) : Prop :=
  if file.header.isSingleChunk then
    ∃ chunk, file.chunks = [chunk] ∧
      ∀ keyStore, keys = some keyStore → DecryptsAlike lib keyStore file chunk
  else file.chunks = [] ∨ file.Broken lib keys

variable {chunk : ChunkData}

theorem decompressWhole_single (hChunks : file.chunks = [chunk])
    (h : ¬ file.Refused keys) :
    file.decompressWhole lib keys = file.decodePart lib keys (chunk, 0) := by
  rw [BlteFile.decompressWhole_eq h, hChunks]
  change (([(chunk, 0)] : List (ChunkData × Nat)).mapM (file.decodePart lib keys) >>= _) = _
  rw [List.mapM_cons, List.mapM_nil]
  cases file.decodePart lib keys (chunk, 0) with
  | error e => rfl
  | ok part =>
    change Except.ok [part].flatten = _
    rw [List.flatten_singleton]

theorem decryptChunkWithKeys_eq_ok {keyStore : KeyStore} {content : Bytes} :
    decryptChunkWithKeys lib data keyStore 0 = .ok content ↔ Seals lib keyStore data content := by
  constructor
  · intro h
    obtain ⟨block⟩ := exists_block h
    rw [block.decrypt] at h
    exact ⟨block, bind_eq_ok.mp h⟩
  · rintro ⟨block, payload, hPayload, hOpen⟩
    rw [block.decrypt, hPayload, ok_bind, hOpen]

theorem openChunk_agree (hSingle : file.header.isSingleChunk = true)
    (hChunks : file.chunks = [chunk]) :
    Agree (· = ·) (openChunk lib keys chunk 0) (file.decompressWhole lib keys) ↔
      ∀ keyStore, keys = some keyStore → DecryptsAlike lib keyStore file chunk := by
  cases keys with
  | none =>
    rw [openChunk, Agree.mapError_left, decompressWhole_single hChunks fun h => h.1 rfl]
    refine ⟨fun _ _ hNone => ?_, fun _ => Agree.refl _⟩
    cases hNone
  | some keyStore =>
    have hWhole (content : Bytes) : file.decompressWhole lib (some keyStore) = .ok content ↔
        chunk.mode ≠ .encrypted ∧ file.decodePart lib (some keyStore) (chunk, 0) = .ok content := by
      have hHead : file.chunks.head?.map ChunkData.mode = some chunk.mode := by rw [hChunks]; rfl
      by_cases hMode : chunk.mode = .encrypted
      · have hRefused : file.decompressWhole lib (some keyStore) =
            .error (.error .singleChunkEncrypted) := if_pos ⟨hSingle, hMode ▸ hHead⟩
        rw [hRefused]
        exact iff_of_false nofun fun h => h.1 hMode
      · rw [decompressWhole_single hChunks, and_iff_right hMode]
        exact fun h => hMode (Option.some.inj (hHead.symm.trans h.2.2))
    have hOne : (∀ k, some keyStore = some k → DecryptsAlike lib k file chunk) ↔
        DecryptsAlike lib keyStore file chunk :=
      ⟨fun h => h keyStore rfl, fun h k hk => Option.some.inj hk ▸ h⟩
    rw [openChunk, Agree.mapError_left, hOne, DecryptsAlike, Agree.eq_iff]
    exact forall_congr' fun content => by rw [decryptChunkWithKeys_eq_ok, hWhole]

theorem decompressSingleChunk_eq
    (h : client.Serves url (singleBytes data)) (hData : data ≠ [])
    {rest : Bytes} (hChunk : ChunkData.read data.length data = .ok (chunk, rest)) :
    decompressSingleChunk lib client url keys = openChunk lib keys chunk 0 := by
  have hLength := length_singleBytes data
  have hPos := List.length_pos_of_ne_nil hData
  have hDrop : (singleBytes data).drop 8 = data := by
    rw [singleBytes, ← List.append_assoc]
    exact List.drop_left' (by rw [List.length_append, beBytes_length, blteMagic.2])
  rw [decompressSingleChunk, h.length, mapError_ok, ok_bind, hLength, checkedSub_eq (by omega),
    mapError_ok, ok_bind, fetch_eq h (by omega) (by omega), ok_bind, hDrop,
    List.take_of_length_le (by omega), Nat.add_sub_cancel_left, parseChunk, hChunk]
  rfl

theorem decompressSingleChunk_nil (lib : External) (keys : Option KeyStore)
    (h : client.Serves url (singleBytes [])) :
    ∃ e, decompressSingleChunk lib client url keys = .error e := by
  rw [decompressSingleChunk, h.length]
  exact ⟨.panic .expectFailed, rfl⟩

/-- With an empty table both ways give nothing; with another one the header is not read to
its end. -/
theorem decompressFromUrl_table (lib : External) (keys : Option KeyStore)
    (hServes : client.Serves url bytes) {extended : ExtendedHeader}
    (h : file.header.Tabled bytes extended) :
    if extended.chunkInfos = [] then decompressFromUrl lib client url keys = .ok []
    else ∃ e, decompressFromUrl lib client url keys = .error e := by
  have hRun : decompressFromUrl lib client url keys = (parseBlteHeader lib (bytes.take 12) >>=
      fun header => if header.isSingleChunk then decompressSingleChunk lib client url keys
        else decompressMultiChunk lib client url keys header) := by
    have hLength := h.length
    rw [decompressFromUrl, readBlteHeader, fetch_start hServes (by omega), ok_bind,
      take_drop_take (by omega), if_neg (fun hZero => h.size hZero.2), ok_bind]
  rw [hRun, parseBlteHeader, h.cut]
  split_ifs with hNil
  · rw [ok_bind, h.single, if_neg Bool.false_ne_true, decompressMultiChunk, h.table]
    dsimp only
    rw [hNil]
    rfl
  · exact ⟨_, rfl⟩

/-- A client that holds the file. -/
def holding (bytes : Bytes) : HttpClient where
  getRange _ range := .ok ((bytes.drop range.start).take (range.stop + 1 - range.start))
  getContentLength _ := .ok bytes.length

/-- A single chunk without keys. -/
def sampleSingle : Bytes := blteMagic.1 ++ [0, 0, 0, 0, 78, 5, 6]

end Cascette.Cdn
