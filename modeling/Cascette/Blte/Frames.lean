import Cascette.Blte.File

/-!
# Decompression with and without keys

A frame is a chunk that holds a file, whose chunks may again be frames. Without keys, a frame in a
frame is refused; with keys, frames are opened at every depth. So the two ways to decompress a file
without encrypted chunks agree exactly if no frame lies in a frame, or some chunk cannot be
decompressed anyway (`decompress_agrees_iff`).
-/

namespace Cascette.Blte

open Lib List ChunkData

/-- The chunks of a file and of the files in its frames. -/
inductive BlteFile.Encloses : BlteFile → ChunkData → Prop
  | chunk {file : BlteFile} {chunk : ChunkData} (hChunk : chunk ∈ file.chunks) : Encloses file chunk
  | frame {file inner : BlteFile} {frame chunk : ChunkData} (hFrame : frame ∈ file.chunks)
      (hMode : frame.mode = .frame) (hParse : BlteFile.parse frame.data = .ok inner)
      (hChunk : Encloses inner chunk) : Encloses file chunk

/-- No chunk is encrypted, at any depth. -/
def BlteFile.Unencrypted (file : BlteFile) : Prop :=
  ∀ chunk, file.Encloses chunk → chunk.mode ≠ .encrypted

/-- A frame holds a file that has a frame. -/
def BlteFile.NestedFrame (file : BlteFile) : Prop :=
  ∃ frame ∈ file.chunks, frame.mode = .frame ∧ ∃ inner, BlteFile.parse frame.data = .ok inner ∧
    ∃ chunk ∈ inner.chunks, chunk.mode = .frame

/-- The chunk by itself can be decompressed: its codec takes it, or it holds a file. -/
def ChunkData.Sound (lib : External) (chunk : ChunkData) : Prop :=
  match chunk.mode with
  | .none => True
  | .zLib => ∃ bytes, inflateChunk lib chunk.data = .ok bytes
  | .lz4 => ∃ bytes, decompressLz4Bnl lib chunk.data = .ok bytes
  | .encrypted => False
  | .frame => ∃ inner, BlteFile.parse chunk.data = .ok inner

variable {lib : External} {chunk : ChunkData}

theorem ChunkData.decompress_of_ne_frame (hFrame : chunk.mode ≠ .frame) (levels : Nat) :
    decompressChunkRecursive lib levels chunk.mode chunk.data = chunk.decompress lib := by
  rw [decompress, decompressChunk]
  cases hMode : chunk.mode with
  | frame => exact absurd hMode hFrame
  | none | zLib | lz4 | encrypted => cases levels <;> rfl

theorem ChunkData.sound_iff (hFrame : chunk.mode ≠ .frame) :
    chunk.Sound lib ↔ ∃ bytes, chunk.decompress lib = .ok bytes := by
  rw [decompress, decompressChunk, Sound]
  cases hMode : chunk.mode with
  | frame => exact absurd hMode hFrame
  | none => exact ⟨fun _ => ⟨_, rfl⟩, fun _ => trivial⟩
  | zLib | lz4 => exact Iff.rfl
  | encrypted =>
    refine ⟨False.elim, fun h => ?_⟩
    obtain ⟨_, hErr⟩ := h
    cases hErr

theorem parseFrame_eq_ok {data : Bytes} {inner : BlteFile} :
    parseFrame lib data = .ok inner ↔ BlteFile.parse data = .ok inner :=
  mapError_eq_ok

namespace BlteFile

variable {lib : External} {keyStore : KeyStore} {file : BlteFile}

/-! ## Frames are shorter than what they are in -/

variable {bytes data : Bytes} {fuel : Nat} {mode : CompressionMode}

theorem length_lt_of_parse {inner : BlteFile} (h : parse bytes = .ok inner)
    (hChunk : chunk ∈ inner.chunks) : chunk.data.length < bytes.length := by
  obtain ⟨rest, hRead⟩ : ∃ rest, read bytes = .ok (inner, rest) := by
    unfold parse at h
    cases hRead : read bytes with
    | error e =>
      rw [hRead] at h
      cases h
    | ok res =>
      rw [hRead] at h
      cases h
      exact ⟨res.2, rfl⟩
  have hWrite : chunk.write.length ≤ (inner.chunks.map ChunkData.write).flatten.length := by
    rw [List.length_flatten]
    exact List.single_le_sum (fun _ _ => Nat.zero_le _) _ (mem_map_of_mem (mem_map_of_mem hChunk))
  have hLength : chunk.write.length = chunk.data.length + 1 := rfl
  rw [← write_of_read hRead, build, length_append, length_append]
  omega

/-! ## With keys, frames are opened at every depth -/

/-- A chunk that is not encrypted, whatever its index is. -/
def plainPart (lib : External) (openFrame : Bytes → Except (Halt BlteError) Bytes)
    (chunk : ChunkData) : Except (Halt BlteError) Bytes :=
  if chunk.mode = .frame then openFrame chunk.data else chunk.decompress lib

theorem decompressParts_eq (h : ∀ chunk ∈ file.chunks, chunk.mode ≠ .encrypted)
    (openFrame : Bytes → Except (Halt BlteError) Bytes) :
    decompressParts lib keyStore openFrame file = (do
      let parts ← file.chunks.mapM (plainPart lib openFrame)
      .ok parts.flatten) := by
  have hFirst : ¬ (file.header.isSingleChunk = true ∧
      file.chunks.head?.map ChunkData.mode = some .encrypted) := by
    rintro ⟨-, hHead⟩
    obtain ⟨chunk, hChunk, hMode⟩ := Option.map_eq_some_iff.mp hHead
    exact h chunk (mem_of_mem_head? hChunk) hMode
  have hParts : ∀ chunk ∈ file.chunks, ∀ i,
      decompressPart lib keyStore openFrame (chunk, i) = plainPart lib openFrame chunk := by
    intro chunk hChunk i
    have hNe := h chunk hChunk
    rw [decompressPart, plainPart]
    cases hMode : chunk.mode with
    | encrypted => exact absurd hMode hNe
    | _ => rfl
  rw [decompressParts, if_neg hFirst, mapM_zipIdx hParts]

theorem exists_decompressParts_iff (h : ∀ chunk ∈ file.chunks, chunk.mode ≠ .encrypted)
    {openFrame : Bytes → Except (Halt BlteError) Bytes} :
    (∃ bytes, decompressParts lib keyStore openFrame file = .ok bytes) ↔
      ∀ chunk ∈ file.chunks, ∃ bytes, plainPart lib openFrame chunk = .ok bytes := by
  rw [decompressParts_eq h, ← exists_mapM_iff]
  constructor
  · rintro ⟨bytes, hBytes⟩
    obtain ⟨parts, hParts, -⟩ := bind_eq_ok.mp hBytes
    exact ⟨parts, hParts⟩
  · rintro ⟨parts, hParts⟩
    rw [hParts]
    exact ⟨parts.flatten, rfl⟩

theorem Unencrypted.chunks (h : file.Unencrypted) : ∀ chunk ∈ file.chunks,
    chunk.mode ≠ .encrypted :=
  fun chunk hChunk => h chunk (.chunk hChunk)

theorem Unencrypted.inner (h : file.Unencrypted) {frame : ChunkData} (hFrame : frame ∈ file.chunks)
    (hMode : frame.mode = .frame) {inner : BlteFile} (hParse : parse frame.data = .ok inner) :
    inner.Unencrypted :=
  fun chunk hChunk => h chunk (.frame hFrame hMode hParse hChunk)

/-- What is done with a frame. -/
def openFrame (lib : External) (keyStore : KeyStore) : Nat → Bytes → Except (Halt BlteError) Bytes
  | 0, _ => .error (.panic .outOfFuel)
  | fuel + 1, data => do
    let inner ← parseFrame lib data
    decompressFrames lib keyStore fuel inner

theorem exists_decompressFrames_iff (h : file.Unencrypted) :
    (∃ bytes, decompressFrames lib keyStore fuel file = .ok bytes) ↔
      ∀ chunk ∈ file.chunks, ∃ bytes,
        plainPart lib (openFrame lib keyStore fuel) chunk = .ok bytes := by
  cases fuel <;> exact exists_decompressParts_iff h.chunks

theorem openFrame_eq_ok (h : openFrame lib keyStore fuel data = .ok bytes) : ∃ inner,
      parse data = .ok inner ∧ ∃ fuel, decompressFrames lib keyStore fuel inner = .ok bytes := by
  cases fuel with
  | zero => cases h
  | succ fuel =>
    obtain ⟨inner, hInner, h⟩ := bind_eq_ok.mp h
    exact ⟨inner, parseFrame_eq_ok.mp hInner, fuel, h⟩

theorem decompressFrames_of_sound (hUnencrypted : file.Unencrypted)
    (hSound : ∀ chunk, file.Encloses chunk → chunk.Sound lib)
    (hFuel : ∀ chunk ∈ file.chunks, chunk.data.length < fuel) :
    ∃ bytes, decompressFrames lib keyStore fuel file = .ok bytes := by
  induction fuel generalizing file with
  | zero =>
    refine (exists_decompressFrames_iff hUnencrypted).mpr fun chunk hChunk => ?_
    exact absurd (hFuel chunk hChunk) (Nat.not_lt_zero _)
  | succ fuel ih =>
    refine (exists_decompressFrames_iff hUnencrypted).mpr fun chunk hChunk => ?_
    have hChunkSound := hSound chunk (.chunk hChunk)
    by_cases hMode : chunk.mode = .frame
    · rw [ChunkData.Sound, hMode] at hChunkSound
      obtain ⟨inner, hParse⟩ := hChunkSound
      rw [plainPart, if_pos hMode, openFrame, parseFrame_eq_ok.mpr hParse, ok_bind]
      apply ih (hUnencrypted.inner hChunk hMode hParse)
      · exact fun c hc => hSound c (.frame hChunk hMode hParse hc)
      · intro c hc
        have hLt := length_lt_of_parse hParse hc
        have hBound := hFuel chunk hChunk
        omega
    · rw [plainPart, if_neg hMode]
      exact (sound_iff hMode).mp hChunkSound

theorem sound_of_decompressFrames (hChunk : file.Encloses chunk)
    (hUnencrypted : file.Unencrypted) (h : decompressFrames lib keyStore fuel file = .ok bytes) :
    chunk.Sound lib := by
  induction hChunk generalizing fuel bytes with
  | @chunk file chunk hChunk =>
    obtain ⟨part, hPart⟩ := (exists_decompressFrames_iff hUnencrypted).mp ⟨bytes, h⟩ chunk hChunk
    by_cases hMode : chunk.mode = .frame
    · rw [plainPart, if_pos hMode] at hPart
      obtain ⟨inner, hParse, -⟩ := openFrame_eq_ok hPart
      rw [ChunkData.Sound, hMode]
      exact ⟨inner, hParse⟩
    · rw [plainPart, if_neg hMode] at hPart
      exact (sound_iff hMode).mpr ⟨part, hPart⟩
  | @frame file inner frame chunk hFrame hMode hParse _ ih =>
    obtain ⟨part, hPart⟩ := (exists_decompressFrames_iff hUnencrypted).mp ⟨bytes, h⟩ frame hFrame
    rw [plainPart, if_pos hMode] at hPart
    obtain ⟨inner', hParse', fuel', hInner⟩ := openFrame_eq_ok hPart
    cases hParse.symm.trans hParse'
    exact ih (hUnencrypted.inner hFrame hMode hParse) hInner

/-! ## Without keys, a frame in a frame is refused -/

theorem decompress_of_nestedFrame (h : file.NestedFrame) (bytes : Bytes) :
    file.decompress lib ≠ .ok bytes := by
  intro hDecompress
  obtain ⟨frame, hFrame, hMode, inner, hParse, chunk, hChunk, hChunkMode⟩ := h
  obtain ⟨parts, hParts, -⟩ := bind_eq_ok.mp hDecompress
  obtain ⟨part, hPart⟩ := exists_mapM_iff.mp ⟨parts, hParts⟩ frame hFrame
  rw [ChunkData.decompress, decompressChunk, maxFrameDepth, hMode, decompressChunkRecursive,
    parseFrame_eq_ok.mpr hParse, ok_bind] at hPart
  obtain ⟨innerParts, hInnerParts, -⟩ := bind_eq_ok.mp hPart
  obtain ⟨innerPart, hInnerPart⟩ := exists_mapM_iff.mp ⟨innerParts, hInnerParts⟩ chunk hChunk
  rw [hChunkMode] at hInnerPart
  cases hInnerPart

theorem decompressFrames_of_no_frame (hUnencrypted : file.Unencrypted)
    (hPlain : ∀ chunk ∈ file.chunks, chunk.mode ≠ .frame) (fuel levels : Nat) :
    decompressFrames lib keyStore fuel file = (do
      let parts ← file.chunks.mapM fun chunk =>
        decompressChunkRecursive lib levels chunk.mode chunk.data
      .ok parts.flatten) := by
  have hParts (openFrame : Bytes → Except (Halt BlteError) Bytes) :
      file.chunks.mapM (plainPart lib openFrame) = file.chunks.mapM fun chunk =>
        decompressChunkRecursive lib levels chunk.mode chunk.data := by
    refine mapM_congr_mem fun chunk hChunk => ?_
    rw [plainPart, if_neg (hPlain chunk hChunk), decompress_of_ne_frame (hPlain chunk hChunk)]
  cases fuel <;> rw [decompressFrames, decompressParts_eq hUnencrypted.chunks, hParts]

/-- Without a frame in a frame the two ways are the same, errors included. -/
theorem decompress_eq_decompressWithKeys (hUnencrypted : file.Unencrypted)
    (hNested : ¬ file.NestedFrame) :
    file.decompress lib = file.decompressWithKeys lib keyStore := by
  rw [decompressWithKeys, decompressFrames, decompressParts_eq hUnencrypted.chunks, decompress]
  have hParts : file.chunks.mapM (ChunkData.decompress lib) =
      file.chunks.mapM (plainPart lib (openFrame lib keyStore (file.dataLength + 1))) := by
    refine mapM_congr_mem fun chunk hChunk => ?_
    by_cases hMode : chunk.mode = .frame
    · rw [plainPart, if_pos hMode, ChunkData.decompress, decompressChunk, maxFrameDepth, hMode,
        decompressChunkRecursive, openFrame]
      cases hParse : parseFrame lib chunk.data with
      | error e => rfl
      | ok inner =>
        have hInner := parseFrame_eq_ok.mp hParse
        have hPlain : ∀ c ∈ inner.chunks, c.mode ≠ .frame := fun c hc hFrame =>
          hNested ⟨chunk, hChunk, hMode, inner, hInner, c, hc, hFrame⟩
        rw [ok_bind, ok_bind, decompressFrames_of_no_frame
          (hUnencrypted.inner hChunk hMode hInner) hPlain _ 0]
    · rw [plainPart, if_neg hMode]
  rw [hParts]
  rfl

/-! ## When the two ways agree -/

theorem decompressWithKeys_of_sound (hUnencrypted : file.Unencrypted)
    (hSound : ∀ chunk, file.Encloses chunk → chunk.Sound lib) :
    ∃ bytes, file.decompressWithKeys lib keyStore = .ok bytes := by
  refine decompressFrames_of_sound hUnencrypted hSound fun chunk hChunk => ?_
  have hSum := List.single_le_sum (fun _ _ => Nat.zero_le _) _
    (mem_map_of_mem (f := fun c : ChunkData => c.data.length) hChunk)
  exact Nat.lt_succ_of_le hSum

/-- For a file without encrypted chunks both ways fail or both return the same bytes, exactly if
no frame lies in a frame or some chunk of it is not sound. -/
theorem decompress_agrees_iff (hUnencrypted : file.Unencrypted) :
    (∀ bytes, file.decompress lib = .ok bytes ↔
      file.decompressWithKeys lib keyStore = .ok bytes) ↔
        (file.NestedFrame → ∃ chunk, file.Encloses chunk ∧ ¬ chunk.Sound lib) := by
  constructor
  · intro hAgree hNested
    by_contra hNone
    have hSound : ∀ chunk, file.Encloses chunk → chunk.Sound lib := by
      intro chunk hChunk
      by_contra hUnsound
      exact hNone ⟨chunk, hChunk, hUnsound⟩
    have hOk : ∃ bytes, file.decompressWithKeys lib keyStore = .ok bytes :=
      decompressWithKeys_of_sound hUnencrypted hSound
    obtain ⟨bytes, hBytes⟩ := hOk
    exact decompress_of_nestedFrame hNested bytes ((hAgree bytes).mpr hBytes)
  · intro hCondition bytes
    by_cases hNested : file.NestedFrame
    · obtain ⟨chunk, hChunk, hUnsound⟩ := hCondition hNested
      constructor
      · exact fun h => absurd h (decompress_of_nestedFrame hNested bytes)
      · exact fun h => absurd (sound_of_decompressFrames hChunk hUnencrypted h) hUnsound
    · rw [decompress_eq_decompressWithKeys hUnencrypted hNested]

/-- A file with a single chunk. -/
def holding (mode : CompressionMode) (data : Bytes) : BlteFile :=
  { header := .singleChunk, chunks := [⟨mode, data, none⟩] }

def nestedSample : BlteFile := holding .frame (holding .frame (holding .none [7]).build).build

theorem unencrypted_holding (hMode : mode ≠ .encrypted)
    (hInner : mode = .frame → ∀ inner, parse data = .ok inner → inner.Unencrypted) :
    (holding mode data).Unencrypted := by
  intro chunk hChunk
  cases hChunk with
  | chunk hChunk =>
    cases mem_singleton.mp hChunk
    exact hMode
  | frame hFrame hFrameMode hParse hChunk =>
    cases mem_singleton.mp hFrame
    exact hInner hFrameMode _ hParse chunk hChunk

theorem parse_build_holding (mode : CompressionMode) (data : Bytes) :
    parse (holding mode data).build = .ok (holding mode data) :=
  congrArg (Except.map Prod.fst) (read_build_single ⟨mode, data, none⟩)

theorem unencrypted_holding_build (h : (holding mode data).Unencrypted) :
    (holding .frame (holding mode data).build).Unencrypted := by
  refine unencrypted_holding (by decide) fun _ inner hParse => ?_
  cases (parse_build_holding mode data).symm.trans hParse
  exact h

theorem nestedSample_unencrypted : nestedSample.Unencrypted :=
  unencrypted_holding_build (unencrypted_holding_build
    (unencrypted_holding (by decide) fun h => nomatch h))

theorem decompress_agrees_iff_sample : nestedSample.Unencrypted ∧
    ((∀ bytes, nestedSample.decompress storing = .ok bytes ↔
      nestedSample.decompressWithKeys storing (fun _ => .ok none) = .ok bytes) ↔
        (nestedSample.NestedFrame →
          ∃ chunk, nestedSample.Encloses chunk ∧ ¬ chunk.Sound storing)) :=
  ⟨nestedSample_unencrypted, decompress_agrees_iff nestedSample_unencrypted⟩

/-- Only the way with keys opens the second frame. -/
theorem decompress_disagrees : parse nestedSample.build = .ok nestedSample ∧
    nestedSample.Unencrypted ∧
    nestedSample.decompress storing = .error (.error (.recursionLimitExceeded 1)) ∧
    nestedSample.decompressWithKeys storing (fun _ => .ok none) = .ok [7] :=
  ⟨parse_build_holding _ _, nestedSample_unencrypted, rfl, rfl⟩

end BlteFile

end Cascette.Blte
