import Cascette.Espec.Parser

/-!
# Compression of patch data

A patch archive says in an encoding specification how its data is cut into chunks and how each
chunk is compressed. A chunk without a size goes on to the end of the data; a size with a star but
no count is read as one block of that size (`decompressPatchData_iff`).
-/

namespace Cascette.Patch

open Lib Espec List

inductive CompressionError where
  | invalidCompressionSpec (info : List Char)
  /-- The code keeps the text of the parser's error. -/
  | invalidSpec (e : ESpecError)
  | unsupportedCompression (method : Char)
  | decompressionError

/-- The braces of a block table may stand alone. -/
def parseCompressionSpec (info : List Char) : Except (Halt CompressionError) ESpec :=
  let parse specStr :=
    match ESpec.parse specStr with
    | .ok spec => .ok spec
    | .error (.error e) => .error (.error (.invalidSpec e))
    | .error (.panic p) => .error (.panic p)
  if info.head? = some '{' ∧ info.getLast? = some '}' then parse ('b' :: ':' :: info)
  else if ['b', ':'] <+: info then parse info
  else .error (.error (.invalidCompressionSpec info))

section Decompress

variable (decompressZlib : Bytes → Except CompressionError Bytes)

def decompressChunk (data : Bytes) : ESpec → Except (Halt CompressionError) Bytes
  | .none => .ok data
  | .zlib .. => (decompressZlib data).mapError .error
  | _ => .error (.error (.unsupportedCompression '?'))

/-- The bytes that a size stands for. -/
def span (spec : BlockSizeSpec) : Nat := spec.size.toNat * (spec.count.getD 1).toNat

def chunkEnd (data : Bytes) (offset : Nat) : Option BlockSizeSpec → Checked Nat
  | some spec => do
    ensure (span spec < 2 ^ 64) .overflow
    let stop ← checkedAdd 64 offset (span spec)
    .ok (min stop data.length)
  | none => .ok data.length

def decompressChunks (data : Bytes) : List BlockChunk → Nat → Except (Halt CompressionError) Bytes
  | [], _ => .ok []
  | (sizeSpec, spec) :: chunks, offset => do
    let stop ← (chunkEnd data offset sizeSpec).mapError .panic
    if data.length ≤ offset then .ok []
    else do
      let chunkData ← (slice data offset stop).mapError .panic
      let decompressed ← decompressChunk decompressZlib chunkData spec
      let output ← decompressChunks data chunks stop
      .ok (decompressed ++ output)

def decompressPatchData (data : Bytes) : ESpec → Except (Halt CompressionError) Bytes
  | .none => .ok data
  | .zlib .. => (decompressZlib data).mapError .error
  | .blockTable chunks => decompressChunks decompressZlib data chunks 0
  | _ => .error (.error (.unsupportedCompression '?'))

/-! ## Chunks that are not compressed -/

/-- The bytes that a chunk with a size takes. -/
def taken (chunk : BlockChunk) : Nat := (chunk.1.map span).getD 0

/-- No end of a chunk overflows, up to the first chunk behind the data. -/
def Fits (length : Nat) : List BlockChunk → Nat → Prop
  | [], _ => True
  | (some size, _) :: chunks, offset => offset + span size < 2 ^ 64 ∧
    (offset < length → Fits length chunks (min (offset + span size) length))
  | (none, _) :: chunks, offset => offset < length → Fits length chunks length

variable {data : Bytes} {chunks : List BlockChunk} {offset : Nat}

theorem chunkEnd_some (data : Bytes) (offset : Nat) (size : BlockSizeSpec) :
    chunkEnd data offset (some size) = if offset + span size < 2 ^ 64 then
      .ok (min (offset + span size) data.length) else .error .overflow := by
  split_ifs with hFits
  · rw [chunkEnd, ensure_of (by omega), ok_bind, checkedAdd_eq hFits, ok_bind]
  · by_cases hSpan : span size < 2 ^ 64
    · rw [chunkEnd, ensure_of hSpan, ok_bind, checkedAdd, if_neg hFits]
      rfl
    · rw [chunkEnd, ensure, if_neg hSpan]
      rfl

theorem decompressChunks_cons {stop : Nat} {size : Option BlockSizeSpec}
    (hStop : chunkEnd data offset size = .ok stop) (hLe : offset ≤ stop) (hIn : stop ≤ data.length)
    (hLt : offset < data.length) :
    decompressChunks decompressZlib data ((size, .none) :: chunks) offset = .ok (data.drop offset) ↔
      decompressChunks decompressZlib data chunks stop = .ok (data.drop stop) := by
  have hSplit : data.drop offset = (data.take stop).drop offset ++ data.drop stop := by
    rw [← drop_append_of_le_length (by simp; omega), take_append_drop]
  have hSlice : slice data offset stop = .ok ((data.take stop).drop offset) := if_pos ⟨hLe, hIn⟩
  rw [decompressChunks, hStop, mapError_ok, ok_bind, if_neg hLt.not_ge]
  simp [hSlice, hSplit, decompressChunk, Except.mapError, bind_eq_ok]

theorem decompressChunks_iff (hOffset : offset ≤ data.length)
    (hPlain : ∀ chunk ∈ chunks, chunk.2 = .none) :
    decompressChunks decompressZlib data chunks offset = .ok (data.drop offset) ↔
      (none ∈ chunks.map Prod.fst ∨ data.length ≤ offset + (chunks.map taken).sum) ∧
        Fits data.length chunks offset := by
  induction chunks generalizing offset with
  | nil => simp [decompressChunks, Fits]
  | cons chunk chunks ih =>
    obtain ⟨size, spec⟩ := chunk
    obtain ⟨rfl, hRest⟩ := forall_mem_cons.mp hPlain
    cases size with
    | none =>
      have hEnd : chunkEnd data offset none = .ok data.length := rfl
      rcases Nat.eq_or_lt_of_le hOffset with rfl | hLt
      · simp [decompressChunks, hEnd, mapError_ok, ok_bind, Fits]
      · rw [decompressChunks_cons decompressZlib hEnd hOffset le_rfl hLt, ih le_rfl hRest]
        simp [Fits, hLt]
    | some size =>
      have hEnd := chunkEnd_some data offset size
      by_cases hFits : offset + span size < 2 ^ 64
      · rw [if_pos hFits] at hEnd
        rcases Nat.eq_or_lt_of_le hOffset with rfl | hLt
        · simpa [decompressChunks, hEnd, mapError_ok, ok_bind, Fits] using hFits
        · have hTaken : taken (some size, .none) = span size := rfl
          rw [decompressChunks_cons decompressZlib hEnd (by omega) (by omega) hLt,
            ih (by omega) hRest, Fits, and_iff_right hFits, imp_iff_right hLt]
          simp only [map_cons, mem_cons, reduceCtorEq, false_or, sum_cons]
          exact and_congr_left fun _ => or_congr_right (by omega)
      · rw [if_neg hFits] at hEnd
        rw [decompressChunks, hEnd, Fits]
        exact iff_of_false nofun fun h => hFits h.2.1

/-- Data in chunks that are not compressed is given back if the chunks reach its end and none of
their ends overflows. -/
theorem decompressPatchData_iff (data : Bytes) (hPlain : ∀ chunk ∈ chunks, chunk.2 = .none) :
    decompressPatchData decompressZlib data (.blockTable chunks) = .ok data ↔
      (none ∈ chunks.map Prod.fst ∨ data.length ≤ (chunks.map taken).sum) ∧
        Fits data.length chunks 0 := by
  have h := decompressChunks_iff decompressZlib (Nat.zero_le data.length) hPlain
  rwa [drop_zero, Nat.zero_add] at h

theorem decompressPatchData_iff_sample :
    let spec : ESpec := .blockTable [(some ⟨1, none⟩, .none), (none, .none)]
    parseCompressionSpec ['{', '1', '=', 'n', ',', '*', '=', 'n', '}'] = .ok spec ∧
      decompressPatchData .ok [7, 8] spec = .ok [7, 8] := by
  refine ⟨rfl, (decompressPatchData_iff .ok [7, 8] (by simp)).mpr ⟨.inl (by simp), ?_⟩⟩
  simp [Fits, span]

end Decompress

/-- A size with a star: the rest of the data is dropped. -/
theorem decompressPatchData_refuted :
    ∃ spec, parseCompressionSpec ['{', '1', '*', '=', 'n', '}'] = .ok spec ∧
      decompressPatchData .ok [7, 8] spec = .ok [7] :=
  ⟨_, rfl, rfl⟩

end Cascette.Patch
