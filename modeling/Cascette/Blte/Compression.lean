import Cascette.Blte.Format
import Cascette.Lib.Lz4
import Cascette.Lib.Records

/-!
# Compression of chunks

The codecs themselves are parameters (`External`). What the code adds is modelled: the size limit,
the frames that nest a file in a chunk, and the framing of LZ4 blocks, where the decoder finds the
end of a block by walking over its tokens. If the codecs decode what they have encoded, a chunk
that was compressed is decompressed to the same data (`decompressChunk_compressChunk`).
-/

namespace Cascette.Blte

open Lib List Nat UInt32

inductive BlteError
  | invalidChunkCount (count : UInt32)
  | invalidChunkSize (size min max : Nat)
  | compressionError (message : String)
  | invalidIvSize (actual : UInt8)
  | recursionLimitExceeded (maxDepth : Nat)
  | nestedEncryption
  | singleChunkEncrypted
deriving DecidableEq

/-- The codecs of the compression libraries. The decoder of zlib yields bytes until it ends or
fails; LZ4 blocks may refer to a dictionary. -/
structure External where
  deflate : Bytes → Except String Bytes
  inflate : Bytes → Bytes × Option String
  lz4Compress (dict input : Bytes) : Bytes
  lz4Decompress (block : Bytes) (minUncompressedSize : Nat) (dict : Bytes) : Except String Bytes
  /-- The text of a reader's error. -/
  display : ReadError → String

/-- The codecs decode what they have encoded. Zlib data is not empty; LZ4 blocks have the format of
LZ4 and keep the bound that the library gives for their length. -/
structure External.Inverts (lib : External) : Prop where
  inflate {data compressed : Bytes} : lib.deflate data = .ok compressed →
    lib.inflate compressed = (data, none)
  zlibHeader {data compressed : Bytes} : lib.deflate data = .ok compressed → 2 ≤ compressed.length
  lz4Format (dict input : Bytes) : ∃ block : Lz4.Block,
    lib.lz4Compress dict input = block.encode ∧ block.outputLength = input.length
  lz4Bound (dict input : Bytes) :
    (lib.lz4Compress dict input).length ≤ 20 + input.length + input.length / 10
  lz4 (dict input : Bytes) :
    lib.lz4Decompress (lib.lz4Compress dict input) input.length dict = .ok input

def maxDecompressionSize : Nat := 1024 * 1024 * 1024

def maxFrameDepth : Nat := 1

def lz4DefaultBlockSize : Nat := 0x4000

def lz4DictWindow : Nat := 64 * 1024

def lz4HeaderSize : Nat := 10

/-! ## LZ4 framing -/

/-- The last bytes of the output, which the next block may refer to. -/
def dictTail (output : Bytes) : Bytes := output.drop (output.length - lz4DictWindow)

/-- The blocks one after the other. -/
def lz4Blocks (lib : External) : Bytes → List Bytes → Bytes
  | _, [] => []
  | dict, input :: inputs =>
    lib.lz4Compress dict input ++ lz4Blocks lib (dictTail (dict ++ input)) inputs

def compressLz4 (lib : External) (data : Bytes) : Bytes :=
  let blocks := lz4Blocks lib [] (chunks lz4DefaultBlockSize data)
  [0x01] ++ beBytes 4 (UInt32.ofNat blocks.length).toNat ++
    beBytes 4 (UInt32.ofNat data.length).toNat ++ [14] ++ blocks

def lz4Error (message : String) : Halt BlteError :=
  .error (.compressionError ("LZ4 decompression failed: " ++ message))

/-- Upper case hexadecimal digits. -/
def hexUpper (n : Nat) : String := String.ofList ((Nat.toDigits 16 n).map Char.toUpper)

/-- At least two upper case hexadecimal digits. -/
def hexByte (byte : UInt8) : String :=
  if byte < 16 then "0" ++ hexUpper byte.toNat else hexUpper byte.toNat

/-- Adds the bytes that extend a length, up to the first that is not 255. -/
def extendLength (message : String) : Nat → Bytes → Except (Halt BlteError) (Nat × Bytes)
  | _, [] => .error (lz4Error message)
  | len, byte :: rest =>
    if byte ≠ 255 then .ok (len + byte.toNat, rest)
    else extendLength message (len + byte.toNat) rest

def readLength (message : String) (len : Nat) (rest : Bytes) :
    Except (Halt BlteError) (Nat × Bytes) :=
  if len = 15 then extendLength message len rest else .ok (len, rest)

/-- Walks over the tokens of a block and returns what is left behind it. A block ends when its
output reaches the cap or its literals end the input. -/
def walkBlock (cap : Nat) : Nat → Nat → Bytes → Except (Halt BlteError) Bytes
  | 0, _, _ => .error (.panic .outOfFuel)
  | _ + 1, _, [] => .error (lz4Error "truncated block stream")
  | fuel + 1, blockOut, token :: rest => do
    let (litLen, rest) ← readLength "truncated literal length" (token >>> 4).toNat rest
    if litLen > rest.length then .error (lz4Error "literals exceed block stream")
    else
      let rest := rest.drop litLen
      let blockOut := blockOut + litLen
      if blockOut > cap then .error (lz4Error "block output exceeds cap")
      else if blockOut = cap ∨ rest = [] then .ok rest
      else if rest.length < 2 then .error (lz4Error "truncated match offset")
      else do
        let (matchLen, rest) ← readLength "truncated match length" (token &&& 15).toNat
          (rest.drop 2)
        let blockOut := blockOut + (matchLen + 4)
        if blockOut > cap then .error (lz4Error "block output exceeds cap")
        else walkBlock cap fuel blockOut rest

/-- Decodes block after block until the output is complete. -/
def decodeBlocks (lib : External) (blockSize total : Nat) :
    Nat → Bytes → Bytes → Except (Halt BlteError) Bytes
  | fuel, src, output =>
    if output.length < total then
      match fuel with
      | 0 => .error (.panic .outOfFuel)
      | fuel + 1 => do
        let cap := min (total - output.length) blockSize
        let rest ← walkBlock cap (src.length + 1) 0 src
        let block := src.take (src.length - rest.length)
        match lib.lz4Decompress block cap (dictTail output) with
        | .error e => .error (lz4Error e)
        | .ok decoded =>
          if decoded.length ≠ cap then
            .error (lz4Error ("block decompressed to " ++ toString decoded.length ++
              " bytes, expected " ++ toString cap))
          else decodeBlocks lib blockSize total fuel rest (output ++ decoded)
    else if src ≠ [] then .error (lz4Error "trailing bytes after the final block")
    else .ok output

def decompressLz4Bnl (lib : External) (data : Bytes) : Except (Halt BlteError) Bytes :=
  if data.length < lz4HeaderSize then
    .error (lz4Error "data too short for the 10-byte bnl header")
  else
    let format := data.headD 0
    if format ≠ 0x01 then .error (lz4Error ("unsupported format byte 0x" ++ hexByte format))
    else
      let compressedTotal := ofBe ((data.drop 1).take 4)
      let decompressedTotal := ofBe ((data.drop 5).take 4)
      let exponent := (data.drop 9).headD 0
      if exponent ≥ 32 then
        .error (lz4Error ("block-size exponent " ++ toString exponent.toNat ++ " out of range"))
      else
        let blockSize := 2 ^ exponent.toNat
        if blockSize ≤ 0x400 ∨ blockSize > 0x10000 then
          .error (lz4Error ("block size 0x" ++ hexUpper blockSize ++
            " out of range (0x800..=0x10000)"))
        else if decompressedTotal > maxDecompressionSize then
          .error (lz4Error ("decompressed size " ++ toString decompressedTotal ++
            " exceeds limit of " ++ toString maxDecompressionSize ++ " bytes"))
        else if compressedTotal + lz4HeaderSize ≠ data.length then
          .error (lz4Error "header compressed total does not match payload size")
        else decodeBlocks lib blockSize decompressedTotal decompressedTotal
          (data.drop lz4HeaderSize) []

/-! ## Chunks -/

def compressChunk (lib : External) (data : Bytes) : CompressionMode → Except BlteError Bytes
  | .none => .ok data
  | .zLib => (lib.deflate data).mapError fun e =>
      .compressionError ("ZLib compression failed: " ++ e)
  | .lz4 => .ok (compressLz4 lib data)
  | .encrypted => .error (.compressionError "Use encrypt_chunk_with_key for encryption mode")
  | .frame => .error (.compressionError "Frame (recursive BLTE) compression is not supported")

def inflateChunk (lib : External) (data : Bytes) : Except (Halt BlteError) Bytes :=
  let (decompressed, failure) := lib.inflate data
  if decompressed.length > maxDecompressionSize then
    .error (.error (.compressionError ("Decompressed size exceeds limit of " ++
      toString maxDecompressionSize ++ " bytes")))
  else
    match failure with
    | some e => .error (.error (.compressionError ("ZLib decompression failed: " ++ e)))
    | none => .ok decompressed

/-- The file in a frame. -/
def parseFrame (lib : External) (data : Bytes) : Except (Halt BlteError) BlteFile :=
  (BlteFile.parse data).mapError fun
    | .panic p => .panic p
    | .error e => .error (.compressionError
        ("Failed to parse inner BLTE frame: binary parsing error: " ++ lib.display e))

/-- `levels` is the number of frames that may still be opened. -/
def decompressChunkRecursive (lib : External) : Nat → CompressionMode → Bytes →
    Except (Halt BlteError) Bytes
  | _, .none, data => .ok data
  | _, .zLib, data => inflateChunk lib data
  | _, .lz4, data => decompressLz4Bnl lib data
  | _, .encrypted, _ =>
    .error (.error (.compressionError "Use decrypt_chunk_with_keys for encrypted chunks"))
  | 0, .frame, _ => .error (.error (.recursionLimitExceeded maxFrameDepth))
  | levels + 1, .frame, data => do
    let inner ← parseFrame lib data
    let parts ← inner.chunks.mapM fun chunk =>
      decompressChunkRecursive lib levels chunk.mode chunk.data
    .ok parts.flatten

def decompressChunk (lib : External) (data : Bytes) (mode : CompressionMode) :
    Except (Halt BlteError) Bytes :=
  decompressChunkRecursive lib maxFrameDepth mode data

/-! ## Blocks are found again -/

theorem extendLength_replicate (message : String) (q len : Nat) {r : Nat} (hr : r < 255)
    (rest : Bytes) :
    extendLength message len (replicate q 255 ++ UInt8.ofNat r :: rest) =
      .ok (len + q * 255 + r, rest) := by
  have hByte : (UInt8.ofNat r).toNat = r := UInt8.toNat_ofNat_of_lt' (lt_succ_of_lt hr)
  induction q generalizing len with
  | zero =>
    have hNe : UInt8.ofNat r ≠ 255 := by
      intro hEq
      rw [hEq] at hByte
      exact absurd hByte (by change ¬ 255 = r; omega)
    rw [replicate_zero, nil_append, extendLength, if_pos hNe, hByte, Nat.zero_mul, Nat.add_zero]
  | succ q ih =>
    have hFull : (255 : UInt8).toNat = 255 := rfl
    rw [replicate_succ, cons_append, extendLength, if_neg (not_not.mpr rfl), ih, hFull, succ_mul]
    congr 2
    omega

theorem readLength_extension (message : String) (n : Nat) (rest : Bytes) :
    readLength message (min n 15) (Lz4.extension n ++ rest) = .ok (n, rest) := by
  by_cases hn : n < 15
  · rw [Lz4.extension, if_pos hn, readLength, if_neg (by omega), Nat.min_eq_left (by omega)]
    rfl
  · have hDiv := div_add_mod (n - 15) 255
    rw [Lz4.extension, if_neg hn, Nat.min_eq_right (by omega), readLength, if_pos rfl,
      append_assoc, singleton_append,
      extendLength_replicate message _ _ (mod_lt _ (by decide))]
    congr 2
    omega

theorem walkBlock_encode {cap : Nat} (b : Lz4.Block) (rest : Bytes) (fuel blockOut : Nat)
    (hOut : blockOut + b.outputLength = cap) (hFuel : b.sequences.length < fuel) :
    walkBlock cap fuel blockOut (b.encode ++ rest) = .ok rest := by
  obtain ⟨sequences, literals, low⟩ := b
  induction sequences generalizing fuel blockOut with
  | nil =>
    cases fuel with
    | zero => exact absurd hFuel (not_lt_zero _)
    | succ fuel =>
      have hCap : blockOut + literals.length = cap := by
        simpa [Lz4.Block.outputLength] using hOut
      rw [Lz4.Block.encode, map_nil, flatten_nil, nil_append, Lz4.Block.encodeLast,
        cons_append, walkBlock, Lz4.token_high, append_assoc, readLength_extension, ok_bind]
      dsimp only
      rw [if_neg (by rw [length_append]; omega), drop_left, if_neg (by omega), if_pos (.inl hCap)]
  | cons s sequences ih =>
    cases fuel with
    | zero => exact absurd hFuel (not_lt_zero _)
    | succ fuel =>
      set tail := Lz4.Block.encode ⟨sequences, literals, low⟩ ++ rest with hTail
      have hSplit : Lz4.Block.encode ⟨s :: sequences, literals, low⟩ ++ rest =
          Lz4.token s.literals.length s.extraLength :: (Lz4.extension s.literals.length ++
            (s.literals ++ (s.offset.1 ++ (Lz4.extension s.extraLength ++ tail)))) := by
        rw [hTail, Lz4.Block.encode, map_cons, flatten_cons, Lz4.Sequence.encode]
        simp only [Lz4.Block.encode, Lz4.Block.encodeLast, cons_append, append_assoc]
      have hLength : blockOut + (s.literals.length + (s.extraLength + 4)) +
          Lz4.Block.outputLength ⟨sequences, literals, low⟩ = cap := by
        rw [← hOut]
        simp only [Lz4.Block.outputLength, map_cons, sum_cons, Lz4.Sequence.outputLength]
        omega
      have hOffset : s.offset.1.length = 2 := s.offset.2
      have hNe : s.offset.1 ++ (Lz4.extension s.extraLength ++ tail) ≠ [] := by
        apply ne_nil_of_length_pos
        rw [length_append]
        omega
      rw [hSplit, walkBlock, Lz4.token_high, readLength_extension, ok_bind]
      dsimp only
      rw [if_neg (by rw [length_append]; omega), drop_left, if_neg (by omega),
        if_neg (by rw [not_or]; exact ⟨by omega, hNe⟩),
        if_neg (by rw [length_append]; omega), drop_left' hOffset, Lz4.token_low,
        readLength_extension, ok_bind]
      rw [if_neg (by omega)]
      exact ih fuel _ (by omega) (by simpa using hFuel)

/-! ## Round trips -/

theorem dictTail_append (output input : Bytes) :
    dictTail (dictTail output ++ input) = dictTail (output ++ input) := by
  have hDrop : dictTail output ++ input =
      (output ++ input).drop (output.length - lz4DictWindow) := by
    rw [dictTail, drop_append_of_le_length (sub_le _ _)]
  have hCount (n m w : Nat) : n - w + (n + m - (n - w) - w) = n + m - w := by omega
  rw [hDrop, dictTail, dictTail, drop_drop, length_drop, length_append, hCount]

variable {lib : External} {data : Bytes} {blockSize : Nat}

theorem decodeBlocks_done {total fuel : Nat} {output : Bytes}
    (h : output.length = total) :
    decodeBlocks lib blockSize total fuel [] output = .ok output := by
  cases fuel <;> rw [decodeBlocks, if_neg (by omega), if_neg (not_not.mpr rfl)]

/-- Decoding goes through the inputs one after the other. All but the last are full. -/
theorem decodeBlocks_lz4Blocks (hLib : lib.Inverts) (hSize : 0 < blockSize)
    (input output : Bytes) (fuel total : Nat) (hTotal : output.length + input.length = total)
    (hFuel : input.length ≤ fuel) :
    decodeBlocks lib blockSize total fuel
      (lz4Blocks lib (dictTail output) (chunks blockSize input)) output =
        .ok (output ++ input) := by
  induction h : input.length using Nat.strong_induction_on generalizing input output fuel with
  | _ n ih =>
    by_cases hNil : input = []
    · subst hNil
      rw [chunks_nil, lz4Blocks, decodeBlocks_done hTotal, append_nil]
    · have hPos : 0 < input.length := length_pos_iff.mpr hNil
      obtain ⟨fuel, rfl⟩ : ∃ f, fuel = f + 1 := ⟨fuel - 1, by omega⟩
      -- The first input of the blocks, and what is left.
      set first := input.take blockSize with hFirst
      have hFirstLength : first.length = min blockSize input.length := length_take
      obtain ⟨block, hBlock, hBlockLength⟩ := hLib.lz4Format (dictTail output) first
      set tail := lz4Blocks lib (dictTail (output ++ first))
        (chunks blockSize (input.drop blockSize)) with hTail
      have hSrc : lz4Blocks lib (dictTail output) (chunks blockSize input) =
          block.encode ++ tail := by
        rw [chunks_eq_cons hSize hNil, lz4Blocks, dictTail_append, ← hFirst, hBlock]
      have hCap : min (total - output.length) blockSize = first.length := by omega
      rw [hSrc, decodeBlocks, if_pos (by omega)]
      dsimp only
      rw [hCap, walkBlock_encode block tail _ 0 (by omega) (by
          rw [length_append]
          exact lt_succ_of_le (le_trans block.length_sequences_le (le_add_right _ _))),
            ok_bind, length_append, Nat.add_sub_cancel, take_left, ← hBlock, hLib.lz4]
      dsimp only
      rw [if_neg (not_not.mpr rfl), ih _ _ (input.drop blockSize) (output ++ first) fuel _ _ rfl,
        append_assoc, take_append_drop]
      · rw [length_drop]; omega
      · rw [length_append, length_drop]; omega
      · rw [length_drop]; omega

theorem length_lz4Blocks_le (hLib : lib.Inverts) (inputs : List Bytes) (dict : Bytes) :
    (lz4Blocks lib dict inputs).length ≤
      20 * inputs.length + inputs.flatten.length + inputs.flatten.length / 10 := by
  induction inputs generalizing dict with
  | nil => exact zero_le _
  | cons input inputs ih =>
    have hFirst := hLib.lz4Bound dict input
    have hRest := ih (dictTail (dict ++ input))
    simp only [lz4Blocks, flatten_cons, length_append, length_cons]
    omega

theorem length_lz4Blocks_lt (hLib : lib.Inverts) (hData : data.length ≤ 2 ^ 31) :
    (lz4Blocks lib [] (chunks lz4DefaultBlockSize data)).length < 2 ^ 32 := by
  have hBound := length_lz4Blocks_le hLib (chunks lz4DefaultBlockSize data) []
  have hCount := (divCeil_mul_bounds (a := data.length) (by decide : 0 < lz4DefaultBlockSize)).2
  have hBlock : lz4DefaultBlockSize = 16384 := rfl
  rw [flatten_chunks (by decide), chunks_length] at hBound
  rw [hBlock] at hBound hCount ⊢
  omega

theorem decompressLz4Bnl_header {first second : Bytes} (blocks : Bytes) (hFirst : first.length = 4)
    (hSecond : second.length = 4) :
    decompressLz4Bnl lib (0x01 :: (first ++ (second ++ 14 :: blocks))) =
      if ofBe second > maxDecompressionSize then
        .error (lz4Error ("decompressed size " ++ toString (ofBe second) ++
          " exceeds limit of " ++ toString maxDecompressionSize ++ " bytes"))
      else if ofBe first ≠ blocks.length then
        .error (lz4Error "header compressed total does not match payload size")
      else decodeBlocks lib lz4DefaultBlockSize (ofBe second) (ofBe second) blocks [] := by
  set bytes := 0x01 :: (first ++ (second ++ 14 :: blocks)) with hBytes
  have hLength : bytes.length = blocks.length + lz4HeaderSize := by
    simp only [hBytes, length_cons, length_append, lz4HeaderSize]
    omega
  have hHead : bytes.headD 0 = 0x01 := rfl
  have hTake1 : (bytes.drop 1).take 4 = first := take_left' hFirst
  have hDrop5 : bytes.drop 5 = second ++ 14 :: blocks := drop_left' hFirst
  have hDrop9 : bytes.drop 9 = 14 :: blocks := by
    rw [← drop_drop (i := 4) (j := 5), hDrop5, drop_left' hSecond]
  have hDrop10 : bytes.drop lz4HeaderSize = blocks := by
    rw [lz4HeaderSize, ← drop_drop (i := 1) (j := 9), hDrop9, drop_one, tail_cons]
  have hTotal : (ofBe first + lz4HeaderSize ≠ blocks.length + lz4HeaderSize) =
      (ofBe first ≠ blocks.length) := by
    rw [ne_eq, Nat.add_right_cancel_iff]
  rw [decompressLz4Bnl, if_neg (by omega)]
  rw [hTake1, hDrop5, take_left' hSecond, hDrop9, hDrop10, hHead, headD_cons,
    if_neg (not_not.mpr rfl), if_neg (by decide), if_neg (by decide), hLength]
  simp only [hTotal]
  rfl

theorem compressLz4_eq (lib : External) (data : Bytes) : compressLz4 lib data = 0x01 ::
    (beBytes 4 (UInt32.ofNat (lz4Blocks lib [] (chunks lz4DefaultBlockSize data)).length).toNat ++
      (beBytes 4 (UInt32.ofNat data.length).toNat ++
        14 :: lz4Blocks lib [] (chunks lz4DefaultBlockSize data))) := by
  rw [compressLz4]
  simp only [append_assoc, cons_append, nil_append]

/-- Data beyond the limit is compressed, but not decompressed. -/
theorem decompressLz4Bnl_refused (hMax : maxDecompressionSize < data.length)
    (hLength : data.length < 2 ^ 32) :
    ∃ e, decompressLz4Bnl lib (compressLz4 lib data) = .error e := by
  rw [compressLz4_eq, decompressLz4Bnl_header _ (beBytes_length 4 _) (beBytes_length 4 _),
    toNat_ofNat_of_lt' hLength, ofBe_beBytes_of_lt (w := 4) hLength, if_pos hMax]
  exact ⟨_, rfl⟩

theorem decompressLz4Bnl_compressLz4 (hLib : lib.Inverts)
    (hData : data.length ≤ maxDecompressionSize) :
    decompressLz4Bnl lib (compressLz4 lib data) = .ok data := by
  have hDecode := decodeBlocks_lz4Blocks hLib (by decide : 0 < lz4DefaultBlockSize) data []
    data.length data.length (Nat.zero_add _) (Nat.le_refl _)
  have hDict : dictTail [] = [] := drop_nil
  rw [hDict, nil_append] at hDecode
  have hBlocks := length_lz4Blocks_lt hLib (le_trans hData (by decide))
  have hLength : data.length < 2 ^ 32 := lt_of_le_of_lt hData (by decide)
  rw [compressLz4_eq, decompressLz4Bnl_header _ (beBytes_length 4 _) (beBytes_length 4 _),
    toNat_ofNat_of_lt' hBlocks, toNat_ofNat_of_lt' hLength,
    ofBe_beBytes_of_lt (w := 4) hBlocks, ofBe_beBytes_of_lt (w := 4) hLength,
    if_neg (not_lt.mpr hData), if_neg (not_not.mpr rfl), hDecode]

/-- The data that decompression gives back: what is compressed must not be longer than its
limit. -/
def ChunkFits (data : Bytes) (mode : CompressionMode) : Prop :=
  mode = .zLib ∨ mode = .lz4 → data.length ≤ maxDecompressionSize

section

variable (hLib : lib.Inverts) {compressed : Bytes} {mode : CompressionMode}
  (hFits : ChunkFits data mode) (hCompress : compressChunk lib data mode = .ok compressed)

include hLib hFits hCompress

theorem decompressChunkRecursive_compressChunk (levels : Nat) :
    decompressChunkRecursive lib levels mode compressed = .ok data := by
  cases mode with
  | none =>
    cases hCompress
    cases levels <;> rfl
  | zLib =>
    have hDeflate : lib.deflate data = .ok compressed := by
      cases h : lib.deflate data with
      | error e => rw [compressChunk, h] at hCompress; cases hCompress
      | ok bytes => rw [compressChunk, h] at hCompress; cases hCompress; rfl
    have hInflate : inflateChunk lib compressed = .ok data := by
      rw [inflateChunk, hLib.inflate hDeflate]
      exact if_neg (not_lt.mpr (hFits (.inl rfl)))
    cases levels <;> exact hInflate
  | lz4 =>
    cases hCompress
    cases levels <;> exact decompressLz4Bnl_compressLz4 hLib (hFits (.inr rfl))
  | encrypted | frame => cases hCompress

theorem decompressChunk_compressChunk : decompressChunk lib compressed mode = .ok data :=
  decompressChunkRecursive_compressChunk hLib hFits hCompress maxFrameDepth

end

end Cascette.Blte
