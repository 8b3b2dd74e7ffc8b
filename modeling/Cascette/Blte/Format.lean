import Cascette.Lib.Codec

/-!
# The BLTE container

A file is a header and chunks. A header size of zero says that one chunk fills the rest of the
file; otherwise a table follows that gives the size of every chunk, in a standard and an extended
form. The writer puts out what the reader has read (`write_of_read`), and the reader returns what
was written when the table describes the chunks (`read_write`).
-/

namespace Cascette.Blte

open Lib Codec List

inductive CompressionMode
  | none
  | zLib
  | lz4
  | encrypted
  | frame
deriving DecidableEq

namespace CompressionMode

def asByte : CompressionMode → UInt8
  | .none => 78
  | .zLib => 90
  | .lz4 => 52
  | .encrypted => 69
  | .frame => 70

def fromByte (byte : UInt8) : Option CompressionMode :=
  if byte = 78 then some .none
  else if byte = 90 then some .zLib
  else if byte = 52 then some .lz4
  else if byte = 69 then some .encrypted
  else if byte = 70 then some .frame
  else Option.none

@[simp]
theorem fromByte_asByte (mode : CompressionMode) : fromByte mode.asByte = some mode := by
  cases mode <;> rfl

theorem asByte_of_fromByte {byte : UInt8} {mode : CompressionMode}
    (h : fromByte byte = some mode) : mode.asByte = byte := by
  unfold fromByte at h
  repeat' split at h
  all_goals first | cases h; subst_vars; rfl | cases h

end CompressionMode

inductive ReadError
  | io
  | invalidMagic (magic : Key 4)
  | emptyChunk
  | unknownCompressionMode (byte : UInt8)
deriving DecidableEq

/-! ## Chunk table -/

inductive HeaderFlags
  | standard
  | extended
deriving DecidableEq

namespace HeaderFlags

def asByte : HeaderFlags → UInt8
  | .standard => 0x0F
  | .extended => 0x10

def fromByte (byte : UInt8) : Option HeaderFlags :=
  if byte = 0x0F then some .standard else if byte = 0x10 then some .extended else none

def chunkInfoSize : HeaderFlags → Nat
  | .standard => 24
  | .extended => 40

@[simp]
theorem fromByte_asByte (flags : HeaderFlags) : fromByte flags.asByte = some flags := by
  cases flags <;> rfl

theorem asByte_of_fromByte {byte : UInt8} {flags : HeaderFlags}
    (h : fromByte byte = some flags) : flags.asByte = byte := by
  unfold fromByte at h
  repeat' split at h
  all_goals first | cases h; subst_vars; rfl | cases h

end HeaderFlags

structure ChunkInfo where
  compressedSize : UInt32
  decompressedSize : UInt32
  checksum : Key 16
  decompressedChecksum : Option (Key 16)
deriving DecidableEq

namespace ChunkInfo

/-- The entry has a second checksum exactly in the extended form. -/
def Fits (flags : HeaderFlags) (info : ChunkInfo) : Prop :=
  info.decompressedChecksum.isSome ↔ flags = .extended

def standardEquiv : UInt32 × UInt32 × Key 16 ≃ {info // Fits .standard info} where
  toFun v := ⟨⟨v.1, v.2.1, v.2.2, none⟩, by simp [Fits]⟩
  invFun info := (info.1.compressedSize, info.1.decompressedSize, info.1.checksum)
  left_inv v := rfl
  right_inv := by
    rintro ⟨⟨compressed, decompressed, checksum, second⟩, h⟩
    cases second with
    | none => rfl
    | some _ => exact absurd (h.mp rfl) (by decide)

def extendedEquiv : (UInt32 × UInt32 × Key 16) × Key 16 ≃ {info // Fits .extended info} where
  toFun v := ⟨⟨v.1.1, v.1.2.1, v.1.2.2, some v.2⟩, by simp [Fits]⟩
  invFun info := ((info.1.compressedSize, info.1.decompressedSize, info.1.checksum),
    info.1.decompressedChecksum.get (info.2.mpr rfl))
  left_inv v := rfl
  right_inv := by
    rintro ⟨⟨compressed, decompressed, checksum, second⟩, h⟩
    cases second with
    | none => exact absurd (h.mpr rfl) Bool.false_ne_true
    | some _ => rfl

def sizesCodec : Codec (Halt ReadError) (UInt32 × UInt32 × Key 16) :=
  (Codec.uint32Be (.error .io)).pair <| (Codec.uint32Be (.error .io)).pair <|
    Codec.key (.error .io) 16

/-- Entries of a table, as they are read. -/
def codec : (flags : HeaderFlags) → Codec (Halt ReadError) {info // Fits flags info}
  | .standard => sizesCodec.map standardEquiv
  | .extended => (sizesCodec.pair (Codec.key (.error .io) 16)).map extendedEquiv

/-- In the extended form a missing checksum is written as zeros. -/
def write (flags : HeaderFlags) (info : ChunkInfo) : Bytes :=
  beBytes 4 info.compressedSize.toNat ++ beBytes 4 info.decompressedSize.toNat ++
    info.checksum.1 ++
    match flags with
    | .standard => []
    | .extended => (info.decompressedChecksum.map Subtype.val).getD (List.replicate 16 0)

theorem codec_write {flags : HeaderFlags} (info : {info // Fits flags info}) :
    (codec flags).write info = write flags info.1 := by
  obtain ⟨⟨compressed, decompressed, checksum, second⟩, h⟩ := info
  cases flags with
  | standard => simp [codec, write, Codec.map, standardEquiv, sizesCodec, Codec.pair, Codec.key]
  | extended =>
    cases second with
    | none => exact absurd (h.mpr rfl) Bool.false_ne_true
    | some _ => simp [codec, write, Codec.map, extendedEquiv, sizesCodec, Codec.pair, Codec.key]

end ChunkInfo

structure ExtendedHeader where
  flags : HeaderFlags
  chunkCount : UInt32
  chunkInfos : List ChunkInfo
deriving DecidableEq

namespace ExtendedHeader

def write (e : ExtendedHeader) : Bytes :=
  [e.flags.asByte] ++ beBytes 3 e.chunkCount.toNat ++
    (e.chunkInfos.map (ChunkInfo.write e.flags)).flatten

def read (bytes : Bytes) : Except (Halt ReadError) (ExtendedHeader × Bytes) := do
  let (byte, rest) ← (Codec.uint8 (Halt.error ReadError.io)).read bytes
  match HeaderFlags.fromByte byte with
  | none => .error (.panic .expectFailed)
  | some flags => do
    let (count, rest) ← (Codec.key (Halt.error ReadError.io) 3).read rest
    let chunkCount := UInt32.ofNat (ofBe count.1)
    let (infos, rest) ← (ChunkInfo.codec flags).readMany chunkCount.toNat rest
    .ok ({ flags, chunkCount, chunkInfos := infos.map Subtype.val }, rest)

end ExtendedHeader

/-! ## Header -/

def blteMagic : Key 4 := ⟨[66, 76, 84, 69], rfl⟩

structure BlteHeader where
  magic : Key 4
  headerSize : UInt32
  extended : Option ExtendedHeader
deriving DecidableEq

namespace BlteHeader

def isSingleChunk (h : BlteHeader) : Bool := h.headerSize = 0

def write (h : BlteHeader) : Bytes :=
  h.magic.1 ++ beBytes 4 h.headerSize.toNat ++ (h.extended.map ExtendedHeader.write).getD []

def read (bytes : Bytes) : Except (Halt ReadError) (BlteHeader × Bytes) := do
  let (magic, rest) ← (Codec.key (Halt.error ReadError.io) 4).read bytes
  if magic ≠ blteMagic then .error (.error (.invalidMagic magic))
  else do
    let (headerSize, rest) ← (Codec.uint32Be (Halt.error ReadError.io)).read rest
    if headerSize = 0 then .ok ({ magic, headerSize, extended := none }, rest)
    else do
      let (extended, rest) ← ExtendedHeader.read rest
      .ok ({ magic, headerSize, extended := some extended }, rest)

def singleChunk : BlteHeader := { magic := blteMagic, headerSize := 0, extended := none }

end BlteHeader

/-! ## Chunks and files -/

structure ChunkData where
  mode : CompressionMode
  /-- The data without the byte of the mode. -/
  data : Bytes
  decompressedSize : Option Nat
deriving DecidableEq

namespace ChunkData

def write (chunk : ChunkData) : Bytes := chunk.mode.asByte :: chunk.data

def read (compressedSize : Nat) (bytes : Bytes) : Except (Halt ReadError) (ChunkData × Bytes) :=
  if compressedSize = 0 then .error (.error .emptyChunk)
  else do
    let (byte, rest) ← (Codec.uint8 (Halt.error ReadError.io)).read bytes
    match CompressionMode.fromByte byte with
    | none => .error (.error (.unknownCompressionMode byte))
    | some mode =>
      match readExact (compressedSize - 1) rest with
      | none => .error (.error .io)
      | some (data, rest) => .ok ({ mode, data, decompressedSize := none }, rest)

end ChunkData

structure BlteFile where
  header : BlteHeader
  chunks : List ChunkData
deriving DecidableEq

namespace BlteFile

def readChunks : List ChunkInfo → Bytes → Except (Halt ReadError) (List ChunkData × Bytes)
  | [], bytes => .ok ([], bytes)
  | info :: infos, bytes => do
    let (chunk, rest) ← ChunkData.read info.compressedSize.toNat bytes
    let (chunks, rest) ← readChunks infos rest
    .ok (chunk :: chunks, rest)

def read (bytes : Bytes) : Except (Halt ReadError) (BlteFile × Bytes) := do
  let (header, rest) ← BlteHeader.read bytes
  if header.isSingleChunk then
    if rest.length > 0 then do
      let (chunk, rest) ← ChunkData.read rest.length rest
      .ok ({ header, chunks := [chunk] }, rest)
    else .ok ({ header, chunks := [] }, rest)
  else
    match header.extended with
    | none => .ok ({ header, chunks := [] }, rest)
    | some extended => do
      let (chunks, rest) ← readChunks extended.chunkInfos rest
      .ok ({ header, chunks }, rest)

/-- Bytes behind the last chunk are not read. -/
def parse (bytes : Bytes) : Except (Halt ReadError) BlteFile := (read bytes).map Prod.fst

def build (file : BlteFile) : Bytes :=
  file.header.write ++ (file.chunks.map ChunkData.write).flatten

end BlteFile

/-! ## What was read is written back -/

variable {bytes rest : Bytes} {e : ExtendedHeader} {header : BlteHeader}

theorem ExtendedHeader.write_of_read (h : read bytes = .ok (e, rest)) :
    e.write ++ rest = bytes := by
  obtain ⟨⟨byte, rest₁⟩, hByte, h⟩ := bind_eq_ok.mp h
  dsimp only at h
  split at h
  · cases h
  rename_i flags hFlags
  obtain ⟨⟨count, rest₂⟩, hCount, h⟩ := bind_eq_ok.mp h
  obtain ⟨⟨infos, rest₃⟩, hInfos, h⟩ := bind_eq_ok.mp h
  cases h
  have hTable : rest₂ = _ := ((readMany_eq_ok _).mp hInfos).1
  have hWrite : (infos.map fun info => ChunkInfo.write flags info.1) =
      infos.map (ChunkInfo.codec flags).write :=
    map_congr_left fun info _ => (ChunkInfo.codec_write info).symm
  have hNumber : beBytes 3 (UInt32.ofNat (ofBe count.1)).toNat = count.1 := by
    have hLt := ofBe_lt count.1
    rw [count.2] at hLt
    rw [UInt32.toNat_ofNat_of_lt' (hLt.trans (by decide)), beBytes_ofBe_of_length count.2]
  have hRest : rest₁ = count.1 ++ rest₂ := (Codec.key _ 3).write_read hCount
  have hBytes := (Codec.uint8 _).write_read hByte
  rw [uint8_write] at hBytes
  rw [write, hNumber, map_map, HeaderFlags.asByte_of_fromByte hFlags, hBytes, hRest, hTable,
    Codec.writeMany, ← hWrite, append_assoc, append_assoc]
  rfl

/-- The headers that are accepted: without a table, or with a table that is accepted. -/
theorem BlteHeader.read_eq_ok : read bytes = .ok (header, rest) ↔
    (header = singleChunk ∧ bytes = blteMagic.1 ++ (beBytes 4 (0 : UInt32).toNat ++ rest)) ∨
      ∃ (headerSize : UInt32) (e : ExtendedHeader) (data : Bytes), headerSize ≠ 0 ∧
        header = ⟨blteMagic, headerSize, some e⟩ ∧
        bytes = blteMagic.1 ++ (beBytes 4 headerSize.toNat ++ data) ∧
        ExtendedHeader.read data = .ok (e, rest) := by
  simp only [read, bind_pair_eq_ok, Codec.read_eq_ok, ite_error_eq_ok, not_not]
  constructor
  · rintro ⟨_, _, rfl, rfl, headerSize, data, rfl, h⟩
    split_ifs at h with hZero
    · cases h
      exact .inl ⟨by rw [hZero]; rfl, by rw [hZero]; rfl⟩
    · simp only [bind_pair_eq_ok, Except.ok.injEq, Prod.mk.injEq] at h
      obtain ⟨e, _, hRead, rfl, rfl⟩ := h
      exact .inr ⟨headerSize, e, data, hZero, rfl, rfl, hRead⟩
  · rintro (⟨rfl, rfl⟩ | ⟨headerSize, e, data, hSize, rfl, rfl, hRead⟩)
    · exact ⟨blteMagic, _, rfl, rfl, 0, rest, rfl, rfl⟩
    · refine ⟨blteMagic, _, rfl, rfl, headerSize, data, rfl, ?_⟩
      rw [if_neg hSize, hRead]
      rfl

theorem BlteHeader.write_of_read (h : read bytes = .ok (header, rest)) :
    header.write ++ rest = bytes := by
  obtain ⟨rfl, rfl⟩ | ⟨headerSize, e, data, -, rfl, rfl, hRead⟩ := read_eq_ok.mp h
  · rfl
  · rw [← ExtendedHeader.write_of_read hRead]
    simp [write]

theorem ChunkData.write_of_read {size : Nat} {chunk : ChunkData}
    (h : read size bytes = .ok (chunk, rest)) :
    chunk.write ++ rest = bytes ∧ chunk.data.length + 1 = size := by
  unfold read at h
  split at h
  · cases h
  rename_i hSize
  obtain ⟨⟨byte, rest₁⟩, hByte, h⟩ := bind_eq_ok.mp h
  have hBytes := (Codec.uint8 _).write_read hByte
  rw [uint8_write] at hBytes
  dsimp only at h
  split at h
  · cases h
  rename_i mode hMode
  split at h
  · cases h
  rename_i data rest₂ hData
  cases h
  obtain ⟨hSplit, hLength⟩ := readExact_eq_some.mp hData
  constructor
  · rw [hBytes, hSplit, write, CompressionMode.asByte_of_fromByte hMode]
    rfl
  · dsimp only
    omega

namespace BlteFile

theorem write_of_readChunks {infos : List ChunkInfo} {bytes rest : Bytes}
    {chunks : List ChunkData} (h : readChunks infos bytes = .ok (chunks, rest)) :
    (chunks.map ChunkData.write).flatten ++ rest = bytes := by
  induction infos generalizing bytes chunks with
  | nil =>
    cases h
    rfl
  | cons info infos ih =>
    obtain ⟨⟨chunk, rest₁⟩, hChunk, h⟩ := bind_eq_ok.mp h
    obtain ⟨⟨others, rest₂⟩, hOthers, h⟩ := bind_eq_ok.mp h
    cases h
    rw [map_cons, flatten_cons, append_assoc, ih hOthers, (ChunkData.write_of_read hChunk).1]

theorem write_of_read {bytes rest : Bytes} {file : BlteFile}
    (h : read bytes = .ok (file, rest)) : file.build ++ rest = bytes := by
  obtain ⟨⟨header, rest₁⟩, hHeader, h⟩ := bind_eq_ok.mp h
  rw [← BlteHeader.write_of_read hHeader]
  dsimp only at h
  split at h
  · split at h
    · obtain ⟨⟨chunk, rest₂⟩, hChunk, h⟩ := bind_eq_ok.mp h
      cases h
      rw [build, append_assoc, ← (ChunkData.write_of_read hChunk).1]
      simp
    · cases h
      simp [build]
  · split at h
    · cases h
      simp [build]
    · obtain ⟨⟨chunks, rest₂⟩, hChunks, h⟩ := bind_eq_ok.mp h
      cases h
      rw [build, append_assoc, write_of_readChunks hChunks]

/-- What `parse` accepts begins with what `build` makes of it, and the rest was not read. -/
theorem build_consumed {bytes : Bytes} {file : BlteFile} (h : parse bytes = .ok file) :
    ∃ rest, read bytes = .ok (file, rest) ∧ bytes = file.build ++ rest := by
  unfold parse at h
  cases hRead : read bytes with
  | error e =>
    rw [hRead] at h
    cases h
  | ok res =>
    rw [hRead] at h
    cases h
    exact ⟨res.2, rfl, (write_of_read hRead).symm⟩

/-- A file with a table of one chunk, and a byte behind it. -/
def sampleBytes : Bytes :=
  blteMagic.1 ++ [0, 0, 0, 36, 0x0F, 0, 0, 1, 0, 0, 0, 3, 0, 0, 0, 2] ++ List.replicate 16 9 ++
    [78, 5, 6, 255]

def sampleFile : BlteFile where
  header := {
    magic := blteMagic
    headerSize := 36
    extended := some {
      flags := .standard
      chunkCount := 1
      chunkInfos := [⟨3, 2, .fill 16 9, none⟩] } }
  chunks := [⟨.none, [5, 6], none⟩]

theorem parse_sampleBytes : parse sampleBytes = .ok sampleFile := rfl

theorem build_consumed_sample : parse sampleBytes = .ok sampleFile ∧
    ∃ rest, read sampleBytes = .ok (sampleFile, rest) ∧ sampleBytes = sampleFile.build ++ rest :=
  ⟨parse_sampleBytes, build_consumed parse_sampleBytes⟩

end BlteFile

/-! ## The one panic of the reader -/

theorem ChunkInfo.safe_codec (flags : HeaderFlags) : (codec flags).Safe := by
  have hSizes : sizesCodec.Safe := (safe_uint32Be _).pair ((safe_uint32Be _).pair (safe_key _ 16))
  cases flags with
  | standard => exact hSizes.map _
  | extended => exact (hSizes.pair (safe_key _ 16)).map _

theorem ExtendedHeader.panics_read_iff : Panics (ExtendedHeader.read bytes) ↔
    ∃ byte rest, bytes = byte :: rest ∧ HeaderFlags.fromByte byte = none := by
  rw [read, panics_bind, or_iff_right (safe_uint8 _ bytes)]
  constructor
  · rintro ⟨⟨byte, rest⟩, hByte, h⟩
    refine ⟨byte, rest, eq_of_uint8_read hByte, ?_⟩
    cases hFlags : HeaderFlags.fromByte byte with
    | none => rfl
    | some flags =>
      simp [hFlags, panics_bind, safe_key _ 3 rest, (ChunkInfo.safe_codec flags).readMany] at h
  · rintro ⟨byte, rest, rfl, hFlags⟩
    exact ⟨(byte, rest), uint8_read _ byte rest, by simp [hFlags]⟩

theorem BlteHeader.panics_read_iff : Panics (BlteHeader.read bytes) ↔
    ∃ (headerSize : UInt32) (byte : UInt8) (rest : Bytes),
      bytes = blteMagic.1 ++ (beBytes 4 headerSize.toNat ++ byte :: rest) ∧ headerSize ≠ 0 ∧
        HeaderFlags.fromByte byte = none := by
  rw [read, panics_bind, or_iff_right (safe_key _ 4 bytes)]
  constructor
  · rintro ⟨⟨magic, rest₁⟩, hMagic, h⟩
    dsimp only at h
    split at h
    · exact absurd h (not_panics_error _)
    rename_i hBlte
    rw [panics_bind, or_iff_right (safe_uint32Be _ rest₁)] at h
    obtain ⟨⟨headerSize, rest₂⟩, hSize, h⟩ := h
    split at h
    · exact absurd h (not_panics_ok _)
    rename_i hNe
    rw [panics_bind, ExtendedHeader.panics_read_iff] at h
    rcases h with ⟨byte, rest, rfl, hFlags⟩ | ⟨_, _, h⟩
    · refine ⟨headerSize, byte, rest, ?_, hNe, hFlags⟩
      rw [(Codec.key _ 4).write_read hMagic, (Codec.uint32Be _).write_read hSize, not_not.mp hBlte]
      rfl
    · exact absurd h (not_panics_ok _)
  · rintro ⟨headerSize, byte, rest, rfl, hNe, hFlags⟩
    refine ⟨_, key_read _ blteMagic.2 _, ?_⟩
    dsimp only
    rw [if_neg (not_not.mpr rfl), uint32Be_read, ok_bind]
    rw [if_neg hNe, panics_bind]
    exact .inl (ExtendedHeader.panics_read_iff.mpr ⟨byte, rest, rfl, hFlags⟩)

theorem ChunkData.not_panics_read (size : Nat) (bytes : Bytes) : ¬ Panics (read size bytes) := by
  unfold read
  split
  · exact not_panics_error _
  rw [panics_bind, or_iff_right (safe_uint8 _ bytes)]
  rintro ⟨⟨byte, rest⟩, -, h⟩
  dsimp only at h
  split at h
  · exact not_panics_error _ h
  split at h
  · exact not_panics_error _ h
  · exact not_panics_ok _ h

namespace BlteFile

theorem not_panics_readChunks (infos : List ChunkInfo) (bytes : Bytes) :
    ¬ Panics (readChunks infos bytes) := by
  induction infos generalizing bytes with
  | nil => exact not_panics_ok _
  | cons info infos ih => simp [readChunks, panics_bind, ChunkData.not_panics_read, ih]

/-- A file is parsed or refused, unless a chunk table is announced whose flags are unknown. -/
theorem parse_panics_iff (bytes : Bytes) : Panics (parse bytes) ↔
    ∃ (headerSize : UInt32) (flags : UInt8) (rest : Bytes),
      bytes = blteMagic.1 ++ (beBytes 4 headerSize.toNat ++ flags :: rest) ∧ headerSize ≠ 0 ∧
        HeaderFlags.fromByte flags = none := by
  have hMap : Panics (parse bytes) ↔ Panics (read bytes) := by
    unfold parse
    cases read bytes <;> simp [Except.map, Panics]
  rw [hMap, ← BlteHeader.panics_read_iff, read, panics_bind, or_iff_left]
  rintro ⟨⟨header, rest⟩, -, h⟩
  dsimp only at h
  split at h
  · split at h
    · simp [panics_bind, ChunkData.not_panics_read] at h
    · exact not_panics_ok _ h
  · split at h
    · exact not_panics_ok _ h
    · simp [panics_bind, not_panics_readChunks] at h

theorem parse_panics : parse (blteMagic.1 ++ [0, 0, 0, 12, 0]) = .error (.panic .expectFailed) :=
  rfl

end BlteFile

/-! ## What was written is read -/

theorem ExtendedHeader.read_write (hCount : e.chunkCount.toNat = e.chunkInfos.length)
    (hLt : e.chunkInfos.length < 256 ^ 3) (hFits : ∀ info ∈ e.chunkInfos, info.Fits e.flags)
    (rest : Bytes) : read (e.write ++ rest) = .ok (e, rest) := by
  obtain ⟨infos, hInfos⟩ : ∃ infos : List {info // ChunkInfo.Fits e.flags info},
      infos.map Subtype.val = e.chunkInfos :=
    ⟨e.chunkInfos.attachWith _ hFits, attachWith_map_subtype_val _⟩
  have hTable : (e.chunkInfos.map (ChunkInfo.write e.flags)).flatten =
      (ChunkInfo.codec e.flags).writeMany infos := by
    rw [← hInfos, map_map, Codec.writeMany]
    exact congrArg flatten (map_congr_left fun info _ => (ChunkInfo.codec_write info).symm)
  have hRead := (ChunkInfo.codec e.flags).readMany_writeMany infos rest
  rw [← length_map (f := Subtype.val), hInfos] at hRead
  have hNumber : UInt32.ofNat (ofBe (beBytes 3 e.chunkCount.toNat)) = e.chunkCount := by
    rw [ofBe_beBytes_of_lt (hCount ▸ hLt), UInt32.ofNat_toNat]
  rw [read, write, hTable, append_assoc, append_assoc, singleton_append, uint8_read, ok_bind]
  dsimp only
  rw [HeaderFlags.fromByte_asByte]
  dsimp only
  rw [key_read _ (beBytes_length 3 _), ok_bind]
  rw [hNumber, hCount, hRead, ok_bind, hInfos]

theorem BlteHeader.read_single (rest : Bytes) :
    read (singleChunk.write ++ rest) = .ok (singleChunk, rest) :=
  read_eq_ok.mpr (.inl ⟨rfl, rfl⟩)

variable {headerSize : UInt32}

theorem BlteHeader.read_extended (hSize : headerSize ≠ 0)
    (h : ExtendedHeader.read (e.write ++ rest) = .ok (e, rest)) :
    let header : BlteHeader := { magic := blteMagic, headerSize, extended := some e }
    read (header.write ++ rest) = .ok (header, rest) :=
  read_eq_ok.mpr (.inr ⟨headerSize, e, _, hSize, rfl, by simp [write], h⟩)

/-- The chunk as the reader returns it. -/
def ChunkData.stored (chunk : ChunkData) : ChunkData := { chunk with decompressedSize := none }

theorem ChunkData.read_write (chunk : ChunkData) (rest : Bytes) :
    read (chunk.data.length + 1) (chunk.write ++ rest) = .ok (chunk.stored, rest) := by
  rw [read, if_neg (Nat.succ_ne_zero _), write, cons_append, uint8_read, ok_bind]
  dsimp only
  rw [CompressionMode.fromByte_asByte]
  rw [readExact_append (Nat.add_sub_cancel _ 1).symm]
  rfl

namespace BlteFile

variable {chunks : List ChunkData}

theorem readChunks_write {infos : List ChunkInfo}
    (h : Forall₂ (fun info chunk => info.compressedSize.toNat = chunk.data.length + 1)
      infos chunks) (rest : Bytes) :
    readChunks infos ((chunks.map ChunkData.write).flatten ++ rest) =
      .ok (chunks.map ChunkData.stored, rest) := by
  induction h with
  | nil => rfl
  | cons hSize _ ih =>
    rw [readChunks, map_cons, flatten_cons, append_assoc, hSize, ChunkData.read_write, ok_bind]
    dsimp only
    rw [ih, ok_bind]
    rfl

theorem read_build_single (chunk : ChunkData) :
    let file : BlteFile := { header := .singleChunk, chunks := [chunk] }
    read file.build = .ok ({ file with chunks := [chunk.stored] }, []) := by
  intro file
  have hBuild : file.build = BlteHeader.singleChunk.write ++ chunk.write := by
    simp [build, file]
  have hLength : chunk.write.length = chunk.data.length + 1 := rfl
  have hRead := chunk.read_write []
  rw [append_nil] at hRead
  have hSingle : BlteHeader.singleChunk.isSingleChunk = true := rfl
  rw [read, hBuild, BlteHeader.read_single, ok_bind]
  dsimp only
  rw [if_pos hSingle, if_pos (by omega), hLength, hRead, ok_bind]

theorem read_build_extended (hSize : headerSize ≠ 0) {e : ExtendedHeader}
    (hCount : e.chunkCount.toNat = e.chunkInfos.length) (hLt : e.chunkInfos.length < 256 ^ 3)
    (hFits : ∀ info ∈ e.chunkInfos, info.Fits e.flags)
    (hSizes : Forall₂ (fun info chunk => info.compressedSize.toNat = chunk.data.length + 1)
      e.chunkInfos chunks) :
    let header : BlteHeader := { magic := blteMagic, headerSize, extended := some e }
    read (build { header, chunks }) =
      .ok ({ header, chunks := chunks.map ChunkData.stored }, []) := by
  intro header
  have hHeader := BlteHeader.read_extended hSize
    (ExtendedHeader.read_write hCount hLt hFits (chunks.map ChunkData.write).flatten)
  have hChunks := readChunks_write hSizes []
  rw [append_nil] at hChunks
  have hSingle : header.isSingleChunk = false := decide_eq_false hSize
  rw [read, build, hHeader, ok_bind]
  dsimp only
  rw [hSingle, if_neg Bool.false_ne_true, hChunks, ok_bind]

end BlteFile

end Cascette.Blte
