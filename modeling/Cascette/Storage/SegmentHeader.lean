import Cascette.Crypto.Jenkins
import Cascette.Lib.Codec
import Cascette.Lib.Records
import Cascette.Storage.Segment

/-!
# Reconstruction headers

A data file begins with sixteen local headers, one for each bucket of the index. Their keys are made
from the hash of the storage path by trying first bytes until the key falls into the bucket.
-/

namespace Cascette.Storage

open Lib List Crypto Codec

/-! ## Local headers -/

def localHeaderSize : Nat := 0x1e

def checksumASeed : UInt32 := 0x3d6be971

def checksumBLut : List UInt32 :=
  [0x049396b8, 0x72a82a9b, 0xee626cca, 0x9917754f, 0x15de40b1, 0xf5a8a9b6, 0x421eac7e, 0xa9d55c9a,
    0x317fd40c, 0x04faf80d, 0x3d6be971, 0x52933cfd, 0x27f64b7d, 0xc6f5c11b, 0xd5757e3a, 0x6c388745]

/-- The bytes of the key are reversed. -/
structure LocalHeader where
  encodingKey : Key 16
  encodedSize : UInt32
  flags : UInt16
  checksumA : UInt32
  checksumB : UInt32

namespace LocalHeader

def fields : (Key 16 × UInt32 × UInt16) × UInt32 × UInt32 ≃ LocalHeader where
  toFun v := ⟨v.1.1, v.1.2.1, v.1.2.2, v.2.1, v.2.2⟩
  invFun h := ((h.encodingKey, h.encodedSize, h.flags), h.checksumA, h.checksumB)

/-- What comes before the checksums. -/
def front : Codec Unit (Key 16 × UInt32 × UInt16) :=
  (key () 16).pair ((uint32Le ()).pair (uint16Le ()))

def codec : Codec Unit LocalHeader := (front.pair ((uint32Le ()).pair (uint32Le ()))).map fields

def toBytes (header : LocalHeader) : Bytes := codec.write header

/-- `none` if the data is too short. -/
def fromBytes (data : Bytes) : Option LocalHeader := (codec.read data).toOption.map Prod.fst

def computeChecksumA (bytes : Bytes) : UInt32 := hashlittle (bytes.take 0x16) checksumASeed

/-- The bytes before the field are folded onto four, and the result is masked. The places depend on
the offset. -/
def computeChecksumB (bytes : Bytes) (globalOffset : Nat) : UInt32 :=
  let accum := (bytes.take 0x1a).zipIdx.foldl
    (fun accum p => accum.modify ((globalOffset + p.2) % 4) (· ^^^ p.1)) (List.replicate 4 0)
  let stop := globalOffset + localHeaderSize
  let mask := leBytes 4 (checksumBLut.getD (stop % 16) 0 ^^^ UInt32.ofNat stop).toNat
  let j i := (globalOffset + 0x1a + i) % 4
  UInt32.ofNat (ofLe ((List.range 4).map fun i => accum.getD (j i) 0 ^^^ mask.getD (j i) 0))

/-- The second checksum is over the bytes with the first one in its place. -/
def new (encodingKey : Key 16) (encodedSize : UInt32) (globalOffset : Nat) (flags : UInt16) :
    LocalHeader :=
  let header : LocalHeader := ⟨reverseEquiv 16 encodingKey, encodedSize, flags, 0, 0⟩
  let header := { header with checksumA := computeChecksumA header.toBytes }
  { header with checksumB := computeChecksumB header.toBytes globalOffset }

def validateChecksums (header : LocalHeader) (baseOffset : Nat) : Bool :=
  header.checksumA = computeChecksumA header.toBytes ∧
    header.checksumB = computeChecksumB header.toBytes baseOffset

def originalEncodingKey (header : LocalHeader) : Key 16 := reverseEquiv 16 header.encodingKey

theorem width_front : front.Width 0x16 := fun v => by
  simp [front, pair, uint16Le, key, reverseEquiv, ofBeEquiv, Codec.map, v.1.2]

theorem length_toBytes (header : LocalHeader) : header.toBytes.length = localHeaderSize :=
  width_front.pair ((width_uint32Le ()).pair (width_uint32Le ())) (fields.symm header)

theorem fromBytes_toBytes (header : LocalHeader) : fromBytes header.toBytes = some header := by
  have hRead := codec.read_write header []
  rw [append_nil] at hRead
  rw [fromBytes, toBytes, hRead]
  rfl

variable (key : Key 16) (size : UInt32) (flags : UInt16)

theorem computeChecksumA_congr (a b : UInt32) :
    computeChecksumA (toBytes ⟨key, size, flags, a, b⟩) =
      computeChecksumA (toBytes ⟨key, size, flags, 0, 0⟩) :=
  congrArg (hashlittle · _) ((take_left' (width_front _)).trans (take_left' (width_front _)).symm)

theorem computeChecksumB_congr (a b : UInt32) (globalOffset : Nat) :
    computeChecksumB (toBytes ⟨key, size, flags, a, b⟩) globalOffset =
      computeChecksumB (toBytes ⟨key, size, flags, a, 0⟩) globalOffset := by
  have hTake (b : UInt32) : (toBytes ⟨key, size, flags, a, b⟩).take 0x1a =
      front.write (key, size, flags) ++ (uint32Le ()).write a := by
    change take _ (front.write _ ++ (_ ++ _)) = _
    rw [← append_assoc]
    exact take_left' (width_front.pair (width_uint32Le ()) (_, _))
  rw [computeChecksumB, computeChecksumB, hTake, hTake]

theorem validateChecksums_new (globalOffset : Nat) :
    (new key size globalOffset flags).validateChecksums globalOffset = true :=
  decide_eq_true ⟨(computeChecksumA_congr ..).symm, (computeChecksumB_congr ..).symm⟩

end LocalHeader

/-! ## Segment headers -/

structure SegmentHeader where
  headers : Fin 16 → LocalHeader

/-- The first nine bytes, folded to four bits. -/
def bucketHash (ekey : Bytes) (seed : UInt8) : UInt8 :=
  let xor := (ekey.take 9).foldl (· ^^^ ·) 0
  ((xor >>> 4 ^^^ xor) + seed) &&& 0x0f

/-- The path hash, with a first byte to try and the segment in the next two. -/
def probeKey (pathHash : Key 16) (segmentCount : UInt16) (probe : UInt8) : Key 16 :=
  ⟨probe :: segmentCount.toUInt8 :: (segmentCount >>> 8).toUInt8 :: pathHash.1.drop 3,
    by simp [pathHash.2]⟩

/-- The first byte that puts the key into the bucket. -/
def findProbe (pathHash : Key 16) (segmentCount : UInt16) (targetBucket : UInt8) : Option UInt8 :=
  ((List.range 256).map UInt8.ofNat).find? fun probe =>
    bucketHash ((probeKey pathHash segmentCount probe).1.take 9) 1 = targetBucket

/-- Zero is the fallback. -/
def generateSegmentKey (pathHash : Key 16) (segmentCount : UInt16) (targetBucket : UInt8) :
    Key 16 :=
  probeKey pathHash segmentCount ((findProbe pathHash segmentCount targetBucket).getD 0)

namespace SegmentHeader

def globalOffset (segmentIndex : UInt16) (bucket : Fin 16) : Nat :=
  segmentIndex.toNat * segmentSize + bucket * localHeaderSize

def generate (segmentIndex : UInt16) (pathHash : Key 16) : SegmentHeader where
  headers bucket := .new (generateSegmentKey pathHash segmentIndex (UInt8.ofNat bucket))
    (UInt32.ofNat localHeaderSize) (globalOffset segmentIndex bucket) 1

/-- A header that does not parse is left empty. -/
def fromBytes (data : Bytes) : Option SegmentHeader :=
  if data.length < segmentHeaderSize then none
  else some ⟨fun i => (LocalHeader.fromBytes ((data.drop (i * localHeaderSize)).take
    localHeaderSize)).getD (.new (.fill 16 0) 0 (i * localHeaderSize) 1)⟩

def toBytes (header : SegmentHeader) : Bytes :=
  ((List.finRange 16).map fun i => (header.headers i).toBytes).flatten

theorem fromBytes_toBytes (header : SegmentHeader) : fromBytes header.toBytes = some header := by
  have hLengths : ∀ piece ∈ (finRange 16).map fun i => (header.headers i).toBytes,
      piece.length = localHeaderSize :=
    forall_mem_map.mpr fun i _ => (header.headers i).length_toBytes
  have hLength : header.toBytes.length = segmentHeaderSize := by
    rw [toBytes, length_flatten_map fun i _ => (header.headers i).length_toBytes, length_finRange]
    rfl
  rw [fromBytes, if_neg hLength.not_lt]
  congr 2
  funext i
  rw [toBytes, take_drop_flatten hLengths (by simp), getElem_map, getElem_finRange,
    LocalHeader.fromBytes_toBytes]
  rfl

end SegmentHeader

/-! ## The search -/

theorem exists_bucketHash (bytes : Bytes) (bucket : Fin 16) :
    ∃ probe, bucketHash (probe :: bytes) 1 = UInt8.ofNat bucket := by
  have hTarget : ∀ bucket : Fin 16, let x := (UInt8.ofNat bucket - 1) &&& 0x0f
      ((x >>> 4 ^^^ x) + 1) &&& 0x0f = UInt8.ofNat bucket := by decide
  refine ⟨((UInt8.ofNat bucket - 1) &&& 0x0f) ^^^ (bytes.take 8).foldl (· ^^^ ·) 0, ?_⟩
  have hFold (probe : UInt8) : (bytes.take 8).foldl (· ^^^ ·) (probe ^^^ 0) =
      probe ^^^ (bytes.take 8).foldl (· ^^^ ·) 0 := foldl_assoc
  simp only [UInt8.xor_zero] at hFold
  rw [bucketHash, take_succ_cons, foldl_cons, UInt8.zero_xor, hFold, UInt8.xor_assoc,
    UInt8.xor_self, UInt8.xor_zero]
  exact hTarget bucket

/-- For every bucket the search finds a first byte, so that the key falls into the bucket; and the
header of a segment comes back from its bytes, with these keys and with the right checksums. -/
theorem generate_validates (pathHash : Key 16) (segmentIndex : UInt16) :
    (∀ bucket : Fin 16, (findProbe pathHash segmentIndex (UInt8.ofNat bucket)).isSome ∧
      bucketHash ((generateSegmentKey pathHash segmentIndex (UInt8.ofNat bucket)).1.take 9) 1 =
        UInt8.ofNat bucket) ∧
    ∃ header, SegmentHeader.fromBytes (SegmentHeader.generate segmentIndex pathHash).toBytes =
        some header ∧
      ∀ bucket, (header.headers bucket).originalEncodingKey =
          generateSegmentKey pathHash segmentIndex (UInt8.ofNat bucket) ∧
        (header.headers bucket).validateChecksums
          (SegmentHeader.globalOffset segmentIndex bucket) = true := by
  refine ⟨fun bucket => ?_, _, SegmentHeader.fromBytes_toBytes _, fun bucket => ⟨?_, ?_⟩⟩
  · have hSome : (findProbe pathHash segmentIndex (UInt8.ofNat bucket)).isSome := by
      obtain ⟨probe, hProbe⟩ := exists_bucketHash
        ((probeKey pathHash segmentIndex 0).1.drop 1 |>.take 8) bucket
      refine find?_isSome.mpr ⟨probe, ?_, decide_eq_true hProbe⟩
      exact mem_map.mpr ⟨probe.toNat, mem_range.mpr probe.toNat_lt, UInt8.ofNat_toNat⟩
    refine ⟨hSome, ?_⟩
    obtain ⟨probe, hFind⟩ := Option.isSome_iff_exists.mp hSome
    have hHash := find?_some hFind
    rw [generateSegmentKey, hFind]
    exact of_decide_eq_true hHash
  · exact (reverseEquiv 16).left_inv _
  · exact LocalHeader.validateChecksums_new ..

end Cascette.Storage
