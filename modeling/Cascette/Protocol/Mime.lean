import Cascette.Lib.Checked
import Cascette.Lib.Except
import Cascette.Lib.Utf8

/-!
# Detection of a MIME response and its checksum

The bytes of a response are turned into a string, with a replacement character for what is not well
formed, and the detection looks at the first 512 bytes of the string. The cut panics if it falls
inside a character (`mime_returns_iff`). While a response is read, the detection is asked whenever
the bytes so far end in an empty line (`not_panics_readResponse`). The checksum is cut out of the
bytes themselves, where every cut is in range.

`lower` is the conversion of a string to lower case.
-/

namespace Cascette.Protocol

open Lib List

/-- The bytes of a text of ASCII characters. -/
def ascii (text : String) : Bytes := text.toList.map fun c => UInt8.ofNat c.toNat

/-! ## The checksum -/

def checksumPrefix : Bytes := ascii "Checksum: "

/-- The position of the last window that is the pattern, which is not empty. -/
def rposition (pattern : Bytes) : Bytes → Option ℕ
  | [] => none
  | b :: raw =>
    match rposition pattern raw with
    | some pos => some (pos + 1)
    | none => if pattern <+: b :: raw then some 0 else none

/-- The end of a line without its last byte, if that is `b`. -/
def strip (raw : Bytes) (b : UInt8) (stop : ℕ) : Checked ℕ :=
  if 0 < stop then do
    let last ← getAt raw (stop - 1)
    return if last = b then stop - 1 else stop
  else return stop

/-- The message and the hex digits of its checksum. -/
def extractChecksum (raw : Bytes) : Checked (Bytes × Option Bytes) :=
  match rposition checksumPrefix raw with
  | none => return (raw, none)
  | some pos => do
    let line ← sliceFrom raw pos
    let lineEnd := (line.findIdx? (· = 10)).elim raw.length (pos + · + 1)
    let hexStart := pos + checksumPrefix.length
    let hexEnd ← strip raw 10 lineEnd
    let hexEnd ← strip raw 13 hexEnd
    if hexStart < hexEnd then do
      let hex ← slice raw hexStart hexEnd
      let checksum := fromUtf8Lossy hex
      if checksum.length = 64 ∧ checksum.all fun b => (hexValue b).isSome then do
        let message ← slice raw 0 pos
        return (message, some checksum)
      else return (raw, none)
    else return (raw, none)

/-! ## The detection -/

/-- A byte that continues a character does not begin one. -/
def isCharBoundary (text : Bytes) (i : ℕ) : Bool :=
  match text[i]? with
  | some b => !isContinuation b
  | none => i = text.length

/-- `&text[..stop]` of a string. -/
def textBefore (text : Bytes) (stop : ℕ) : Checked Bytes :=
  if isCharBoundary text stop then .ok (text.take stop) else .error .indexOutOfRange

def isV1MimeResponse (lower : Bytes → Bytes) (raw : Bytes) : Checked Bool := do
  let text := fromUtf8Lossy raw
  let first ← if 512 < text.length then textBefore text 512 else .ok text
  return ascii "content-type:" <:+: lower first ∧
    (ascii "multipart/alternative" <:+: lower first ∨ ascii "multipart/mixed" <:+: lower first)

inductive ProtocolError
  | parse (message : String)
deriving DecidableEq

/-- The bytes so far are a whole response of the other kind. -/
def ended (lower : Bytes → Bytes) (buffer : Bytes) : Checked Bool :=
  if [10, 10] <:+ buffer then do
    let mime ← isV1MimeResponse lower buffer
    return !mime
  else return false

/-- The loop that reads a response; an empty read is the end of the connection. A read that fails
ends the loop with its error and is left out. -/
def readResponse (lower : Bytes → Bytes) (buffer : Bytes) :
    List Bytes → Except (Halt ProtocolError) Bytes
  | [] => return buffer
  | read :: reads =>
    if read = [] then return buffer
    else do
      let buffer := buffer ++ read
      let done ← (ended lower buffer).mapError .panic
      if done then return buffer
      else if 50 * 1024 * 1024 < buffer.length then .error (.error (.parse "Response too large"))
      else readResponse lower buffer reads

/-! ## The cuts -/

/-- The string of the bytes ends within 512 bytes or has a character that begins there. -/
def Cuttable (raw : Bytes) : Prop :=
  512 < (fromUtf8Lossy raw).length → isCharBoundary (fromUtf8Lossy raw) 512

variable {lower : Bytes → Bytes} {raw : Bytes}

theorem returns_isV1MimeResponse_iff :
    (Returns (isV1MimeResponse lower raw) fun _ => True) ↔ Cuttable raw := by
  rw [isV1MimeResponse, Cuttable, textBefore]
  split_ifs with hLong hCut <;> simp_all [Returns, bind, Except.bind, pure, Except.pure]

theorem returns_ended (h : [10, 10] <:+ raw → Cuttable raw) :
    Returns (ended lower raw) fun _ => True := by
  refine returns_ite (fun hEnd => ?_) fun _ => returns_ok trivial
  exact (returns_isV1MimeResponse_iff.mpr (h hEnd)).bind fun _ _ => returns_ok trivial

theorem rposition_lt {pattern : Bytes} {pos : ℕ} (h : rposition pattern raw = some pos) :
    pos < raw.length := by
  induction raw generalizing pos with
  | nil => cases h
  | cons b raw ih =>
    rw [rposition] at h
    split at h
    · next pos' hPos =>
      cases h
      exact Nat.succ_lt_succ (ih hPos)
    · rw [Option.ite_none_right_eq_some] at h
      cases h.2
      exact Nat.zero_lt_succ _

theorem returns_strip {b : UInt8} {stop : ℕ} (h : stop ≤ raw.length) :
    Returns (strip raw b stop) (· ≤ raw.length) := by
  refine returns_ite (fun hPos => ?_) fun _ => returns_ok h
  refine (returns_getAt (by omega)).bind fun last _ => returns_ok ?_
  split_ifs <;> omega

theorem returns_extractChecksum (raw : Bytes) : Returns (extractChecksum raw) fun _ => True := by
  rw [extractChecksum]
  split
  · exact returns_ok trivial
  · next pos hPos =>
    have hLt := rposition_lt hPos
    refine Returns.bind ⟨_, sliceFrom_eq hLt.le, rfl⟩ fun line hLine => ?_
    have hEnd : (line.findIdx? (· = 10)).elim raw.length (pos + · + 1) ≤ raw.length := by
      cases hFind : line.findIdx? (· = 10) with
      | none => exact le_rfl
      | some i =>
        have hi := (findIdx?_eq_some_iff_findIdx_eq.mp hFind).1
        rw [← hLine, length_drop] at hi
        simp only [Option.elim_some]
        omega
    refine (returns_strip hEnd).bind fun lineEnd hLineEnd => ?_
    refine (returns_strip hLineEnd).bind fun hexEnd hHexEnd => ?_
    refine returns_ite (fun hHex => ?_) fun _ => returns_ok trivial
    refine Returns.bind ⟨_, slice_eq hHex.le hHexEnd, rfl⟩ fun hex _ => ?_
    refine returns_ite (fun _ => ?_) fun _ => returns_ok trivial
    exact Returns.bind ⟨_, slice_eq (Nat.zero_le _) hLt.le, rfl⟩ fun _ _ => returns_ok trivial

/-- Reading does not panic if every beginning that ends in an empty line can be cut, also those that
the loop does not come to. -/
theorem not_panics_readResponse {buffer : Bytes} {reads : List Bytes}
    (h : ∀ seen, seen <+: reads → [10, 10] <:+ buffer ++ seen.flatten →
      Cuttable (buffer ++ seen.flatten)) :
    ¬Panics (readResponse lower buffer reads) := by
  induction reads generalizing buffer with
  | nil => exact not_panics_ok _
  | cons read reads ih =>
    rw [readResponse]
    split
    · exact not_panics_ok _
    · have hSeen := h [read] (prefix_append [read] reads)
      rw [flatten_singleton] at hSeen
      obtain ⟨done, hEnded, -⟩ := @returns_ended lower _ hSeen
      have hRest : ¬Panics (readResponse lower (buffer ++ read) reads) := by
        refine ih fun seen hPre => ?_
        have := h (read :: seen) ((prefix_cons_inj read).mpr hPre)
        rwa [flatten_cons, ← append_assoc] at this
      dsimp only
      rw [hEnded, mapError_ok, ok_bind]
      split_ifs
      · exact not_panics_ok _
      · exact not_panics_error _
      · exact hRest

theorem not_panics_readResponse_line : ¬Panics (readResponse id [] [ascii "ok\n", ascii "\n"]) := by
  refine not_panics_readResponse fun seen hSeen => ?_
  have hSeen : seen ∈ inits [ascii "ok\n", ascii "\n"] := (mem_inits _ _).mpr hSeen
  fin_cases hSeen <;> exact fun _ hLong => absurd hLong (by decide)

/-- Both return on a response, and on a beginning of one, exactly if the cut of the detection does
not fall inside a character. -/
theorem mime_returns_iff (lower : Bytes → Bytes) (raw : Bytes) :
    ((Returns (isV1MimeResponse lower raw) fun _ => True) ∧
      Returns (extractChecksum raw) fun _ => True) ↔ Cuttable raw := by
  rw [returns_isV1MimeResponse_iff]
  exact and_iff_left (returns_extractChecksum raw)

/-- A character of two bytes at 511 and an empty line after it. -/
theorem mime_refuted :
    let raw := ascii "Content-Type: multipart/mixed\n" ++ replicate 481 97 ++ [0xc3, 0xa9, 10, 10]
    isV1MimeResponse id raw = .error .indexOutOfRange ∧
      readResponse id [] [raw] = .error (.panic .indexOutOfRange) := by
  decide +kernel

end Cascette.Protocol
