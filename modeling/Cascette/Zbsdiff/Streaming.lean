import Cascette.Lib.Agree
import Cascette.Zbsdiff.Correctness

/-!
# The streaming patcher

`ZbsdiffPatcher` replays a patch over a file that it does not hold in memory. It takes the
differences and the extra bytes through a buffer, and fetches the piece of the old file that belongs
to a piece of differences, with zeros beyond the end of the file.

A block that is taken in pieces is the block that is taken byte by byte (`applyDiff_add`), so each
control entry does to the output what it does in memory (`applyEntry_agree`), and the two ways to
apply a patch agree (`applyPatchStreaming_agree`).
-/

namespace Cascette.Zbsdiff

open Lib List

/-! ## The old file -/

/-- A file that is read from its position on. -/
structure OldFile where
  contents : Bytes
  position : Nat

namespace OldFile

def seekStart (file : OldFile) (pos : Nat) : OldFile := { file with position := pos }

def seekEnd (file : OldFile) : OldFile := { file with position := file.contents.length }

def readExact (n : Nat) (file : OldFile) : Outcome (Bytes × OldFile) :=
  match Lib.readExact n (file.contents.drop file.position) with
  | some (bytes, _) => .ok (bytes, { file with position := file.position + n })
  | none => fail (.oldFileReadError "failed to fill whole buffer")

end OldFile

/-! ## The patcher -/

def minBufferSize : Nat := 1024

structure ZbsdiffPatcher where
  oldFile : OldFile
  outputCapacity : Nat
  bufferSize : Nat
  minBuffer : minBufferSize ≤ bufferSize

namespace ZbsdiffPatcher

def new (oldFile : OldFile) (outputSize : Nat) : ZbsdiffPatcher :=
  ⟨oldFile, outputSize, 8192, by decide⟩

def withBufferSize (p : ZbsdiffPatcher) (bufferSize : Nat) : ZbsdiffPatcher :=
  ⟨p.oldFile, p.outputCapacity, max bufferSize minBufferSize, le_max_right _ _⟩

/-- The position of the end; the file is left where it was. -/
def getOldFileSize (p : ZbsdiffPatcher) : Nat × ZbsdiffPatcher :=
  let currentPos := p.oldFile.position
  let atEnd := p.oldFile.seekEnd
  (atEnd.position, { p with oldFile := atEnd.seekStart currentPos })

def readOldChunk (p : ZbsdiffPatcher) (pos size oldFileSize : Nat) :
    Outcome (Bytes × ZbsdiffPatcher) :=
  if pos < oldFileSize then do
    let available := min (oldFileSize - pos) size
    let (availableChunk, oldFile) ← (p.oldFile.seekStart pos).readExact available
    .ok (availableChunk ++ List.replicate (size - available) 0, { p with oldFile })
  else .ok (List.replicate size 0, p)

theorem chunkSize_pos (p : ZbsdiffPatcher) {remaining : Nat} (h : 0 < remaining) :
    0 < min remaining p.bufferSize := by
  have hBuffer := p.minBuffer
  unfold minBufferSize at hBuffer
  omega

def applyDiffChunk (p : ZbsdiffPatcher) (oldFileSize chunkSize : Nat) (r : Replay) :
    Outcome (Replay × ZbsdiffPatcher) := do
  let (diffChunk, diff) ← readBlock chunkSize r.diff
  let (oldChunk, p) ← p.readOldChunk r.oldPos chunkSize oldFileSize
  if r.oldPos + chunkSize ≤ usizeMax then
    .ok (⟨r.output ++ List.zipWith (· + ·) oldChunk diffChunk, r.oldPos + chunkSize, diff,
      r.extra⟩, p)
  else .error (.panic .overflow)

def applyDiffBlock (oldFileSize remaining : Nat) (s : Replay × ZbsdiffPatcher) :
    Outcome (Replay × ZbsdiffPatcher) :=
  if _ : 0 < remaining then do
    let chunkSize := min remaining s.2.bufferSize
    let s' ← s.2.applyDiffChunk oldFileSize chunkSize s.1
    applyDiffBlock oldFileSize (remaining - chunkSize) s'
  else .ok s
termination_by remaining
decreasing_by
  have hChunk := s.2.chunkSize_pos ‹0 < remaining›
  omega

def copyExtraBlock (p : ZbsdiffPatcher) (remaining : Nat) (r : Replay) : Outcome Replay :=
  if _ : 0 < remaining then do
    let chunkSize := min remaining p.bufferSize
    let (chunk, extra) ← readBlock chunkSize r.extra
    p.copyExtraBlock (remaining - chunkSize) ⟨r.output ++ chunk, r.oldPos, r.diff, extra⟩
  else .ok r
termination_by remaining
decreasing_by
  have hChunk := p.chunkSize_pos ‹0 < remaining›
  omega

def applyEntry (oldFileSize : Nat) (s : Replay × ZbsdiffPatcher) (entry : ControlEntry) :
    Outcome (Replay × ZbsdiffPatcher) := do
  let (r, p) ← applyDiffBlock oldFileSize entry.diffSize.toNat s
  let r ← p.copyExtraBlock entry.extraSize.toNat r
  .ok ({ r with oldPos := seekOld r.oldPos entry.seekOffset }, p)

def applyPatch (p : ZbsdiffPatcher) (control : List ControlEntry) (diff extra : Bytes) :
    Outcome Bytes := do
  let (oldFileSize, p) := p.getOldFileSize
  let (r, p) ← control.foldlM (applyEntry oldFileSize) (⟨[], 0, diff, extra⟩, p)
  if r.output.length ≠ p.outputCapacity then
    fail (.sizeMismatch p.outputCapacity r.output.length)
  else .ok r.output

def applyPatchFromData (zlib : Zlib) (p : ZbsdiffPatcher) (patch : Bytes) : Outcome Bytes := do
  let (control, diff, extra, _) ← readPatch zlib patch
  p.applyPatch control diff extra

end ZbsdiffPatcher

def parseFromPatch (patch : Bytes) : Outcome ZbsdiffHeader :=
  if patch.length < 32 then fail (.insufficientData 32 patch.length)
  else do
    let (header, _) ← readHeader patch
    header.validate
    .ok header

/-- The documented use of the patcher: the size of the output is the one that the header of the
patch gives. -/
def applyPatchStreaming (zlib : Zlib) (oldFile : OldFile) (bufferSize : Nat) (patch : Bytes) :
    Outcome Bytes := do
  let header ← parseFromPatch patch
  let patcher := ZbsdiffPatcher.new oldFile header.outputSize.toNat
  (patcher.withBufferSize bufferSize).applyPatchFromData zlib patch

/-! ## Blocks in pieces -/

/-- The output for differences that begin at a position of the old data. -/
def patched (old : Bytes) : Nat → Bytes → Bytes
  | _, [] => []
  | pos, d :: diff => (old.getD pos 0 + d) :: patched old (pos + 1) diff

theorem applyDiff_add (old : Bytes) (m n : Nat) (r : Replay) :
    Agree (· = ·) (applyDiff old m r >>= applyDiff old n) (applyDiff old (m + n) r) := by
  induction m generalizing r with
  | zero =>
    rw [Nat.zero_add]
    exact .refl _
  | succ m ih =>
    rw [Nat.add_right_comm, applyDiff, applyDiff]
    cases r.diff with
    | nil => exact trivial
    | cons d diff =>
      dsimp only
      split
      · exact ih _
      · exact trivial

variable {old data patch : Bytes} {n : Nat} {r : Replay}

theorem applyDiff_ok (hDiff : n ≤ r.diff.length) (hPos : r.oldPos + n ≤ usizeMax) :
    applyDiff old n r = .ok ⟨r.output ++ patched old r.oldPos (r.diff.take n), r.oldPos + n,
      r.diff.drop n, r.extra⟩ := by
  induction n generalizing r with
  | zero =>
    rw [applyDiff, take_zero, patched, append_nil]
    rfl
  | succ n ih =>
    obtain ⟨output, oldPos, diff, extra⟩ := r
    dsimp only at hDiff hPos ⊢
    cases diff with
    | nil => exact absurd hDiff (by simp)
    | cons d diff =>
      have hRest := ih (r := ⟨output ++ [old.getD oldPos 0 + d], oldPos + 1, diff, extra⟩)
        (by simpa using hDiff) (by dsimp only; omega)
      rw [applyDiff]
      dsimp only at hRest ⊢
      rw [if_pos (by omega), hRest, take_succ_cons, patched, drop_succ_cons,
        append_assoc, Nat.add_right_comm, Nat.add_assoc]
      rfl

theorem applyDiff_error (hn : 0 < n) (h : r.diff.length < n ∨ usizeMax < r.oldPos + n) :
    ∃ e, applyDiff old n r = .error e := by
  induction n generalizing r with
  | zero => exact absurd hn (Nat.lt_irrefl 0)
  | succ n ih =>
    obtain ⟨output, oldPos, diff, extra⟩ := r
    rw [applyDiff]
    cases diff with
    | nil => exact ⟨_, rfl⟩
    | cons d diff =>
      dsimp only at h ⊢
      rw [length_cons] at h
      split
      · rcases Nat.eq_zero_or_pos n with rfl | hPos
        · omega
        · refine ih hPos ?_
          dsimp only
          omega
      · exact ⟨_, rfl⟩

theorem copyExtra_add (m n : Nat) (r : Replay) :
    Agree (· = ·) (copyExtra m r >>= copyExtra n) (copyExtra (m + n) r) := by
  induction m generalizing r with
  | zero =>
    rw [Nat.zero_add]
    exact .refl _
  | succ m ih =>
    rw [Nat.add_right_comm, copyExtra, copyExtra]
    cases r.extra with
    | nil => exact trivial
    | cons x extra => exact ih _

theorem copyExtra_ok (h : n ≤ r.extra.length) :
    copyExtra n r = .ok ⟨r.output ++ r.extra.take n, r.oldPos, r.diff, r.extra.drop n⟩ := by
  obtain ⟨output, oldPos, diff, extra⟩ := r
  have hCopy := copyExtra_eq (extra.take n) output oldPos diff (extra.drop n)
  rwa [take_append_drop, length_take, min_eq_left h] at hCopy

theorem copyExtra_error (h : r.extra.length < n) : ∃ e, copyExtra n r = .error e := by
  induction n generalizing r with
  | zero => exact absurd h (Nat.not_lt_zero _)
  | succ n ih =>
    obtain ⟨output, oldPos, diff, extra⟩ := r
    cases extra with
    | nil => exact ⟨_, rfl⟩
    | cons x extra => exact ih (Nat.lt_of_succ_lt_succ h)

theorem readBlock_ok (h : n ≤ data.length) : readBlock n data = .ok (data.take n, data.drop n) := by
  rw [readBlock, readExact, if_pos h]

theorem readBlock_error (h : data.length < n) : ∃ e, readBlock n data = .error e := by
  rw [readBlock, readExact, if_neg (by omega)]
  exact ⟨_, rfl⟩

theorem copyExtra_readBlock (n : Nat) (r : Replay) :
    Agree (fun part r' => r' = ⟨r.output ++ part.1, r.oldPos, r.diff, part.2⟩)
      (readBlock n r.extra) (copyExtra n r) := by
  rcases Nat.lt_or_ge r.extra.length n with h | h
  · exact .of_error (readBlock_error h) (copyExtra_error h)
  · exact .of_ok (readBlock_ok h) (copyExtra_ok h) rfl

/-! ## Pieces of the old file -/

/-- The bytes of the old data from a position on, with zeros beyond its end. -/
def oldWindow (old : Bytes) (pos size : Nat) : Bytes :=
  (old.drop pos).take size ++ List.replicate (size - (old.length - pos)) 0

theorem zipWith_oldWindow (old : Bytes) (pos : Nat) (diff : Bytes) :
    zipWith (· + ·) (oldWindow old pos diff.length) diff = patched old pos diff := by
  induction diff generalizing pos with
  | nil => simp [patched]
  | cons d diff ih =>
    have hWindow : oldWindow old pos (diff.length + 1) =
        old.getD pos 0 :: oldWindow old (pos + 1) diff.length := by
      unfold oldWindow
      rcases Nat.lt_or_ge pos old.length with h | h
      · rw [drop_eq_getElem_cons h, take_succ_cons, getD_eq_getElem?_getD,
          getElem?_eq_getElem h, Option.getD_some, cons_append]
        congr 3
        omega
      · rw [drop_eq_nil_of_le h, drop_eq_nil_of_le (by omega), take_nil,
          take_nil, getD_eq_getElem?_getD, getElem?_eq_none h, Option.getD_none,
          show diff.length + 1 - (old.length - pos) = diff.length + 1 by omega,
          show diff.length - (old.length - (pos + 1)) = diff.length by omega]
        rfl
    rw [length_cons, hWindow, zipWith_cons_cons, ih, patched]

theorem header_of_readPatch {zlib : Zlib} {patch : Bytes}
    {parts : List ControlEntry × Bytes × Bytes × Nat} (h : readPatch zlib patch = .ok parts) :
    ∃ header data, readHeader patch = .ok (header, data) ∧ header.validate = .ok () ∧
      parts.2.2.2 = header.outputSize.toNat := by
  obtain ⟨⟨header, data⟩, hRead, h⟩ := bind_eq_ok.mp h
  obtain ⟨_, hValid, h⟩ := bind_eq_ok.mp h
  obtain ⟨_, -, h⟩ := bind_eq_ok.mp h
  obtain ⟨_, -, h⟩ := bind_eq_ok.mp h
  obtain ⟨_, -, h⟩ := bind_eq_ok.mp h
  obtain ⟨_, -, h⟩ := bind_eq_ok.mp h
  obtain ⟨_, -, h⟩ := bind_eq_ok.mp h
  cases h
  exact ⟨header, data, hRead, hValid, rfl⟩

namespace ZbsdiffPatcher

/-- The patcher reads the same file into the same buffer. -/
structure Same (old : Bytes) (capacity : Nat) (p : ZbsdiffPatcher) : Prop where
  contents : p.oldFile.contents = old
  capacity : p.outputCapacity = capacity

variable {old : Bytes} {capacity : Nat} {p : ZbsdiffPatcher} {s : Replay × ZbsdiffPatcher}

theorem readOldChunk_ok (h : p.Same old capacity) (pos size : Nat) :
    ∃ p', p.readOldChunk pos size old.length = .ok (oldWindow old pos size, p') ∧
      p'.Same old capacity := by
  unfold readOldChunk
  split_ifs with hPos
  · have hTake : (old.drop pos).take (min (old.length - pos) size) = (old.drop pos).take size := by
      rw [← length_drop, min_comm, ← take_take, take_length]
    have hRead : (p.oldFile.seekStart pos).readExact (min (old.length - pos) size) =
        .ok ((old.drop pos).take size, ⟨old, pos + min (old.length - pos) size⟩) := by
      unfold OldFile.readExact OldFile.seekStart
      dsimp only
      rw [h.contents, Lib.readExact, if_pos (by rw [length_drop]; omega), hTake]
    refine ⟨{ p with oldFile := ⟨old, pos + min (old.length - pos) size⟩ }, ?_, rfl, h.capacity⟩
    dsimp only
    rw [hRead, ok_bind, oldWindow,
      show size - (old.length - pos) = size - min (old.length - pos) size by omega]
  · refine ⟨p, ?_, h⟩
    rw [oldWindow, drop_eq_nil_of_le (by omega), take_nil, nil_append,
      show size - (old.length - pos) = size by omega]

/-- What a state of the patcher has to do with the state in memory. -/
def Matches (old : Bytes) (capacity : Nat) (s : Replay × ZbsdiffPatcher) (r : Replay) : Prop :=
  s.1 = r ∧ s.2.Same old capacity

theorem applyDiffChunk_agree (h : p.Same old capacity) {n : Nat} (hn : 0 < n) (r : Replay) :
    Agree (Matches old capacity) (p.applyDiffChunk old.length n r) (applyDiff old n r) := by
  unfold applyDiffChunk
  obtain ⟨p', hChunk, hSame⟩ := readOldChunk_ok h r.oldPos n
  rcases Nat.lt_or_ge r.diff.length n with hDiff | hDiff
  · obtain ⟨e, he⟩ := readBlock_error hDiff
    rw [he]
    exact .of_error ⟨e, rfl⟩ (applyDiff_error hn (.inl hDiff))
  · rw [readBlock_ok hDiff, ok_bind]
    dsimp only
    rw [hChunk, ok_bind]
    split_ifs with hPos
    · refine .of_ok rfl (applyDiff_ok hDiff hPos) ⟨?_, hSame⟩
      have hLength : (r.diff.take n).length = n := by
        rw [length_take]
        omega
      have hZip := zipWith_oldWindow old r.oldPos (r.diff.take n)
      rw [hLength] at hZip
      rw [hZip]
    · exact .of_error ⟨_, rfl⟩ (applyDiff_error hn (.inr (by omega)))

theorem applyDiffBlock_agree (remaining : Nat) (h : s.2.Same old capacity) :
    Agree (Matches old capacity) (applyDiffBlock old.length remaining s)
      (applyDiff old remaining s.1) := by
  induction remaining using Nat.strong_induction_on generalizing s with
  | _ remaining ih =>
    rw [applyDiffBlock]
    split_ifs with hPos
    · have hChunk := s.2.chunkSize_pos hPos
      set left := remaining - min remaining s.2.bufferSize
      have hSplit : remaining = min remaining s.2.bufferSize + left := by omega
      have hRounds : Agree (Matches old capacity)
          (s.2.applyDiffChunk old.length (min remaining s.2.bufferSize) s.1 >>=
            applyDiffBlock old.length left)
          (applyDiff old (min remaining s.2.bufferSize) s.1 >>= applyDiff old left) := by
        refine (applyDiffChunk_agree h hChunk s.1).bind ?_
        rintro s' r ⟨rfl, hSame⟩
        exact ih _ (by omega) hSame
      have hAdd := applyDiff_add old (min remaining s.2.bufferSize) left s.1
      rw [← hSplit] at hAdd
      exact hRounds.trans_eq hAdd
    · obtain rfl : remaining = 0 := by omega
      exact ⟨rfl, h⟩

theorem copyExtraBlock_agree (p : ZbsdiffPatcher) (remaining : Nat) (r : Replay) :
    Agree (· = ·) (p.copyExtraBlock remaining r) (copyExtra remaining r) := by
  induction remaining using Nat.strong_induction_on generalizing r with
  | _ remaining ih =>
    rw [copyExtraBlock]
    split_ifs with hPos
    · have hChunk := p.chunkSize_pos hPos
      have hSplit : remaining = min remaining p.bufferSize +
          (remaining - min remaining p.bufferSize) := by omega
      have hAdd := copyExtra_add (min remaining p.bufferSize)
        (remaining - min remaining p.bufferSize) r
      rw [← hSplit] at hAdd
      refine Agree.trans_eq ?_ hAdd
      refine (copyExtra_readBlock (min remaining p.bufferSize) r).bind ?_
      rintro ⟨chunk, extra⟩ r' rfl
      exact ih _ (by omega) _
    · obtain rfl : remaining = 0 := by omega
      exact rfl

/-! ## Whole patches -/

theorem applyEntry_agree {r : Replay} (h : Matches old capacity s r) (entry : ControlEntry) :
    Agree (Matches old capacity) (applyEntry old.length s entry)
      (Zbsdiff.applyEntry old r entry) := by
  obtain ⟨rfl, hSame⟩ := h
  refine (applyDiffBlock_agree entry.diffSize.toNat hSame).bind ?_
  rintro ⟨r₁, p₁⟩ r₁' ⟨rfl, hSame₁⟩
  refine (copyExtraBlock_agree p₁ entry.extraSize.toNat r₁).bind ?_
  rintro r₂ r₂' rfl
  exact ⟨rfl, hSame₁⟩

theorem applyPatch_agree (p : ZbsdiffPatcher) (control : List ControlEntry) (diff extra : Bytes) :
    Agree (· = ·) (p.applyPatch control diff extra)
      (applyPatchWithData p.oldFile.contents control diff extra p.outputCapacity) := by
  have hSame : p.getOldFileSize.2.Same p.oldFile.contents p.outputCapacity := ⟨rfl, rfl⟩
  refine (Agree.foldlM (fun s r entry h => applyEntry_agree h entry) control
    (⟨rfl, hSame⟩ : Matches _ _ (_, _) _)).bind ?_
  rintro ⟨r, p'⟩ r' ⟨rfl, hSame'⟩
  dsimp only at hSame' ⊢
  rw [hSame'.capacity]
  exact .refl _

theorem applyPatchFromData_agree (zlib : Zlib) (p : ZbsdiffPatcher) {patch : Bytes}
    (hCapacity : ∀ header data, readHeader patch = .ok (header, data) →
      p.outputCapacity = header.outputSize.toNat) :
    Agree (· = ·) (p.applyPatchFromData zlib patch)
      (applyPatchMemory zlib p.oldFile.contents patch) := by
  unfold applyPatchFromData applyPatchMemory
  cases hPatch : readPatch zlib patch with
  | error e => exact trivial
  | ok parts =>
    obtain ⟨header, data, hRead, -, hSize⟩ := header_of_readPatch hPatch
    rw [← hCapacity header data hRead] at hSize
    obtain ⟨control, diff, extra, _⟩ := parts
    cases hSize
    exact applyPatch_agree p control diff extra

end ZbsdiffPatcher

variable {header : ZbsdiffHeader}

/-- A header that `applyPatchMemory` takes is the one that the caller has parsed before. -/
theorem parseFromPatch_eq (h : parseFromPatch patch = .ok header) :
    ∃ data, readHeader patch = .ok (header, data) := by
  unfold parseFromPatch at h
  split at h
  · cases h
  · obtain ⟨⟨header', data⟩, hRead, h⟩ := bind_eq_ok.mp h
    obtain ⟨_, _, h⟩ := bind_eq_ok.mp h
    cases h
    exact ⟨data, hRead⟩

theorem length_of_readHeaderField {field rest : Bytes}
    (h : readHeaderField data = .ok (field, rest)) : data.length = rest.length + 8 := by
  unfold readHeaderField at h
  split at h
  next parts hParts =>
    cases h
    obtain ⟨rfl, hLength⟩ := readExact_eq_some.mp hParts
    rw [length_append, hLength, Nat.add_comm]
  · cases h

theorem length_of_readHeader (h : readHeader patch = .ok (header, data)) : 32 ≤ patch.length := by
  obtain ⟨⟨signature, data₁⟩, hSignature, h⟩ := bind_eq_ok.mp h
  dsimp only at h
  split at h
  · cases h
  obtain ⟨⟨control, data₂⟩, hControl, h⟩ := bind_eq_ok.mp h
  obtain ⟨⟨diff, data₃⟩, hDiff, h⟩ := bind_eq_ok.mp h
  obtain ⟨⟨output, data₄⟩, hOutput, h⟩ := bind_eq_ok.mp h
  have h₁ : patch.length = data₁.length + 8 := length_of_readHeaderField hSignature
  have h₂ : data₁.length = data₂.length + 8 := length_of_readHeaderField hControl
  have h₃ : data₂.length = data₃.length + 8 := length_of_readHeaderField hDiff
  have h₄ : data₃.length = data₄.length + 8 := length_of_readHeaderField hOutput
  omega

theorem parseFromPatch_of_applyPatchMemory {zlib : Zlib} {output : Bytes}
    (h : applyPatchMemory zlib old patch = .ok output) :
    ∃ header, parseFromPatch patch = .ok header := by
  obtain ⟨parts, hPatch, -⟩ := bind_eq_ok.mp h
  obtain ⟨header, data, hRead, hValid, -⟩ := header_of_readPatch hPatch
  refine ⟨header, ?_⟩
  have hLength := length_of_readHeader hRead
  rw [parseFromPatch, if_neg (by omega), hRead, ok_bind]
  dsimp only
  rw [hValid]
  rfl

/-- Through a file, with a buffer of any size, a patch gives the output that it gives in memory, or
fails when it fails there. -/
theorem applyPatchStreaming_agree (zlib : Zlib) (oldFile : OldFile) (bufferSize : Nat)
    (patch : Bytes) :
    Agree (· = ·) (applyPatchStreaming zlib oldFile bufferSize patch)
      (applyPatchMemory zlib oldFile.contents patch) := by
  unfold applyPatchStreaming
  cases hParse : parseFromPatch patch with
  | error e =>
    cases hMemory : applyPatchMemory zlib oldFile.contents patch with
    | error e' => exact trivial
    | ok output =>
      obtain ⟨header, hHeader⟩ := parseFromPatch_of_applyPatchMemory hMemory
      rw [hParse] at hHeader
      cases hHeader
  | ok header =>
    obtain ⟨data, hRead⟩ := parseFromPatch_eq hParse
    refine ZbsdiffPatcher.applyPatchFromData_agree zlib
      ((ZbsdiffPatcher.new oldFile header.outputSize.toNat).withBufferSize bufferSize) ?_
    intro header' data' hRead'
    rw [hRead] at hRead'
    cases hRead'
    rfl

end Cascette.Zbsdiff
