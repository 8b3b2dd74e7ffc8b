import Cascette.Lib.Except
import Cascette.Zbsdiff.DiffSpec
import Cascette.Zbsdiff.Patch

/-!
# A patch rebuilds the new data

The control entries the differ writes replay, over the old data, to exactly the part of the new
data it has passed (`Replays`), so at its end they replay to all of it (`diffLoop_spec`). The
container is read back as it was written, hence applying a built patch gives the new data
(`applyPatchMemory_build`).
-/

namespace Cascette.Zbsdiff

open Lib List Nat

/-! ## Replaying -/

/-- The entries turn the two streams into `output` and leave the old position at `pos`; what
follows in the streams is left alone. -/
def Replays (old : Bytes) (control : List ControlEntry) (diff extra output : Bytes) (pos : Nat) :
    Prop :=
  ∀ moreDiff moreExtra,
    control.foldlM (applyEntry old) ⟨[], 0, diff ++ moreDiff, extra ++ moreExtra⟩ =
      .ok ⟨output, pos, moreDiff, moreExtra⟩

variable {old diff extra new patch : Bytes} {control entries : List ControlEntry}
  {entry : ControlEntry} {fuel pos : Nat} {zlib : Zlib} {d : Differ}

theorem Replays.append {output : Bytes} (h : Replays old control diff extra output pos)
    {diff' extra' output' : Bytes} {pos' : Nat}
    (hEntry : ∀ moreDiff moreExtra, applyEntry old ⟨output, pos, diff' ++ moreDiff, extra' ++
      moreExtra⟩ entry = .ok ⟨output', pos', moreDiff, moreExtra⟩) :
    Replays old (control ++ [entry]) (diff ++ diff') (extra ++ extra') output' pos' := by
  intro moreDiff moreExtra
  rw [foldlM_append, append_assoc, append_assoc, h]
  change foldlM (applyEntry old) _ [entry] = _
  rw [foldlM_cons, hEntry]
  rfl

theorem applyDiff_eq (piece output : Bytes) (pos : Nat) (hOld : pos + piece.length ≤ old.length)
    (hSize : old.length < 2 ^ 63) (moreDiff extra : Bytes) :
    applyDiff old piece.length ⟨output, pos,
        zipWith (· - ·) piece ((old.drop pos).take piece.length) ++ moreDiff, extra⟩ =
      .ok ⟨output ++ piece, pos + piece.length, moreDiff, extra⟩ := by
  induction piece generalizing output pos with
  | nil => simp [applyDiff]
  | cons a piece ih =>
    have hPos : pos < old.length := by
      simp only [length_cons] at hOld
      omega
    have hMax : pos < usizeMax := by
      have : usizeMax = 2 ^ 64 - 1 := rfl
      omega
    have hByte : old.getD pos 0 + (a - old[pos]) = a := by
      rw [getD_eq_getElem?_getD, getElem?_eq_getElem hPos, Option.getD_some,
        UInt8.add_comm, UInt8.sub_add_cancel]
    have hRest := ih (output ++ [a]) (pos + 1) (by simp at hOld ⊢; omega)
    rw [length_cons, applyDiff, drop_eq_getElem_cons hPos]
    simp only [take_succ_cons, zipWith_cons_cons, cons_append, hMax, if_true, hByte, hRest]
    simp only [append_assoc, singleton_append, Except.ok.injEq, Replay.mk.injEq, true_and, and_true]
    omega

theorem copyExtra_eq (piece : Bytes) (output : Bytes) (pos : Nat) (diff moreExtra : Bytes) :
    copyExtra piece.length ⟨output, pos, diff, piece ++ moreExtra⟩ =
      .ok ⟨output ++ piece, pos, diff, moreExtra⟩ := by
  induction piece generalizing output with
  | nil => simp [copyExtra]
  | cons x piece ih =>
    rw [length_cons, copyExtra, cons_append]
    dsimp only
    rw [ih, append_assoc]
    rfl

theorem seekOld_eq {a b : Nat} (hb : b < 2 ^ 63) : seekOld a ((b : Int) - a) = b := by
  have hMax : usizeMax = 2 ^ 64 - 1 := rfl
  unfold seekOld
  split
  · omega
  · omega

/-- One entry of the differ: `lenf` differences, then the extra bytes up to the match, then the
seek to it. -/
theorem applyEntry_piece {lastscan lastpos lenf stop : Nat} (target : Nat)
    (hSize : old.length < 2 ^ 63) (hStart : lastscan + lenf ≤ stop) (hStop : stop ≤ new.length)
    (hOld : lastpos + lenf ≤ old.length) (hTarget : target ≤ old.length)
    (moreDiff moreExtra : Bytes) :
    applyEntry old ⟨new.take lastscan, lastpos,
        zipWith (· - ·) ((new.drop lastscan).take lenf) ((old.drop lastpos).take lenf) ++
          moreDiff, (new.take stop).drop (lastscan + lenf) ++ moreExtra⟩
        ⟨lenf, ((stop - (lastscan + lenf) : Nat) : Int), (target : Int) - (lastpos + lenf : Nat)⟩ =
      .ok ⟨new.take stop, target, moreDiff, moreExtra⟩ := by
  have hPiece : ((new.drop lastscan).take lenf).length = lenf := by
    simp only [length_take, length_drop]
    omega
  have hExtra : ((new.take stop).drop (lastscan + lenf)).length = stop - (lastscan + lenf) := by
    simp only [length_take, length_drop]
    omega
  have hDiff := applyDiff_eq ((new.drop lastscan).take lenf) (new.take lastscan) lastpos
    (by omega) hSize moreDiff ((new.take stop).drop (lastscan + lenf) ++ moreExtra)
  have hCopy := copyExtra_eq ((new.take stop).drop (lastscan + lenf))
    (new.take lastscan ++ (new.drop lastscan).take lenf) (lastpos + lenf) moreDiff moreExtra
  rw [hPiece] at hDiff
  rw [hExtra] at hCopy
  have hOutput : new.take lastscan ++ (new.drop lastscan).take lenf ++
      (new.take stop).drop (lastscan + lenf) = new.take stop := by
    rw [← take_add, ← min_eq_left hStart, ← take_take, min_eq_left hStart]
    exact take_append_drop _ _
  simp only [applyEntry, Int.toNat_natCast, hDiff, hCopy, bind, Except.bind, hOutput,
    seekOld_eq (show target < 2 ^ 63 by omega)]

/-! ## The differ's run -/

/-- The sizes of an entry are lengths of pieces of the new data. -/
def Within (new : Bytes) (entry : ControlEntry) : Prop :=
  (0 ≤ entry.diffSize ∧ entry.diffSize ≤ new.length) ∧
    0 ≤ entry.extraSize ∧ entry.extraSize ≤ new.length

/-- What the differ keeps from one piece to the next. -/
structure DifferInv (old new : Bytes) (d : Differ) : Prop where
  last_le : d.lastscan ≤ d.scan
  scan_le : d.scan ≤ new.length
  lastpos_le : d.lastpos ≤ old.length
  pos_le : d.pos ≤ old.length
  replays : Replays old d.result.control d.result.diffData d.result.extraData
    (new.take d.lastscan) d.lastpos
  seeks : ∀ entry ∈ d.result.control, entry.seekOffset.natAbs < 2 ^ 63
  sizes : ∀ entry ∈ d.result.control, Within new entry

/-- Writing a piece keeps the invariant; at the end of the new data nothing is left. -/
theorem emit_spec (hSize : old.length < 2 ^ 63) (h : DifferInv old new d)
    (hFuel : new.length < fuel) :
    Returns (emit old new fuel d) fun d' =>
      DifferInv old new d' ∧ d'.scan = d.scan ∧ d'.len = d.len ∧
      (d.scan = new.length → d'.lastscan = new.length) := by
  have hScan := h.scan_le
  refine (extend_spec h.last_le h.scan_le h.lastpos_le h.pos_le hFuel).bind ?_
  rintro ⟨lenf, lenb⟩ ⟨hNew, hOld, hPos, hEnd⟩
  dsimp only at hNew hOld hPos hEnd ⊢
  rw [collectDiff_eq (by omega) hOld, checkedSub_eq (show lenb ≤ d.scan by omega)]
  change Returns (collectExtra new (d.lastscan + lenf) (d.scan - lenb) >>= _) _
  rw [collectExtra_eq (by omega) (by omega), checkedSub_eq (show _ ≤ d.scan - lenb by omega),
    checkedSub_eq hPos]
  have hPosLe := h.pos_le
  have hSeek : ((d.pos : Int) - lenb) - ((d.lastpos : Int) + lenf) =
      ((d.pos - lenb : Nat) : Int) - ((d.lastpos + lenf : Nat) : Int) := by omega
  have hPiece := applyEntry_piece (d.pos - lenb) hSize
    (show d.lastscan + lenf ≤ d.scan - lenb by omega) (show d.scan - lenb ≤ new.length by omega)
    hOld (by omega)
  rw [hSeek]
  refine returns_ok ⟨⟨?_, hScan, ?_, hPosLe, h.replays.append hPiece, ?_, ?_⟩, rfl, rfl, ?_⟩
  · exact sub_le _ _
  · dsimp only
    omega
  · intro entry hEntry
    rcases mem_append.mp hEntry with hEntry | hEntry
    · exact h.seeks entry hEntry
    · rw [mem_singleton.mp hEntry]
      dsimp only
      omega
  · intro entry hEntry
    rcases mem_append.mp hEntry with hEntry | hEntry
    · exact h.sizes entry hEntry
    · rw [mem_singleton.mp hEntry]
      dsimp only [Within]
      omega
  · intro hAll
    have := hEnd hAll
    dsimp only
    omega

/-- Each turn moves on by at least the match it accepted, so the turns are bounded, and the
entries written at the end replay to the new data. -/
theorem diffLoop_spec {sa : List Nat} (hSa : IsSuffixArray old sa) (hSize : old.length < 2 ^ 63)
    (hFuel : new.length < fuel) {turns : Nat} (h : DifferInv old new d)
    (hNext : d.scan < new.length → d.scan + d.len ≤ new.length ∧ new.length - (d.scan + d.len) + 1 <
      turns)
    (hDone : d.scan = new.length → d.lastscan = new.length) (hTurns : 0 < turns) :
    Returns (diffLoop sa old new fuel turns d) fun r =>
      (∃ pos, Replays old r.control r.diffData r.extraData new pos) ∧
      ∀ entry ∈ r.control, entry.seekOffset.natAbs < 2 ^ 63 ∧ Within new entry := by
  induction turns generalizing d with
  | zero => omega
  | succ turns ih =>
    refine returns_ite (fun hScan => ?_) fun hEnd => ?_
    · obtain ⟨hIn, hMore⟩ := hNext hScan
      have hStart : ScanInv old new d.lastoffset
          ⟨d.scan + d.len, d.scan + d.len, 0, d.pos, d.len⟩ :=
        ⟨hIn, hIn, by simp [driftCount], by intro i hi hi'; dsimp only at hi hi'; omega, h.pos_le⟩
      refine (scanLoop_spec hSa hStart (by dsimp only; omega)).bind ?_
      rintro s ⟨hGe, hLe, hPos, hAccept⟩
      dsimp only at hGe hLe hPos hAccept ⊢
      have hLast := h.last_le
      have hMoved : DifferInv old new { d with scan := s.scan, len := s.len, pos := s.pos } :=
        ⟨by dsimp only; omega, hLe, h.lastpos_le, hPos, h.replays, h.seeks, h.sizes⟩
      -- a match accepted before the end is not empty
      have hProgress : s.scan < new.length → s.scan + s.len ≤ new.length ∧
          new.length - (s.scan + s.len) + 1 < turns := by
        intro hLt
        obtain ⟨hLen, hAccepts⟩ := hAccept hLt
        simp only [accepts, Bool.or_eq_true, Bool.and_eq_true, bne_iff_ne, beq_iff_eq,
          decide_eq_true_eq] at hAccepts
        omega
      refine returns_ite (fun hEmit => ?_) fun hSkip => ?_
      · refine (emit_spec hSize hMoved hFuel).bind ?_
        rintro d' ⟨hInv, hScan', hLen', hLast'⟩
        refine ih hInv ?_ ?_ (by omega)
        · rw [hScan', hLen']
          exact hProgress
        · rw [hScan']
          exact hLast'
      · refine ih hMoved hProgress ?_ (by omega)
        intro hAll
        exact absurd (Or.inr hAll) hSkip
    · have hAll : d.lastscan = new.length := hDone (by have := h.scan_le; omega)
      have hReplays := h.replays
      rw [hAll, take_length] at hReplays
      exact returns_ok ⟨⟨_, hReplays⟩, fun entry hEntry =>
        ⟨h.seeks entry hEntry, h.sizes entry hEntry⟩⟩

theorem computeDiff_spec {sort : Bytes → List Nat} (hSort : old ≠ [] → IsSuffixArray old (sort old))
    (hSize : old.length < 2 ^ 63) (new : Bytes) :
    Returns (computeDiff sort old new) fun r =>
      (∃ pos, Replays old r.control r.diffData r.extraData new pos) ∧
      ∀ entry ∈ r.control, entry.seekOffset.natAbs < 2 ^ 63 ∧ Within new entry := by
  have hSa : IsSuffixArray old (if 0 < old.length then sort old else []) := by
    split_ifs with hLength
    · exact hSort (length_pos_iff.mp hLength)
    · rw [length_eq_zero_iff.mp (Nat.eq_zero_of_not_pos hLength)]
      exact ⟨Perm.refl _, List.Pairwise.nil⟩
  refine diffLoop_spec hSa hSize (by omega) ?_ ?_ ?_ (by omega)
  · exact ⟨le_rfl, zero_le _, zero_le _, zero_le _, fun _ _ => rfl, by simp, by simp⟩
  · intro _
    dsimp only
    omega
  · exact id

/-! ## The container -/

theorem offtin_offtout {value : Int} (h : value.natAbs < 2 ^ 63) :
    offtin (offtout value) = value := by
  have hBytes : ofLe (offtout value) = value.natAbs + if value < 0 then 2 ^ 63 else 0 := by
    rw [offtout, ofLe_leBytes_of_lt]
    split <;> omega
  simp only [offtin, hBytes]
  by_cases hNeg : value < 0
  · simp only [hNeg, if_true]
    omega
  · simp only [hNeg, if_false, Nat.add_zero]
    rw [if_neg (by omega), mod_eq_of_lt h]
    omega

@[simp]
theorem offtout_length (value : Int) : (offtout value).length = 8 := leBytes_length _ _

/-- An entry that passes its check, with a seek that fits its field. -/
def ControlEntry.Fits (entry : ControlEntry) : Prop :=
  entry.problem = none ∧ entry.seekOffset.natAbs < 2 ^ 63

theorem problem_none_iff :
    entry.problem = none ↔ 0 ≤ entry.diffSize ∧ 0 ≤ entry.extraSize ∧
      entry.diffSize ≤ maxOpSize ∧ entry.extraSize ≤ maxOpSize := by
  unfold ControlEntry.problem
  split_ifs <;> simp <;> omega

@[simp]
theorem ControlEntry.toBytes_length (entry : ControlEntry) : entry.toBytes.length = 24 := by
  simp [ControlEntry.toBytes]

theorem fromBytes_toBytes_append (h : entry.Fits) (rest : Bytes) :
    ControlEntry.fromBytes (entry.toBytes ++ rest) = entry := by
  obtain ⟨diffSize, extraSize, seekOffset⟩ := entry
  obtain ⟨hProblem, hSeek⟩ := h
  obtain ⟨hDiff, hExtra, hDiffMax, hExtraMax⟩ := problem_none_iff.mp hProblem
  have hMax : maxOpSize = 10000000 := rfl
  dsimp only at hDiff hExtra hDiffMax hExtraMax hSeek
  have h16 : ((offtout diffSize ++ offtout extraSize) ++ (offtout seekOffset ++ rest)).drop 16 =
      offtout seekOffset ++ rest := drop_left' (by simp)
  rw [append_assoc] at h16
  simp only [ControlEntry.fromBytes, ControlEntry.toBytes, append_assoc,
    take_left' (offtout_length _), drop_left' (offtout_length _), h16]
  rw [offtin_offtout (by omega), offtin_offtout (by omega), offtin_offtout hSeek]

theorem readEntries_flatMap (h : ∀ entry ∈ entries, entry.Fits) (hFuel : entries.length ≤ fuel) :
    readEntries fuel (entries.flatMap ControlEntry.toBytes) = .ok entries := by
  induction entries generalizing fuel with
  | nil => cases fuel <;> rfl
  | cons entry entries ih =>
    obtain ⟨fuel, rfl⟩ : ∃ m, fuel = m + 1 := ⟨fuel - 1, by simp at hFuel; omega⟩
    have hEntry := h entry mem_cons_self
    have hRest := ih (fun other hOther => h other (mem_cons_of_mem entry hOther))
      (show entries.length ≤ fuel by simpa using hFuel)
    have hLength : ¬ (entry.toBytes ++ entries.flatMap ControlEntry.toBytes).length < 24 := by
      simp
    have hNe : (entry.toBytes ++ entries.flatMap ControlEntry.toBytes).isEmpty = false := by
      rw [← Bool.not_eq_true, isEmpty_iff_length_eq_zero]
      omega
    simp only [flatMap_cons, readEntries, hNe, Bool.false_eq_true, if_false, hLength,
      fromBytes_toBytes_append hEntry, ControlEntry.validate, hEntry.1,
      drop_left' entry.toBytes_length, hRest, bind, Except.bind]

theorem validateEntries_eq_ok_iff {i : Nat} :
    validateEntries i entries = .ok () ↔ ∀ entry ∈ entries, entry.problem = none := by
  induction entries generalizing i with
  | nil => simp [validateEntries]
  | cons entry entries ih =>
    rw [validateEntries, forall_mem_cons]
    cases hProblem : entry.problem with
    | some reason => simp [fail]
    | none => simp [ih]

theorem withEntries_eq_ok_iff {checked : List ControlEntry} :
    withEntries entries = .ok checked ↔
      checked = entries ∧ entries ≠ [] ∧ ∀ entry ∈ entries, entry.problem = none := by
  unfold withEntries
  split_ifs with hNe
  · simp_all [fail]
  · rw [bind_eq_ok]
    constructor
    · rintro ⟨⟨⟩, hValid, h⟩
      exact ⟨(Except.ok.inj h).symm, by simpa using hNe, validateEntries_eq_ok_iff.mp hValid⟩
    · rintro ⟨rfl, -, hValid⟩
      exact ⟨(), validateEntries_eq_ok_iff.mpr hValid, rfl⟩

theorem fromCompressed_toCompressed
    (hZlib : ∀ data, zlib.decompress (zlib.compress data) = .ok data) (hNe : entries ≠ [])
    (h : ∀ entry ∈ entries, entry.Fits) :
    fromCompressed zlib (toCompressed zlib entries) = .ok entries := by
  have hLength : entries.length ≤ (entries.flatMap ControlEntry.toBytes).length := by
    simp only [length_flatMap, ControlEntry.toBytes_length, map_const', sum_replicate, smul_eq_mul]
    omega
  simp only [fromCompressed, toCompressed, decompressZlib, hZlib, readEntries_flatMap h hLength,
    bind, Except.bind, List.isEmpty_iff, hNe, if_false]

theorem i64OfLe_i64Bytes {n : Nat} (h : n < 2 ^ 63) : i64OfLe (i64Bytes n) = n := by
  have hValue : ((n : Int) % 2 ^ 64).toNat = n := by omega
  rw [i64OfLe, i64Bytes, hValue, ofLe_leBytes_of_lt (by omega), if_pos h]

theorem validate_ok_iff {header : ZbsdiffHeader} :
    header.validate = .ok () ↔ header.signature = zbsdiff1Signature ∧
      (0 ≤ header.controlSize ∧ 0 ≤ header.diffSize ∧ 0 ≤ header.outputSize) ∧
      (header.outputSize ≤ maxSize ∧ header.controlSize + header.diffSize ≤ maxSize) := by
  unfold ZbsdiffHeader.validate fail
  split_ifs <;> simp_all <;> omega

theorem readHeader_toBytes {control diff output : Nat} (hControl : control < 2 ^ 63)
    (hDiff : diff < 2 ^ 63) (hOutput : output < 2 ^ 63) (rest : Bytes) :
    readHeader ((⟨zbsdiff1Signature, control, diff, output⟩ : ZbsdiffHeader).toBytes ++ rest) =
      .ok (⟨zbsdiff1Signature, control, diff, output⟩, rest) := by
  have hField : ∀ (field more : Bytes), field.length = 8 →
      readHeaderField (field ++ more) = .ok (field, more) := by
    intro field more h
    rw [readHeaderField, readExact_append h]
  have hSignature : UInt64.ofNat (ofLe (leBytes 8 zbsdiff1Signature.toNat)) =
      zbsdiff1Signature := by
    rw [ofLe_leBytes_of_lt (UInt64.toNat_lt _), UInt64.ofNat_toNat]
  simp only [readHeader, ZbsdiffHeader.toBytes, append_assoc,
    hField _ _ (leBytes_length 8 _), hField (i64Bytes _) _ (leBytes_length 8 _), hSignature,
    i64OfLe_i64Bytes hControl, i64OfLe_i64Bytes hDiff, i64OfLe_i64Bytes hOutput, bind, Except.bind,
    ne_eq, not_true_eq_false, if_false]

theorem applyPatchMemory_buildPatchInternal
    (hZlib : ∀ data, zlib.decompress (zlib.compress data) = .ok data)
    (hNe : control ≠ []) (hFits : ∀ entry ∈ control, entry.Fits)
    (h : buildPatchInternal zlib new control diff extra = .ok patch) :
    applyPatchMemory zlib old patch = applyPatchWithData old control diff extra new.length := by
  have hBlock : ∀ (block more : Bytes), readBlock block.length (block ++ more) =
      .ok (block, more) := by
    intro block more
    rw [readBlock, readExact_append rfl]
  obtain ⟨⟨⟩, hValid, h⟩ := bind_eq_ok.mp h
  obtain rfl := Except.ok.inj h
  obtain ⟨-, -, hOutput, hTotal⟩ := validate_ok_iff.mp hValid
  have hMax : maxSize = 1000000000 := rfl
  dsimp only at hOutput hTotal
  rw [applyPatchMemory, readPatch, readHeader_toBytes (by omega) (by omega) (by omega), ok_bind]
  dsimp only
  rw [hValid]
  simp only [Int.toNat_natCast, hBlock, fromCompressed_toCompressed hZlib hNe hFits,
    decompressZlib, hZlib, bind, Except.bind]

theorem applyPatchWithData_of_replays (h : Replays old control diff extra new pos) :
    applyPatchWithData old control diff extra new.length = .ok new := by
  have hRun := h [] []
  rw [append_nil, append_nil] at hRun
  simp only [applyPatchWithData, hRun, bind, Except.bind, ne_eq, not_true_eq_false, if_false]

theorem replays_simple (old new : Bytes) : Replays old [⟨0, new.length, 0⟩] [] new new 0 := by
  intro moreDiff moreExtra
  have hCopy := copyExtra_eq new [] 0 moreDiff moreExtra
  simp [applyEntry, applyDiff, hCopy, seekOld, bind, Except.bind, pure, Except.pure]

theorem applyPatchMemory_buildSimplePatch
    (hZlib : ∀ data, zlib.decompress (zlib.compress data) = .ok data)
    (h : buildSimplePatch zlib new = .ok patch) : applyPatchMemory zlib old patch = .ok new := by
  obtain ⟨control, hControl, h⟩ := bind_eq_ok.mp h
  obtain ⟨rfl, hNe, hValid⟩ := withEntries_eq_ok_iff.mp hControl
  have hFits : ∀ entry ∈ [(⟨0, new.length, 0⟩ : ControlEntry)], entry.Fits := by
    intro entry hEntry
    refine ⟨hValid entry hEntry, ?_⟩
    rw [mem_singleton.mp hEntry]
    norm_num
  rw [applyPatchMemory_buildPatchInternal hZlib hNe hFits h]
  exact applyPatchWithData_of_replays (replays_simple old new)

/-- For every old and new data the differ ends without a panic, and a patch that `build` returns
applies to the new data. `sort` orders the suffixes of the old data, zlib inverts itself, and the
old data is of a length a slice can have. -/
theorem applyPatchMemory_build (zlib : Zlib)
    (hZlib : ∀ data, zlib.decompress (zlib.compress data) = .ok data)
    (sort : Bytes → List Nat) (old new : Bytes)
    (hSort : old ≠ [] → IsSuffixArray old (sort old)) (hSize : old.length < 2 ^ 63) :
    (∃ result, computeDiff sort old new = .ok result) ∧
      ∀ patch, build zlib sort old new = .ok patch → applyPatchMemory zlib old patch = .ok new := by
  obtain ⟨result, hResult, ⟨pos, hReplays⟩, hEntries⟩ := computeDiff_spec hSort hSize new
  refine ⟨⟨result, hResult⟩, ?_⟩
  intro patch h
  simp only [build, hResult] at h
  split at h
  · exact applyPatchMemory_buildSimplePatch hZlib h
  · obtain ⟨control, hControl, h⟩ := bind_eq_ok.mp h
    obtain ⟨rfl, hNe, hValid⟩ := withEntries_eq_ok_iff.mp hControl
    rw [applyPatchMemory_buildPatchInternal hZlib hNe
      (fun entry hEntry => ⟨hValid entry hEntry, (hEntries entry hEntry).1⟩) h]
    exact applyPatchWithData_of_replays hReplays

/-- Streams that are stored as they are. -/
def storedZlib : Zlib := ⟨id, .ok⟩

/-- A patch from `ab` to `abc`. -/
theorem applyPatchMemory_build_abc :
    (∃ patch, build storedZlib (fun _ => [0, 1]) [97, 98] [97, 98, 99] = .ok patch) ∧
      ∀ patch, build storedZlib (fun _ => [0, 1]) [97, 98] [97, 98, 99] = .ok patch →
        applyPatchMemory storedZlib [97, 98] patch = .ok [97, 98, 99] :=
  ⟨⟨_, rfl⟩, (applyPatchMemory_build storedZlib (fun _ => rfl) (fun _ => [0, 1]) [97, 98]
    [97, 98, 99] (fun _ => ⟨by decide, by decide⟩) (by decide)).2⟩

/-! ## Limits -/

/-- The control entries, the difference bytes and the extra bytes that are written for a result of
the differ. -/
def written (new : Bytes) (result : DiffResult) : List ControlEntry × Bytes × Bytes :=
  if result.control.isEmpty then ([⟨0, new.length, 0⟩], [], new)
  else (result.control, result.diffData, result.extraData)

theorem written_ne_nil (new : Bytes) (result : DiffResult) : (written new result).1 ≠ [] := by
  unfold written
  split_ifs with hEmpty
  · exact cons_ne_nil _ _
  · exact fun hNil => hEmpty (isEmpty_iff.mpr hNil)

theorem build_eq_written {sort : Bytes → List Nat} {result : DiffResult}
    (hResult : computeDiff sort old new = .ok result) :
    build zlib sort old new = withEntries (written new result).1 >>= fun control =>
      buildPatchInternal zlib new control (written new result).2.1 (written new result).2.2 := by
  simp only [build, hResult, written]
  split_ifs <;> rfl

theorem scanLoop_nil {lastoffset : Int} {scan scsc : Nat} (hScan : scan ≤ new.length)
    (hScsc : scsc ≤ scan) (hFuel : new.length - scan < fuel) :
    ∃ scsc', scanLoop [] [] new lastoffset fuel ⟨scan, scsc, 0, 0, 0⟩ =
      .ok ⟨new.length, scsc', 0, 0, 0⟩ := by
  induction fuel generalizing scan scsc with
  | zero => omega
  | succ fuel ih =>
    rw [scanLoop]
    split_ifs with hLt
    · have hMatch (i : Nat) : driftMatch [] new lastoffset i = .ok false := by
        rw [driftMatch, if_neg (by simp)]
      have hCount (steps i : Nat) : countDrift [] new lastoffset steps i 0 = .ok 0 := by
        induction steps generalizing i with
        | zero => rfl
        | succ steps ih =>
          rw [countDrift, hMatch, ok_bind]
          exact ih (i + 1)
      rw [sliceFrom_eq hLt.le, ok_bind]
      simp only [search, isEmpty_nil, Bool.true_or, if_true, ok_bind, hCount, hMatch, accepts,
        undoScore]
      exact ih hLt (by simp; omega) (by dsimp only at hLt; omega)
    · have hEnd : scan = new.length := by dsimp only at *; omega
      exact ⟨scsc, by rw [hEnd]⟩

theorem computeDiff_nil (sort : Bytes → List Nat) (hNe : new ≠ []) :
    computeDiff sort [] new = .ok ⟨[⟨0, new.length, 0⟩], [], new⟩ := by
  have hPos := length_pos_iff.mpr hNe
  obtain ⟨scsc, hScan⟩ : ∃ scsc, scanLoop [] [] new 0 (new.length + 2) ⟨0, 0, 0, 0, 0⟩ =
      .ok ⟨new.length, scsc, 0, 0, 0⟩ := scanLoop_nil (zero_le _) le_rfl (by omega)
  simp [computeDiff, diffLoop, hPos, hScan, emit, extend, extendForward, backwardLen, checkedSub,
    collectDiff, collectExtra, slice, bind, Except.bind]

end Cascette.Zbsdiff
