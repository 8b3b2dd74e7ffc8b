import Cascette.Zbsdiff.Streaming

/-!
# Positions in the old file

The position in the old file is moved by seeks, which saturate, and by one for each difference,
which does not. A control stream can seek to the last position and then apply a difference there.
Nothing else of a patch can overflow (`applyPatchMemory_panics_iff`).
-/

namespace Cascette.Zbsdiff

open Lib List

def Panics {α : Type} (x : Outcome α) : Prop := ∃ p, x = .error (.panic p)

section

variable {α β : Type} {x : Outcome α} {f : α → Outcome β}

theorem panics_bind : Panics (x >>= f) ↔ Panics x ∨ ∃ a, x = .ok a ∧ Panics (f a) := by
  cases x <;> simp [Panics, bind, Except.bind]

@[simp]
theorem not_panics_fail (e : ZbsdiffError) : ¬ Panics (fail e : Outcome α) := by
  simp [Panics, fail]

@[simp]
theorem not_panics_ok (a : α) : ¬ Panics (.ok a : Outcome α) := by
  simp [Panics]

end

variable {old data : Bytes} {zlib : Zlib}

/-! ## Reading a patch -/

theorem not_panics_readHeader : ¬ Panics (readHeader data) := by
  have hField : ∀ data, ¬ Panics (readHeaderField data) := by
    intro data
    unfold readHeaderField
    split <;> simp
  unfold readHeader
  simp only [panics_bind, hField, false_or, not_exists, not_and]
  intro signature _
  split <;> simp [panics_bind, hField]

theorem not_panics_readEntries (fuel : Nat) : ¬ Panics (readEntries fuel data) := by
  induction fuel generalizing data with
  | zero => simp [readEntries]
  | succ fuel ih =>
    have hValid : ∀ entry : ControlEntry, ¬ Panics entry.validate := by
      intro entry
      unfold ControlEntry.validate
      split <;> simp
    rw [readEntries]
    split
    · simp
    · split <;> simp [panics_bind, hValid, ih]

theorem not_panics_decompressZlib : ¬ Panics (decompressZlib zlib data) := by
  unfold decompressZlib
  split <;> simp

theorem not_panics_fromCompressed : ¬ Panics (fromCompressed zlib data) := by
  simp only [fromCompressed, panics_bind, not_panics_decompressZlib, not_panics_readEntries,
    false_or, not_exists, not_and]
  intro _ _ entries _
  split <;> simp

/-! ## Replaying -/

/-- With the position, and with what is left of the two streams, a difference is applied at the last
position. -/
def Overruns : List ControlEntry → Nat → Nat → Nat → Prop
  | [], _, _, _ => False
  | entry :: control, pos, diff, extra =>
    let n := entry.diffSize.toNat
    usizeMax - pos < min n diff ∨
      n ≤ diff ∧ entry.extraSize.toNat ≤ extra ∧ Overruns control
        (seekOld (pos + n) entry.seekOffset) (diff - n) (extra - entry.extraSize.toNat)

variable {n : Nat} {r : Replay}

theorem panics_applyDiff_iff :
    Panics (applyDiff old n r) ↔ usizeMax - r.oldPos < min n r.diff.length := by
  induction n generalizing r with
  | zero => simp [applyDiff]
  | succ n ih =>
    obtain ⟨output, oldPos, diff, extra⟩ := r
    rw [applyDiff]
    cases diff with
    | nil => simp
    | cons d diff =>
      dsimp only
      split
      · rw [ih]
        dsimp only [length_cons]
        omega
      · refine iff_of_true ⟨_, rfl⟩ ?_
        dsimp only [length_cons]
        omega

theorem not_panics_copyExtra : ¬ Panics (copyExtra n r) := by
  induction n generalizing r with
  | zero => simp [copyExtra]
  | succ n ih =>
    rw [copyExtra]
    split
    · simp
    · exact ih

variable {entry : ControlEntry}

theorem panics_applyEntry_iff : Panics (applyEntry old r entry) ↔
    usizeMax - r.oldPos < min entry.diffSize.toNat r.diff.length := by
  simp [applyEntry, panics_bind, not_panics_copyExtra, panics_applyDiff_iff]

/-- Short of an overrun an entry is applied exactly if the streams have enough for it. -/
theorem applyEntry_cases (old : Bytes) (hPos : r.oldPos ≤ usizeMax)
    (hOver : ¬ usizeMax - r.oldPos < min entry.diffSize.toNat r.diff.length) :
    (∃ r', applyEntry old r entry = .ok r' ∧ entry.diffSize.toNat ≤ r.diff.length ∧
      entry.extraSize.toNat ≤ r.extra.length ∧
      r'.oldPos = seekOld (r.oldPos + entry.diffSize.toNat) entry.seekOffset ∧
      r'.diff.length = r.diff.length - entry.diffSize.toNat ∧
      r'.extra.length = r.extra.length - entry.extraSize.toNat) ∨
    (∃ e, applyEntry old r entry = .error e) ∧
      ¬ (entry.diffSize.toNat ≤ r.diff.length ∧ entry.extraSize.toNat ≤ r.extra.length) := by
  rw [applyEntry]
  rcases Nat.lt_or_ge r.diff.length entry.diffSize.toNat with hDiff | hDiff
  · obtain ⟨e, hError⟩ := @applyDiff_error old _ _ (Nat.zero_lt_of_lt hDiff) (.inl hDiff)
    rw [hError]
    exact .inr ⟨⟨e, rfl⟩, fun h => absurd h.1 (by omega)⟩
  · rw [applyDiff_ok hDiff (by omega), ok_bind]
    rcases Nat.lt_or_ge r.extra.length entry.extraSize.toNat with hExtra | hExtra
    · obtain ⟨e, hError⟩ := copyExtra_error (r := ⟨r.output ++ patched old r.oldPos
        (r.diff.take entry.diffSize.toNat), _, r.diff.drop entry.diffSize.toNat, r.extra⟩) hExtra
      rw [hError]
      exact .inr ⟨⟨e, rfl⟩, fun h => absurd h.2 (by omega)⟩
    · rw [copyExtra_ok (by exact hExtra)]
      exact .inl ⟨_, rfl, hDiff, hExtra, rfl, length_drop, length_drop⟩

theorem panics_foldlM_iff (control : List ControlEntry) (hPos : r.oldPos ≤ usizeMax) :
    Panics (control.foldlM (applyEntry old) r) ↔
      Overruns control r.oldPos r.diff.length r.extra.length := by
  induction control generalizing r with
  | nil => exact iff_of_false (not_panics_ok r) id
  | cons entry control ih =>
    rw [foldlM_cons, panics_bind, Overruns, panics_applyEntry_iff]
    refine or_congr_right' fun hOver => ?_
    rcases applyEntry_cases old hPos hOver with
      ⟨r', hEntry, hDiff, hExtra, hPos', hDiff', hExtra'⟩ | ⟨⟨e, hError⟩, hShort⟩
    · have hSeek : r'.oldPos ≤ usizeMax := by
        rw [hPos', seekOld]
        split <;> omega
      rw [hEntry, and_iff_right hDiff, and_iff_right hExtra, ← hPos', ← hDiff', ← hExtra',
        ← ih hSeek]
      refine ⟨?_, fun h => ⟨_, rfl, h⟩⟩
      rintro ⟨_, ⟨⟩, hPanics⟩
      exact hPanics
    · rw [hError]
      refine iff_of_false ?_ fun h => hShort ⟨h.1, h.2.1⟩
      rintro ⟨_, ⟨⟩, _⟩

theorem not_panics_readPatch (patch : Bytes) : ¬ Panics (readPatch zlib patch) := by
  have hBlock : ∀ n data, ¬ Panics (readBlock n data) := by
    intro n data
    unfold readBlock
    split <;> simp
  have hValid : ∀ header : ZbsdiffHeader, ¬ Panics header.validate := by
    intro header
    unfold ZbsdiffHeader.validate
    split_ifs <;> simp
  simp [readPatch, panics_bind, not_panics_readHeader, hValid, hBlock, not_panics_fromCompressed,
    not_panics_decompressZlib]

/-- A patch overflows exactly if its control stream applies a difference at the last position. -/
theorem applyPatchMemory_panics_iff (zlib : Zlib) (old patch : Bytes) :
    Panics (applyPatchMemory zlib old patch) ↔ ∃ control diff extra size,
      readPatch zlib patch = .ok (control, diff, extra, size) ∧
        Overruns control 0 diff.length extra.length := by
  have hApply : ∀ control diff extra size, Panics (applyPatchWithData old control diff extra size) ↔
      Overruns control 0 diff.length extra.length := by
    intro control diff extra size
    rw [applyPatchWithData, panics_bind, panics_foldlM_iff control (Nat.zero_le _)]
    refine or_iff_left ?_
    rintro ⟨r, -, hPanics⟩
    revert hPanics
    split <;> simp
  rw [applyPatchMemory, panics_bind, or_iff_right (not_panics_readPatch patch)]
  constructor
  · rintro ⟨⟨control, diff, extra, size⟩, hParts, hPanics⟩
    exact ⟨control, diff, extra, size, hParts, (hApply _ _ _ _).mp hPanics⟩
  · rintro ⟨control, diff, extra, size, hParts, hOver⟩
    exact ⟨_, hParts, (hApply _ _ _ _).mpr hOver⟩

/-- Three seeks to the last position, and one difference. -/
theorem applyPatchMemory_panics :
    let seek : ControlEntry := ⟨0, 0, 2 ^ 63 - 1⟩
    ∃ patch, buildPatchInternal storedZlib [0] [seek, seek, seek, ⟨1, 0, 0⟩] [0] [] = .ok patch ∧
      applyPatchMemory storedZlib [] patch = .error (.panic .overflow) := by
  intro seek
  exact ⟨_, rfl, by decide +kernel⟩

end Cascette.Zbsdiff
