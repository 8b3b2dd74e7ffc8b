import Mathlib.Data.List.TakeWhile
import Cascette.Lib.Codec
import Cascette.Lib.Utf8

/-!
# Formats

A format is a reader and a writer for some of the values of a type: a valid value is read back,
and what was read is valid and is what would be written. So a value comes back unchanged exactly
if it is valid (`parse_write_iff`). A codec is a format of which every value is valid; lists of a
known length, byte strings and zero-terminated texts are the formats from which records
are read. -/

namespace Cascette.Lib

open List

structure Format (ε α : Type) where
  read : Bytes → Except ε (α × Bytes)
  write : α → Bytes
  Valid : α → Prop
  read_write {a : α} (h : Valid a) (rest : Bytes) : read (write a ++ rest) = .ok (a, rest)
  write_read {bytes : Bytes} {a : α} {rest : Bytes} :
    read bytes = .ok (a, rest) → bytes = write a ++ rest ∧ Valid a

variable {ε δ α : Type}

def readMany (read : Bytes → Except ε (α × Bytes)) : Nat → Bytes → Except ε (List α × Bytes)
  | 0, bytes => .ok ([], bytes)
  | n + 1, bytes => do
    let (a, rest) ← read bytes
    let (as, rest) ← readMany read n rest
    .ok (a :: as, rest)

variable {read : Bytes → Except ε (α × Bytes)} {as : List α} {n : Nat}

theorem readMany_flatMap {write : α → Bytes}
    (h : ∀ a ∈ as, ∀ rest, read (write a ++ rest) = .ok (a, rest)) (rest : Bytes) :
    readMany read as.length (as.flatMap write ++ rest) = .ok (as, rest) := by
  induction as with
  | nil => rfl
  | cons a as ih =>
    obtain ⟨hHead, hTail⟩ := forall_mem_cons.mp h
    rw [flatMap_cons, append_assoc, length_cons, readMany, hHead, ok_bind]
    dsimp only
    rw [ih hTail, ok_bind]

theorem of_readMany {bytes rest : Bytes} (h : readMany read n bytes = .ok (as, rest)) :
    as.length = n ∧ ∀ a ∈ as, ∃ bytes rest, read bytes = .ok (a, rest) := by
  induction n generalizing bytes as with
  | zero =>
    cases h
    exact ⟨rfl, nofun⟩
  | succ n ih =>
    obtain ⟨⟨a, rest₁⟩, hHead, h⟩ := bind_eq_ok.mp h
    obtain ⟨⟨as', rest₂⟩, hTail, h⟩ := bind_eq_ok.mp h
    cases h
    obtain ⟨rfl, hAll⟩ := ih hTail
    exact ⟨rfl, forall_mem_cons.mpr ⟨⟨bytes, rest₁, hHead⟩, hAll⟩⟩

namespace Format

/-- The reader, when what follows the value is dropped. -/
def parse (f : Format ε α) (bytes : Bytes) : Except ε α := (f.read bytes).map Prod.fst

variable {a : α} {front : Bytes} (f : Format ε α)

theorem read_eq_ok {bytes rest : Bytes} :
    f.read bytes = .ok (a, rest) ↔ bytes = f.write a ++ rest ∧ f.Valid a :=
  ⟨f.write_read, fun ⟨h, hValid⟩ => h ▸ f.read_write hValid rest⟩

theorem parse_eq_ok {bytes : Bytes} :
    f.parse bytes = .ok a ↔ f.Valid a ∧ ∃ rest, bytes = f.write a ++ rest := by
  constructor
  · intro h
    unfold parse at h
    cases hRead : f.read bytes with
    | error e =>
      rw [hRead] at h
      cases h
    | ok result =>
      rw [hRead] at h
      cases h
      obtain ⟨hBytes, hValid⟩ := f.write_read hRead
      exact ⟨hValid, result.2, hBytes⟩
  · rintro ⟨hValid, rest, rfl⟩
    rw [parse, f.read_write hValid]
    rfl

theorem parse_write_iff : f.parse (f.write a) = .ok a ↔ f.Valid a := by
  rw [parse_eq_ok]
  exact ⟨And.left, fun h => ⟨h, [], (append_nil _).symm⟩⟩

def ofCodec (c : Codec ε α) : Format ε α where
  read := c.read
  write := c.write
  Valid _ := True
  read_write _ rest := c.read_write _ rest
  write_read h := ⟨c.write_read h, trivial⟩

/-! ## A known number of values -/

theorem readMany_eq_ok {bytes rest : Bytes} :
    readMany f.read n bytes = .ok (as, rest) ↔
      bytes = as.flatMap f.write ++ rest ∧ as.length = n ∧ ∀ a ∈ as, f.Valid a := by
  constructor
  · intro h
    induction n generalizing bytes as with
    | zero =>
      cases h
      exact ⟨rfl, rfl, nofun⟩
    | succ n ih =>
      obtain ⟨⟨a, rest₁⟩, hHead, h⟩ := bind_eq_ok.mp h
      obtain ⟨⟨as', rest₂⟩, hTail, h⟩ := bind_eq_ok.mp h
      cases h
      obtain ⟨hBytes, hValid⟩ := f.write_read hHead
      obtain ⟨hBytes', rfl, hValid'⟩ := ih hTail
      rw [hBytes, hBytes', flatMap_cons, append_assoc]
      exact ⟨rfl, rfl, forall_mem_cons.mpr ⟨hValid, hValid'⟩⟩
  · rintro ⟨rfl, rfl, hValid⟩
    exact readMany_flatMap (fun a ha => f.read_write (hValid a ha)) rest

/-- A value that is there on a condition. -/
def optional (present : Prop) [Decidable present] (f : Format ε α) : Format ε (Option α) where
  read bytes :=
    if present then do
      let (a, rest) ← f.read bytes
      .ok (some a, rest)
    else .ok (none, bytes)
  write o := o.elim [] f.write
  Valid o := (o.isSome ↔ present) ∧ ∀ a ∈ o, f.Valid a
  read_write {o} h rest := by
    cases o with
    | none =>
      rw [if_neg fun hPresent => Bool.false_ne_true (h.1.mpr hPresent)]
      rfl
    | some a =>
      rw [if_pos (h.1.mp rfl)]
      change (f.read (f.write a ++ rest) >>= _) = _
      rw [f.read_write (h.2 a rfl), ok_bind]
  write_read {bytes o rest} h := by
    split_ifs at h with hPresent
    · obtain ⟨⟨a, rest₁⟩, hRead, h⟩ := bind_eq_ok.mp h
      cases h
      obtain ⟨hBytes, hValid⟩ := f.write_read hRead
      refine ⟨hBytes, iff_of_true rfl hPresent, fun b hb => ?_⟩
      cases hb
      exact hValid
    · cases h
      exact ⟨rfl, iff_of_false Bool.false_ne_true hPresent, nofun⟩

/-! ## Byte strings and texts -/

/-- A byte string of the length `n`; `eof` is the error of a short input. -/
def bytes (eof : ε) (n : Nat) : Format ε Bytes where
  read data := if n ≤ data.length then .ok (data.take n, data.drop n) else .error eof
  write data := data
  Valid data := data.length = n
  read_write {data} h rest := by
    rw [if_pos (by rw [List.length_append]; omega), List.take_left' h, List.drop_left' h]
  write_read {data front rest} h := by
    split at h
    next hLe =>
      cases h
      exact ⟨(List.take_append_drop n data).symm, List.length_take_of_le hLe⟩
    · cases h

/-- The bytes before the first zero byte and those after it. -/
def splitZero (data : Bytes) : Option (Bytes × Bytes) :=
  match data.dropWhile (· ≠ 0) with
  | [] => none
  | _ :: rest => some (data.takeWhile (· ≠ 0), rest)

theorem splitZero_append (h : 0 ∉ front) (rest : Bytes) :
    splitZero (front ++ 0 :: rest) = some (front, rest) := by
  have hAll : ∀ b ∈ front, decide (b ≠ 0) = true := fun b hb =>
    decide_eq_true fun hEq => h (hEq ▸ hb)
  rw [splitZero, dropWhile_append_of_pos hAll, takeWhile_append_of_pos hAll]
  exact congrArg (fun front => some (front, rest)) (append_nil front)

theorem eq_of_splitZero {data rest : Bytes} (h : splitZero data = some (front, rest)) :
    data = front ++ 0 :: rest ∧ 0 ∉ front := by
  unfold splitZero at h
  split at h
  · cases h
  next b rest' hDrop =>
    cases h
    have hHead : b = 0 := by
      have hNot := head?_dropWhile_not (fun b : UInt8 => decide (b ≠ 0)) data
      rw [hDrop] at hNot
      exact not_not.mp (of_decide_eq_false hNot)
    constructor
    · have hSplit := takeWhile_append_dropWhile (p := fun b :
    UInt8 => decide (b ≠ 0)) (l := data)
      rw [hDrop, hHead] at hSplit
      exact hSplit.symm
    · intro hMem
      have hNe := mem_takeWhile_imp hMem
      exact of_decide_eq_true hNe rfl

/-- The bytes before a zero byte. -/
def zeroTerminated (eof : ε) : Format ε Bytes where
  read data := (splitZero data).elim (.error eof) .ok
  write front := front ++ [0]
  Valid front := 0 ∉ front
  read_write {front} h rest := by
    rw [List.append_assoc, List.singleton_append, splitZero_append h]
    rfl
  write_read {data front rest} h := by
    cases hSplit : splitZero data with
    | none =>
      rw [hSplit] at h
      cases h
    | some result =>
      rw [hSplit] at h
      cases h
      obtain ⟨hData, hFront⟩ := eq_of_splitZero hSplit
      rw [List.append_assoc]
      exact ⟨hData, hFront⟩

/-- A text that is ended by a zero byte. -/
def cstr (eof utf8 : ε) : Format ε Text where
  read data := do
    let (front, rest) ← (zeroTerminated eof).read data
    if h : validUtf8 front = true then .ok (⟨front, h⟩, rest) else .error utf8
  write text := (zeroTerminated eof).write text.1
  Valid text := 0 ∉ text.1
  read_write {text} h rest := by
    rw [(zeroTerminated eof).read_write h, ok_bind]
    exact dif_pos text.2
  write_read {data text rest} h := by
    obtain ⟨⟨front, rest'⟩, hRead, h⟩ := bind_eq_ok.mp h
    dsimp only at h
    split at h
    · cases h
      exact (zeroTerminated eof).write_read hRead
    · cases h

section Reading

variable {data front rest : Bytes} {eof : ε}

@[simp]
theorem bytes_read_eq_ok :
    (bytes eof n).read data = .ok (front, rest) ↔ data = front ++ rest ∧ front.length = n :=
  (bytes eof n).read_eq_ok

theorem bytes_read (eof : ε) (h : data.length = n) (rest : Bytes) :
    (bytes eof n).read (data ++ rest) = .ok (data, rest) := bytes_read_eq_ok.mpr ⟨rfl, h⟩

@[simp]
theorem zeroTerminated_read_eq_ok :
    (zeroTerminated eof).read data = .ok (front, rest) ↔ data = front ++ 0 :: rest ∧ 0 ∉ front := by
  rw [read_eq_ok, zeroTerminated, append_assoc, singleton_append]

@[simp]
theorem cstr_read_eq_ok {utf8 : ε} {text : Text} :
    (cstr eof utf8).read data = .ok (text, rest) ↔ data = text.1 ++ 0 :: rest ∧ 0 ∉ text.1 := by
  rw [← @zeroTerminated_read_eq_ok _ _ _ _ eof, read_eq_ok, read_eq_ok]
  exact Iff.rfl

end Reading

end Format

end Cascette.Lib
