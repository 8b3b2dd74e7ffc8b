import Cascette.Lib.Except
import Cascette.Lib.Bytes
import Cascette.Lib.Checked

/-!
# Codecs

A codec pairs a sequential reader with a writer and carries the two laws that make them inverse:
what was written is read back with the rest untouched, and what was read is what would be written.
Codecs of fixed-width integers and byte strings are combined in sequence (`pair`), a known number
of times (`many`) and along an equivalence (`map`), so that a record's round trip needs no proof
of its own.
-/

namespace Cascette.Lib

structure Codec (ε α : Type) where
  read : Bytes → Except ε (α × Bytes)
  write : α → Bytes
  read_write (a : α) (rest : Bytes) : read (write a ++ rest) = .ok (a, rest)
  write_read {bytes : Bytes} {a : α} {rest : Bytes} :
    read bytes = .ok (a, rest) → bytes = write a ++ rest

variable {ε α β : Type}

namespace Codec

attribute [simp] read_write

variable {bytes rest : Bytes} {c : Codec ε α} {w : Nat}

@[simp]
theorem read_eq_ok (c : Codec ε α) {a : α} :
    c.read bytes = .ok (a, rest) ↔ bytes = c.write a ++ rest :=
  ⟨c.write_read, fun h => h ▸ c.read_write a rest⟩

/-- A byte string of `n` bytes; `eof` is the error of a short input. -/
def key (eof : ε) (n : Nat) : Codec ε (Key n) where
  read bytes :=
    if h : n ≤ bytes.length then .ok (⟨bytes.take n, by simp [h]⟩, bytes.drop n) else .error eof
  write k := k.1
  read_write k rest := by
    have hLength := k.2
    have hTake : (k.1 ++ rest).take n = k.1 := List.take_left' hLength
    have hDrop : (k.1 ++ rest).drop n = rest := List.drop_left' hLength
    have hLe : n ≤ (k.1 ++ rest).length := by rw [List.length_append]; omega
    rw [dif_pos hLe]
    simp only [hTake, hDrop]
  write_read {bytes k rest} h := by
    split at h
    · cases h
      exact (List.take_append_drop n bytes).symm
    · cases h

def map (c : Codec ε α) (e : α ≃ β) : Codec ε β where
  read bytes := (c.read bytes).map fun (a, rest) => (e a, rest)
  write b := c.write (e.symm b)
  read_write b rest := by simp [Except.map]
  write_read {bytes b rest} h := by
    cases hRead : c.read bytes with
    | error err => simp [hRead, Except.map] at h
    | ok res =>
      simp only [hRead, Except.map, Except.ok.injEq, Prod.mk.injEq] at h
      obtain ⟨rfl, rfl⟩ := h
      simpa using c.write_read hRead

def pair (c : Codec ε α) (d : Codec ε β) : Codec ε (α × β) where
  read bytes := do
    let (a, rest) ← c.read bytes
    let (b, rest) ← d.read rest
    .ok ((a, b), rest)
  write v := c.write v.1 ++ d.write v.2
  read_write v rest := by
    rw [List.append_assoc, c.read_write, ok_bind]
    dsimp only
    rw [d.read_write, ok_bind]
  write_read {bytes v rest} h := by
    obtain ⟨⟨a, rest₁⟩, hFirst, h⟩ := bind_eq_ok.mp h
    obtain ⟨⟨b, rest₂⟩, hSecond, h⟩ := bind_eq_ok.mp h
    cases h
    rw [c.write_read hFirst, d.write_read hSecond, List.append_assoc]

/-! ## A known number of values -/

def readMany (c : Codec ε α) : Nat → Bytes → Except ε (List α × Bytes)
  | 0, bytes => .ok ([], bytes)
  | n + 1, bytes => do
    let (a, rest) ← c.read bytes
    let (as, rest) ← readMany c n rest
    .ok (a :: as, rest)

def writeMany (c : Codec ε α) (as : List α) : Bytes := (as.map c.write).flatten

@[simp]
theorem readMany_eq_ok (c : Codec ε α) {n : Nat} {as : List α} :
    c.readMany n bytes = .ok (as, rest) ↔ bytes = c.writeMany as ++ rest ∧ as.length = n := by
  induction n generalizing bytes as with
  | zero =>
    simp only [readMany, Except.ok.injEq, Prod.mk.injEq, List.length_eq_zero_iff]
    constructor
    · rintro ⟨rfl, rfl⟩
      exact ⟨rfl, rfl⟩
    · rintro ⟨rfl, rfl⟩
      exact ⟨rfl, rfl⟩
  | succ n ih =>
    cases as with
    | nil => simp [readMany]
    | cons a as => simp [readMany, ih, writeMany]

theorem readMany_writeMany (c : Codec ε α) (as : List α) (rest : Bytes) :
    c.readMany as.length (c.writeMany as ++ rest) = .ok (as, rest) :=
  c.readMany_eq_ok.mpr ⟨rfl, rfl⟩

/-! ## Codecs of one width -/

/-- Every value takes `w` bytes. -/
def Width (c : Codec ε α) (w : Nat) : Prop := ∀ a, (c.write a).length = w

theorem Width.pair {d : Codec ε β} {v : Nat} (hc : c.Width v) (hd : d.Width w) :
    (c.pair d).Width (v + w) := by
  intro a
  change (c.write a.1 ++ d.write a.2).length = v + w
  rw [List.length_append, hc, hd]

theorem Width.length_writeMany (h : c.Width w) (as : List α) :
    (c.writeMany as).length = as.length * w :=
  length_flatten_map fun a _ => h a

theorem Width.length_of_read (h : c.Width w) {a : α} (hRead : c.read bytes = .ok (a, rest)) :
    bytes.length = w + rest.length := by
  rw [c.write_read hRead, List.length_append, h]

end Codec

/-! ## Integers -/

/-- Byte strings of `w` bytes are the integers below `256 ^ w`, most significant byte first. -/
def ofBeEquiv (w : Nat) (ofNat : Nat → α) (toNat : α → Nat) (hLt : ∀ v, toNat v < 256 ^ w)
    (hToNat : ∀ n < 256 ^ w, toNat (ofNat n) = n) (hOfNat : ∀ v, ofNat (toNat v) = v) :
    Key w ≃ α where
  toFun k := ofNat (ofBe k.1)
  invFun v := ⟨beBytes w (toNat v), beBytes_length w _⟩
  left_inv k := by
    have hBound := ofBe_lt k.1
    rw [k.2] at hBound
    apply Subtype.ext
    dsimp only
    rw [hToNat _ hBound, beBytes_ofBe_of_length k.2]
  right_inv v := by
    dsimp only
    rw [ofBe_beBytes_of_lt (hLt v), hOfNat]

def reverseEquiv (w : Nat) : Key w ≃ Key w where
  toFun k := ⟨k.1.reverse, by rw [List.length_reverse, k.2]⟩
  invFun k := ⟨k.1.reverse, by rw [List.length_reverse, k.2]⟩
  left_inv k := Subtype.ext (List.reverse_reverse k.1)
  right_inv k := Subtype.ext (List.reverse_reverse k.1)

namespace Codec

def uint8 (eof : ε) : Codec ε UInt8 :=
  (key eof 1).map (ofBeEquiv 1 UInt8.ofNat UInt8.toNat (fun v => v.toNat_lt)
    (fun _ hn => UInt8.toNat_ofNat_of_lt' hn) fun _ => UInt8.ofNat_toNat)

def uint16Be (eof : ε) : Codec ε UInt16 :=
  (key eof 2).map (ofBeEquiv 2 UInt16.ofNat UInt16.toNat (fun v => v.toNat_lt)
    (fun _ hn => UInt16.toNat_ofNat_of_lt' hn) fun _ => UInt16.ofNat_toNat)

def uint32Be (eof : ε) : Codec ε UInt32 :=
  (key eof 4).map (ofBeEquiv 4 UInt32.ofNat UInt32.toNat (fun v => v.toNat_lt)
    (fun _ hn => UInt32.toNat_ofNat_of_lt' hn) fun _ => UInt32.ofNat_toNat)

/-- Least significant byte first. -/
def uint16Le (eof : ε) : Codec ε UInt16 :=
  ((key eof 2).map (reverseEquiv 2)).map (ofBeEquiv 2 UInt16.ofNat UInt16.toNat
    (fun v => v.toNat_lt) (fun _ hn => UInt16.toNat_ofNat_of_lt' hn) fun _ => UInt16.ofNat_toNat)

/-- Least significant byte first. -/
def uint32Le (eof : ε) : Codec ε UInt32 :=
  ((key eof 4).map (reverseEquiv 4)).map (ofBeEquiv 4 UInt32.ofNat UInt32.toNat
    (fun v => v.toNat_lt) (fun _ hn => UInt32.toNat_ofNat_of_lt' hn) fun _ => UInt32.ofNat_toNat)

/-- Least significant byte first. -/
def uint64Le (eof : ε) : Codec ε UInt64 :=
  ((key eof 8).map (reverseEquiv 8)).map (ofBeEquiv 8 UInt64.ofNat UInt64.toNat
    (fun v => v.toNat_lt) (fun _ hn => UInt64.toNat_ofNat_of_lt' hn) fun _ => UInt64.ofNat_toNat)

variable (eof : ε)

@[simp]
theorem key_write {n : Nat} (k : Key n) : (key eof n).write k = k.1 := rfl

@[simp]
theorem uint8_write (v : UInt8) : (uint8 eof).write v = [v] := by
  simp [uint8, map, key, ofBeEquiv, beBytes, leBytes]

variable {bytes : Bytes} (v : UInt32)

theorem key_read {n : Nat} (h : bytes.length = n) (rest : Bytes) :
    (key eof n).read (bytes ++ rest) = .ok (⟨bytes, h⟩, rest) :=
  (key eof n).read_write ⟨bytes, h⟩ rest

theorem uint8_read (v : UInt8) (rest : Bytes) : (uint8 eof).read (v :: rest) = .ok (v, rest) := by
  have h := (uint8 eof).read_write v rest
  rwa [uint8_write] at h

theorem uint32Be_read (rest : Bytes) :
    (uint32Be eof).read (beBytes 4 v.toNat ++ rest) = .ok (v, rest) :=
  (uint32Be eof).read_write v rest

theorem eq_of_uint8_read {eof : ε} {v : UInt8} {rest : Bytes}
    (h : (uint8 eof).read bytes = .ok (v, rest)) : bytes = v :: rest := by
  have hBytes := (uint8 eof).write_read h
  rwa [uint8_write] at hBytes

@[simp]
theorem uint16Be_write (v : UInt16) : (uint16Be eof).write v = beBytes 2 v.toNat := rfl

@[simp]
theorem uint32Be_write : (uint32Be eof).write v = beBytes 4 v.toNat := rfl

@[simp]
theorem uint32Le_write : (uint32Le eof).write v = leBytes 4 v.toNat := by
  simp [uint32Le, map, key, ofBeEquiv, reverseEquiv, beBytes]

theorem uint16Le_read (v : UInt16) (rest : Bytes) :
    (uint16Le eof).read (leBytes 2 v.toNat ++ rest) = .ok (v, rest) := by
  have h := (uint16Le eof).read_write v rest
  simpa [uint16Le, map, key, ofBeEquiv, reverseEquiv, beBytes] using h

theorem uint32Le_read (rest : Bytes) :
    (uint32Le eof).read (leBytes 4 v.toNat ++ rest) = .ok (v, rest) := by
  have h := (uint32Le eof).read_write v rest
  rwa [uint32Le_write] at h

theorem width_uint8 : (uint8 eof).Width 1 := fun v => by rw [uint8_write]; rfl

theorem width_uint32Le : (uint32Le eof).Width 4 := fun v => by
  rw [uint32Le_write, leBytes_length]

theorem width_uint64Le : (uint64Le eof).Width 8 := fun v => by
  simp [uint64Le, map, key, ofBeEquiv, reverseEquiv, beBytes]

/-! ## Readers that do not panic -/

/-- Whatever is read, the reader does not panic. -/
def Safe (c : Codec (Halt ε) α) : Prop := ∀ bytes, ¬ Panics (c.read bytes)

theorem safe_key (n : Nat) : (key (Halt.error eof) n).Safe := by
  intro bytes
  simp only [key]
  split
  · exact not_panics_ok _
  · exact not_panics_error eof

variable {c : Codec (Halt ε) α}

theorem Safe.map (h : c.Safe) (e : α ≃ β) : (c.map e).Safe := by
  rintro bytes ⟨p, hp⟩
  refine h bytes ⟨p, ?_⟩
  cases hRead : c.read bytes <;> simp_all [Codec.map, Except.map]

theorem safe_uint8 : (uint8 (Halt.error eof)).Safe := (safe_key eof 1).map _

theorem safe_uint32Be : (uint32Be (Halt.error eof)).Safe := (safe_key eof 4).map _

theorem Safe.pair {d : Codec (Halt ε) β} (hc : c.Safe) (hd : d.Safe) : (c.pair d).Safe := by
  intro bytes
  simp [Codec.pair, panics_bind, hc bytes, hd _]

theorem Safe.readMany (h : c.Safe) (n : Nat) (bytes : Bytes) : ¬ Panics (c.readMany n bytes) := by
  induction n generalizing bytes with
  | zero => exact not_panics_ok _
  | succ n ih => simp [Codec.readMany, panics_bind, h bytes, ih]

end Codec

end Cascette.Lib
