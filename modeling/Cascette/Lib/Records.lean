import Cascette.Lib.Bytes
import Cascette.Lib.Checked

/-!
# Blocks of records

Records of one size follow each other from the start of a block, and the first piece that does not
decode ends the block: it is padding. A `RecordFormat` carries the laws of such records; a block
that was written from records is read back (`readRecords_encoded`), and every block is the records
that are read from it followed by what stopped the reader (`readRecords_spec`). A longer list of
records is cut into blocks by `chunks`.
-/

namespace Cascette.Lib

open List Nat

variable {τ α : Type} {xs : List τ} {rest : Bytes}

structure RecordFormat (τ : Type) where
  size : Nat
  size_pos : 0 < size
  /-- The values that a record can hold. -/
  Admits : τ → Prop
  encode : τ → Bytes
  /-- `none` for padding. -/
  decode : Bytes → Option τ
  encode_length {x : τ} : Admits x → (encode x).length = size
  decode_encode {x : τ} : Admits x → decode (encode x) = some x
  encode_decode {data : Bytes} {x : τ} :
    data.length = size → decode data = some x → encode x = data ∧ Admits x
  decode_zero : decode (List.replicate size 0) = none

/-! ## Reading a block -/

/-- The records at the start of `data`; `fuel` bounds their number. -/
def readRecordsLoop (size : Nat) (decode : Bytes → Option τ) : Nat → Bytes → List τ
  | 0, _ => []
  | fuel + 1, data =>
    if size ≤ data.length then
      match decode (data.take size) with
      | some x => x :: readRecordsLoop size decode fuel (data.drop size)
      | none => []
    else []

def readRecords (size : Nat) (decode : Bytes → Option τ) (data : Bytes) : List τ :=
  readRecordsLoop size decode data.length data

theorem readRecordsLoop_of_decode {size : Nat} {decode : Bytes → Option τ} {encode : τ → Bytes}
    (h : ∀ x ∈ xs, (encode x).length = size ∧ decode (encode x) = some x)
    (hRest : size ≤ rest.length → decode (rest.take size) = none) :
    ∀ fuel, xs.length ≤ fuel →
      readRecordsLoop size decode fuel ((xs.map encode).flatten ++ rest) = xs := by
  induction xs with
  | nil =>
    intro fuel _
    cases fuel with
    | zero => rfl
    | succ fuel =>
      rw [readRecordsLoop, map_nil, flatten_nil, nil_append]
      split_ifs with hLe
      · rw [hRest hLe]
      · rfl
  | cons x xs ih =>
    intro fuel hFuel
    obtain ⟨fuel, rfl⟩ := exists_eq_succ_of_ne_zero (Nat.ne_of_gt (zero_lt_of_lt hFuel))
    obtain ⟨hLength, hDecode⟩ := h x mem_cons_self
    rw [readRecordsLoop, map_cons, flatten_cons, append_assoc,
      if_pos (by rw [length_append]; omega), take_left' hLength, hDecode]
    rw [drop_left' hLength, ih (fun y hy => h y (mem_cons_of_mem x hy)) fuel
      (le_of_succ_le_succ hFuel)]

namespace RecordFormat

variable (F : RecordFormat τ)

/-- What ends the records of a block. -/
def Stops (rest : Bytes) : Prop := F.size ≤ rest.length → F.decode (rest.take F.size) = none

theorem stops_zero (n : Nat) : F.Stops (replicate n 0) := by
  intro hLe
  rw [length_replicate] at hLe
  rw [take_replicate, Nat.min_eq_left hLe, F.decode_zero]

theorem encode_flatten_length (h : ∀ x ∈ xs, F.Admits x) :
    (xs.map F.encode).flatten.length = xs.length * F.size :=
  length_flatten_map fun x hx => F.encode_length (h x hx)

theorem readRecordsLoop_spec :
    ∀ fuel (data : Bytes), data.length ≤ fuel →
      ∃ rest, data = ((readRecordsLoop F.size F.decode fuel data).map F.encode).flatten ++ rest ∧
        (∀ x ∈ readRecordsLoop F.size F.decode fuel data, F.Admits x) ∧ F.Stops rest := by
  have hPos := F.size_pos
  intro fuel
  induction fuel with
  | zero =>
    intro data hFuel
    refine ⟨data, rfl, fun x hx => absurd hx not_mem_nil, fun hLe => ?_⟩
    omega
  | succ fuel ih =>
    intro data hFuel
    rw [readRecordsLoop]
    split
    next hLe =>
      cases hDecode : F.decode (data.take F.size) with
      | none => exact ⟨data, rfl, fun x hx => absurd hx not_mem_nil, fun _ => hDecode⟩
      | some x =>
        obtain ⟨rest, hRest, hAdmits, hStops⟩ := ih (data.drop F.size) (by
          rw [length_drop]
          omega)
        obtain ⟨hEncode, hx⟩ := F.encode_decode (length_take_of_le hLe) hDecode
        refine ⟨rest, ?_, ?_, hStops⟩
        · rw [map_cons, flatten_cons, hEncode, append_assoc, ← hRest, take_append_drop]
        · intro y hy
          rcases mem_cons.mp hy with rfl | hy
          · exact hx
          · exact hAdmits y hy
    next hLt =>
      exact ⟨data, rfl, fun x hx => absurd hx not_mem_nil, fun hLe => absurd hLe hLt⟩

theorem readRecords_encoded (h : ∀ x ∈ xs, F.Admits x) (hRest : F.Stops rest) :
    readRecords F.size F.decode ((xs.map F.encode).flatten ++ rest) = xs := by
  refine readRecordsLoop_of_decode
    (fun x hx => ⟨F.encode_length (h x hx), F.decode_encode (h x hx)⟩) hRest _ ?_
  rw [length_append, F.encode_flatten_length h]
  exact (Nat.le_mul_of_pos_right _ F.size_pos).trans (le_add_right _ _)

/-- A block is the records that are read from it and what ends them. -/
theorem readRecords_spec (data : Bytes) :
    ∃ rest, data = ((readRecords F.size F.decode data).map F.encode).flatten ++ rest ∧
      (∀ x ∈ readRecords F.size F.decode data, F.Admits x) ∧ F.Stops rest :=
  F.readRecordsLoop_spec _ data le_rfl

theorem readRecords_length_mul_le (data : Bytes) :
    (readRecords F.size F.decode data).length * F.size ≤ data.length := by
  obtain ⟨rest, hData, hAdmits, -⟩ := F.readRecords_spec data
  have hLength := congrArg List.length hData
  rw [length_append, F.encode_flatten_length hAdmits] at hLength
  omega

/-- What lies behind the records that are read can be cut off. -/
theorem readRecords_take {n : Nat} {data : Bytes}
    (h : (readRecords F.size F.decode data).length * F.size ≤ n) :
    readRecords F.size F.decode (data.take n) = readRecords F.size F.decode data := by
  obtain ⟨rest, hData, hAdmits, hStops⟩ := F.readRecords_spec data
  generalize readRecords F.size F.decode data = xs at hData hAdmits h ⊢
  obtain ⟨m, rfl⟩ := Nat.exists_eq_add_of_le h
  rw [hData, ← F.encode_flatten_length hAdmits, take_length_add_append]
  refine F.readRecords_encoded hAdmits fun hSize => ?_
  rw [length_take] at hSize
  rw [take_take, Nat.min_eq_left (by omega)]
  exact hStops (by omega)

end RecordFormat

/-! ## Cutting records into blocks -/

theorem divCeil_mul_bounds {a b : Nat} (hb : 0 < b) :
    a ≤ divCeil a b * b ∧ divCeil a b * b < a + b := by
  have hDiv := div_add_mod (a + b - 1) b
  have hMod := mod_lt (a + b - 1) hb
  rw [divCeil, mul_comm]
  omega

variable {i n : Nat} {xs block : List α} {pieces : List (List α)}

theorem lt_of_lt_divCeil {a b : Nat} (hb : 0 < b) (h : i < divCeil a b) : i * b < a := by
  have hBound := (divCeil_mul_bounds (a := a) hb).2
  have hMul : (i + 1) * b ≤ divCeil a b * b := mul_le_mul_right b h
  rw [succ_mul] at hMul
  omega

@[simp]
theorem chunks_length (n : Nat) (xs : List α) : (chunks n xs).length = divCeil xs.length n := by
  simp [chunks]

theorem getElem?_chunks (h : i < divCeil xs.length n) :
    (chunks n xs)[i]? = some ((xs.drop (i * n)).take n) := by
  simp [chunks, h]

theorem chunks_of_length_le (h : xs.length ≤ n) (hNe : xs ≠ []) : chunks n xs = [xs] := by
  have hPos : 0 < xs.length := length_pos_iff.mpr hNe
  have hOne : divCeil xs.length n = 1 := by
    exact Nat.div_eq_of_lt_le (by omega) (by omega)
  rw [chunks, hOne]
  simp [h]

@[simp]
theorem chunks_nil (n : Nat) : chunks n ([] : List α) = [] := by
  have hZero : divCeil 0 n = 0 := by
    cases n with
    | zero => rfl
    | succ n => exact div_eq_of_lt (by omega)
  rw [chunks, length_nil, hZero]
  rfl

theorem chunks_map {β : Type} (n : Nat) (f : α → β) (xs : List α) :
    chunks n (xs.map f) = (chunks n xs).map (List.map f) := by
  rw [chunks, chunks, length_map, map_map]
  refine map_congr_left fun i _ => ?_
  rw [Function.comp_apply, map_take, map_drop]

theorem chunks_append (hn : 0 < n) {ys : List α} (h : n ∣ xs.length) :
    chunks n (xs ++ ys) = chunks n xs ++ chunks n ys := by
  obtain ⟨q, hq⟩ := h
  rw [mul_comm] at hq
  have hCeil (m : Nat) : divCeil (q * n + m) n = q + divCeil m n := by
    have hSum : q * n + m + n - 1 = m + n - 1 + q * n := by omega
    rw [divCeil, divCeil, hSum, add_mul_div_right _ _ hn, Nat.add_comm]
  have hFront : divCeil xs.length n = q := by
    have hZero : divCeil 0 n = 0 := div_eq_of_lt (by omega)
    have hCeilZero := hCeil 0
    rwa [hZero, Nat.add_zero, Nat.add_zero, ← hq] at hCeilZero
  have hBoth : divCeil (xs ++ ys).length n = q + divCeil ys.length n := by
    rw [length_append, hq, hCeil]
  rw [chunks, chunks, chunks, hBoth, hFront, range_add, map_append, map_map]
  congr 1
  · refine map_congr_left fun i hi => ?_
    have hMul : (i + 1) * n ≤ q * n := mul_le_mul_right n (mem_range.mp hi)
    rw [succ_mul] at hMul
    rw [drop_append_of_le_length (by omega), take_append_of_le_length (by rw [length_drop]; omega)]
  · refine map_congr_left fun i _ => ?_
    rw [Function.comp_apply, Nat.add_mul, ← hq, ← drop_drop, drop_left]

theorem chunks_eq_cons (hn : 0 < n) (h : xs ≠ []) :
    chunks n xs = xs.take n :: chunks n (xs.drop n) := by
  by_cases hLe : xs.length ≤ n
  · rw [chunks_of_length_le hLe h, take_of_length_le hLe, drop_eq_nil_of_le hLe, chunks_nil]
  · have hTake : (xs.take n).length = n := length_take_of_le (by omega)
    have hNe : xs.take n ≠ [] := ne_nil_of_length_pos (by omega)
    conv_lhs => rw [← take_append_drop n xs]
    rw [chunks_append hn (dvd_of_eq hTake.symm), chunks_of_length_le hTake.le hNe, singleton_append]

theorem flatten_chunks (hn : 0 < n) (xs : List α) : (chunks n xs).flatten = xs := by
  -- the first pieces together are what stands before the next one
  have hPieces : ∀ c, ((range c).map fun i => (xs.drop (i * n)).take n).flatten =
      xs.take (c * n) := by
    intro c
    induction c with
    | zero => simp
    | succ c ih =>
      rw [range_succ, map_append, flatten_append, ih, succ_mul, take_add]
      simp
  rw [chunks, hPieces, take_of_length_le (divCeil_mul_bounds hn).1]

theorem length_le_of_mem_chunks (h : block ∈ chunks n xs) : block.length ≤ n := by
  obtain ⟨i, -, rfl⟩ := mem_map.mp h
  exact length_take_le _ _

theorem ne_nil_of_mem_chunks (hn : 0 < n) (h : block ∈ chunks n xs) : block ≠ [] := by
  obtain ⟨i, hi, rfl⟩ := mem_map.mp h
  have hLt := lt_of_lt_divCeil hn (mem_range.mp hi)
  apply ne_nil_of_length_pos
  rw [length_take, length_drop]
  omega

theorem mem_of_mem_chunks (h : block ∈ chunks n xs) {x : α} (hx : x ∈ block) : x ∈ xs := by
  obtain ⟨i, -, rfl⟩ := mem_map.mp h
  exact mem_of_mem_drop (mem_of_mem_take hx)

/-- Pieces of one length, the last possibly shorter, are found at the multiples of it. -/
theorem take_drop_flatten_last
    (h : ∀ i (hi : i < pieces.length), i + 1 < pieces.length → pieces[i].length = n)
    (hLe : ∀ p ∈ pieces, p.length ≤ n) (hi : i < pieces.length) :
    (pieces.flatten.drop (i * n)).take n = pieces[i] := by
  induction pieces generalizing i with
  | nil => exact absurd hi (not_lt_zero i)
  | cons p pieces ih =>
    rw [length_cons] at hi
    cases i with
    | zero =>
      rw [Nat.zero_mul, drop_zero, flatten_cons]
      cases pieces with
      | nil =>
        rw [flatten_nil, append_nil]
        exact take_of_length_le (hLe p mem_cons_self)
      | cons q pieces =>
        have hp : p.length = n := h 0 (by simp) (by simp)
        exact take_left' hp
    | succ i =>
      have hp : p.length = n := h 0 (by simp) (by rw [length_cons]; omega)
      have hSplit : (i + 1) * n = p.length + i * n := by rw [hp, succ_mul, Nat.add_comm]
      have hTail : ∀ j (hj : j < pieces.length), j + 1 < pieces.length → pieces[j].length = n := by
        intro j hj hNext
        exact h (j + 1) (by rw [length_cons]; omega) (by rw [length_cons]; omega)
      rw [hSplit, flatten_cons, ← drop_drop, drop_left,
        ih hTail (fun q hq => hLe q (mem_cons_of_mem p hq)) (lt_of_succ_lt_succ hi)]
      rfl

theorem take_drop_flatten (h : ∀ p ∈ pieces, p.length = n)
    (hi : i < pieces.length) : (pieces.flatten.drop (i * n)).take n = pieces[i] :=
  take_drop_flatten_last (fun _ hj _ => h _ (getElem_mem hj)) (fun p hp => (h p hp).le) hi

/-! ## Filling a block -/

/-- `buffer[pos..pos + bytes.len()].copy_from_slice(&bytes)` -/
def copyAt (buffer : Bytes) (pos : Nat) (bytes : Bytes) : Checked Bytes :=
  if pos + bytes.length ≤ buffer.length then
    .ok (buffer.take pos ++ bytes ++ buffer.drop (pos + bytes.length))
  else .error .indexOutOfRange

theorem copyAt_padTo {front bytes : Bytes} (h : front.length + bytes.length ≤ n) :
    copyAt (padTo n front) front.length bytes = .ok (padTo n (front ++ bytes)) := by
  have hLe : front.length + bytes.length ≤ (padTo n front).length :=
    h.trans (le_padTo_length n front)
  rw [copyAt, if_pos hLe, padTo, take_left, drop_append, drop_of_length_le (by omega),
    nil_append, drop_replicate, padTo, length_append]
  have hCount : n - front.length - (front.length + bytes.length - front.length) =
      n - (front.length + bytes.length) := by omega
  rw [hCount]

end Cascette.Lib
