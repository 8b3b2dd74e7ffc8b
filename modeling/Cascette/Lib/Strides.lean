import Cascette.Lib.Records

/-!
# One block, two record sizes

The same bytes can be filled by records of one size and by records of another. A record that starts
where the other filling has only padding is zero (`record_zero_of_longer`), and when both fillings
hold the same values, two or more of them, and the larger records keep the bytes of the smaller ones
in order, the last value is all zeros (`last_zero_of_shift`). For a single value only the bytes
behind the common start matter (`padTo_shift_iff`).
-/

namespace Cascette.Lib

open List Nat

variable {α : Type}

/-- The byte at a position; past the end there are zeros. -/
def byteAt (data : Bytes) (i : Nat) : UInt8 := data[i]?.getD 0

variable {i k : Nat} {xs : List α} {front data back : Bytes}

theorem byteAt_of_le (h : data.length ≤ i) : byteAt data i = 0 := by
  rw [byteAt, getElem?_eq_none h]
  rfl

theorem byteAt_padTo (n : Nat) (data : Bytes) (i : Nat) :
    byteAt (padTo n data) i = byteAt data i := by
  rcases Nat.lt_or_ge i data.length with hLt | hGe
  · rw [byteAt, padTo, getElem?_append_left hLt, byteAt]
  · rw [byteAt_of_le hGe, byteAt, padTo, getElem?_append_right hGe, getElem?_replicate]
    split <;> rfl

theorem byteAt_append_left (h : i < front.length) : byteAt (front ++ back) i = byteAt front i := by
  rw [byteAt, getElem?_append_left h, byteAt]

theorem byteAt_append_right (front back : Bytes) (i : Nat) :
    byteAt (front ++ back) (front.length + i) = byteAt back i := by
  rw [byteAt, getElem?_append_right (le_add_right _ _), Nat.add_sub_cancel_left, byteAt]

theorem eq_zeros_of_byteAt (h : ∀ i, byteAt data i = 0) : data = replicate data.length 0 := by
  refine eq_replicate_iff.mpr ⟨rfl, fun b hb => ?_⟩
  obtain ⟨i, hi, rfl⟩ := mem_iff_getElem.mp hb
  have hByte := h i
  rwa [byteAt, getElem?_eq_getElem hi, Option.getD_some] at hByte

theorem byteAt_flatten {f : α → Bytes} {a : Nat} (h : ∀ x ∈ xs, (f x).length = a)
    (hi : i < xs.length) (hk : k < a) :
    byteAt (xs.map f).flatten (i * a + k) = byteAt (f xs[i]) k := by
  have hPieces : ∀ p ∈ xs.map f, p.length = a := by
    intro p hp
    obtain ⟨x, hx, rfl⟩ := mem_map.mp hp
    exact h x hx
  have hPiece := take_drop_flatten hPieces (i := i) (by rwa [length_map])
  rw [getElem_map] at hPiece
  rw [byteAt, byteAt, ← hPiece, getElem?_take, if_pos hk, getElem?_drop]

section TwoSizes

variable {f g : α → Bytes} {a b n : Nat}

theorem record_zero_of_longer {ys : List α} (hf : ∀ x ∈ xs, (f x).length = a)
    (hg : ∀ y ∈ ys, (g y).length = b) (hab : a ≤ b)
    (hEq : padTo n (xs.map f).flatten = padTo n (ys.map g).flatten)
    (hLt : xs.length < ys.length) : g ys[xs.length] = replicate b 0 := by
  have hLength := hg _ (getElem_mem hLt)
  rw [← hLength]
  refine eq_zeros_of_byteAt fun k => ?_
  rcases Nat.lt_or_ge k b with hk | hk
  · have hStart : xs.length * a ≤ xs.length * b := mul_le_mul_left _ hab
    rw [← byteAt_flatten hg hLt hk, ← byteAt_padTo n, ← hEq, byteAt_padTo]
    refine byteAt_of_le ?_
    rw [length_flatten_map hf]
    omega
  · exact byteAt_of_le (by omega)

/-- The bytes of the smaller record stand, in order, in the larger one. -/
def Embeds (small large : Bytes) : Prop :=
  ∀ k < small.length, ∃ k', k ≤ k' ∧ k' < large.length ∧ byteAt small k = byteAt large k'

theorem embeds_of_append (head front back rest : Bytes) :
    Embeds (head ++ back) (head ++ front ++ back ++ rest) := by
  intro k hk
  rw [length_append] at hk
  rcases Nat.lt_or_ge k head.length with hHead | hHead
  · refine ⟨k, le_rfl, by simp only [length_append]; omega, ?_⟩
    rw [byteAt_append_left hHead, append_assoc, append_assoc, byteAt_append_left hHead]
  · obtain ⟨j, rfl⟩ := Nat.exists_eq_add_of_le hHead
    refine ⟨head.length + front.length + j, by omega, by simp only [length_append]; omega, ?_⟩
    have hFront : head.length + front.length + j = (head ++ front).length + j := by
      rw [length_append]
    rw [byteAt_append_right, hFront, append_assoc (head ++ front), byteAt_append_right,
      byteAt_append_left (by omega)]

/-- When records of two sizes fill a block with the same values, the last value is zero. -/
theorem last_zero_of_shift (hf : ∀ x ∈ xs, (f x).length = a)
    (hg : ∀ x ∈ xs, (g x).length = b) (hab : a < b) (hEmbeds : ∀ x ∈ xs, Embeds (f x) (g x))
    (hEq : padTo n (xs.map f).flatten = padTo n (xs.map g).flatten) (hTwo : 2 ≤ xs.length)
    {x : α} (hLast : xs.getLast? = some x) : g x = replicate b 0 := by
  obtain ⟨m, hm⟩ : ∃ m, xs.length = m + 1 := ⟨xs.length - 1, by omega⟩
  have hIndex : m < xs.length := by omega
  have hx : xs[m] = x := by
    rw [getLast?_eq_getElem?, hm, Nat.add_sub_cancel, getElem?_eq_getElem hIndex] at hLast
    exact Option.some.inj hLast
  have hMem : x ∈ xs := hx ▸ getElem_mem hIndex
  have hBytes (i : Nat) : byteAt (xs.map g).flatten i = byteAt (xs.map f).flatten i := by
    rw [← byteAt_padTo n, ← hEq, byteAt_padTo]
  have hGap : m * b = m * a + m * (b - a) := by
    rw [← Nat.mul_add]
    congr 1
    omega
  have hGapPos : 0 < m * (b - a) := Nat.mul_pos (by omega) (by omega)
  -- from the last small record on, every byte equals a later one, and the block ends in zeros
  have hZero : ∀ d j, a ≤ j + d → byteAt (xs.map f).flatten (m * a + j) = 0 := by
    intro d
    induction d with
    | zero =>
      intro j hj
      refine byteAt_of_le ?_
      rw [length_flatten_map hf, hm, succ_mul]
      omega
    | succ d ih =>
      intro j hj
      rcases Nat.lt_or_ge j a with hLt | hGe
      · obtain ⟨k, hjk, hk, hByte⟩ := hEmbeds x hMem j (by rw [hf x hMem]; exact hLt)
        rw [hg x hMem] at hk
        rw [byteAt_flatten hf hIndex hLt, hx, hByte, ← hx, ← byteAt_flatten hg hIndex hk, hBytes,
          hGap, Nat.add_assoc]
        exact ih _ (by omega)
      · refine byteAt_of_le ?_
        rw [length_flatten_map hf, hm, succ_mul]
        omega
  rw [← hg x hMem]
  refine eq_zeros_of_byteAt fun k => ?_
  rcases Nat.lt_or_ge k b with hk | hk
  · rw [← hx, ← byteAt_flatten hg hIndex hk, hBytes, hGap, Nat.add_assoc]
    exact hZero a _ (by omega)
  · exact byteAt_of_le (by rw [hg x hMem]; exact hk)

theorem padTo_append_zeros {n : Nat} (h : front.length + k ≤ n) :
    padTo n (front ++ replicate k 0) = padTo n front := by
  rw [padTo, padTo, append_assoc, replicate_append_replicate, length_append, length_replicate]
  congr 2
  omega

/-- Bytes put in front of the end of a block change nothing only if all of it is zeros. -/
theorem padTo_shift_iff {head : Bytes} (hFront : front ≠ [])
    (hn : (head ++ front ++ back).length ≤ n) :
    padTo n (head ++ back) = padTo n (head ++ front ++ back) ↔
      front ++ back = replicate (front ++ back).length 0 := by
  have hPos : 0 < front.length := length_pos_iff.mpr hFront
  constructor
  · intro h
    have hBytes (i : Nat) : byteAt back i = byteAt (front ++ back) i := by
      rw [← byteAt_append_right head back, ← byteAt_padTo n, h, byteAt_padTo, append_assoc,
        byteAt_append_right]
    -- every byte equals one further on
    have hZero : ∀ d j, back.length ≤ j + d → byteAt back j = 0 := by
      intro d
      induction d with
      | zero => exact fun j hj => byteAt_of_le hj
      | succ d ih =>
        intro j hj
        have hLater := ih (front.length + j) (by omega)
        rwa [hBytes, byteAt_append_right] at hLater
    exact eq_zeros_of_byteAt fun i => (hBytes i).symm.trans (hZero back.length i (by omega))
  · intro h
    have hBack : back = replicate back.length 0 := by
      refine eq_replicate_iff.mpr ⟨rfl, fun b hb => ?_⟩
      exact (eq_replicate_iff.mp h).2 b (mem_append_right front hb)
    simp only [length_append] at hn
    rw [append_assoc, h, padTo_append_zeros (by rw [length_append]; omega), hBack,
      padTo_append_zeros (by omega)]

/-! ## Blocks of two capacities -/

/-- The block that holds the records of `xs`. -/
def fill (n : Nat) (f : α → Bytes) (xs : List α) : Bytes := padTo n (xs.map f).flatten

section Blocks

variable {xs : List α} {p q : Nat} (hf : ∀ x ∈ xs, (f x).length = a)
  (hg : ∀ x ∈ xs, (g x).length = b) (hp : 0 < p) (hq : 0 < q)
  (hEq : (chunks p xs).map (fill n f) = (chunks q xs).map (fill n g))

include hEq in
theorem fill_eq_fill {i : Nat} (hi : i < divCeil xs.length p) :
    fill n f ((xs.drop (i * p)).take p) = fill n g ((xs.drop (i * q)).take q) := by
  have hCount := congrArg List.length hEq
  rw [length_map, length_map, chunks_length, chunks_length] at hCount
  have hAt := congrArg (fun blocks => blocks[i]?) hEq
  simp only [getElem?_map, getElem?_chunks hi, getElem?_chunks (hCount ▸ hi),
    Option.map_some, Option.some.injEq] at hAt
  exact hAt

include hf hg hp hq hEq in
theorem exists_zero_of_capacity (hab : a ≤ b) (hpq : p ≠ q) (hMany : 1 < divCeil xs.length p) :
    ∃ x ∈ xs, g x = replicate b 0 := by
  have hCount := congrArg List.length hEq
  rw [length_map, length_map, chunks_length, chunks_length] at hCount
  obtain ⟨c, hc⟩ : ∃ c, divCeil xs.length p = c + 2 := ⟨divCeil xs.length p - 2, by omega⟩
  have hLastP := lt_of_lt_divCeil hp (show c + 1 < divCeil xs.length p by omega)
  have hLastQ := lt_of_lt_divCeil hq (show c + 1 < divCeil xs.length q by omega)
  -- a block where the larger records are more
  obtain ⟨i, hi, hLonger⟩ : ∃ i < divCeil xs.length p,
      ((xs.drop (i * p)).take p).length < ((xs.drop (i * q)).take q).length := by
    simp only [length_take, length_drop]
    have hBoundP := (divCeil_mul_bounds (a := xs.length) hp).1
    have hBoundQ := (divCeil_mul_bounds (a := xs.length) hq).1
    rw [← hCount, hc, succ_mul] at hBoundQ
    rcases Nat.lt_or_gt_of_ne hpq with hLt | hGt
    · refine ⟨0, by omega, ?_⟩
      have hOne : p ≤ (c + 1) * p := Nat.le_mul_of_pos_left p (by omega)
      omega
    · refine ⟨c + 1, by omega, ?_⟩
      have hMul : (c + 1) * q < (c + 1) * p := Nat.mul_lt_mul_of_pos_left hGt (by omega)
      omega
  have hZero := record_zero_of_longer (f := f) (g := g) (a := a) (b := b) (n := n)
    (fun x hx => hf x (mem_of_mem_drop (mem_of_mem_take hx)))
    (fun x hx => hg x (mem_of_mem_drop (mem_of_mem_take hx))) hab
    (fill_eq_fill hEq hi) hLonger
  exact ⟨_, mem_of_mem_drop (mem_of_mem_take (getElem_mem hLonger)), hZero⟩

include hf hg hEq in
/-- A first block with the same values in both sizes, two or more, has a zero record. -/
theorem exists_zero_of_first (hab : a < b) (hEmbeds : ∀ x ∈ xs, Embeds (f x) (g x))
    (hFirst : xs.take p = xs.take q) (hTwo : 2 ≤ (xs.take p).length)
    (hSome : 0 < divCeil xs.length p) : ∃ x ∈ xs, g x = replicate b 0 := by
  have hFill := fill_eq_fill hEq hSome
  simp only [Nat.zero_mul, drop_zero, ← hFirst] at hFill
  have hNe : xs.take p ≠ [] := ne_nil_of_length_pos (by omega)
  have hLast := getLast?_eq_some_getLast hNe
  have hMem := mem_of_mem_take (getLast_mem hNe)
  exact ⟨_, hMem, last_zero_of_shift (fun x hx => hf x (mem_of_mem_take hx))
    (fun x hx => hg x (mem_of_mem_take hx)) hab
    (fun x hx => hEmbeds x (mem_of_mem_take hx)) hFill hTwo hLast⟩

include hf hg hp hq hEq in
/-- Blocks of records of two sizes that hold the same values, two or more, have a zero record. -/
theorem exists_zero_of_blocks (hab : a < b) (hEmbeds : ∀ x ∈ xs, Embeds (f x) (g x))
    (hTwo : 2 ≤ xs.length) (hCapacity : 2 ≤ p) : ∃ x ∈ xs, g x = replicate b 0 := by
  have hCount := congrArg List.length hEq
  rw [length_map, length_map, chunks_length, chunks_length] at hCount
  have hBoundP := (divCeil_mul_bounds (a := xs.length) hp).1
  have hBoundQ := (divCeil_mul_bounds (a := xs.length) hq).1
  have hSome : 0 < divCeil xs.length p := by
    by_contra hZero
    rw [Nat.eq_zero_of_not_pos hZero] at hBoundP
    omega
  by_cases hpq : p = q
  · refine exists_zero_of_first hf hg hEq hab hEmbeds (by rw [hpq]) ?_ hSome
    rw [length_take]
    omega
  · by_cases hMany : 1 < divCeil xs.length p
    · exact exists_zero_of_capacity hf hg hp hq hEq hab.le hpq hMany
    · have hOne : divCeil xs.length p = 1 := by omega
      rw [hOne, Nat.one_mul] at hBoundP
      rw [← hCount, hOne, Nat.one_mul] at hBoundQ
      refine exists_zero_of_first hf hg hEq hab hEmbeds ?_ ?_ hSome
      · rw [take_of_length_le hBoundP, take_of_length_le hBoundQ]
      · rwa [take_of_length_le hBoundP]

end Blocks

end TwoSizes

end Cascette.Lib
