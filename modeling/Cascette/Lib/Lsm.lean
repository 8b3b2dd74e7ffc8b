import Cascette.Lib.Search

/-!
# Log-structured maps

A map is kept as a sorted run and an append-only log of newer records, some of which are
tombstones. `view` is the map the pair stands for: the newest record of a key decides, and the
run is asked only for keys the log does not mention. `collect` reduces a log to its newest
records in key order, `merge` folds these into the run, and `view_merge` says that this changes
nothing that can be observed. `out` is the run record that a log record leaves behind (none for a
tombstone).
-/

namespace Cascette.Lib.Lsm

open List

variable {κ ε υ : Type} [LinearOrder κ] [DecidableEq κ] {run : List ε} {key : ε → κ} {e : ε}

/-- The newest record of a key; the log is oldest first. -/
def newest (ukey : υ → κ) (log : List υ) (k : κ) : Option υ := log.reverse.find? fun u => ukey u = k

def view (key : ε → κ) (ukey : υ → κ) (out : υ → Option ε) (run : List ε) (log : List υ)
    (k : κ) : Option ε :=
  match newest ukey log k with
  | some u => out u
  | none => run.find? fun e => key e = k

/-- Insertion into an ordered map whose values know their key. -/
def insertByKey (ukey : υ → κ) (u : υ) : List υ → List υ
  | [] => [u]
  | v :: vs =>
    if ukey u < ukey v then u :: v :: vs
    else if ukey u = ukey v then u :: vs
    else v :: insertByKey ukey u vs

def collect (ukey : υ → κ) (log : List υ) : List υ :=
  log.foldl (fun acc u => insertByKey ukey u acc) []

/-- The sorted run without a leading record of key `k`. -/
def skipKey (key : ε → κ) (k : κ) : List ε → List ε
  | [] => []
  | e :: es => if key e = k then es else e :: es

def merge (key : ε → κ) (ukey : υ → κ) (out : υ → Option ε) : List υ → List ε → List ε
  | [], run => run
  | u :: us, run =>
    run.takeWhile (fun e => key e < ukey u) ++ (out u).toList ++
      merge key ukey out us (skipKey key (ukey u) (run.dropWhile fun e => key e < ukey u))

/-- Strictly increasing keys. -/
def Sorted (key : ε → κ) (run : List ε) : Prop := run.Pairwise fun a b => key a < key b

/-- Keys in order; a key can occur more than once. -/
def Ascends (key : ε → κ) (run : List ε) : Prop := run.Pairwise fun a b => key a ≤ key b

omit [DecidableEq κ] in
theorem Sorted.ascends (h : Sorted key run) : Ascends key run := h.imp le_of_lt

omit [DecidableEq κ] in
theorem Sorted.eq_of_key (h : Sorted key run) {a b : ε}
    (ha : a ∈ run) (hb : b ∈ run) (hKey : key a = key b) : a = b := by
  by_contra hNe
  have hSymm : Std.Symm fun a b : ε => key a ≠ key b := ⟨fun _ _ => Ne.symm⟩
  have hApart : run.Pairwise fun a b => key a ≠ key b := h.imp ne_of_lt
  exact List.Pairwise.forall hApart ha hb hNe hKey

theorem Sorted.find?_eq_some_iff (h : Sorted key run) {k : κ} :
    run.find? (fun e => key e = k) = some e ↔ e ∈ run ∧ key e = k := by
  constructor
  · intro hFind
    exact ⟨mem_of_find?_eq_some hFind, by simpa using find?_some hFind⟩
  · rintro ⟨hMem, rfl⟩
    cases hFind : run.find? (fun other => key other = key e) with
    | none => exact absurd (by simp) (find?_eq_none.mp hFind e hMem)
    | some found =>
      have hKey : key found = key e := by simpa using find?_some hFind
      rw [h.eq_of_key (mem_of_find?_eq_some hFind) hMem hKey]

theorem Sorted.length_filter_le_one (h : Sorted key run) (k : κ) :
    (run.filter fun e => key e = k).length ≤ 1 := by
  have hKeys : ∀ e ∈ run.filter fun e => key e = k, key e = k :=
    fun e he => by simpa using (mem_filter.mp he).2
  have hSorted : Sorted key (run.filter fun e => key e = k) := h.filter _
  generalize run.filter (fun e => key e = k) = found at hKeys hSorted
  match found with
  | [] => exact Nat.zero_le _
  | [_] => exact le_refl _
  | a :: b :: rest =>
    have hLt := (pairwise_cons.mp hSorted).1 b mem_cons_self
    rw [hKeys a mem_cons_self, hKeys b (mem_cons_of_mem _ mem_cons_self)] at hLt
    exact absurd hLt (lt_irrefl k)

/-! ## Collecting a log -/

section Collect

variable {ukey : υ → κ}

section

omit [LinearOrder κ]

theorem newest_append_singleton (log : List υ) (u : υ) (k : κ) :
    newest ukey (log ++ [u]) k = if ukey u = k then some u else newest ukey log k := by
  simp only [newest, reverse_append, reverse_cons, reverse_nil, nil_append,
    singleton_append, find?_cons]
  split <;> simp_all

theorem newest_append (log later : List υ) (k : κ) :
    newest ukey (log ++ later) k = (newest ukey later k).or (newest ukey log k) := by
  rw [newest, reverse_append, find?_append]
  rfl

theorem newest_flatten (logs : List (List υ)) (k : κ) :
    newest ukey logs.flatten k = logs.reverse.findSome? fun log => newest ukey log k := by
  induction logs using reverseRecOn with
  | nil => rfl
  | append_singleton logs log ih =>
    rw [flatten_append, flatten_singleton, newest_append, reverse_concat, findSome?_cons, ih]
    cases newest ukey log k <;> rfl

end

variable {acc : List υ} {u : υ} (log : List υ)

theorem mem_insertByKey {v : υ} (h : v ∈ insertByKey ukey u acc) : v = u ∨ v ∈ acc := by
  induction acc with
  | nil => simpa [insertByKey] using h
  | cons w ws ih =>
    unfold insertByKey at h
    split at h
    · simpa using h
    · split at h
      · rcases mem_cons.mp h with rfl | hv
        · exact Or.inl rfl
        · exact Or.inr (mem_cons_of_mem _ hv)
      · rcases mem_cons.mp h with rfl | hv
        · exact Or.inr mem_cons_self
        · exact (ih hv).imp id (mem_cons_of_mem _)

theorem insertByKey_sorted (h : Sorted ukey acc) : Sorted ukey (insertByKey ukey u acc) := by
  induction acc with
  | nil => simp [insertByKey, Sorted]
  | cons w ws ih =>
    obtain ⟨hHead, hTail⟩ := pairwise_cons.mp h
    unfold insertByKey
    split
    next hLt =>
      refine pairwise_cons.mpr ⟨?_, h⟩
      intro v hv
      rcases mem_cons.mp hv with rfl | hv
      · exact hLt
      · exact hLt.trans (hHead v hv)
    · split
      next hEq =>
        refine pairwise_cons.mpr ⟨?_, hTail⟩
        intro v hv
        rw [hEq]
        exact hHead v hv
      next hLt hNe =>
        refine pairwise_cons.mpr ⟨?_, ih hTail⟩
        intro v hv
        rcases mem_insertByKey hv with rfl | hv
        · exact lt_of_le_of_ne (not_lt.mp hLt) (Ne.symm hNe)
        · exact hHead v hv

theorem insertByKey_find (h : Sorted ukey acc) (k : κ) :
    (insertByKey ukey u acc).find? (fun v => ukey v = k) =
      if ukey u = k then some u else acc.find? fun v => ukey v = k := by
  induction acc with
  | nil => by_cases hk : ukey u = k <;> simp [insertByKey, hk]
  | cons w ws ih =>
    obtain ⟨hHead, hTail⟩ := pairwise_cons.mp h
    unfold insertByKey
    split
    · by_cases hk : ukey u = k <;> simp [find?_cons, hk]
    · split
      next hEq =>
        by_cases hk : ukey u = k
        · simp [hk]
        · have hw : ukey w ≠ k := fun hw => hk (hEq.trans hw)
          simp [hk, hw]
      next hLt hNe =>
        by_cases hw : ukey w = k
        · have hu : ukey u ≠ k := fun hu => hNe (hu.trans hw.symm)
          simp [hw, hu]
        · simp only [find?_cons, hw, decide_false, ih hTail]

theorem collect_append_singleton (u : υ) :
    collect ukey (log ++ [u]) = insertByKey ukey u (collect ukey log) := by
  simp [collect]

theorem collect_sorted : Sorted ukey (collect ukey log) := by
  induction log using reverseRecOn with
  | nil => simp [collect, Sorted]
  | append_singleton log u ih =>
    rw [collect_append_singleton]
    exact insertByKey_sorted ih

theorem collect_find (k : κ) :
    (collect ukey log).find? (fun u => ukey u = k) = newest ukey log k := by
  induction log using reverseRecOn with
  | nil => simp [collect, newest]
  | append_singleton log u ih =>
    rw [collect_append_singleton, insertByKey_find (collect_sorted log), ih,
      newest_append_singleton]

theorem mem_collect {log : List υ} (h : u ∈ collect ukey log) : u ∈ log := by
  induction log using reverseRecOn with
  | nil => simp [collect] at h
  | append_singleton log v ih =>
    rw [collect_append_singleton] at h
    rcases mem_insertByKey h with rfl | h
    · simp
    · exact mem_append_left _ (ih h)

end Collect

/-! ## Merging into the run -/

section Merge

variable {key : ε → κ} {ukey : υ → κ} {out : υ → Option ε}

omit [DecidableEq κ] in
theorem ascends_takeWhile (h : Ascends key run) (k : κ) :
    run.takeWhile (fun e => key e < k) = run.filter fun e => key e < k := by
  induction run with
  | nil => rfl
  | cons e es ih =>
    obtain ⟨hHead, hTail⟩ := pairwise_cons.mp h
    by_cases he : key e < k
    · simp [he, ih hTail]
    · have hNone : es.filter (fun e => key e < k) = [] := by
        rw [filter_eq_nil_iff]
        intro a ha
        simpa using (not_lt.mp he).trans (hHead a ha)
      simp [he, hNone]

omit [DecidableEq κ] in
theorem ascends_dropWhile (h : Ascends key run) (k : κ) :
    run.dropWhile (fun e => key e < k) = run.filter fun e => k ≤ key e := by
  induction run with
  | nil => rfl
  | cons e es ih =>
    obtain ⟨hHead, hTail⟩ := pairwise_cons.mp h
    by_cases he : key e < k
    · simp [he, ih hTail]
    · have hAll : es.filter (fun e => k ≤ key e) = es := by
        rw [filter_eq_self]
        intro a ha
        simpa using (not_lt.mp he).trans (hHead a ha)
      simp [he, not_lt.mp he, hAll]

omit [LinearOrder κ] in
theorem skipKey_sublist (k : κ) (run : List ε) : (skipKey key k run).Sublist run := by
  cases run with
  | nil => exact Sublist.refl _
  | cons e es =>
    rw [skipKey]
    split
    · exact sublist_cons_self _ _
    · exact Sublist.refl _

theorem mem_merge (he : e ∈ merge key ukey out us run) : e ∈ run ∨ ∃ u ∈ us, out u = some e := by
  induction us generalizing run with
  | nil => exact Or.inl he
  | cons u us ih =>
    rcases mem_append.mp he with he | he
    · rcases mem_append.mp he with he | he
      · exact Or.inl ((takeWhile_sublist _).subset he)
      · exact Or.inr ⟨u, mem_cons_self, by simpa using he⟩
    · rcases ih he with he | ⟨v, hv, hOut⟩
      · exact Or.inl ((dropWhile_sublist _).subset ((skipKey_sublist _ _).subset he))
      · exact Or.inr ⟨v, mem_cons_of_mem _ hv, hOut⟩

omit [LinearOrder κ] in
theorem skipKey_filter_of_ne {k u : κ} (hNe : k ≠ u) (run : List ε) :
    (skipKey key u run).filter (fun e => key e = k) = run.filter fun e => key e = k := by
  cases run with
  | nil => rfl
  | cons e es =>
    rw [skipKey]
    split_ifs with he
    · have hNot : key e ≠ k := fun hEq => hNe (hEq.symm.trans he)
      simp [hNot]
    · rfl

theorem ascends_rest (h : Ascends key run) (k : κ) :
    Ascends key (skipKey key k (run.dropWhile fun e => key e < k)) :=
  h.sublist ((skipKey_sublist k _).trans (dropWhile_sublist _))

theorem skipKey_filter_self {u : κ} (h : Ascends key run) (hLe : ∀ e ∈ run, u ≤ key e) :
    (skipKey key u run).filter (fun e => key e = u) = (run.filter fun e => key e = u).drop 1 := by
  cases run with
  | nil => rfl
  | cons e es =>
    rw [skipKey]
    split_ifs with he
    · simp [he]
    · have hLt : u < key e := lt_of_le_of_ne (hLe e mem_cons_self) (Ne.symm he)
      have hNone : (e :: es).filter (fun e => key e = u) = [] := by
        rw [filter_eq_nil_iff]
        intro a ha
        rcases mem_cons.mp ha with rfl | ha
        · simpa using he
        · simpa using ne_of_gt (hLt.trans_le ((pairwise_cons.mp h).1 a ha))
      rw [hNone, drop_nil]

variable (hOut : ∀ u e, out u = some e → key e = ukey u)
include hOut

variable {us : List υ} {run : List ε}

theorem merge_tail_ge {u : υ} (hus : Sorted ukey (u :: us)) (h : Ascends key run)
    (he : e ∈ merge key ukey out us
      (skipKey key (ukey u) (run.dropWhile fun e => key e < ukey u))) :
    ukey u ≤ key e := by
  rcases mem_merge he with he | ⟨v, hv, hv'⟩
  · have hMem := (skipKey_sublist _ _).subset he
    rw [ascends_dropWhile h] at hMem
    simpa using (mem_filter.mp hMem).2
  · rw [hOut v e hv']
    exact ((pairwise_cons.mp hus).1 v hv).le

theorem merge_ascends (hus : Sorted ukey us) (h : Ascends key run) :
    Ascends key (merge key ukey out us run) := by
  induction us generalizing run with
  | nil => exact h
  | cons u us ih =>
    have hTail := ih (pairwise_cons.mp hus).2 (ascends_rest h (ukey u))
    have hMid : ∀ e ∈ (out u).toList, key e = ukey u := fun e he => hOut u e (by simpa using he)
    have hFront : ∀ e ∈ run.takeWhile (fun e => key e < ukey u), key e < ukey u := by
      intro e he
      rw [ascends_takeWhile h] at he
      simpa using (mem_filter.mp he).2
    refine pairwise_append.mpr ⟨pairwise_append.mpr
      ⟨h.sublist (takeWhile_sublist _), ?_, ?_⟩, hTail, ?_⟩
    · cases out u <;> simp
    · intro a ha b hb
      rw [hMid b hb]
      exact (hFront a ha).le
    · intro a ha b hb
      refine le_trans ?_ (merge_tail_ge hOut hus h hb)
      rcases mem_append.mp ha with ha | ha
      · exact (hFront a ha).le
      · exact (hMid a ha).le

/-- The records of a key after a merge: if the log mentions the key, its record takes the place of
the first one of the run. -/
theorem merge_filter (hus : Sorted ukey us) (h : Ascends key run) (k : κ) :
    (merge key ukey out us run).filter (fun e => key e = k) =
      match us.find? (fun u => ukey u = k) with
      | some u => (out u).toList ++ (run.filter fun e => key e = k).drop 1
      | none => run.filter fun e => key e = k := by
  induction us generalizing run with
  | nil => rfl
  | cons u us ih =>
    obtain ⟨hHead, hRest⟩ := pairwise_cons.mp hus
    have hTail := ih hRest (ascends_rest h (ukey u))
    have hMid : ukey u ≠ k → (out u).toList.filter (fun e => key e = k) = [] := by
      intro hNe
      rw [filter_eq_nil_iff]
      intro e he
      have hKey := hOut u e (by simpa using he)
      simpa [hKey] using hNe
    have hFront : ¬ k < ukey u →
        (run.takeWhile fun e => key e < ukey u).filter (fun e => key e = k) = [] := by
      intro hNot
      rw [filter_eq_nil_iff]
      intro e he
      rw [ascends_takeWhile h] at he
      have hLt : key e < ukey u := by simpa using (mem_filter.mp he).2
      simpa using fun hEq : key e = k => hNot (hEq ▸ hLt)
    have hBack : ∀ e ∈ run.dropWhile (fun e => key e < ukey u), ukey u ≤ key e := by
      intro e he
      rw [ascends_dropWhile h] at he
      simpa using (mem_filter.mp he).2
    have hSplit : run.filter (fun e => key e = k) =
        (run.takeWhile fun e => key e < ukey u).filter (fun e => key e = k) ++
          (run.dropWhile fun e => key e < ukey u).filter fun e => key e = k := by
      rw [← filter_append, takeWhile_append_dropWhile]
    have hAbove : k ≤ ukey u → us.find? (fun u => ukey u = k) = none := by
      intro hLe
      rw [find?_eq_none]
      intro v hv
      simpa using ne_of_gt (hLe.trans_lt (hHead v hv))
    rw [merge, filter_append, filter_append, hTail, find?_cons]
    rcases lt_trichotomy k (ukey u) with hk | hk | hk
    · have hNone : (run.dropWhile fun e => key e < ukey u).filter (fun e => key e = k) = [] := by
        rw [filter_eq_nil_iff]
        intro e he
        simpa using ne_of_gt (hk.trans_le (hBack e he))
      rw [decide_eq_false (ne_of_gt hk), hAbove hk.le, hMid (ne_of_gt hk),
        skipKey_filter_of_ne (ne_of_lt hk), hSplit, hNone, append_nil]
    · subst hk
      rw [decide_eq_true rfl, hAbove le_rfl, hFront (lt_irrefl _), nil_append,
        skipKey_filter_self (h.sublist (dropWhile_sublist _)) hBack, hSplit,
        hFront (lt_irrefl _), nil_append, filter_eq_self.mpr]
      intro e he
      simpa using hOut u e (by simpa using he)
    · rw [decide_eq_false (ne_of_lt hk), hMid (ne_of_lt hk), hFront hk.not_gt,
        skipKey_filter_of_ne (ne_of_gt hk), hSplit, hFront hk.not_gt, nil_append,
        nil_append]
      rfl

/-! ## Runs without repeated keys -/

omit hOut in
theorem Ascends.sorted (h : Ascends key run)
    (hOnce : ∀ k, (run.filter fun e => key e = k).length ≤ 1) : Sorted key run := by
  induction run with
  | nil => exact .nil
  | cons e es ih =>
    obtain ⟨hHead, hTail⟩ := pairwise_cons.mp h
    refine pairwise_cons.mpr ⟨fun a ha => ?_, ih hTail fun k => ?_⟩
    · refine lt_of_le_of_ne (hHead a ha) fun hEq => ?_
      have hMem : a ∈ es.filter fun b => key b = key e := mem_filter.mpr ⟨ha, by simp [hEq]⟩
      have hLength := hOnce (key e)
      rw [filter_cons_of_pos (by simp), length_cons] at hLength
      have hPos := length_pos_of_mem hMem
      omega
    · exact (((sublist_cons_self e es).filter _).length_le).trans (hOnce k)

theorem merge_sorted (hus : Sorted ukey us) (h : Sorted key run) :
    Sorted key (merge key ukey out us run) := by
  refine (merge_ascends hOut hus h.ascends).sorted fun k => ?_
  rw [merge_filter hOut hus h.ascends]
  split
  · rw [drop_eq_nil_of_le (h.length_filter_le_one _), append_nil]
    cases out _ <;> simp
  · exact h.length_filter_le_one k

theorem merge_find (hus : Sorted ukey us) (h : Sorted key run) (k : κ) :
    (merge key ukey out us run).find? (fun e => key e = k) =
      match us.find? (fun u => ukey u = k) with
      | some u => out u
      | none => run.find? fun e => key e = k := by
  rw [← head?_filter, merge_filter hOut hus h.ascends]
  split
  · rw [drop_eq_nil_of_le (h.length_filter_le_one _), append_nil]
    cases out _ <;> rfl
  · exact head?_filter

/-- Merging a log into the run and emptying it changes no key. -/
theorem view_merge (h : Sorted key run) (log : List υ) (k : κ) :
    view key ukey out (merge key ukey out (collect ukey log) run) [] k =
      view key ukey out run log k := by
  simp only [view, newest, reverse_nil, find?_nil]
  rw [merge_find hOut (collect_sorted log) h, collect_find]
  rfl

end Merge

end Cascette.Lib.Lsm
