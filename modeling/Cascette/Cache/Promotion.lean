import Cascette.Cache.MultiLayer

/-!
# The promotion tracker of the cache of several layers

Every hit of `get` is noted in the promotion tracker, a map behind a lock of readers and writers.
The hit takes the lock for writing and, if the key was tracked before, asks `should_promote` under
that guard, which takes the same lock for reading unless the hit is in the first layer. The second
hit of a key below the first layer waits for itself, whatever the strategy is, and the writer it
holds then keeps every other call from the tracker.

A `get` that waits for its own guard has no result (`none`). The other calls give the lock back at
once, and no call panics under the guard, so the lock is never poisoned.
-/

namespace Cascette.Cache.MultiLayerCache

open Lib List Function Option

variable {K : Type} {n : ℕ}

/-- What is known of the accesses of a key; a time is a number. -/
structure PromotionTracker where
  hitCount : ℕ
  firstAccess : ℕ
  lastAccess : ℕ
  currentLayer : ℕ

namespace PromotionTracker

def new (now layer : ℕ) : PromotionTracker :=
  { hitCount := 1, firstAccess := now, lastAccess := now, currentLayer := layer }

def updateAccess (tracker : PromotionTracker) (now : ℕ) : PromotionTracker :=
  { tracker with hitCount := tracker.hitCount + 1, lastAccess := now }

def age (tracker : PromotionTracker) : ℕ := tracker.lastAccess - tracker.firstAccess

end PromotionTracker

/-- The frequency is computed in floating point: `reached` is its comparison with the threshold. -/
inductive PromotionStrategy
  | onHit
  | afterNHits (n : ℕ)
  | frequencyBased (reached : PromotionTracker → Bool)
  | ageBased (minAge : ℕ)
  | manual

/-- The guard of the tracker's lock that the calling task holds. -/
inductive Held
  | nothing
  | reader
  | writer

def Held.read : Held → Option Held
  | .writer => none
  | _ => some .reader

def Held.write : Held → Option Held
  | .nothing => some .writer
  | _ => none

structure Tracked (K : Type) (n : ℕ) where
  cache : MultiLayerCache K n
  tracker : K → Option PromotionTracker

/-- The first layer that answers, with its answer. -/
def hit (cache : MultiLayerCache K n) (fails : Fin (n + 1) → Bool) (key : K) :
    Option (Fin (n + 1) × Bytes) :=
  (finRange (n + 1)).findSome? fun i => if fails i then none else (cache.layers i key).map (i, ·)

/-- A layer that works and has a copy. -/
def Answers (cache : MultiLayerCache K n) (fails : Fin (n + 1) → Bool) (key : K)
    (i : Fin (n + 1)) : Prop :=
  fails i = false ∧ (cache.layers i key).isSome

namespace Tracked

def shouldPromote (s : Tracked K n) (strategy : PromotionStrategy) (held : Held) (key : K)
    (currentLayer : Fin (n + 1)) : Option Bool :=
  if currentLayer.val = 0 then some false
  else do
    let _ ← held.read
    match s.tracker key with
    | none => some false
    | some tracker =>
      some <| match strategy with
        | .onHit => true
        | .afterNHits n => n ≤ tracker.hitCount
        | .frequencyBased reached => reached tracker
        | .ageBased minAge => minAge ≤ tracker.age
        | .manual => false

variable [DecidableEq K]

def track (s : Tracked K n) (key : K) (tracker : Option PromotionTracker) : Tracked K n :=
  { s with tracker := update s.tracker key tracker }

def get (s : Tracked K n) (strategy : PromotionStrategy) (fails : Fin (n + 1) → Bool) (key : K)
    (now : ℕ) : Option (Option Bytes × Tracked K n) :=
  match s.cache.hit fails key with
  | none => some (none, s)
  | some (i, value) => do
    let held ← Held.nothing.write
    match s.tracker key with
    | some tracker =>
      let s := s.track key (tracker.updateAccess now)
      -- the answer is not used: promotions are made only when they are asked for
      let _ ← s.shouldPromote strategy held key i
      some (some value, s)
    | none => some (some value, s.track key (PromotionTracker.new now i))

/-! ## Runs -/

def start : Tracked K n := { cache := new, tracker := fun _ => none }

/-- The other calls. The tracker is left as it is when the layers fail. -/
def perform (s : Tracked K n) (now : ℕ) : Call K n → Tracked K n
  | .put fails key value =>
    match s.cache.put fails key value with
    | (.ok (), cache) => track { s with cache } key (PromotionTracker.new now 0)
    | (.error _, cache) => { s with cache }
  | .putToLayer fails key value layer =>
    { s with cache := (s.cache.putToLayer fails key value layer).2 }
  | .promote fails key fromLayer toLayer =>
    match s.cache.promote fails key fromLayer toLayer with
    | (.ok true, cache) =>
      track { s with cache } key ((s.tracker key).map ({ · with currentLayer := toLayer }))
    | (_, cache) => { s with cache }
  | .remove fails key =>
    match s.cache.remove fails key with
    | (.ok _, cache) => track { s with cache } key none
    | (.error _, cache) => { s with cache }
  | .clear fails =>
    match s.cache.clear fails with
    | (.ok (), cache) => { cache, tracker := fun _ => none }
    | (.error _, cache) => { s with cache }
  | .evict i key => { s with cache := s.cache.evict i key }

inductive Event (K : Type) (n : ℕ)
  | call (now : ℕ) (call : Call K n)
  | get (now : ℕ) (fails : Fin (n + 1) → Bool) (key : K)

def step (strategy : PromotionStrategy) (s : Tracked K n) : Event K n → Option (Tracked K n)
  | .call now call => some (s.perform now call)
  | .get now fails key => (s.get strategy fails key now).map Prod.snd

/-- The state after some calls, if all of them return. -/
def run (strategy : PromotionStrategy) (events : List (Event K n)) : Option (Tracked K n) :=
  events.foldlM (step strategy) start

end Tracked

/-! ## The guards of a lookup -/

variable {cache : MultiLayerCache K n} {fails : Fin (n + 1) → Bool} {key : K}

theorem hit_eq_none_iff : cache.hit fails key = none ↔ ∀ i, ¬cache.Answers fails key i := by
  simp [hit, Answers, findSome?_eq_none_iff]

theorem answers_of_hit {i : Fin (n + 1)} {value : Bytes}
    (h : cache.hit fails key = some (i, value)) : cache.Answers fails key i := by
  obtain ⟨j, -, hHit⟩ := exists_of_findSome?_eq_some h
  simp only [ite_none_left_eq_some, map_eq_some_iff] at hHit
  obtain ⟨hWorks, copy, hCopy, hEq⟩ := hHit
  cases hEq
  exact ⟨Bool.eq_false_of_not_eq_true hWorks, by rw [hCopy, isSome_some]⟩

theorem hit_of_answers (h : cache.Answers fails key 0) :
    ∃ value, cache.hit fails key = some (0, value) := by
  obtain ⟨value, hCopy⟩ := isSome_iff_exists.mp h.2
  exact ⟨value, by simp [hit, finRange_succ, h.1, hCopy]⟩

namespace Tracked

variable [DecidableEq K]

/-- A lookup returns exactly if the key is not tracked, the first layer answers, or no layer does:
otherwise the hit waits for the guard that it holds itself. -/
theorem get_isSome_iff (s : Tracked K n) (strategy : PromotionStrategy)
    (fails : Fin (n + 1) → Bool) (key : K) (now : ℕ) :
    (s.get strategy fails key now).isSome ↔
      s.tracker key = none ∨ s.cache.Answers fails key 0 ∨ ∀ i, ¬s.cache.Answers fails key i := by
  rw [get, ← hit_eq_none_iff]
  cases hHit : s.cache.hit fails key with
  | none => simp
  | some found =>
    obtain ⟨i, value⟩ := found
    have hFirst : s.cache.Answers fails key 0 ↔ i = 0 := by
      refine ⟨fun h => ?_, fun h => h ▸ answers_of_hit hHit⟩
      obtain ⟨value', hAgain⟩ := hit_of_answers h
      rw [hHit] at hAgain
      cases hAgain
      rfl
    rw [hFirst]
    cases hTracker : s.tracker key with
    | none => simp [Held.write]
    | some tracker => by_cases hi : i = 0 <;> simp [Held.write, Held.read, shouldPromote, hi]

/-- A value that is stored in the second layer is found once; the second lookup does not return. -/
theorem get_refuted :
    let works : Fin 2 → Bool := fun _ => false
    let stored : List (Event Unit 1) := [.call 0 (.putToLayer works () [1] 1), .get 1 works ()]
    ∃ s, run .onHit stored = some s ∧ s.get .onHit works () 2 = none :=
  ⟨_, rfl, rfl⟩

end Tracked

end Cascette.Cache.MultiLayerCache
