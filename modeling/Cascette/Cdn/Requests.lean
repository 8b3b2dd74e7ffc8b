import Cascette.Lib.Reach
import Mathlib.Tactic

/-!
# The queue of prioritized requests

A call of `enqueue` pushes its request, reads the counter of active requests and, if that is below
the limit, takes the lock of the queue and starts requests until the queue is empty; the counter is
not read again. A request that finishes lowers the counter and starts nothing. So more requests run
than may, and a request whose call found the counter at the limit waits for a later call. Neither
happens exactly if no more requests are enqueued than may run at once (`all_served_iff`).

The steps of the calls and of the running requests are interleaved in any order. The heap may give
out any of the waiting requests, which are known by their numbers. The counter is the number of
running requests. A request that has finished looks at the queue once more and changes nothing.
-/

namespace Cascette.Cdn

open Lib List Relation

/-- The queue, its running requests and the calls under way: those that have pushed their request
and not read the counter, those that have read a counter below the limit, and whether one holds the
lock. -/
structure RequestQueue where
  enqueued : ℕ
  waiting : List ℕ
  running : List ℕ
  pushed : ℕ
  admitted : ℕ
  draining : Bool

namespace RequestQueue

def new : RequestQueue :=
  { enqueued := 0, waiting := [], running := [], pushed := 0, admitted := 0, draining := false }

inductive Step (limit : ℕ) (s : RequestQueue) : RequestQueue → Prop
  | push : s.draining = false → Step limit s { s with
      enqueued := s.enqueued + 1
      waiting := (s.enqueued + 1) :: s.waiting
      pushed := s.pushed + 1 }
  | refuse : 0 < s.pushed → limit ≤ s.running.length →
      Step limit s { s with pushed := s.pushed - 1 }
  | enter : 0 < s.pushed → s.running.length < limit →
      Step limit s { s with pushed := s.pushed - 1, admitted := s.admitted + 1 }
  | lock : 0 < s.admitted → s.draining = false →
      Step limit s { s with admitted := s.admitted - 1, draining := true }
  | spawn {before after : List ℕ} {request : ℕ} : s.draining = true →
      s.waiting = before ++ request :: after →
      Step limit s { s with waiting := before ++ after, running := request :: s.running }
  | unlock : s.draining = true → s.waiting = [] → Step limit s { s with draining := false }
  | finish {before after : List ℕ} {request : ℕ} : s.running = before ++ request :: after →
      Step limit s { s with running := before ++ after }

/-- What the calls and requests under way have still to do. -/
def work (s : RequestQueue) : ℕ :=
  2 * s.waiting.length + s.running.length + 3 * s.pushed + 2 * s.admitted + s.draining.toNat

/-- The limit is kept, and when nothing can happen any more without a further call, nothing
waits. -/
def Served (limit : ℕ) (s : RequestQueue) : Prop :=
  s.running.length ≤ limit ∧ ((∀ t, Step limit s t → s.enqueued < t.enqueued) → s.waiting = [])

variable {limit : ℕ} {s t : RequestQueue}

theorem Step.work_lt (h : Step limit s t) : s.enqueued < t.enqueued ∨ t.work < s.work := by
  cases h with
  | push => exact .inl (Nat.lt_succ_self _)
  | refuse | enter | lock | spawn | unlock | finish =>
    right
    simp_all [work]
    try omega

/-- Without further calls every run ends, and where it ends all calls have returned and no request
runs; what still waits was left there. -/
theorem quiet_runs_end (limit : ℕ) :
    WellFounded (fun t s => Step limit s t ∧ t.enqueued = s.enqueued) ∧
      ∀ s, (∀ t, Step limit s t → s.enqueued < t.enqueued) →
        s.running = [] ∧ s.pushed = 0 ∧ s.admitted = 0 ∧ s.draining = false := by
  refine ⟨Subrelation.wf (fun h => h.1.work_lt.resolve_left h.2.not_gt) (measure work).wf, ?_⟩
  intro s hStuck
  have hDraining : s.draining = false := by
    by_contra hLocked
    rw [Bool.not_eq_false] at hLocked
    cases hWaiting : s.waiting with
    | nil => exact absurd (hStuck _ (.unlock hLocked hWaiting)) (lt_irrefl _)
    | cons request after =>
      exact absurd (hStuck _ (@Step.spawn _ _ [] _ _ hLocked hWaiting)) (lt_irrefl _)
  refine ⟨?_, ?_, ?_, hDraining⟩
  · cases hRunning : s.running with
    | nil => rfl
    | cons request after => exact absurd (hStuck _ (@Step.finish _ _ [] _ _ hRunning)) (lt_irrefl _)
  · by_contra hPushed
    obtain hFull | hRoom := le_or_gt limit s.running.length
    · exact absurd (hStuck _ (.refuse (by omega) hFull)) (lt_irrefl _)
    · exact absurd (hStuck _ (.enter (by omega) hRoom)) (lt_irrefl _)
  · by_contra hAdmitted
    exact absurd (hStuck _ (.lock (by omega) hDraining)) (lt_irrefl _)

/-! ## Few requests -/

/-- As long as all requests may run at once, a request waits only for a call under way. -/
def Inv (limit : ℕ) (s : RequestQueue) : Prop :=
  s.running.length + s.waiting.length ≤ s.enqueued ∧
    (s.enqueued ≤ limit → 0 < s.waiting.length → 0 < s.pushed + s.admitted + s.draining.toNat)

theorem Inv.step (h : s.Inv limit) (hStep : Step limit s t) : t.Inv limit := by
  obtain ⟨hLength, hWaits⟩ := h
  cases hStep with
  | push | refuse | enter | lock | spawn | unlock | finish =>
    simp_all [Inv]
    try omega

theorem Inv.served (h : s.Inv limit) (hEnough : s.enqueued ≤ limit) : s.Served limit := by
  refine ⟨by have := h.1; omega, fun hStuck => ?_⟩
  by_contra hNe
  have hWaits := h.2 hEnough (length_pos_iff.mpr hNe)
  by_cases hPushed : 0 < s.pushed
  · obtain hFull | hRoom := le_or_gt limit s.running.length
    · exact absurd (hStuck _ (.refuse hPushed hFull)) (lt_irrefl _)
    · exact absurd (hStuck _ (.enter hPushed hRoom)) (lt_irrefl _)
  · cases hDraining : s.draining with
    | true =>
      obtain ⟨request, after, hWaiting⟩ := exists_cons_of_ne_nil hNe
      exact absurd (hStuck _ (@Step.spawn _ _ [] _ _ hDraining hWaiting)) (lt_irrefl _)
    | false =>
      rw [hDraining, Bool.toNat_false] at hWaits
      exact absurd (hStuck _ (.lock (by omega) hDraining)) (lt_irrefl _)

/-! ## Many requests -/

/-- All calls push before the first one reads the counter. -/
theorem run_push (limit k : ℕ) : ∃ ids : List ℕ, ids.length = k ∧
    ReflTransGen (Step limit) new ⟨k, ids, [], k, 0, false⟩ := by
  induction k with
  | zero => exact ⟨[], rfl, .refl⟩
  | succ k ih =>
    obtain ⟨ids, hLength, hRun⟩ := ih
    exact ⟨(k + 1) :: ids, congrArg Nat.succ hLength, hRun.tail (.push rfl)⟩

/-- The call that holds the lock starts everything. -/
theorem run_spawn (limit e pushed : ℕ) (ids running : List ℕ) : ∃ all : List ℕ,
    all.length = running.length + ids.length ∧ ReflTransGen (Step limit)
      ⟨e, ids, running, pushed, 0, true⟩ ⟨e, [], all, pushed, 0, true⟩ := by
  induction ids generalizing running with
  | nil => exact ⟨running, rfl, .refl⟩
  | cons id ids ih =>
    obtain ⟨all, hLength, hRun⟩ := ih (id :: running)
    refine ⟨all, ?_, .head (@Step.spawn _ _ [] _ _ rfl rfl) hRun⟩
    rw [hLength, length_cons, length_cons]
    omega

theorem run_beyond_limit (hLimit : 0 < limit) : ∃ s,
    ReflTransGen (Step limit) new s ∧ s.enqueued = limit + 1 ∧ s.running.length = limit + 1 := by
  obtain ⟨ids, hIds, hPush⟩ := run_push limit (limit + 1)
  obtain ⟨all, hAll, hSpawn⟩ := run_spawn limit (limit + 1) limit ids []
  have hLock := hPush.tail (.enter (Nat.succ_pos limit) hLimit) |>.tail (.lock Nat.one_pos rfl)
  exact ⟨_, hLock.trans hSpawn, rfl, by rw [hAll, hIds, length_nil, Nat.zero_add]⟩

/-- Whatever the schedule, the limit is kept and every request is started, exactly if no more
requests are enqueued than may run at once. -/
theorem all_served_iff {limit : ℕ} (hLimit : 0 < limit) (total : ℕ) :
    (∀ s, ReflTransGen (Step limit) new s → s.enqueued ≤ total → s.Served limit) ↔
      total ≤ limit := by
  constructor
  · intro h
    by_contra hMany
    obtain ⟨s, hRun, hEnqueued, hRunning⟩ := run_beyond_limit hLimit
    have hServed := (h s hRun (by omega)).1
    omega
  · intro hTotal s hRun hEnqueued
    have hInv : s.Inv limit := run_keeps (fun _ _ => Inv.step) hRun ⟨le_rfl, nofun⟩
    exact hInv.served (hEnqueued.trans hTotal)

theorem all_served_two : 0 < 2 ∧ ∀ s, ReflTransGen (Step 2) new s → s.enqueued ≤ 2 → s.Served 2 :=
  ⟨two_pos, (all_served_iff two_pos 2).mpr le_rfl⟩

/-- Two requests run at once where one may. -/
theorem all_served_refuted :
    ∃ s, ReflTransGen (Step 1) new s ∧ s.enqueued = 2 ∧ s.running.length = 2 :=
  run_beyond_limit Nat.one_pos

end RequestQueue

end Cascette.Cdn
