import Cascette.Agent.Queue
import Cascette.Lib.Reach

/-!
# Operation runner

The runner lists the queued operations and spawns a task for each of them while it gets permits. An
operation stays queued in the table until its task has run as far as its first update. A poll before
that lists it once more. The table is seen through its entries here: by `Database.Holds.getQueued` a
poll returns a listing of the queued ones, if all of them can be read, and by
`Database.Holds.getQueued_extract` it returns nothing otherwise.
-/

namespace Cascette.Agent

open Lib List
open Relation (ReflTransGen)

variable {Id Time : Type}

def Entry.withState (entry : Entry Id Time) (state : OperationState) : Entry Id Time :=
  { entry with state }

/-- A task owns its copy of the operation and a permit. It has started once it has written its first
update. -/
structure Task (Id Time : Type) where
  operation : Entry Id Time
  started : Bool

/-- The table, the operations of the last poll that the loop has not reached, and the tasks that
have not ended. -/
structure Runner (Id Time : Type) where
  ledger : Ledger Id Time
  pending : List (Entry Id Time)
  tasks : List (Task Id Time)

def Ledger.write [DecidableEq Id] (ledger : Ledger Id Time) (entry : Entry Id Time) :
    Ledger Id Time :=
  ledger.set entry.operationId entry.state entry.priority

variable [DecidableEq Id] [LinearOrder Time]

/-- One step of the polling loop or of a task. The loop does not wait between two spawns, but the
tasks run on other threads meanwhile. -/
inductive Runner.Step (maxConcurrent : Nat) : Runner Id Time → Runner Id Time → Prop
  | poll {ledger tasks} (listing : Ledger Id Time)
      (hReadable : ∀ entry ∈ ledger.queued, entry.operationType ≠ .extract)
      (hLists : ledger.Lists listing) :
      Step maxConcurrent ⟨ledger, [], tasks⟩ ⟨ledger, listing, tasks⟩
  | spawn {ledger entry rest tasks} (hPermit : tasks.length < maxConcurrent) :
      Step maxConcurrent ⟨ledger, entry :: rest, tasks⟩ ⟨ledger, rest, tasks ++ [⟨entry, false⟩]⟩
  -- at the concurrency limit the rest of the listing is dropped
  | full {ledger entry rest tasks} (hFull : maxConcurrent ≤ tasks.length) :
      Step maxConcurrent ⟨ledger, entry :: rest, tasks⟩ ⟨ledger, [], tasks⟩
  | start {ledger pending front entry back} (hState : entry.state.canTransitionTo .initializing) :
      Step maxConcurrent ⟨ledger, pending, front ++ ⟨entry, false⟩ :: back⟩
        ⟨ledger.write (entry.withState .initializing), pending,
          front ++ ⟨entry.withState .initializing, true⟩ :: back⟩
  | refuse {ledger pending front entry back}
      (hState : ¬ entry.state.canTransitionTo .initializing) :
      Step maxConcurrent ⟨ledger, pending, front ++ ⟨entry, false⟩ :: back⟩
        ⟨ledger, pending, front ++ back⟩
  | advance {ledger pending front entry back} {target : OperationState}
      (hState : entry.state.canTransitionTo target) :
      Step maxConcurrent ⟨ledger, pending, front ++ ⟨entry, true⟩ :: back⟩
        ⟨ledger.write (entry.withState target), pending,
          front ++ ⟨entry.withState target, true⟩ :: back⟩
  | finish {ledger pending front entry back} :
      Step maxConcurrent ⟨ledger, pending, front ++ ⟨entry, true⟩ :: back⟩
        ⟨ledger, pending, front ++ back⟩
  | fail {ledger pending front entry back} :
      Step maxConcurrent ⟨ledger, pending, front ++ ⟨entry, true⟩ :: back⟩
        ⟨ledger.write (entry.withState entry.state.fail), pending, front ++ back⟩

namespace Runner

/-- The identifiers of the operations that are being executed. -/
def executing (s : Runner Id Time) : List Id :=
  (s.tasks.filter Task.started).map fun task => task.operation.operationId

/-- No operation is executed by two tasks. -/
def Exclusive (s : Runner Id Time) : Prop := s.executing.Nodup

variable {maxConcurrent : Nat} {s t : Runner Id Time} {ledger : Ledger Id Time}

/-! ## When two tasks are excluded -/

theorem Step.length_tasks (h : s.tasks.length ≤ maxConcurrent) (hStep : Step maxConcurrent s t) :
    t.tasks.length ≤ maxConcurrent := by
  cases hStep <;> simp only [length_append, length_cons, length_nil] at h ⊢ <;> omega

omit [DecidableEq Id] [LinearOrder Time] in
theorem exclusive_of_length (h : s.tasks.length ≤ 1) : s.Exclusive := by
  have hLength : s.executing.length ≤ 1 := by
    rw [executing, length_map]
    exact (length_filter_le _ _).trans h
  rw [Exclusive]
  match hEq : s.executing with
  | [] => exact nodup_nil
  | [id] => exact nodup_singleton id
  | _ :: _ :: _ =>
    rw [hEq] at hLength
    simp at hLength

/-- Nothing is listed and no task runs. -/
structure Idle (ledger : Ledger Id Time) (s : Runner Id Time) : Prop where
  ledger : s.ledger = ledger
  pending : s.pending = []
  tasks : s.tasks = []

theorem Idle.step (hNone : ledger.queued = [] ∨
      ∃ entry ∈ ledger.queued, entry.operationType = .extract)
    (h : Idle ledger s) (hStep : Step maxConcurrent s t) : Idle ledger t := by
  obtain ⟨hLedger, hPending, hTasks⟩ := h
  cases hStep with
  | poll listing hReadable hLists =>
    subst hLedger
    rcases hNone with hNone | ⟨entry, hEntry, hType⟩
    · refine ⟨rfl, ?_, hTasks⟩
      have hPerm := hLists.perm
      rw [hNone] at hPerm
      exact hPerm.eq_nil
    · exact absurd hType (hReadable entry hEntry)
  | spawn hPermit | full hFull => cases hPending
  | start hState | refuse hState | advance hState | finish | fail => simp at hTasks

/-! ## Two tasks for one operation -/

omit [LinearOrder Time] in
theorem queued_write (entry : Entry Id Time) (hState : entry.state ≠ .queued)
    (ledger : Ledger Id Time) :
    (ledger.write entry).queued =
      ledger.queued.filter fun other => other.operationId ≠ entry.operationId := by
  induction ledger with
  | nil => rfl
  | cons first ledger ih =>
    simp only [Ledger.write, Ledger.set, Ledger.queued, map_cons] at ih ⊢
    by_cases hId : first.operationId = entry.operationId
    · rw [if_pos hId, filter_cons_of_neg (by simpa using hState), ih]
      by_cases hQueued : first.state = .queued
      · rw [filter_cons_of_pos (by simpa using hQueued), filter_cons_of_neg (by simpa using hId)]
      · rw [filter_cons_of_neg (by simpa using hQueued)]
    · rw [if_neg hId]
      by_cases hQueued : first.state = .queued
      · rw [filter_cons_of_pos (by simpa using hQueued),
          filter_cons_of_pos (by simpa using hQueued),
          filter_cons_of_pos (by simpa using hId), ih]
      · rw [filter_cons_of_neg (by simpa using hQueued),
          filter_cons_of_neg (by simpa using hQueued), ih]

/-- What a task leaves behind that starts and then fails. -/
def settle (ledger : Ledger Id Time) (entry : Entry Id Time) : Ledger Id Time :=
  (ledger.write (entry.withState .initializing)).write (entry.withState .failed)

omit [LinearOrder Time] in
theorem queued_settle (ledger : Ledger Id Time) (entry : Entry Id Time) :
    (settle ledger entry).queued =
      ledger.queued.filter fun other => other.operationId ≠ entry.operationId := by
  rw [settle, queued_write _ (by exact nofun), queued_write _ (by exact nofun), filter_filter]
  exact filter_congr fun other _ => Bool.and_self _

omit [LinearOrder Time] in
theorem queued_foldl_settle (entries : List (Entry Id Time)) (ledger : Ledger Id Time) :
    (entries.foldl settle ledger).queued =
      ledger.queued.filter fun other => other.operationId ∉ entries.map Entry.operationId := by
  induction entries generalizing ledger with
  | nil => simp
  | cons entry entries ih =>
    rw [foldl_cons, ih, queued_settle, filter_filter]
    refine filter_congr fun other _ => ?_
    simp only [map_cons, mem_cons, not_or]
    rw [Bool.eq_iff_iff]
    simp only [Bool.and_eq_true, decide_eq_true_eq]
    tauto

/-- While a first task has not started, all other operations of a listing can run to their end. -/
theorem drain (hMax : 2 ≤ maxConcurrent) (task : Task Id Time) {rest : List (Entry Id Time)}
    (hQueued : ∀ entry ∈ rest, entry.state = .queued) (ledger : Ledger Id Time) :
    ReflTransGen (Step maxConcurrent) ⟨ledger, rest, [task]⟩
      ⟨rest.foldl settle ledger, [], [task]⟩ := by
  induction rest generalizing ledger with
  | nil => exact .refl
  | cons entry rest ih =>
    obtain ⟨hEntry, hRest⟩ := forall_mem_cons.mp hQueued
    have hSpawn : Step maxConcurrent ⟨ledger, entry :: rest, [task]⟩
        ⟨ledger, rest, [task] ++ [⟨entry, false⟩]⟩ := .spawn hMax
    have hStart : Step maxConcurrent ⟨ledger, rest, [task] ++ [⟨entry, false⟩]⟩
        ⟨ledger.write (entry.withState .initializing), rest,
          [task] ++ [⟨entry.withState .initializing, true⟩]⟩ := .start (by rw [hEntry]; rfl)
    have hFail : Step maxConcurrent ⟨ledger.write (entry.withState .initializing), rest,
          [task] ++ [⟨entry.withState .initializing, true⟩]⟩
        ⟨settle ledger entry, rest, [task] ++ []⟩ := .fail
    exact .head hSpawn (.head hStart (.head hFail (ih hRest (settle ledger entry))))

/-- A listing is executed by two tasks: the first operation is spawned, all others run to their end,
and the next poll lists the first operation again. -/
theorem exists_not_exclusive (hMax : 2 ≤ maxConcurrent)
    (hIds : (ledger.map Entry.operationId).Nodup) (hQueued : ledger.queued ≠ [])
    (hReadable : ∀ entry ∈ ledger.queued, entry.operationType ≠ .extract) :
    ∃ s, ReflTransGen (Step maxConcurrent) ⟨ledger, [], []⟩ s ∧ ¬ s.Exclusive := by
  obtain ⟨first, rest, hLists⟩ : ∃ first rest, ledger.Lists (first :: rest) := by
    have hPerm := (OrderBy.stable (Entry Id Time)).perm Entry.key ledger.queued
    have hSorted := (OrderBy.stable (Entry Id Time)).sorted Entry.key ledger.queued
    match hSort : (OrderBy.stable (Entry Id Time)).sort Entry.key ledger.queued with
    | [] =>
      rw [hSort] at hPerm
      exact absurd hPerm.symm.eq_nil hQueued
    | first :: rest =>
      rw [hSort] at hPerm hSorted
      exact ⟨first, rest, hPerm, hSorted⟩
  have hMem : ∀ entry ∈ first :: rest, entry ∈ ledger ∧ entry.state = .queued := by
    intro entry hEntry
    obtain ⟨hLedger, hState⟩ := mem_filter.mp (hLists.perm.mem_iff.mp hEntry)
    exact ⟨hLedger, of_decide_eq_true hState⟩
  obtain ⟨hFirst, hRest⟩ := forall_mem_cons.mp hMem
  -- after the other operations have ended, the first one is all that is queued
  have hLeft : (rest.foldl settle ledger).queued = [first] := by
    have hNodup : ((first :: rest).map Entry.operationId).Nodup := by
      rw [(hLists.perm.map Entry.operationId).nodup_iff]
      exact hIds.sublist (filter_sublist.map _)
    rw [map_cons, nodup_cons] at hNodup
    rw [queued_foldl_settle]
    refine perm_singleton.mp ((hLists.perm.symm.filter _).trans ?_)
    rw [filter_cons_of_pos (by simpa using hNodup.1), filter_eq_nil_iff.mpr]
    intro other hOther
    simpa using ⟨other, hOther, rfl⟩
  have hPoll : Step maxConcurrent ⟨ledger, [], []⟩ ⟨ledger, first :: rest, []⟩ :=
    .poll _ hReadable hLists
  have hSpawn : Step maxConcurrent ⟨ledger, first :: rest, []⟩
      ⟨ledger, rest, [⟨first, false⟩]⟩ := .spawn (by simp only [length_nil]; omega)
  have hDrain := drain hMax ⟨first, false⟩ (fun entry hEntry => (hRest entry hEntry).2) ledger
  generalize rest.foldl settle ledger = settled at hLeft hDrain
  have hPollAgain : Step maxConcurrent ⟨settled, [], [⟨first, false⟩]⟩
      ⟨settled, [first], [⟨first, false⟩]⟩ := by
    refine .poll _ ?_ ⟨by rw [hLeft], pairwise_singleton _ _⟩
    rw [hLeft]
    intro entry hEntry
    rw [mem_singleton.mp hEntry]
    exact hReadable first (hLists.perm.mem_iff.mp mem_cons_self)
  have hSpawnAgain : Step maxConcurrent ⟨settled, [first], [⟨first, false⟩]⟩
      ⟨settled, [], [⟨first, false⟩, ⟨first, false⟩]⟩ := .spawn hMax
  have hCan : first.state.canTransitionTo .initializing := by
    rw [hFirst.2]
    rfl
  have hStart : Step maxConcurrent
      ⟨settled, [], [] ++ ⟨first, false⟩ :: [⟨first, false⟩]⟩
      ⟨settled.write (first.withState .initializing), [],
        [] ++ ⟨first.withState .initializing, true⟩ :: [⟨first, false⟩]⟩ := .start hCan
  have hStartAgain : Step maxConcurrent
      ⟨settled.write (first.withState .initializing), [],
        [⟨first.withState .initializing, true⟩] ++ [⟨first, false⟩]⟩
      ⟨(settled.write (first.withState .initializing)).write (first.withState .initializing), [],
        [⟨first.withState .initializing, true⟩] ++ [⟨first.withState .initializing, true⟩]⟩ :=
    .start hCan
  refine ⟨_, .head hPoll (.head hSpawn (hDrain.trans (.head hPollAgain (.head hSpawnAgain
    (.head hStart (.single hStartAgain)))))), ?_⟩
  simp [Exclusive, executing]

/-- No operation is executed twice at a time, whatever the schedule, exactly if there is at most one
permit or nothing can be listed. -/
theorem exclusive_iff (hIds : (ledger.map Entry.operationId).Nodup) (maxConcurrent : Nat) :
    (∀ s, ReflTransGen (Step maxConcurrent) ⟨ledger, [], []⟩ s → s.Exclusive) ↔
      maxConcurrent ≤ 1 ∨ ledger.queued = [] ∨
        ∃ entry ∈ ledger.queued, entry.operationType = .extract := by
  constructor
  · intro h
    by_contra hNot
    obtain ⟨hMax, hQueued, hReadable⟩ : 2 ≤ maxConcurrent ∧ ledger.queued ≠ [] ∧
        ∀ entry ∈ ledger.queued, entry.operationType ≠ .extract := by
      simp only [not_or, not_le, not_exists, not_and] at hNot
      exact hNot
    obtain ⟨s, hRun, hTwice⟩ := exists_not_exclusive hMax hIds hQueued hReadable
    exact hTwice (h s hRun)
  · rintro (hMax | hNone) s hRun
    · have hLength := run_keeps (P := fun s => s.tasks.length ≤ maxConcurrent)
        (fun _ _ => Step.length_tasks) hRun (Nat.zero_le _)
      exact exclusive_of_length (hLength.trans hMax)
    · have hIdle := run_keeps (fun _ _ => Idle.step hNone) hRun ⟨rfl, rfl, rfl⟩
      exact exclusive_of_length (by rw [hIdle.tasks]; exact Nat.zero_le _)

/-- One queued installation. -/
def sampleLedger : Ledger Bool Unit := [(sampleOperation false "wow" .install).entry]

theorem nodup_sampleLedger : (sampleLedger.map Entry.operationId).Nodup := nodup_singleton false

theorem exclusive_sample :
    let ledger := (sampleOperation true "d3" .verify).entry :: sampleLedger
    (ledger.map Entry.operationId).Nodup ∧
      ∀ s, ReflTransGen (Step 1) ⟨ledger, [], []⟩ s → s.Exclusive :=
  ⟨by decide, (exclusive_iff (by decide) 1).mpr (.inl (le_refl 1))⟩

/-- With two permits the installation can be executed twice at a time. -/
theorem exclusive_refuted :
    ∃ s, ReflTransGen (Step 2) ⟨sampleLedger, [], []⟩ s ∧ ¬ s.Exclusive := by
  refine exists_not_exclusive (le_refl 2) nodup_sampleLedger (cons_ne_nil _ _) ?_
  intro entry hEntry
  rw [mem_singleton.mp hEntry]
  exact nofun

end Runner

end Cascette.Agent
