import Cascette.Agent.Executor

/-!
# Terminal states under progress flushes

A terminal state that the executor or the runner has stored can be replaced by one party only: a
flush task that read the operation before. It holds what it read until it writes, and an abort
reaches it only while it is suspended.
-/

namespace Cascette.Agent.Execution

open Lib
open Relation (ReflTransGen)

/-- The state that the flush task has read last and not written yet. -/
def snapshot (s : Execution) : Option OperationState :=
  match s.flush with
  | .holding snapshot | .paused snapshot => some snapshot
  | _ => none

/-- The state that the flush task can still write. -/
def pendingWrite (s : Execution) : Option OperationState :=
  match s.flush with
  | .holding snapshot => some snapshot
  | .paused snapshot => if s.aborted then none else some snapshot
  | _ => none

variable {kind : OperationType} {s t : Execution} {state : OperationState}

/-! ## What a step does -/

variable (h : Step kind s t)
include h

theorem Step.operation_cases :
    t.operation = s.operation ∨ s.operation.canTransitionTo t.operation := by
  cases h with
  | begin _ hMove _ | moveOperation _ hMove | moveOperationUnwritten _ hMove => exact .inr hMove
  | @fail stored _ _ =>
    by_cases hMove : s.operation.canTransitionTo .failed
    · right
      rw [OperationState.fail, if_pos hMove]
      exact hMove
    · left
      exact if_neg hMove
  | _ => exact .inl rfl

theorem Step.stored_cases :
    t.stored = s.stored ∨ t.stored = t.operation ∨ s.pendingWrite = some t.stored := by
  cases h with
  | begin _ _ hWrite => exact hWrite.imp id .inl
  | moveOperation _ _ => exact .inr (.inl rfl)
  | fail _ hWrite => exact hWrite.imp id .inl
  | write hFlush => exact .inr (.inr (by rw [pendingWrite, hFlush]))
  | _ => exact .inl rfl

theorem Step.snapshot_cases :
    t.snapshot = none ∨ t.snapshot = s.snapshot ∨ t.snapshot = some s.stored := by
  cases h with
  | openBridge _ | wake _ _ | sleep _ => exact .inl rfl
  | read _ _ => exact .inr (.inr rfl)
  | pause hFlush | resume hFlush _ => exact .inr (.inl (by simp only [snapshot, hFlush]))
  | write _ | writeError _ | stopWaiting _ _ | stopPaused _ _ => exact .inl rfl
  | _ => exact .inr (.inl rfl)

theorem Step.pendingWrite_cases :
    t.pendingWrite = none ∨ t.pendingWrite = s.pendingWrite ∨ t.pendingWrite = some s.stored := by
  cases h with
  | openBridge _ => exact .inl rfl
  | @abortFlush next _ =>
    cases hFlush : s.flush with
    | holding snapshot => exact .inr (.inl (by simp only [pendingWrite, hFlush]))
    | _ => exact .inl (by simp only [pendingWrite, if_true])
  | wake _ _ | sleep _ => exact .inl rfl
  | read _ _ => exact .inr (.inr rfl)
  | pause hFlush =>
    cases hAborted : s.aborted with
    | true => exact .inl (by simp only [pendingWrite, if_true])
    | false => exact .inr (.inl (by simp only [pendingWrite, hFlush, Bool.false_eq_true, if_false]))
  | resume hFlush hAborted =>
    exact .inr (.inl (by simp only [pendingWrite, hFlush, hAborted, Bool.false_eq_true, if_false]))
  | write _ | writeError _ | stopWaiting _ _ | stopPaused _ _ => exact .inl rfl
  | _ => exact .inr (.inl rfl)

theorem Step.operation_of_isTerminal (hTerminal : s.operation.isTerminal) :
    t.operation = s.operation := by
  rcases h.operation_cases with hSame | hMove
  · exact hSame
  · rw [OperationState.not_canTransitionTo hTerminal] at hMove
    cases hMove

omit h

theorem snapshot_of_pendingWrite (h : s.pendingWrite = some state) : s.snapshot = some state := by
  unfold pendingWrite at h
  unfold snapshot
  cases hFlush : s.flush with
  | holding snapshot => simpa only [hFlush] using h
  | paused snapshot =>
    rw [hFlush] at h
    dsimp only at h
    split at h
    · cases h
    · exact h
  | _ => simp [hFlush] at h

/-! ## Terminal states come from the executor -/

/-- A terminal state that is stored or was read is the state of the task's copy. -/
structure Settled (s : Execution) : Prop where
  stored : s.stored.isTerminal → s.operation = s.stored
  snapshot : ∀ state, s.snapshot = some state → state.isTerminal → s.operation = state

theorem Settled.step (h : s.Settled) (hStep : Step kind s t) : t.Settled := by
  have hKept : ∀ state : OperationState, state.isTerminal → s.operation = state →
      t.operation = state := by
    rintro state hTerminal rfl
    exact hStep.operation_of_isTerminal hTerminal
  constructor
  · intro hTerminal
    rcases hStep.stored_cases with hSame | hOwn | hFlush
    · rw [hSame] at hTerminal ⊢
      exact hKept _ hTerminal (h.stored hTerminal)
    · exact hOwn.symm
    · exact hKept _ hTerminal (h.snapshot _ (snapshot_of_pendingWrite hFlush) hTerminal)
  · intro state hState hTerminal
    rcases hStep.snapshot_cases with hNone | hSame | hRead
    · rw [hNone] at hState
      cases hState
    · exact hKept state hTerminal (h.snapshot state (hSame ▸ hState) hTerminal)
    · rw [hRead] at hState
      cases hState
      exact hKept _ hTerminal (h.stored hTerminal)

/-! ## When a terminal state stays -/

/-- A terminal state is stored, and the flush task can write nothing else. -/
structure Final (s : Execution) : Prop where
  settled : s.Settled
  terminal : s.stored.isTerminal
  pendingWrite : ∀ state, s.pendingWrite = some state → state = s.stored

theorem Final.stored_eq (h : s.Final) (hStep : Step kind s t) : t.stored = s.stored := by
  rcases hStep.stored_cases with hSame | hOwn | hFlush
  · exact hSame
  · have hOperation : s.operation = s.stored := h.settled.stored h.terminal
    rw [hOwn, hStep.operation_of_isTerminal (hOperation ▸ h.terminal), hOperation]
  · exact h.pendingWrite _ hFlush

theorem Final.step (h : s.Final) (hStep : Step kind s t) : t.Final := by
  have hStored := h.stored_eq hStep
  refine ⟨h.settled.step hStep, hStored ▸ h.terminal, ?_⟩
  intro state hState
  rw [hStored]
  rcases hStep.pendingWrite_cases with hNone | hSame | hRead
  · rw [hNone] at hState
    cases hState
  · exact h.pendingWrite state (hSame ▸ hState)
  · rw [hRead] at hState
    exact (Option.some.inj hState).symm

theorem exists_write (kind : OperationType) (h : s.pendingWrite = some state) :
    ∃ t, ReflTransGen (Step kind) s t ∧ t.stored = state := by
  unfold pendingWrite at h
  cases hFlush : s.flush with
  | holding snapshot =>
    rw [hFlush] at h
    cases h
    exact ⟨_, .single (.write hFlush), rfl⟩
  | paused snapshot =>
    rw [hFlush] at h
    cases hAborted : s.aborted with
    | true => rw [hAborted] at h; cases h
    | false =>
      rw [hAborted] at h
      cases h
      exact ⟨_, .head (.resume hFlush hAborted) (.single (.write rfl)), rfl⟩
  | _ => simp [hFlush] at h

/-- Once the stored operation is complete, failed or cancelled it stays so, whatever the schedule,
exactly if the flush task holds no other state that it can still write. -/
theorem stored_stable_iff {product : ProductStatus}
    (hRun : ReflTransGen (Step kind) (start product) s) (hTerminal : s.stored.isTerminal) :
    (∀ t, ReflTransGen (Step kind) s t → t.stored = s.stored) ↔
      ∀ state, s.pendingWrite = some state → state = s.stored := by
  constructor
  · intro hStable state hState
    obtain ⟨t, hWrite, hStored⟩ := exists_write kind hState
    rw [← hStored]
    exact hStable t hWrite
  · intro hPending t hRest
    have hFinal : s.Final := ⟨run_keeps (fun _ _ => Settled.step) hRun ⟨nofun, nofun⟩,
      hTerminal, hPending⟩
    exact run_const (P := Final) (fun _ _ h hStep => h.step hStep)
      (fun _ _ h hStep => h.stored_eq hStep) hRest hFinal

/-! ## A repair and its flush task -/

/-- The pipeline of a repair runs. -/
def repairing (flush : Flush) : Execution where
  control := .running (Executor.raced
    (Executor.completing (.either (Executor.settling .installed) (Executor.settling .corrupted)))
    (Executor.restoring .corrupted))
  operation := .downloading
  stored := .downloading
  product := .repairing
  flush
  aborted := false

/-- The repair has been stored as complete. -/
def repaired (flush : Flush) : Execution where
  control := .running (.either (Executor.settling .installed) (Executor.settling .corrupted))
  operation := .complete
  stored := .complete
  product := .repairing
  flush
  aborted := true

theorem reachable_repairing :
    ReflTransGen (Step .repair) (start .installed) (repairing .waiting) := by
  refine .head (.begin rfl rfl (.inr rfl)) ?_
  refine .head (.external rfl) ?_
  refine .head (.moveProduct rfl rfl) ?_
  refine .head (.moveOperation rfl rfl) ?_
  refine .head (.external rfl) ?_
  exact .single (.openBridge rfl)

theorem repaired_of_repairing (flush : Flush) :
    ReflTransGen (Step .repair) (repairing flush) (repaired flush) := by
  refine .head (.left rfl) ?_
  refine .head (.left rfl) ?_
  refine .head (.abortFlush rfl) ?_
  refine .head (.moveOperation rfl rfl) ?_
  exact .single (.moveOperation rfl rfl)

theorem stored_stable_sample :
    ReflTransGen (Step .repair) (start .installed) (repaired .waiting) ∧
      ∀ t, ReflTransGen (Step .repair) (repaired .waiting) t → t.stored = .complete :=
  have hRun := reachable_repairing.trans (repaired_of_repairing .waiting)
  ⟨hRun, (stored_stable_iff hRun rfl).mpr nofun⟩

/-- The flush task reads the operation before the pipeline ends and writes it back after the repair
has been stored as complete. -/
theorem stored_stable_refuted :
    ∃ s t, ReflTransGen (Step .repair) (start .installed) s ∧ s.stored = .complete ∧
      ReflTransGen (Step .repair) s t ∧ t.stored = .downloading := by
  refine ⟨repaired (.holding .downloading), _, ?_, rfl, .single (.write rfl), rfl⟩
  refine reachable_repairing.trans ?_
  refine .head (.wake rfl rfl) ?_
  refine .head (.read rfl nofun) ?_
  exact repaired_of_repairing (.holding .downloading)

end Cascette.Agent.Execution
