import Cascette.Agent.Executor

/-!
# Restart after a stop

When the agent starts it puts the operations that were in flight back into the queue and rolls back
two of the busy product statuses. An operation can start again if the first product transition of
its executor is permitted from the status that is then in the database. A stop may fall between any
two steps of an execution.
-/

namespace Cascette.Agent

open Lib List
open Relation (ReflTransGen)

/-! ## The restart -/

def resetOperation : OperationState → OperationState
  | .initializing | .downloading | .verifying => .queued
  | state => state

def resetProduct : ProductStatus → ProductStatus
  | .installing => .available
  | .updating => .installed
  | status => status

namespace Code

/-- The first product transition of an executor. -/
def firstProduct : Code → Option ProductStatus
  | ok => none
  | err => none
  | act (.moveProduct target) _ => some target
  | act _ next => next.firstProduct
  | either left right => left.firstProduct.or right.firstProduct

/-- The statuses that an executor can give to the product. -/
def productTargets : Code → List ProductStatus
  | ok => []
  | err => []
  | act (.moveProduct target) next => target :: next.productTargets
  | act (.restoreProduct target) next => target :: next.productTargets
  | act _ next => next.productTargets
  | either left right => left.productTargets ++ right.productTargets

/-- Without a flush task, the product gets a status only after the operation was stored as
complete. -/
def OnlyComplete (status : ProductStatus) (state : OperationState) : Code → Prop
  | ok => True
  | err => True
  | act (.moveProduct target) next =>
    (target = status → state = .complete) ∧ next.OnlyComplete status state
  | act (.restoreProduct target) next => target ≠ status ∧ next.OnlyComplete status state
  | act (.moveOperation target) next => next.OnlyComplete status target
  | act .openBridge _ => False
  | act .abortFlush next => next.OnlyComplete status state
  | act .external next => next.OnlyComplete status state
  | either left right => left.OnlyComplete status state ∧ right.OnlyComplete status state

end Code

/-- The first product transition of the executor is permitted. -/
def canStart (kind : OperationType) (status : ProductStatus) : Bool :=
  match (Executor.execute kind).firstProduct with
  | some target => status.canTransitionTo target
  | none => true

/-- The statuses from which an operation of this type does not start again: those of its own that
are not rolled back, and those that it leaves behind when it completes. -/
def stranded : OperationType → ProductStatus → Bool
  | .repair, .repairing | .verify, .verifying | .uninstall, .uninstalling => true
  | .install, .installed | .backfill, .installed | .verify, .corrupted => true
  | _, _ => false

namespace Execution

variable {kind : OperationType} {s t : Execution} {product status : ProductStatus}

/-! ## Statuses at a stop -/

/-- The product has its first status or one that the executor gave to it. -/
structure Tracked (kind : OperationType) (product : ProductStatus) (s : Execution) : Prop where
  product : s.product ∈ product :: (Executor.execute kind).productTargets
  code : ∀ code, s.control = .running code →
    code.productTargets ⊆ (Executor.execute kind).productTargets

theorem Tracked.step (h : Tracked kind product s) (hStep : Step kind s t) :
    Tracked kind product t := by
  obtain ⟨hProduct, hCode⟩ := h
  cases hStep with
  | begin _ _ _ =>
    refine ⟨hProduct, ?_⟩
    rintro code ⟨⟩
    exact List.Subset.refl _
  | moveProduct hControl _ =>
    have hTargets := hCode _ hControl
    rw [Code.productTargets, cons_subset] at hTargets
    refine ⟨mem_cons_of_mem _ hTargets.1, ?_⟩
    rintro code ⟨⟩
    exact hTargets.2
  | restoreProduct hControl hNew =>
    have hTargets := hCode _ hControl
    rw [Code.productTargets, cons_subset] at hTargets
    constructor
    · rcases hNew with rfl | ⟨rfl, -⟩
      · exact hProduct
      · exact mem_cons_of_mem _ hTargets.1
    · rintro code ⟨⟩
      exact hTargets.2
  | left hControl =>
    have hTargets := hCode _ hControl
    rw [Code.productTargets, append_subset] at hTargets
    refine ⟨hProduct, ?_⟩
    rintro code ⟨⟩
    exact hTargets.1
  | right hControl =>
    have hTargets := hCode _ hControl
    rw [Code.productTargets, append_subset] at hTargets
    refine ⟨hProduct, ?_⟩
    rintro code ⟨⟩
    exact hTargets.2
  | moveOperation hControl _ | openBridge hControl | abortFlush hControl | external hControl =>
    have hTargets := hCode _ hControl
    refine ⟨hProduct, ?_⟩
    rintro code ⟨⟩
    exact hTargets
  | moveProductError _ | moveOperationUnwritten _ _ | moveOperationRefused _ _ | externalError _
  | returnOk _ | returnErr _ | fail _ _ => exact ⟨hProduct, nofun⟩
  | _ => exact ⟨hProduct, hCode⟩

/-- No flush task exists, and the product has the status only if the operation is stored as
complete. -/
structure Ordered (status : ProductStatus) (s : Execution) : Prop where
  flush : s.flush = .absent
  product : s.product = status → s.operation = .complete ∧ s.stored = .complete
  code : ∀ code, s.control = .running code →
    code.OnlyComplete status s.operation ∧ (s.operation = .complete → s.stored = .complete)

theorem Ordered.step (hKind : (Executor.execute kind).OnlyComplete status .initializing)
    (h : Ordered status s) (hStep : Step kind s t) : Ordered status t := by
  obtain ⟨hFlush, hProduct, hCode⟩ := h
  -- a complete operation makes no transition
  have hFixed : ∀ target, s.product = status → ¬ s.operation.canTransitionTo target := by
    intro target hStatus
    rw [(hProduct hStatus).1]
    cases target <;> exact nofun
  cases hStep with
  | begin _ hMove _ =>
    refine ⟨hFlush, fun hStatus => absurd hMove (hFixed _ hStatus), ?_⟩
    rintro code ⟨⟩
    exact ⟨hKind, nofun⟩
  | moveProduct hControl _ =>
    obtain ⟨⟨hTarget, hNext⟩, hStored⟩ := hCode _ hControl
    refine ⟨hFlush, fun hStatus => ⟨hTarget hStatus, hStored (hTarget hStatus)⟩, ?_⟩
    rintro code ⟨⟩
    exact ⟨hNext, hStored⟩
  | restoreProduct hControl hNew =>
    obtain ⟨⟨hTarget, hNext⟩, hStored⟩ := hCode _ hControl
    constructor
    · exact hFlush
    · rcases hNew with rfl | ⟨rfl, -⟩
      · exact hProduct
      · exact fun hStatus => absurd hStatus hTarget
    · rintro code ⟨⟩
      exact ⟨hNext, hStored⟩
  | moveOperation hControl hMove =>
    obtain ⟨hNext, -⟩ := hCode _ hControl
    refine ⟨hFlush, fun hStatus => absurd hMove (hFixed _ hStatus), ?_⟩
    rintro code ⟨⟩
    exact ⟨hNext, id⟩
  | moveOperationUnwritten _ hMove =>
    exact ⟨hFlush, fun hStatus => absurd hMove (hFixed _ hStatus), nofun⟩
  | openBridge hControl => exact (hCode _ hControl).1.elim
  | abortFlush hControl | external hControl =>
    have hNext := hCode _ hControl
    refine ⟨hFlush, hProduct, ?_⟩
    rintro code ⟨⟩
    exact hNext
  | left hControl =>
    obtain ⟨⟨hLeft, -⟩, hStored⟩ := hCode _ hControl
    refine ⟨hFlush, hProduct, ?_⟩
    rintro code ⟨⟩
    exact ⟨hLeft, hStored⟩
  | right hControl =>
    obtain ⟨⟨-, hRight⟩, hStored⟩ := hCode _ hControl
    refine ⟨hFlush, hProduct, ?_⟩
    rintro code ⟨⟩
    exact ⟨hRight, hStored⟩
  | moveProductError _ | moveOperationRefused _ _ | externalError _ | returnOk _ | returnErr _ =>
    exact ⟨hFlush, hProduct, nofun⟩
  | fail _ hWrite =>
    refine ⟨hFlush, fun hStatus => ?_, nofun⟩
    obtain ⟨hOperation, hStored⟩ := hProduct hStatus
    have hFail : s.operation.fail = .complete := by
      rw [hOperation]
      rfl
    refine ⟨hFail, ?_⟩
    rcases hWrite with rfl | rfl
    · exact hStored
    · exact hFail
  | wake hSame _ | sleep hSame | read hSame _ | pause hSame | resume hSame _ | write hSame
  | writeError hSame | stopWaiting hSame _ | stopPaused hSame _ =>
    rw [hFlush] at hSame
    cases hSame

/-! ## Starting again -/

/-- An uninstallation makes its product available after it was stored as complete. -/
theorem stored_of_uninstall (hStart : canStart .uninstall product)
    (hRun : ReflTransGen (Step .uninstall) (start product) s) (hProduct : s.product = .available) :
    s.stored = .complete := by
  have hCode : (Executor.execute .uninstall).OnlyComplete .available .initializing := by
    simp [Executor.execute, Executor.uninstall, Executor.completing, Executor.settling,
      Code.OnlyComplete]
  have hOrdered : Ordered .available s := by
    refine run_keeps (fun _ _ h hStep => h.step hCode hStep) hRun ⟨rfl, ?_, nofun⟩
    rintro rfl
    cases hStart
  exact (hOrdered.product hProduct).2

/-- Both tables at once: the statuses that a stop can leave, and those that are permitted. -/
theorem canStart_resetProduct_iff (hStart : canStart kind product)
    (hProduct : status ∈ product :: (Executor.execute kind).productTargets)
    (hUninstall : kind = .uninstall → status ≠ .available) :
    canStart kind (resetProduct status) ↔ ¬ stranded kind status := by
  revert hStart hProduct hUninstall
  cases kind <;> cases product <;> cases status <;> decide

/-- An operation that is put back into the queue after a stop can start again exactly if its product
is not stranded. -/
theorem canStart_reset_iff (hStart : canStart kind product)
    (hRun : ReflTransGen (Step kind) (start product) s)
    (hQueued : resetOperation s.stored = .queued) :
    canStart kind (resetProduct s.product) ↔ ¬ stranded kind s.product := by
  have hTracked : Tracked kind product s :=
    run_keeps (fun _ _ h hStep => h.step hStep) hRun ⟨mem_cons_self, nofun⟩
  refine canStart_resetProduct_iff hStart hTracked.product ?_
  rintro rfl hAvailable
  rw [stored_of_uninstall hStart hRun hAvailable] at hQueued
  cases hQueued

/-- The product of an installation has just become busy. -/
def installing : Execution where
  control := .running Executor.downloading
  operation := .initializing
  stored := .initializing
  product := .installing
  flush := .absent
  aborted := false

theorem canStart_reset_sample :
    canStart .install .available ∧ canStart .install (resetProduct installing.product) := by
  refine ⟨rfl, ?_⟩
  have hRun : ReflTransGen (Step .install) (start .available) installing := by
    refine .head (.begin rfl rfl (.inr rfl)) ?_
    refine .head (.external rfl) ?_
    refine .head (.left rfl) ?_
    exact .single (.moveProduct rfl rfl)
  exact (canStart_reset_iff rfl hRun rfl).mpr nofun

/-- A repair that was stopped after its product became busy is put back into the queue and is
refused then. -/
theorem canStart_reset_refuted :
    canStart .repair .installed ∧
    ∃ s, ReflTransGen (Step .repair) (start .installed) s ∧
      resetOperation s.stored = .queued ∧ ¬ canStart .repair (resetProduct s.product) := by
  have hBegin := ReflTransGen.single (.begin rfl rfl (.inr rfl) : Step .repair (start .installed) _)
  have hRun := (hBegin.tail (.external rfl)).tail (.moveProduct rfl rfl)
  exact ⟨rfl, _, hRun, rfl, nofun⟩

end Execution

end Cascette.Agent
