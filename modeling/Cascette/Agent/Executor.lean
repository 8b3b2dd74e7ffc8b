import Cascette.Agent.Operation
import Cascette.Lib.Reach

/-!
# Executors

An executor is a tree of actions on the operation, on its product and on the task that flushes the
progress, with a branch wherever the outcome of an outside step decides. Three parties run together:
the executor, the handling of its failure by the runner, and the flush task. The flush task reads a
whole operation and later writes it back, state included.
-/

namespace Cascette.Agent

/-! ## What the executors do -/

inductive Action
  /-- `transition_to` and `registry.update`, with an early return of any error -/
  | moveProduct (target : ProductStatus)
  /-- the same without a look at errors -/
  | restoreProduct (target : ProductStatus)
  /-- `transition_to` and `queue.update`, with an early return of any error -/
  | moveOperation (target : OperationState)
  | openBridge
  | abortFlush
  /-- any other step that may return an error -/
  | external

inductive Code
  | ok
  | err
  | act (action : Action) (next : Code)
  | either (left right : Code)

namespace Executor

open Code

/-- The race of a pipeline against cancellation. The flush task is aborted on every way out. -/
def raced (onOk onErr : Code) : Code :=
  either (either (act .abortFlush onOk) (act .abortFlush onErr)) (act .abortFlush err)

def completing (next : Code) : Code :=
  act (.moveOperation .verifying) (act (.moveOperation .complete) next)

/-- A product that cannot be read is left as it is. -/
def settling (target : ProductStatus) : Code := either (act (.moveProduct target) ok) ok

def restoring (target : ProductStatus) : Code := either (act (.restoreProduct target) err) err

def downloading : Code :=
  act (.moveOperation .downloading) <| act .external <| act .openBridge <|
    raced (completing (settling .installed)) (restoring .available)

def install : Code :=
  act .external <| either (act (.moveProduct .installing) downloading) downloading

/-- The source differs from `install` in the configuration of its pipeline. -/
def backfill : Code := install

/-- There is nothing to do when the version is the latest one. The early returns between the
creation of the bridge and the race do not abort the flush task. -/
def update : Code :=
  act .external <| act (.moveProduct .updating) <| act (.moveOperation .downloading) <|
    act .external <| either (completing (settling .installed))
      (act .openBridge <| act .external <|
        raced (completing (settling .installed)) (restoring .installed))

def repair : Code :=
  act .external <| act (.moveProduct .repairing) <| act (.moveOperation .downloading) <|
    act .external <| act .openBridge <|
      raced (completing (either (settling .installed) (settling .corrupted)))
        (restoring .corrupted)

def verify : Code :=
  act .external <| act (.moveProduct .verifying) <| act (.moveOperation .downloading) <|
    act (.moveOperation .verifying) <| act .openBridge <|
      raced (act (.moveOperation .complete) (either (settling .corrupted) (settling .installed)))
        (restoring .installed)

def uninstall : Code :=
  act .external <| act (.moveProduct .uninstalling) <| act (.moveOperation .downloading) <|
    completing (settling .available)

def extract : Code :=
  act .external <| act (.moveOperation .downloading) <| act .external <| act .openBridge <|
    raced (completing ok) err

def execute : OperationType → Code
  | .install => install
  | .update => update
  | .repair => repair
  | .verify => verify
  | .uninstall => uninstall
  | .backfill => backfill
  | .extract => extract

end Executor

/-! ## Interleavings -/

inductive Control
  | spawned
  | running (code : Code)
  /-- the executor has returned an error -/
  | failing
  | ended

/-- The flush task is suspended while it waits or is paused. In between it runs, and an abort does
not stop it before it is suspended again. -/
inductive Flush
  | absent
  | waiting
  | awake
  | holding (snapshot : OperationState)
  | paused (snapshot : OperationState)
  | stopped

/-- The copy of the operation that the task owns, the state of the operation and the status of the
product in the database, and the flush task. -/
structure Execution where
  control : Control
  operation : OperationState
  stored : OperationState
  product : ProductStatus
  flush : Flush
  aborted : Bool

namespace Execution

def start (product : ProductStatus) : Execution where
  control := .spawned
  operation := .queued
  stored := .queued
  product
  flush := .absent
  aborted := false

/-- One statement of the database or one action of a task. The updates of the runner and of the
flush task may fail unnoticed. -/
inductive Step (kind : OperationType) : Execution → Execution → Prop
  | begin {s stored} (hControl : s.control = .spawned)
      (hMove : s.operation.canTransitionTo .initializing)
      (hWrite : stored = s.stored ∨ stored = .initializing) :
      Step kind s
        { s with control := .running (Executor.execute kind), operation := .initializing, stored }
  | moveProduct {s target next} (hControl : s.control = .running (.act (.moveProduct target) next))
      (hMove : s.product.canTransitionTo target) :
      Step kind s { s with control := .running next, product := target }
  | moveProductError {s target next}
      (hControl : s.control = .running (.act (.moveProduct target) next)) :
      Step kind s { s with control := .failing }
  | restoreProduct {s target next product}
      (hControl : s.control = .running (.act (.restoreProduct target) next))
      (hProduct : product = s.product ∨ product = target ∧ s.product.canTransitionTo target) :
      Step kind s { s with control := .running next, product }
  | moveOperation {s target next}
      (hControl : s.control = .running (.act (.moveOperation target) next))
      (hMove : s.operation.canTransitionTo target) :
      Step kind s { s with control := .running next, operation := target, stored := target }
  | moveOperationUnwritten {s target next}
      (hControl : s.control = .running (.act (.moveOperation target) next))
      (hMove : s.operation.canTransitionTo target) :
      Step kind s { s with control := .failing, operation := target }
  | moveOperationRefused {s target next}
      (hControl : s.control = .running (.act (.moveOperation target) next))
      (hMove : ¬ s.operation.canTransitionTo target) :
      Step kind s { s with control := .failing }
  | openBridge {s next} (hControl : s.control = .running (.act .openBridge next)) :
      Step kind s { s with control := .running next, flush := .waiting }
  | abortFlush {s next} (hControl : s.control = .running (.act .abortFlush next)) :
      Step kind s { s with control := .running next, aborted := true }
  | external {s next} (hControl : s.control = .running (.act .external next)) :
      Step kind s { s with control := .running next }
  | externalError {s next} (hControl : s.control = .running (.act .external next)) :
      Step kind s { s with control := .failing }
  | left {s left right} (hControl : s.control = .running (.either left right)) :
      Step kind s { s with control := .running left }
  | right {s left right} (hControl : s.control = .running (.either left right)) :
      Step kind s { s with control := .running right }
  | returnOk {s} (hControl : s.control = .running .ok) : Step kind s { s with control := .ended }
  | returnErr {s} (hControl : s.control = .running .err) :
      Step kind s { s with control := .failing }
  | fail {s stored} (hControl : s.control = .failing)
      (hWrite : stored = s.stored ∨ stored = s.operation.fail) :
      Step kind s { s with control := .ended, operation := s.operation.fail, stored }
  | wake {s} (hFlush : s.flush = .waiting) (hAborted : s.aborted = false) :
      Step kind s { s with flush := .awake }
  | sleep {s} (hFlush : s.flush = .awake) : Step kind s { s with flush := .waiting }
  -- the row of an extraction cannot be read
  | read {s} (hFlush : s.flush = .awake) (hKind : kind ≠ .extract) :
      Step kind s { s with flush := .holding s.stored }
  | pause {s snapshot} (hFlush : s.flush = .holding snapshot) :
      Step kind s { s with flush := .paused snapshot }
  | resume {s snapshot} (hFlush : s.flush = .paused snapshot) (hAborted : s.aborted = false) :
      Step kind s { s with flush := .holding snapshot }
  | write {s snapshot} (hFlush : s.flush = .holding snapshot) :
      Step kind s { s with stored := snapshot, flush := .awake }
  | writeError {s snapshot} (hFlush : s.flush = .holding snapshot) :
      Step kind s { s with flush := .awake }
  | stopWaiting {s} (hFlush : s.flush = .waiting) (hAborted : s.aborted = true) :
      Step kind s { s with flush := .stopped }
  | stopPaused {s snapshot} (hFlush : s.flush = .paused snapshot) (hAborted : s.aborted = true) :
      Step kind s { s with flush := .stopped }

end Execution

end Cascette.Agent
