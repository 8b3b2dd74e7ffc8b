import Mathlib.Tactic

/-!
# Operations and products

An operation is a background task for one product. It moves through the states of its own state
machine, and while it runs it moves the product through another one. Both machines are tables of
permitted transitions. The texts are those that the database holds.
-/

namespace Cascette.Agent

inductive OperationType
  | install
  | update
  | repair
  | verify
  | uninstall
  | backfill
  | extract
  deriving DecidableEq, Repr

def OperationType.fmt : OperationType → String
  | .install => "install"
  | .update => "update"
  | .repair => "repair"
  | .verify => "verify"
  | .uninstall => "uninstall"
  | .backfill => "backfill"
  | .extract => "extract"

inductive OperationState
  | queued
  | initializing
  | downloading
  | verifying
  | complete
  | failed
  | cancelled
  deriving DecidableEq, Repr

namespace OperationState

def fmt : OperationState → String
  | queued => "queued"
  | initializing => "initializing"
  | downloading => "downloading"
  | verifying => "verifying"
  | complete => "complete"
  | failed => "failed"
  | cancelled => "cancelled"

def canTransitionTo : OperationState → OperationState → Bool
  | queued, initializing | queued, cancelled => true
  | initializing, downloading | verifying, downloading => true
  | downloading, verifying | downloading, queued | downloading, cancelled
  | downloading, failed => true
  | verifying, complete | verifying, queued | verifying, cancelled | verifying, failed => true
  | initializing, queued | initializing, cancelled | initializing, failed => true
  | _, _ => false

/-- The state after a failure: it changes only if it may. -/
def fail (s : OperationState) : OperationState := if s.canTransitionTo failed then failed else s

def isTerminal : OperationState → Bool
  | complete | failed | cancelled => true
  | _ => false

variable {s : OperationState}

theorem not_canTransitionTo (h : s.isTerminal = true) (target : OperationState) :
    s.canTransitionTo target = false := by
  cases s <;> cases target <;> first | rfl | cases h

theorem fmt_inj {t : OperationState} (h : s.fmt = t.fmt) : s = t := by
  cases s <;> cases t <;> first | rfl | exact absurd h (by decide)

end OperationState

inductive Priority
  | low
  | normal
  | high
  deriving DecidableEq, Repr

def Priority.fmt : Priority → String
  | .low => "low"
  | .normal => "normal"
  | .high => "high"

inductive ProductStatus
  | available
  | installing
  | installed
  | updating
  | repairing
  | verifying
  | uninstalling
  | corrupted
  deriving DecidableEq, Repr

namespace ProductStatus

def canTransitionTo : ProductStatus → ProductStatus → Bool
  | available, installing => true
  | installing, installed | updating, installed | repairing, installed | verifying, installed
  | uninstalling, installed => true
  | installing, available | uninstalling, available => true
  | installed, updating | installed, repairing | installed, verifying
  | installed, uninstalling => true
  | verifying, corrupted | repairing, corrupted => true
  | corrupted, repairing | corrupted, uninstalling => true
  | _, _ => false

end ProductStatus

inductive AgentError
  | database
  | json (message : String)
  | invalidTransition (source target : String)
  | operationNotFound (operationId : String)
  | activeOperationExists (product operationType : String)
  | schema (message : String)
  deriving DecidableEq, Repr

/-- An operation with identifiers in `Id` and times in `Time`. Its parameters, metadata, progress
and error details are values that are kept as JSON. -/
structure Operation (Id Value Time : Type) where
  operationId : Id
  productCode : String
  operationType : OperationType
  state : OperationState
  priority : Priority
  parameters : Option Value
  metadata : Option Value
  progress : Option Value
  error : Option Value
  createdAt : Time
  updatedAt : Time
  startedAt : Option Time
  completedAt : Option Time

end Cascette.Agent
