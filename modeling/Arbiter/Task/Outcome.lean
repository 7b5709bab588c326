import Arbiter.Text.Format

/-! How tasks end. -/

namespace Arbiter

/-- A task that gave up, by its label, and its reason. -/
structure Failure where
  task : String
  reason : String
  deriving DecidableEq, Repr

namespace Failure

def text (f : Failure) : String := "task <" ++ f.task ++ "> failed: " ++ f.reason

def shown (f : Failure) : String :=
  Text.fields "TaskFailure" [("task", Text.quoted f.task), ("reason", Text.quoted f.reason)]

end Failure

/-- How the root task of a chain left it. -/
inductive Outcome where
  | finished
  | cancelled
  | failed (failure : Failure)
  deriving DecidableEq, Repr

namespace Outcome

def name : Outcome → String
  | finished => "finished"
  | cancelled => "cancelled"
  | failed _ => "failed"

def isFinished : Outcome → Bool
  | finished => true
  | _ => false

def isFailed : Outcome → Bool
  | failed _ => true
  | _ => false

def shown : Outcome → String
  | finished => "Finished"
  | cancelled => "Cancelled"
  | failed f => Text.wrapped "Failed" f.shown

end Outcome

end Arbiter
