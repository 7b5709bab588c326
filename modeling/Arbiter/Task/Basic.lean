import Arbiter.Act
import Arbiter.Journal
import Arbiter.Task.Outcome

/-!
Tasks: values with hooks that a node calls in the course of a run. A hook acts on the context
and tells its node the rest by a reply, so it can set the state text, ask to fail and take the
failure of its sub-task, and nothing else.
-/

namespace Arbiter

/-- What a node holds for its task: the state text, and the failure of the last sub-task that
failed, until the task takes it. -/
structure Control where
  state : String := ""
  childFailure : Option Failure := none
  deriving DecidableEq, Repr

structure Reply where
  /-- The state text from now on. -/
  state : String
  /-- The reason to fail, if the task gives up. -/
  failure : Option String := none
  /-- Whether the hook took the failure of the sub-task. -/
  tookChildFailure : Bool := false
  deriving DecidableEq, Repr

namespace Control

def unchanged (c : Control) : Reply := { state := c.state }

def apply (c : Control) (r : Reply) : Control :=
  { state := r.state
    childFailure := if r.tookChildFailure then none else c.childFailure }

end Control

/-- The result of one step of work: the task as it is now, its reply, and the sub-task that it
delegates to. -/
structure Turn (τ : Type) where
  task : τ
  reply : Reply
  candidate : Option τ := none

/-- The hooks of tasks `τ` over a context `κ`. -/
class Task (κ : outParam Type) (τ : Type) where
  /-- Called before the first step of an activation. -/
  onStart : τ → Control → Act κ Record (τ × Reply)
  /-- One step of work. -/
  onTick : τ → Control → Act κ Record (Turn τ)
  /-- Called at the end of an activation, with the task that takes over, if there is one. -/
  onStop : τ → Option τ → Act κ Record τ
  isFinished : τ → κ → Except Fault Bool
  /-- Whether the first task takes the second for the same unit of work. -/
  isEqual : τ → τ → Bool
  label : τ → String
  /-- The veto of a task against being replaced by a candidate, or dropped for none. -/
  veto? : τ → Option (κ → Option τ → Bool)

end Arbiter
