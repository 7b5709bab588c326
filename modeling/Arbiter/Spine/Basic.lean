import Arbiter.Task.Basic
import Arbiter.Status.Report

/-!
Nodes and spines. A node is a task with the state of its life: not started, started, suspended
or stopped. A spine is a root node with the nodes held below it, each by the one before.
-/

namespace Arbiter

/-- A task with its state of life. -/
structure Node (τ : Type) where
  task : τ
  control : Control := {}
  /-- The state text that was reported last. -/
  reportedState : String := ""
  /-- The activation has not called the start hook yet. -/
  pending : Bool := true
  /-- The last activation was ended by a stop. -/
  stopped : Bool := false
  active : Bool := false
  /-- The reason of the last failure, until the next start. -/
  failure : Option String := none
  deriving DecidableEq

namespace Node

variable {κ τ : Type} [Task κ τ]

def fresh (t : τ) : Node τ := { task := t }

def label (n : Node τ) : String := "<" ++ Task.label n.task ++ "> " ++ n.control.state

def failureReport (n : Node τ) : Option Failure :=
  n.failure.map fun reason => { task := Task.label n.task, reason }

/-- Forgets the activation and the failure; runs no hook. -/
def reset (n : Node τ) : Node τ :=
  { n with pending := true, active := false, stopped := false, failure := none }

def isFinished (n : Node τ) (k : κ) : Except Fault Bool := Task.isFinished n.task k

/-- Whether the task refuses to make room for the candidate. -/
def refuses (n : Node τ) (k : κ) (candidate : Option τ) : Bool :=
  match Task.veto? n.task with
  | none => false
  | some veto => veto k candidate

end Node

/-- A root node and the nodes held below it, from the top down. -/
structure Spine (τ : Type) where
  root : Node τ
  below : List (Node τ) := []
  deriving DecidableEq

namespace Spine

variable {κ τ : Type} [Task κ τ]

def ofTask (t : τ) : Spine τ := { root := Node.fresh t }

def nodes (s : Spine τ) : List (Node τ) := s.root :: s.below

def anyTask (s : Spine τ) (p : τ → Bool) : Bool := s.nodes.any fun n => p n.task

def reset (s : Spine τ) : Spine τ := { s with root := s.root.reset }

/-- The nodes written one within the other. -/
def shownNodes : List (Node τ) → String
  | [] => "None"
  | n :: rest =>
    Text.wrapped "Some" (shown n (shownNodes rest))
where
  shown (n : Node τ) (sub : String) : String :=
    Text.fields "TaskNode"
      [("task", Text.quoted (Task.label n.task)),
       ("debug_state", Text.quoted n.control.state),
       ("active", toString n.active),
       ("stopped", toString n.stopped),
       ("sub", sub)]

def shown (s : Spine τ) : String := shownNodes.shown s.root (shownNodes s.below)

end Spine

/-- The record of one tick: the labels of the ticked nodes and the state changes, both latest
first. -/
structure Trace where
  labels : List String := []
  latestChanges : List StateChange := []
  deriving DecidableEq, Repr

namespace Trace

def spine (t : Trace) : List String := t.labels.reverse

def changes (t : Trace) : List StateChange := t.latestChanges.reverse

def enter (t : Trace) (label : String) : Trace := { t with labels := label :: t.labels }

/-- Replaces the label of the node that was entered last. -/
def relabel (t : Trace) (label : String) : Trace := { t with labels := label :: t.labels.tail }

def change (t : Trace) (c : StateChange) : Trace :=
  { t with latestChanges := c :: t.latestChanges }

theorem spine_enter (t : Trace) (label : String) : (t.enter label).spine = t.spine ++ [label] := by
  simp [spine, enter]

theorem spine_relabel_enter (t : Trace) (old new : String) :
    ((t.enter old).relabel new).spine = t.spine ++ [new] := by
  simp [spine, enter, relabel]

theorem changes_change (t : Trace) (c : StateChange) :
    (t.change c).changes = t.changes ++ [c] := by
  simp [changes, change]

end Trace

end Arbiter
