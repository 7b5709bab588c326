import Arbiter.Chain.Single
import Arbiter.Job.Hooks

/-!
The chain of user tasks. A request may carry a callback, which is answered once, with the outcome
of the task, when the task leaves the chain. If wanted, an idle task follows a task that ended.
-/

namespace Arbiter

open Number

/-- Who is to be told how a task ended. -/
inductive Callback where
  | tagged (tag : String)
  /-- An errand to a target, asked for at a tick, whose end is written to the log. -/
  | errand (target : Position) (started : Nat)
  deriving DecidableEq, Repr

def Callback.notes (c : Callback) (o : Outcome) : List Record :=
  match c with
  | tagged _ => []
  | errand target started =>
    [⟨.info, "errand done",
      [("target", target.text), ("started", toString started), ("outcome", o.shown)]⟩]

/-- Tasks with one that does nothing. -/
class Idle (τ : Type) where
  idle : τ

instance : Idle Job := ⟨.idle⟩

structure UserChain (τ : Type) where
  inner : SingleChain World τ
  /-- The callback of the task that is held. -/
  callback : Option Callback := none
  /-- The tick at which the task was installed. -/
  startedAt : Nat := 0
  /-- The task that is held is the idle one. -/
  runningIdle : Bool := false
  /-- The next task to be installed is the idle one. -/
  nextIsIdle : Bool := false
  idleWhenInactive : Bool
  /-- The callbacks that were answered, in order. -/
  answered : List (Callback × Outcome) := []

namespace UserChain

variable {τ : Type} [Task World τ] [Idle τ]

def name : String := "User Tasks"

def priority : Binary32 := .ofInt 50

def ofIdle (idleWhenInactive : Bool) : UserChain τ :=
  { inner := .ofPriority name priority, idleWhenInactive }

def hasTask (c : UserChain τ) : Bool := c.inner.hasTask

def isRunningIdle (c : UserChain τ) : Bool := c.runningIdle && c.hasTask

/-- The label of the user's task; none while the idle one runs. -/
def taskLabel (c : UserChain τ) : Option String :=
  if c.runningIdle then none else c.inner.spine.map fun s => Task.label s.root.task

def signalIdle (c : UserChain τ) : UserChain τ := { c with nextIsIdle := true }

/-- Answers the callback that is pending, if any. -/
def answer (c : UserChain τ) (o : Outcome) : Act World (Happening τ) (UserChain τ) :=
  match c.callback with
  | none => pure c
  | some callback => do
    Act.tellAll ((callback.notes o).map .noted)
    pure { c with callback := none, answered := c.answered ++ [(callback, o)] }

/-- Installs a task unless an equal one is held; a callback that comes with a refused task is
forgotten. The callback of a replaced task is answered with its cancellation. -/
def run (c : UserChain τ) (t : τ) (callback : Option Callback) :
    Act World (Happening τ) (Bool × UserChain τ) := do
  let (accepted, inner) ← c.inner.run t
  if accepted then
    let idle := c.nextIsIdle
    let (_, inner) := inner.takeOutcome
    let c ← ({ c with inner, nextIsIdle := false } : UserChain τ).answer .cancelled
    let w ← Act.get
    if !idle then
      Act.note .info "user task started" [("task", Task.label t), ("tick", toString w.tick)]
    pure (true, { c with callback, startedAt := w.tick, runningIdle := idle })
  else pure (false, { c with inner })

def conclude (c : UserChain τ) (o : Outcome) : Act World (Happening τ) (UserChain τ) := do
  let queueIdle := c.idleWhenInactive && !c.runningIdle && o != .cancelled
  let c ← c.answer o
  let c := { c with runningIdle := false }
  if queueIdle then
    let (_, c) ← c.signalIdle.run Idle.idle none
    pure c
  else pure c

def complete (c : UserChain τ) (o : Outcome) : Act World (Happening τ) (UserChain τ) := do
  let w ← Act.get
  if !c.runningIdle then
    Act.note .info "user task finished"
      [("ticks", toString (w.tick - c.startedAt)), ("outcome", o.shown)]
  c.conclude o

def cancel (c : UserChain τ) : Act World (Happening τ) (Bool × UserChain τ) := do
  let (cancelled, inner) ← c.inner.cancel
  if cancelled then
    let (outcome, inner) := inner.takeOutcome
    let c ← ({ c with inner } : UserChain τ).complete (outcome.getD .cancelled)
    pure (true, c)
  else pure (false, { c with inner })

def tick (c : UserChain τ) (trace : Trace) : Act World (Happening τ) (UserChain τ × Trace) := do
  let (inner, trace) ← c.inner.tick trace
  match inner.outcome with
  | none => pure ({ c with inner }, trace)
  | some outcome =>
    let c ← ({ c with inner := { inner with outcome := none } } : UserChain τ).complete outcome
    pure (c, trace)

instance : Chain World τ (UserChain τ) where
  name _ := name
  isRelevant c w := Chain.isRelevant c.inner w
  priority _ _ := priority
  spine? c := c.inner.spine
  mapSpine c f := { c with inner := Chain.mapSpine c.inner f }
  tick := tick

end UserChain

end Arbiter
