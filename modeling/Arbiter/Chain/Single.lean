import Arbiter.Chain.Basic

/-! A chain that runs one root task at a time and keeps how the last one ended. -/

namespace Arbiter

open Number

structure SingleChain (κ τ : Type) where
  name : String
  priority : κ → Binary32
  relevance : κ → Bool := fun _ => true
  spine : Option (Spine τ) := none
  /-- How the last root ended, until it is taken or a new root is installed. -/
  outcome : Option Outcome := none

namespace SingleChain

variable {κ τ : Type} [Task κ τ]

/-- A chain of fixed priority that is relevant while it holds a task. -/
def ofPriority (name : String) (priority : Binary32) : SingleChain κ τ :=
  { name, priority := fun _ => priority }

def hasTask (c : SingleChain κ τ) : Bool := c.spine.isSome

/-- Whether the request is for the unit of work that the root already does. -/
def isServing (c : SingleChain κ τ) (t : τ) : Bool :=
  match c.spine with
  | none => false
  | some s => Task.isEqual t s.root.task

def vacate (c : SingleChain κ τ) (taker : Option τ) : Act κ (Happening τ) Unit :=
  match c.spine with
  | none => pure ()
  | some s => Spine.stopAndDrop taker s.nodes

/-- Installs a task as the root unless the root already serves it; tells whether it did. -/
def run (c : SingleChain κ τ) (t : τ) : Act κ (Happening τ) (Bool × SingleChain κ τ) :=
  if c.isServing t then pure (false, c)
  else do
    c.vacate (some t)
    Act.note .debug "chain task set" [("chain", c.name), ("task", Task.label t)]
    pure (true, { c with spine := some (Spine.ofTask t), outcome := none })

def finish (c : SingleChain κ τ) (s : Spine τ) (outcome : Outcome) :
    Act κ (Happening τ) (SingleChain κ τ) := do
  Act.note .info "chain task ended"
    [("chain", c.name), ("task", s.root.label), ("outcome", outcome.shown)]
  Spine.dropAll s.nodes
  pure { c with spine := none, outcome := some outcome }

def cancel (c : SingleChain κ τ) : Act κ (Happening τ) (Bool × SingleChain κ τ) :=
  match c.spine with
  | none => pure (false, c)
  | some s => do
    let s ← s.stop none
    Act.note .info "chain task cancelled" [("chain", c.name), ("task", s.root.label)]
    Spine.dropAll s.nodes
    pure (true, { c with spine := none, outcome := some .cancelled })

def takeOutcome (c : SingleChain κ τ) : Option Outcome × SingleChain κ τ :=
  (c.outcome, { c with outcome := none })

/-- Ends a root that failed or is finished; ticks any other root, which may fail in the tick. -/
def tick (c : SingleChain κ τ) (trace : Trace) :
    Act κ (Happening τ) (SingleChain κ τ × Trace) :=
  match c.spine with
  | none => pure (c, trace)
  | some s =>
    match s.root.failureReport with
    | some failure => do
      let c ← c.finish s (.failed failure)
      pure (c, trace)
    | none => do
      let k ← Act.get
      let done ← Act.ofExcept (s.root.isFinished k)
      if done then
        let s ← s.stop none
        let c ← c.finish s .finished
        pure (c, trace)
      else
        let (s, trace) ← s.tick trace
        match s.root.failureReport with
        | some failure =>
          let c ← c.finish s (.failed failure)
          pure (c, trace)
        | none => pure ({ c with spine := some s }, trace)

instance : Chain κ τ (SingleChain κ τ) where
  name c := c.name
  isRelevant c k := .ok (c.hasTask && c.relevance k)
  priority c k := c.priority k
  spine? c := c.spine
  mapSpine c f := { c with spine := c.spine.map f }
  tick := tick

end SingleChain

end Arbiter
