import Arbiter.Chain.Single
import Arbiter.Job.Hooks

/-!
Reactive chains: each has a trigger in the world and, when it holds, asks for the job that
answers it. A fight goes on only while a mob is near; the other jobs are seen through.
-/

namespace Arbiter

open Number

inductive Trigger where
  /-- A hazard underfoot. -/
  | hazard
  /-- A mob within the radius. -/
  | mob (radius : Nat)
  /-- As many moves in a row that went nowhere. -/
  | stuck (threshold : Nat)
  /-- Hunger from the threshold on, with food at hand. -/
  | hunger (threshold : Nat)
  deriving DecidableEq, Repr

namespace Trigger

def name : Trigger → String
  | hazard => "World Survival"
  | mob _ => "Mob Defense"
  | stuck _ => "Unstuck"
  | hunger _ => "Food"

def priority : Trigger → Binary32
  | hazard => .ofInt 100
  | mob _ => .ofInt 65
  | stuck _ => .ofInt 60
  | hunger _ => .ofInt 55

/-- Ticks for which an agent wanders to get unstuck. -/
def wanderTicks : Nat := 6

/-- Whether the trigger holds. Food is counted only when the agent is hungry enough. -/
def holds (t : Trigger) (w : World) : Except Fault Bool :=
  match t with
  | hazard => pure w.onHazard
  | mob radius => do
    let near ← w.nearestMob? radius
    pure near.isSome
  | stuck threshold => pure (threshold ≤ w.stuck)
  | hunger threshold =>
    if threshold ≤ w.hunger then do
      let food ← w.inventory.foodCount
      pure (0 < food)
    else pure false

/-- Whether a job that is held keeps the chain relevant by itself. -/
def seesThrough : Trigger → Bool
  | mob _ => false
  | _ => true

def answer? (t : Trigger) (w : World) : Except Fault (Option Job) := do
  match t with
  | hazard =>
    if w.onHazard then
      let safe ← w.nearestSafe
      pure (some (Job.gotoTarget safe))
    else pure none
  | mob radius =>
    let near ← w.nearestMob? radius
    pure (near.map fun m => Job.kill m.id)
  | stuck _ => pure (if ← t.holds w then some (Job.wanderFor wanderTicks) else none)
  | hunger _ => pure (if ← t.holds w then some Job.eatFood else none)

end Trigger

structure ReactiveChain where
  trigger : Trigger
  inner : SingleChain World Job

namespace ReactiveChain

def ofTrigger (t : Trigger) : ReactiveChain :=
  { trigger := t, inner := .ofPriority t.name t.priority }

def isRelevant (c : ReactiveChain) (w : World) : Except Fault Bool :=
  if c.trigger.seesThrough && c.inner.hasTask then pure true else c.trigger.holds w

/-- The job that the chain asks for in a tick: none while it sees one through. -/
def request? (c : ReactiveChain) (w : World) : Except Fault (Option Job) :=
  if c.trigger.seesThrough && c.inner.hasTask then pure none else c.trigger.answer? w

/-- Installs the job that it asks for, then ticks. -/
def tick (c : ReactiveChain) (trace : Trace) :
    Act World (Happening Job) (ReactiveChain × Trace) := do
  let w ← Act.get
  let inner ←
    match ← Act.ofExcept (c.request? w) with
    | none => pure c.inner
    | some job => do
      let (_, inner) ← c.inner.run job
      pure inner
  let (inner, trace) ← inner.tick trace
  pure ({ c with inner }, trace)

end ReactiveChain

end Arbiter
