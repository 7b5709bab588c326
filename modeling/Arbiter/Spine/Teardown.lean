import Arbiter.Spine.Basic
import Arbiter.Task.Happening

/-!
Ending the activations of a spine, from the root down: a stop drops what is held below, a
suspension keeps it.
-/

namespace Arbiter.Spine

variable {κ τ : Type} [Task κ τ]

def takerText (taker : Option τ) : String :=
  Text.optional (taker.map fun t => Text.quoted (Task.label t))

def leave (taker : Option τ) (n : Node τ) : Act κ (Happening τ) (Node τ) :=
  if n.pending then pure n
  else do
    let task ← Act.call (.stopped n.task taker) (Task.onStop n.task taker)
    pure { n with task }

/-- Ends the activation of one node by a stop. -/
def halt (taker : Option τ) (n : Node τ) : Act κ (Happening τ) (Node τ) := do
  Act.note .debug "task stop" [("task", n.label), ("interrupted_by", takerText taker)]
  leave taker n

def pause (taker : Option τ) (n : Node τ) : Act κ (Happening τ) (Node τ) := do
  Act.note .debug "task interrupt" [("task", n.label)]
  let n ← leave taker n
  pure { n with pending := true }

def dropAll (nodes : List (Node τ)) : Act κ (Happening τ) Unit :=
  Act.tellAll (nodes.map fun n => .dropped n.task)

/-- Stops nodes from the top down. The first inactive one and those below it are dropped at once,
without a stop. The result holds the stopped nodes, the lowest first, before `above`. -/
def haltAll (taker : Option τ) (above : List (Node τ)) :
    List (Node τ) → Act κ (Happening τ) (List (Node τ))
  | [] => pure above
  | n :: rest =>
    if n.active then do
      let n ← halt taker n
      haltAll taker (n :: above) rest
    else do
      dropAll (n :: rest)
      pure above

def stopAndDrop (taker : Option τ) (nodes : List (Node τ)) : Act κ (Happening τ) Unit := do
  let halted ← haltAll taker [] nodes
  dropAll halted

/-- Stops the spine and drops what is held below the root. Nothing happens to an inactive one. -/
def stop (taker : Option τ) (s : Spine τ) : Act κ (Happening τ) (Spine τ) :=
  if s.root.active then do
    let n ← halt taker s.root
    stopAndDrop taker s.below
    pure { root := { n with pending := true, active := false, stopped := true } }
  else pure s

/-- Suspends nodes from the top down, up to one that is stopped or inactive. -/
def suspendBelow (taker : Option τ) : List (Node τ) → Act κ (Happening τ) (List (Node τ))
  | [] => pure []
  | n :: rest =>
    if n.active && !n.stopped then do
      let n ← pause taker n
      let rest ← suspendBelow taker rest
      pure (n :: rest)
    else pure (n :: rest)

/-- The activation ends but the spine is kept: the next tick starts every suspended node anew. -/
def suspend (taker : Option τ) (s : Spine τ) : Act κ (Happening τ) (Spine τ) :=
  if s.root.active then do
    let root ← pause taker s.root
    let below ← suspendBelow taker s.below
    pure { root, below }
  else pure s

def fail (reason : String) (s : Spine τ) : Act κ (Happening τ) (Spine τ) := do
  let s ← s.stop none
  Act.note .warn "task failed" [("task", s.root.label), ("reason", reason)]
  pure { s with root := { s.root with failure := some reason } }

end Arbiter.Spine
