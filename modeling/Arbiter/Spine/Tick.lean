import Arbiter.Spine.Teardown

/-!
One tick of a spine: start what is pending, let the task work, settle which sub-task is held,
and tick that one in turn.
-/

namespace Arbiter.Spine

variable {κ τ : Type} [Task κ τ]

/-- How deep tasks may delegate within one tick. -/
def depthLimit : Nat := 1 <<< 20

/-- Starts the root. A task that gives up at once is stopped again. -/
def start (s : Spine τ) : Act κ (Happening τ) (Spine τ) := do
  let n := s.root
  Act.note .debug "task start" [("task", n.label)]
  let held : Control := { n.control with childFailure := none }
  let (task, reply) ← Act.call (.started n.task) (Task.onStart n.task held)
  let s : Spine τ :=
    { s with
      root :=
        { n with
          task
          control := held.apply reply
          pending := false
          stopped := false
          active := true
          failure := none } }
  match reply.failure with
  | none => pure s
  | some reason => s.fail reason

def reportState (n : Node τ) (trace : Trace) : Act κ (Happening τ) (Node τ × Trace) :=
  if n.control.state = n.reportedState then pure (n, trace)
  else do
    Act.note .debug "task state" [("task", n.label)]
    pure
      ({ n with reportedState := n.control.state },
       trace.change { label := Task.label n.task, state := n.control.state })

def vetoed (k : κ) (below : List (Node τ)) (candidate : Option τ) : Bool :=
  below.any fun n => n.refuses k candidate

/-- Settles which nodes are held below: an equal candidate changes nothing, a veto keeps what is
held, and otherwise the old spine is stopped before the candidate is installed. -/
def settle (parent : Node τ) (below : List (Node τ)) (candidate : Option τ) :
    Act κ (Happening τ) (List (Node τ)) :=
  match below, candidate with
  | [], none => pure []
  | [], some c => pure [Node.fresh c]
  | n :: rest, some c =>
    if Task.isEqual c n.task then pure (n :: rest)
    else do
      let k ← Act.get
      if vetoed k (n :: rest) (some c) then
        Act.note .trace "sub-task forced"
          [("task", parent.label), ("candidate", Task.label c)]
        pure (n :: rest)
      else
        stopAndDrop (some c) (n :: rest)
        pure [Node.fresh c]
  | n :: rest, none => do
    let k ← Act.get
    if vetoed k (n :: rest) none then pure (n :: rest)
    else
      stopAndDrop none (n :: rest)
      pure []

def ready (s : Spine τ) : Act κ (Happening τ) (Spine τ) :=
  if s.root.pending then s.start else pure s

def turned (n : Node τ) (turn : Turn τ) : Node τ :=
  { n with task := turn.task, control := n.control.apply turn.reply }

/-- The spine of a node and what it holds after a tick of that. A sub-task that failed is no longer
held, and its failure is noted for the node. -/
def rejoin (n : Node τ) (sub : Spine τ) : Act κ (Happening τ) (Spine τ) :=
  match sub.root.failureReport with
  | none => pure { root := n, below := sub.nodes }
  | some failure => do
    dropAll sub.nodes
    pure { root := { n with control := { n.control with childFailure := some failure } } }

/-- Ticks a spine that may delegate at most `depth` levels deep. -/
def tickWithin : Nat → Spine τ → Trace → Act κ (Happening τ) (Spine τ × Trace)
  | 0, _, _ => Act.abort .tooDeep
  | depth + 1, s, trace => do
    let trace := trace.enter s.root.label
    let s ← s.ready
    if s.root.stopped then pure (s, trace)
    else
      let turn ← Act.call (.ticked s.root.task) (Task.onTick s.root.task s.root.control)
      let n := turned s.root turn
      match turn.reply.failure with
      | some reason =>
        let s ← ({ s with root := n } : Spine τ).fail reason
        pure (s, trace.relabel s.root.label)
      | none =>
        let (n, trace) ← reportState n trace
        let trace := trace.relabel n.label
        let below ← settle n s.below turn.candidate
        match below with
        | [] => pure ({ root := n }, trace)
        | m :: rest =>
          let (sub, trace) ← tickWithin depth { root := m, below := rest } trace
          let s ← rejoin n sub
          pure (s, trace)

def tick (s : Spine τ) (trace : Trace) : Act κ (Happening τ) (Spine τ × Trace) :=
  tickWithin depthLimit s trace

end Arbiter.Spine
