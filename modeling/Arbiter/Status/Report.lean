import Arbiter.Text.Format

/-! The status report: the chain in control, the labels of its tasks, and whether ticks run. -/

namespace Arbiter

/-- A task that changed its state text, by its label. -/
structure StateChange where
  label : String
  state : String
  deriving DecidableEq, Repr

structure Report where
  /-- The chain in control, none when idle. -/
  chain : Option String := none
  /-- The labels of the tasks that were ticked, root first. -/
  spine : List String := []
  enabled : Bool := false
  deriving DecidableEq, Repr

namespace Report

def isIdle (r : Report) : Bool := r.chain.isNone

/-- One line: fixed words when disabled or idle, else the chain and the labels with arrows. -/
def text (r : Report) : String :=
  if r.enabled then
    match r.chain with
    | none => "(idle)"
    | some chain => chain ++ String.join (r.spine.map fun l => " -> " ++ Text.trimEnd l)
  else "(disabled)"

def json (r : Report) : String :=
  Text.Json.object
    [("chain", Text.Json.optional r.chain),
     ("spine", Text.Json.array (r.spine.map Text.Json.string)),
     ("enabled", Text.Json.bool r.enabled)]

end Report

end Arbiter
