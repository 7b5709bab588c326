import Arbiter.Job.Basic
import Arbiter.Task.Basic
import Arbiter.World.Deeds

/-!
How jobs walk. A step takes two ticks and moves in the second; a goto delegates its steps and
sidesteps to the right of a blocked one; a wander moves every tick and turns when it is blocked.
-/

namespace Arbiter

/-! ### Steps -/

namespace Step

def restarted (s : Step) : Step := { s with progress := 0, landed := false }

def turn (s : Step) (c : Control) : Act World Record (Turn Job) :=
  if s.landed then pure { task := .step s, reply := c.unchanged }
  else do
    let progress ← Act.ofExcept (count32 (s.progress + 1))
    let s := { s with progress }
    let state := toString progress ++ "/" ++ toString ticks
    if ticks ≤ progress then
      let moved ← World.tryMove s.direction
      if moved then pure { task := .step { s with landed := true }, reply := { state } }
      else pure { task := .step s, reply := { state, failure := some "path blocked" } }
    else pure { task := .step s, reply := { state } }

end Step

/-! ### Walks to a target -/

namespace Goto

def restarted (g : Goto) : Goto := { g with blocked := 0, detour := none }

def arrived (g : Goto) (p : Position) : Except Fault Bool := do
  let d ← p.distance g.target
  pure (d ≤ g.range)

def direct (g : Goto) (p : Position) (state : String) (took : Bool) : Except Fault (Turn Job) :=
  match p.towards? g.target with
  | none => pure { task := .goto g, reply := { state, tookChildFailure := took } }
  | some direction => do
    let left ← p.distance g.target
    pure
      { task := .goto g
        reply := { state := toString left ++ " left", tookChildFailure := took }
        candidate := some (Job.stepFrom p direction) }

/-- The next step from a position: none on arrival, the sidestep while the agent is still where
it began, else a direct one. -/
def next (g : Goto) (p : Position) (state : String) (took : Bool) : Except Fault (Turn Job) := do
  if ← g.arrived p then
    pure { task := .goto g, reply := { state := "arrived", tookChildFailure := took } }
  else
    match g.detour with
    | none => g.direct p state took
    | some d =>
      if d.place = p then
        pure
          { task := .goto g
            reply := { state := "sidestepping", tookChildFailure := took }
            candidate := some (Job.stepFrom p d.direction) }
      else ({ g with detour := none } : Goto).direct p state took

/-- The direction in which a walk at a position was blocked. -/
def blockedDirection? (g : Goto) (p : Position) : Option Direction :=
  match g.detour with
  | some d => some d.direction
  | none => p.towards? g.target

/-- Counts blocked steps and plans sidesteps, or gives up. -/
def turn (g : Goto) (c : Control) : Act World Record (Turn Job) := do
  let p := (← Act.get).position
  match c.childFailure with
  | none => Act.ofExcept (g.next p c.state false)
  | some failure =>
    let blocked ← Act.ofExcept (count32 (g.blocked + 1))
    let g := { g with blocked }
    if patience ≤ blocked then
      let reason := "cannot reach " ++ g.target.text ++ ": " ++ failure.reason
      pure
        { task := .goto g
          reply := { state := c.state, failure := some reason, tookChildFailure := true } }
    else
      match g.blockedDirection? p with
      | none => pure { task := .goto g, reply := { state := c.state, tookChildFailure := true } }
      | some direction =>
        World.note .debug "sidestepping"
          [("at", p.text), ("blocked", direction.name), ("attempt", toString blocked)]
        let g := { g with detour := some { place := p, direction := direction.clockwise } }
        Act.ofExcept (g.next p c.state true)

end Goto

/-! ### Wandering -/

namespace Wander

def restarted (v : Wander) : Wander := { v with elapsed := 0 }

def turn (v : Wander) : Act World Record (Turn Job) := do
  let elapsed ← Act.ofExcept (count32 (v.elapsed + 1))
  let v := { v with elapsed }
  let state := toString elapsed ++ "/" ++ toString v.duration
  let moved ← World.tryMove v.heading
  let heading := if moved then v.heading else v.heading.clockwise
  pure { task := .wander { v with heading }, reply := { state } }

end Wander

end Arbiter
