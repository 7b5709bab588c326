import Arbiter.Agent.Basic
import Arbiter.World.Host

/-!
Scenarios: cues for an agent, each due at a tick of the world. They are brought about in the
order of their ticks, and those of one tick in the order in which they were given.
-/

namespace Arbiter

inductive Cue where
  /-- Sends the agent to a target as a user job. -/
  | errand (target : Position)
  /-- A mob appears at an offset from the agent. -/
  | ambush (id : Nat) (dx dy : Int) (health : Nat)
  /-- The agent's tile and those around it become hazards. -/
  | hazard
  | hunger (level : Nat)
  /-- Tiles become blocked. -/
  | wall (tiles : List Position)
  deriving DecidableEq, Repr

namespace Cue

def shown : Cue → String
  | errand target => Text.wrapped "UserGoto" target.shown
  | ambush id dx dy health =>
    Text.fields "SpawnMob"
      [("id", toString id), ("offset", (⟨dx, dy⟩ : Position).text), ("health", toString health)]
  | hazard => "HazardUnderfoot"
  | hunger level => Text.wrapped "Hunger" (toString level)
  | wall tiles => Text.wrapped "Wall" (Text.bracketed (tiles.map Position.shown))

/-- The tile and those around it; a fault if one is off the grid. -/
def surroundings (p : Position) : Except Fault (List Position) :=
  (Position.rectangle ⟨-1, -1⟩ ⟨1, 1⟩).mapM fun o => p.shift o.x o.y

def placeAt (dx dy : Int) : Act World Record Position := do
  let w ← Act.get
  Act.ofExcept (w.position.shift dx dy)

def fire : Cue → Act Agent (Happening Job) (Except AgentError Unit)
  | errand target => do
    let a ← Act.get
    let r ← Agent.runUserJob (Job.gotoTarget target) (some (.errand target a.world.tick))
    pure (r.map fun _ => ())
  | ambush id dx dy health => do
    Agent.onWorld do
      let place ← placeAt dx dy
      World.spawnMob id place health
    pure (.ok ())
  | hazard => do
    Agent.onWorld do
      let w ← Act.get
      let tiles ← Act.ofExcept (surroundings w.position)
      Act.modify (World.addHazards tiles)
    pure (.ok ())
  | hunger level => do
    Agent.onWorld (Act.modify fun w => { w with hunger := level })
    pure (.ok ())
  | wall tiles => do
    Agent.onWorld (Act.modify (World.block tiles))
    pure (.ok ())

end Cue

/-- A cue and the tick from which on it is due. -/
structure TimedCue where
  due : Nat
  cue : Cue
  deriving DecidableEq, Repr

structure Scenario where
  /-- The cues that were brought about, in order. -/
  fired : List TimedCue := []
  /-- The cues still to come, in order. -/
  pending : List TimedCue
  deriving DecidableEq, Repr

namespace Scenario

/-- The cues by their ticks; those of one tick keep their order. -/
def ofList (cues : List TimedCue) : Scenario :=
  { pending := cues.mergeSort fun a b => a.due ≤ b.due }

theorem ofList_perm (cues : List TimedCue) : (ofList cues).pending.Perm cues :=
  List.mergeSort_perm cues _

theorem ofList_pairwise (cues : List TimedCue) :
    (ofList cues).pending.Pairwise fun a b => a.due ≤ b.due := by
  have h := @List.pairwise_mergeSort TimedCue (fun a b => decide (a.due ≤ b.due))
    (fun a b c => by simpa using Nat.le_trans)
    (fun a b => by simpa using Nat.le_total a.due b.due) cues
  exact h.imp fun hab => by simpa using hab

/-- An errand that is interrupted by a mob, a hazard and hunger, and one around a wall. -/
def demo : Scenario :=
  ofList
    [⟨0, .errand ⟨12, 0⟩⟩,
     ⟨8, .ambush 1 0 3 8⟩,
     ⟨45, .hazard⟩,
     ⟨70, .hunger 16⟩,
     ⟨90, .wall [⟨16, 1⟩, ⟨16, 2⟩, ⟨16, 3⟩]⟩,
     ⟨95, .errand ⟨20, 0⟩⟩]

def initialWorld : World := { inventory := { bread := 2, apple := 2, torch := 4 } }

def remaining (s : Scenario) : Nat := s.pending.length

/-- Brings about the cues that are due, up to the first one that fails. -/
def applyFrom (fired : List TimedCue) :
    List TimedCue → Act Agent (Happening Job) (Scenario × Except AgentError Unit)
  | [] => pure ({ fired, pending := [] }, .ok ())
  | c :: rest => do
    let a ← Act.get
    if a.world.tick < c.due then pure ({ fired, pending := c :: rest }, .ok ())
    else
      Act.note .info "script event"
        [("tick", toString a.world.tick), ("event", c.cue.shown)]
      match ← c.cue.fire with
      | .error e => pure ({ fired, pending := c :: rest }, .error e)
      | .ok () => applyFrom (fired ++ [c]) rest

def apply (s : Scenario) : Act Agent (Happening Job) (Scenario × Except AgentError Unit) :=
  applyFrom s.fired s.pending

end Scenario

end Arbiter
