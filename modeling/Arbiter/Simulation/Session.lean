import Arbiter.Agent.Environment
import Arbiter.Agent.Scenario
import Arbiter.Simulation.Directory

/-!
A simulation: an agent in the demo scenario, tick after tick. A line is printed whenever the
text of the report differs from the text printed last.
-/

namespace Arbiter

/-- How the system ends a run, or a library that the program rests on. -/
structure Refusal where
  /-- None for a run that is killed. -/
  exitCode : Option Nat
  errors : List String := []
  deriving DecidableEq, Repr

inductive SessionError where
  | agent (error : AgentError)
  | fault (fault : Fault)
  | refused (refusal : Refusal)
  | directory (obstacle : Directory.Obstacle)
  /-- The log file cannot be made. -/
  | logFile
  deriving DecidableEq, Repr

structure Session where
  agent : Agent
  scenario : Scenario := Scenario.demo
  /-- The text of the report that was printed last. -/
  lastText : String := ""

namespace Session

structure Part (α : Type) where
  value : α
  printed : Option String := none
  notes : List Record := []

def line (c : Config) (tick : Nat) (r : Report) : String :=
  if c.statusJson then r.json
  else "[" ++ Text.padLeft 5 (toString tick) ++ "] " ++ r.text

def ofConfig (config : Config) : Except SessionError (Part Session) :=
  match AgentPlan.build { config, world := some Scenario.initialWorld } ({} : World) with
  | .error f => .error (.fault f)
  | .ok d =>
    match d.value with
    | .error e => .error (.agent e)
    | .ok agent => .ok { value := { agent }, notes := records d.trail }

/-- The scenario is applied, then the agent is ticked. -/
def scene (s : Scenario) : Act Agent (Happening Job) (Scenario × Except AgentError Unit) := do
  let (s, r) ← s.apply
  match r with
  | .error e => pure (s, .error e)
  | .ok () =>
    Agent.tick
    pure (s, .ok ())

def advance (s : Session) : Except SessionError (Part Session) :=
  match scene s.scenario s.agent with
  | .error f => .error (.fault f)
  | .ok d =>
    match d.value with
    | (_, .error e) => .error (.agent e)
    | (scenario, .ok ()) =>
      let agent := d.context
      let text := agent.statusLine
      let notes := records d.trail
      if text = s.lastText then
        .ok { value := { s with agent, scenario }, notes }
      else
        .ok
          { value := { agent, scenario, lastText := text }
            printed := some (line agent.config agent.world.tick agent.report)
            notes }

/-- Whether the last tick has been reached. Without a limit it never is. -/
def isOver (s : Session) : Bool :=
  0 < s.agent.config.maxTicks && s.agent.config.maxTicks ≤ s.agent.world.tick

def close (s : Session) : Except SessionError (Part Unit) :=
  match Agent.stop s.agent with
  | .error f => .error (.fault f)
  | .ok d => .ok { value := (), notes := records d.trail }

def closingError (s : Session) : Option SessionError :=
  match s.close with
  | .error e => some e
  | .ok _ => none

/-- The lines of at most `n` ticks, and the error that ended them, if one did. -/
def run : Nat → Session → List String × Option SessionError
  | 0, s => ([], s.closingError)
  | n + 1, s =>
    match s.advance with
    | .error e => ([], some e)
    | .ok p =>
      let (lines, error) :=
        if p.value.isOver then ([], p.value.closingError) else run n p.value
      (p.printed.toList ++ lines, error)

end Session

end Arbiter
