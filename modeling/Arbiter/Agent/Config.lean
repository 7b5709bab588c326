import Arbiter.Agent.Chains

/-! The settings of an agent and what is wrong with some of them. -/

namespace Arbiter

inductive AgentError where
  | invalidConfig (key reason : String)
  | chainNotRegistered (name : String)
  deriving DecidableEq, Repr

namespace AgentError

def message : AgentError → String
  | invalidConfig key reason => "invalid configuration value for " ++ key ++ ": " ++ reason
  | chainNotRegistered name => name ++ " chain is not registered with this agent"

end AgentError

structure Config where
  /-- Milliseconds for one tick. -/
  tickMs : Nat := 50
  /-- Ticks before the simulation stops; zero for no limit. -/
  maxTicks : Nat := 600
  /-- Write the status line whenever it changes. -/
  showTaskChain : Bool := true
  /-- Let an idle job follow each user job. -/
  idleWhenInactive : Bool := true
  hungerThreshold : Nat := 14
  stuckTicks : Nat := 40
  defenseRadius : Nat := 6
  /-- Print reports as JSON. -/
  statusJson : Bool := false
  world : Rules := {}
  deriving DecidableEq, Repr

namespace Config

def tickMsKey : String := "AGENT_TICK_MS"

def stuckTicksKey : String := "AGENT_STUCK_TICKS"

/-- Ticks take time and being stuck takes at least one move. -/
def validate (c : Config) : Except AgentError Unit :=
  if c.tickMs = 0 then .error (.invalidConfig tickMsKey "tick length must be positive")
  else if c.stuckTicks = 0 then
    .error (.invalidConfig stuckTicksKey "stuck threshold must be positive")
  else .ok ()

end Config

end Arbiter
