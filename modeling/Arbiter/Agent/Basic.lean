import Arbiter.Agent.Config
import Arbiter.Runner.Basic

/-!
The agent: a world, the runner of its chains, and its settings. A tick lets time pass in the
world and then ticks the runner.
-/

namespace Arbiter

open Number

structure Agent where
  world : World
  runner : Runner AgentChain
  config : Config
  /-- The place of the built-in user chain. -/
  userPlace : Option Nat

structure AgentPlan where
  config : Config := {}
  /-- The initial world, if not the default one. -/
  world : Option World := none
  /-- The sink, if not the status line. -/
  sink : Option Sink := none
  builtin : Bool := true
  extra : List AgentChain := []

namespace AgentPlan

/-- The built-in chains in the order of their urgency. The user's is the last. -/
def builtinChains (c : Config) : List AgentChain :=
  [.reactive (.ofTrigger .hazard),
   .reactive (.ofTrigger (.mob c.defenseRadius)),
   .reactive (.ofTrigger (.stuck c.stuckTicks)),
   .reactive (.ofTrigger (.hunger c.hungerThreshold)),
   .user (.ofIdle c.idleWhenInactive)]

def userPlace : Nat := 4

/-- The agent of a plan with valid settings, whose rules are those of the settings. -/
def build (p : AgentPlan) : Act World (Happening Job) (Except AgentError Agent) :=
  match p.config.validate with
  | .error e => pure (.error e)
  | .ok () => do
    let sink := p.sink.getD (.line p.config.showTaskChain)
    let runner : Runner AgentChain := .withSink sink
    let chains := (if p.builtin then builtinChains p.config else []) ++ p.extra
    let runner ← runner.registerAll chains
    Act.note .info "agent built" [("chains", toString runner.chains.length)]
    let world := { p.world.getD {} with rules := p.config.world }
    pure
      (.ok
        { world, runner
          config := p.config
          userPlace := if p.builtin then some userPlace else none })

end AgentPlan

namespace Agent

def onWorld {α : Type} (m : Act World Record α) : Act Agent (Happening Job) α :=
  (m.mapTrail .noted).within world fun w a => { a with world := w }

/-- Runs an action on the world that changes the runner. -/
def onRunner (m : Runner AgentChain → Act World (Happening Job) (Runner AgentChain)) :
    Act Agent (Happening Job) Unit := do
  let a ← Act.get
  let runner ← (m a.runner).within world fun w a => { a with world := w }
  Act.modify fun a => { a with runner }

def tick : Act Agent (Happening Job) Unit := do
  onWorld World.advance
  onRunner Runner.tick

/-! ### User jobs -/

def notRegistered : AgentError := .chainNotRegistered UserChain.name

def builtinUser? (a : Agent) : Option (Nat × UserChain Job) := do
  let i ← a.userPlace
  let c ← a.runner.chains[i]?
  let u ← c.user?
  pure (i, u)

/-- Runs an action on the built-in user chain. -/
def onUser {α : Type} (m : UserChain Job → Act World (Happening Job) (α × UserChain Job)) :
    Act Agent (Happening Job) (Except AgentError α) := do
  let a ← Act.get
  match a.builtinUser? with
  | none => pure (.error notRegistered)
  | some (i, u) =>
    let (r, u) ← (m u).within world fun w a => { a with world := w }
    Act.modify fun a => { a with runner := a.runner.setChain i (.user u) }
    pure (.ok r)

/-- Asks for a user job, which enables the runner; tells whether the job was installed. -/
def runUserJob (job : Job) (callback : Option Callback := none) :
    Act Agent (Happening Job) (Except AgentError Bool) := do
  match ← onUser fun u => u.run job callback with
  | .error e => pure (.error e)
  | .ok installed =>
    onRunner Runner.enable
    pure (.ok installed)

def cancelUserJob : Act Agent (Happening Job) (Except AgentError Bool) :=
  onUser UserChain.cancel

/-- Cancels the user job and halts all chains until the next user job. -/
def stop : Act Agent (Happening Job) Unit := do
  let _ ← cancelUserJob
  onRunner Runner.stopCurrent
  onRunner Runner.disable
  let a ← Act.get
  Act.note .info "agent stopped" [("tick", toString a.world.tick)]

/-! ### Observations -/

def report (a : Agent) : Report := a.runner.report

def statusLine (a : Agent) : String := a.report.text

def isStopped (a : Agent) : Bool := !a.runner.enabled

def currentSpine (a : Agent) : Option (Spine Job) :=
  a.runner.currentChain.bind fun c => c.inner.spine

/-- Whether a job of a kind is on the started spine of the chain in control. -/
def activeTreeContains (a : Agent) (kind : Job → Bool) : Bool :=
  match a.currentSpine with
  | none => false
  | some s => s.root.active && s.anyTask kind

def isUnsticking (a : Agent) : Bool := a.activeTreeContains Job.isWander

def isEating (a : Agent) : Bool := a.activeTreeContains Job.isEat

def userChain? (a : Agent) : Option (UserChain Job) := a.runner.chains.findSome? AgentChain.user?

end Agent

end Arbiter
