import Arbiter.Grid.Position
import Arbiter.World.Item

/-! The jobs of an agent: what they aim at and how far they are. -/

namespace Arbiter

/-- One step off a tile. -/
structure Step where
  source : Position
  direction : Direction
  /-- Ticks spent on the step. -/
  progress : Nat := 0
  /-- The step has landed. -/
  landed : Bool := false
  deriving DecidableEq, Repr

/-- A sidestep, to be taken while the agent still stands on the tile. -/
structure Detour where
  place : Position
  direction : Direction
  deriving DecidableEq, Repr

structure Goto where
  target : Position
  range : Nat := 0
  /-- Steps that were blocked. -/
  blocked : Nat := 0
  detour : Option Detour := none
  deriving DecidableEq, Repr

structure Wander where
  duration : Nat
  elapsed : Nat := 0
  heading : Direction := .north
  deriving DecidableEq, Repr

inductive Job where
  | step (step : Step)
  | goto (walk : Goto)
  | wander (walk : Wander)
  /-- Fights a mob until it is gone. -/
  | kill (mob : Nat)
  /-- Eats until hunger is gone, chewing each bite. -/
  | eat (chewing : Nat)
  /-- Does nothing, forever. -/
  | idle
  deriving DecidableEq, Repr

namespace Step

def ticks : Nat := 2

/-- The step has begun and not landed. -/
def isUnderWay (s : Step) : Bool := 0 < s.progress && !s.landed

end Step

/-- Blocked steps after which a walk gives up. -/
def Goto.patience : Nat := 3

def Job.biteTicks : Nat := 3

namespace Job

def stepFrom (source : Position) (direction : Direction) : Job := step { source, direction }

def gotoTarget (target : Position) : Job := goto { target }

def gotoWithin (target : Position) (range : Nat) : Job := goto { target, range }

def wanderFor (duration : Nat) : Job := wander { duration }

def eatFood : Job := eat 0

def label : Job → String
  | step s => "Step " ++ s.direction.name
  | goto g =>
    if g.range = 0 then "Goto " ++ g.target.text
    else "Goto " ++ g.target.text ++ " ~" ++ toString g.range
  | wander v => "Wander " ++ toString v.duration ++ "t"
  | kill mob => "Kill mob " ++ toString mob
  | eat _ => "Eat food"
  | idle => "Idle"

/-- Whether two jobs have the same aim, however far they are. -/
def isEqual : Job → Job → Bool
  | step s, step t => s.source = t.source && s.direction = t.direction
  | goto g, goto h => g.target = h.target && g.range = h.range
  | wander v, wander w => v.duration = w.duration
  | kill m, kill n => m = n
  | eat _, eat _ => true
  | idle, idle => true
  | _, _ => false

/-! ### Kinds -/

def isStep : Job → Bool
  | step _ => true
  | _ => false

def isGoto : Job → Bool
  | goto _ => true
  | _ => false

def isWander : Job → Bool
  | wander _ => true
  | _ => false

def isKill : Job → Bool
  | kill _ => true
  | _ => false

def isEat : Job → Bool
  | eat _ => true
  | _ => false

def isIdle : Job → Bool
  | idle => true
  | _ => false

end Job

end Arbiter
