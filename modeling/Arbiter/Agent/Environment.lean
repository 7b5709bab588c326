import Arbiter.Agent.Config
import Arbiter.Text.Bytes

/-!
Settings from an environment. A number is written in decimal digits with an optional plus sign and
must fit its type, a truth value is `true` or `false`; a setting that is absent or does not read
keeps its default.
-/

namespace Arbiter

/-- The entries of an environment: each a name, an equals sign and a value, in bytes. -/
abbrev Environment := List (List UInt8)

namespace Environment

def start (name : String) : List UInt8 := Text.bytes name ++ [61]

def entry (name : String) (value : List UInt8) : List UInt8 := start name ++ value

/-- What follows the name and its equals sign in the first entry that begins with them. The empty
name names nothing. -/
def bytes? (e : Environment) (name : String) : Option (List UInt8) :=
  if name = "" then none
  else (e.find? (start name).isPrefixOf).map fun x => x.drop (start name).length

def get? (e : Environment) (name : String) : Option String :=
  (e.bytes? name).bind Text.ofBytes?

/-- Puts an entry in the place of the first one that begins with the mark, or at the end. -/
def put (mark new : List UInt8) : Environment → Environment
  | [] => [new]
  | x :: rest => if mark.isPrefixOf x then new :: rest else x :: put mark new rest

/-- Gives a name its value, in the place of the entry that the name has had. -/
def set (name value : String) (e : Environment) : Environment :=
  put (start name) (entry name (Text.bytes value)) e

theorem find?_put {mark new : List UInt8} (h : mark.isPrefixOf new = true) (e : Environment) :
    (put mark new e).find? mark.isPrefixOf = some new := by
  induction e with
  | nil => simp [put, h]
  | cons x rest ih =>
    by_cases hx : mark.isPrefixOf x
    · simp [put, h, hx]
    · simpa [put, hx] using ih

theorem bytes?_set {name : String} (h : name ≠ "") (value : String) (e : Environment) :
    bytes? (set name value e) name = some (Text.bytes value) := by
  have hp : (start name).isPrefixOf (entry name (Text.bytes value)) = true := by simp [entry]
  simp only [bytes?, set, h, ↓reduceIte, find?_put hp, Option.map_some]
  simp [entry]

theorem get?_set {name : String} (h : name ≠ "") (value : String) (e : Environment) :
    get? (set name value e) name = some value := by
  rw [get?, bytes?_set h, Option.bind_some, Text.ofBytes?_bytes]

end Environment

namespace Config

def digitsValue? : List Char → Option Nat
  | [] => none
  | c :: rest =>
    (c :: rest).foldl
      (fun value d =>
        match value with
        | none => none
        | some n => if d.isDigit then some (10 * n + (d.toNat - '0'.toNat)) else none)
      (some 0)

def number? (bound : Nat) (s : String) : Option Nat :=
  let digits :=
    match s.toList with
    | '+' :: rest => rest
    | cs => cs
  match digitsValue? digits with
  | none => none
  | some n => if n < bound then some n else none

def truth? (s : String) : Option Bool :=
  if s = "true" then some true else if s = "false" then some false else none

/-- The settings of an environment. A JSON switch that is set to anything but a truth value
counts as on. -/
def ofEnvironment (e : Environment) : Config :=
  let d : Config := {}
  let number (bound : Nat) (key : String) (default : Nat) : Nat :=
    ((e.get? key).bind (number? bound)).getD default
  let truth (key : String) (default : Bool) : Bool := ((e.get? key).bind truth?).getD default
  { tickMs := number (1 <<< 64) tickMsKey d.tickMs
    maxTicks := number (1 <<< 64) "AGENT_MAX_TICKS" d.maxTicks
    showTaskChain := truth "AGENT_SHOW_TASK_CHAIN" d.showTaskChain
    idleWhenInactive := truth "AGENT_IDLE_WHEN_INACTIVE" d.idleWhenInactive
    hungerThreshold := number (1 <<< 32) "AGENT_HUNGER_THRESHOLD" d.hungerThreshold
    stuckTicks := number (1 <<< 32) stuckTicksKey d.stuckTicks
    defenseRadius := number (1 <<< 32) "AGENT_DEFENSE_RADIUS" d.defenseRadius
    statusJson :=
      match e.get? "AGENT_STATUS_JSON" with
      | none => d.statusJson
      | some s => (truth? s).getD true
    world :=
      { d.world with
        hungerInterval := number (1 <<< 64) "AGENT_HUNGER_INTERVAL" d.world.hungerInterval } }

end Config

end Arbiter
