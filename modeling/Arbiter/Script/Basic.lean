import Arbiter.Act
import Arbiter.Journal

/-!
Scripted tasks: tasks given by data. A definition says what each hook does by a program over
named numbers and a log of texts; a task is a definition under a name.
-/

namespace Arbiter.Script

inductive Condition where
  | constant (value : Bool)
  | equal (var : String) (n : Int)
  | atLeast (var : String) (n : Int)
  | lessThan (var : String) (n : Int)
  | ticksAtLeast (n : Int)
  | negation (c : Condition)
  | both (c d : Condition)
  | either (c d : Condition)
  /-- There is a candidate with this label. -/
  | candidate (label : String)
  /-- There is no candidate. -/
  | noCandidate

namespace Condition

def all (cs : List Condition) : Condition := cs.foldr both (constant true)

def any (cs : List Condition) : Condition := cs.foldr either (constant false)

end Condition

/-- A sequence of actions. A text may name numbers in braces. -/
inductive Program where
  | done
  | log (text : String) (rest : Program)
  | set (var : String) (n : Int) (rest : Program)
  | add (var : String) (n : Int) (rest : Program)
  | branch (condition : Condition) (yes no rest : Program)
  /-- Delegates to a fresh task of this name. -/
  | child (name : String) (rest : Program)
  | noChild (rest : Program)
  | state (text : String) (rest : Program)
  | fail (text : String) (rest : Program)
  /-- Logs the state text. -/
  | echoState (rest : Program)
  /-- Takes the failure of the sub-task and logs it. -/
  | childFailure (rest : Program)

/-- When a task takes another one for the same unit of work. -/
inductive Likeness where
  | sameName
  | never
  | always
  | sameLabel
  deriving DecidableEq, Repr

structure Definition where
  /-- The label, if it is not the name. -/
  label : Option String := none
  start : Program := .done
  tick : Program := .done
  stop : Program := .done
  finished : Condition := .constant false
  /-- The veto, for tasks that have one. -/
  force : Option Condition := none
  likeness : Likeness := .sameName

structure Stage where
  /-- The lines, the latest first. -/
  log : List String := []
  vars : List (String × Int) := []
  definitions : List (String × Definition) := []

namespace Stage

def var (s : Stage) (name : String) : Int := (s.vars.lookup name).getD 0

def insertVar (name : String) (n : Int) : List (String × Int) → List (String × Int)
  | [] => [(name, n)]
  | (other, m) :: rest =>
    if name = other then (name, n) :: rest
    else if name < other then (name, n) :: (other, m) :: rest
    else (other, m) :: insertVar name n rest

def setVar (s : Stage) (name : String) (n : Int) : Stage :=
  { s with vars := insertVar name n s.vars }

def say (s : Stage) (text : String) : Stage := { s with log := text :: s.log }

def definition (s : Stage) (name : String) : Definition := (s.definitions.lookup name).getD {}

end Stage

/-- A task with the number of its ticks, which is never set back. -/
structure Actor where
  name : String
  definition : Definition
  ticks : Nat := 0

def Stage.actor (s : Stage) (name : String) : Actor := { name, definition := s.definition name }

/-! ### Texts -/

/-- Replaces the occurrences of a text from left to right, after `skip` characters. -/
def replaceFrom (old new : List Char) : Nat → List Char → List Char
  | _, [] => []
  | skip + 1, _ :: rest => replaceFrom old new skip rest
  | 0, c :: rest =>
    if old.isPrefixOf (c :: rest) then new ++ replaceFrom old new (old.length - 1) rest
    else c :: replaceFrom old new 0 rest

/-- Puts a value where its name stands in braces. -/
def substitute (name value text : String) : String :=
  String.ofList
    (replaceFrom ('\x7b' :: name.toList ++ ['\x7d']) value.toList 0 text.toList)

def fillTicks (ticks : Nat) (text : String) : String := substitute "t" (toString ticks) text

/-- Fills in the numbers in the order of their names, then the ticks. -/
def fill (vars : List (String × Int)) (ticks : Nat) (text : String) : String :=
  fillTicks ticks (vars.foldl (fun t v => substitute v.1 (toString v.2) t) text)

namespace Actor

def label (a : Actor) : String :=
  match a.definition.label with
  | none => a.name
  | some text => fillTicks a.ticks text

def isEqual (a b : Actor) : Bool :=
  match a.definition.likeness with
  | .sameName => a.name == b.name
  | .never => false
  | .always => true
  | .sameLabel => a.label == b.label

end Actor

/-! ### Conditions -/

namespace Condition

/-- Whether a condition holds. `asked` is the label of the candidate where a veto is asked for,
and `none` elsewhere. -/
def holds (s : Stage) (ticks : Nat) (asked : Option (Option String)) : Condition → Bool
  | constant value => value
  | equal var n => s.var var = n
  | atLeast var n => n ≤ s.var var
  | lessThan var n => s.var var < n
  | ticksAtLeast n => n ≤ ticks
  | negation c => !c.holds s ticks asked
  | both c d => c.holds s ticks asked && d.holds s ticks asked
  | either c d => c.holds s ticks asked || d.holds s ticks asked
  | candidate label => asked = some (some label)
  | noCandidate => asked = some none

end Condition

end Arbiter.Script
