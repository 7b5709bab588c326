import Arbiter.Text.Bytes

/-!
Making the directory that a path names, name by name. What stands where is the system's affair;
whatever it does not know is not there yet.
-/

namespace Arbiter.Directory

abbrev Name := List UInt8

/-! ### Places -/

inductive Base where
  | root
  /-- So many directories above the working directory. -/
  | above (levels : Nat)
  deriving DecidableEq, Repr

/-- A base and the names that lead down from it. -/
structure Place where
  base : Base
  names : List Name := []
  deriving DecidableEq, Repr

namespace Place

def below (ns : List String) : Place := ⟨.above 0, ns.map Text.bytes⟩

def child (p : Place) (n : Name) : Place := { p with names := p.names ++ [n] }

/-- The directory above, if the working directory lies so many levels below the root. The root has
none above it but itself. -/
def parent (depth : Nat) (p : Place) : Place :=
  match p.base, p.names with
  | .above levels, [] => if levels + 1 < depth then ⟨.above (levels + 1), []⟩ else ⟨.root, []⟩
  | base, ns => ⟨base, ns.dropLast⟩

theorem parent_child (depth : Nat) (p : Place) (n : Name) : (p.child n).parent depth = p := by
  obtain ⟨base, ns⟩ := p
  cases base with
  | root => simp [child, parent]
  | above levels =>
    cases ns with
    | nil => rfl
    | cons m ns => exact congrArg (Place.mk (.above levels)) List.dropLast_concat

end Place

/-! ### File systems -/

inductive Kind where
  | directory
  | file
  /-- Another name of a directory, which is found by so many links. -/
  | link (count : Nat) (target : Place)
  deriving DecidableEq, Repr

/-- Why nothing new can stand in a directory. -/
inductive Closure where
  /-- Whatever is asked for is not there. -/
  | missing
  /-- Nothing may be made; a name that is too long is noticed first, or not at all. -/
  | forbidden (noticesLength : Bool)
  deriving DecidableEq, Repr

structure FileSystem where
  kind? : Place → Option Kind
  /-- Whether a place is in a closed directory, or is one. -/
  closure? : Place → Option Closure
  /-- How many levels below the root the working directory is. -/
  workingDepth : Nat

namespace FileSystem

def withFiles (fs : FileSystem) (files : List String) : FileSystem :=
  { fs with
    kind? := fun p => if files.any fun f => p = Place.below [f] then some .file else fs.kind? p }

def takesFiles (fs : FileSystem) (p : Place) : Bool := (fs.closure? p).isNone

end FileSystem

/-! ### Paths -/

def slash : UInt8 := 47

def names (path : List UInt8) : List Name := Text.pieces slash path

def isHere (n : Name) : Bool := n = [] || n = Text.bytes "."

def isAbove (n : Name) : Bool := n = Text.bytes ".."

/-- Whether the names say "inside this very directory" and nothing more. -/
def endsInside (ns : List Name) : Bool := ns.any (· ≠ []) && ns.all isHere

def longestPath : Nat := 4095

def longestName : Nat := 255

/-- Whether a file with a name of so many bytes can be asked for in the directory of a path. -/
def admits (path : List UInt8) (length : Nat) : Bool :=
  let between := if path = [] || path.getLast? = some slash then 0 else 1
  path.length + between + length ≤ longestPath

/-! ### Obstacles -/

inductive Obstacle where
  /-- The path asks for the inside of a directory that is not there. -/
  | missing
  /-- A directory is asked for where a file is. -/
  | occupied
  /-- A directory is asked for below a file. -/
  | belowFile
  | longName
  | forbidden
  /-- The path goes through too many links. -/
  | manyLinks
  deriving DecidableEq, Repr

def Obstacle.message : Obstacle → String
  | .missing => "No such file or directory (os error 2)"
  | .occupied => "File exists (os error 17)"
  | .belowFile => "Not a directory (os error 20)"
  | .longName => "File name too long (os error 36)"
  | .forbidden => "Operation not permitted (os error 1)"
  | .manyLinks => "Too many levels of symbolic links (os error 40)"

def Closure.obstacle : Closure → Obstacle
  | .missing => .missing
  | .forbidden _ => .forbidden

/-- What an entry that leads into no directory means: what it is to the names after it, or an
entry where a directory should be. After a directory that had to be made, each further one is
asked for by itself. -/
def entryObstacle (inner : Obstacle) (hasMade : Bool) (rest : List Name) : Obstacle :=
  if rest.all (· = []) || (hasMade && !endsInside rest) then .occupied else inner

/-- What keeps a directory from being made in a place where nothing of its name stands. The last
directory is made by the names as they are written, so it cannot be asked for as its own inside. -/
def newObstacle? (closure : Option Closure) (rest : List Name) : Option Obstacle :=
  if endsInside rest then some .missing else closure.map Closure.obstacle

/-- What a name that is too long means. -/
def longObstacle : Option Closure → Obstacle
  | none | some (.forbidden true) => .longName
  | some c => c.obstacle

/-! ### Making -/

/-- What became of a path: the directories made, where it has led, and what stood in its way. -/
structure Making where
  made : List Place
  place : Place
  obstacle : Option Obstacle := none
  deriving DecidableEq, Repr

structure Way where
  made : List Place := []
  place : Place
  /-- Nothing stands in a place that is new. -/
  isNew : Bool := false
  /-- The links on the way. -/
  links : Nat := 0
  deriving DecidableEq, Repr

namespace Way

def goTo (w : Way) (place : Place) : Way := { w with place, isNew := false }

def follow (w : Way) (count : Nat) (target : Place) : Way :=
  { w.goTo target with links := w.links + count }

def add (w : Way) (place : Place) : Way :=
  { w with made := w.made ++ [place], place, isNew := true }

def stop (w : Way) (o : Obstacle) : Making := ⟨w.made, w.place, some o⟩

end Way

def mostLinks : Nat := 40

/-- Makes what is missing on the way along the names. -/
def walk (fs : FileSystem) (w : Way) : List Name → Making
  | [] => ⟨w.made, w.place, none⟩
  | name :: rest =>
    if isHere name then walk fs w rest
    else if isAbove name then walk fs (w.goTo (w.place.parent fs.workingDepth)) rest
    else if longestName < name.length then w.stop (longObstacle (fs.closure? w.place))
    else
      let next := w.place.child name
      match fs.kind? next with
      | some .file => w.stop (entryObstacle .belowFile (!w.made.isEmpty) rest)
      | some (.link count target) =>
        if mostLinks < w.links + count then
          w.stop (entryObstacle .manyLinks (!w.made.isEmpty) rest)
        else walk fs (w.follow count target) rest
      | some .directory => walk fs (w.goTo next) rest
      | none =>
        if !w.isNew && w.made.contains next then walk fs (w.goTo next) rest
        else
          match newObstacle? (fs.closure? w.place) rest with
          | some o => w.stop o
          | none => walk fs (w.add next) rest

def make (fs : FileSystem) (path : List UInt8) : Making :=
  let start : Place := ⟨if path.head? = some slash then .root else .above 0, []⟩
  if longestPath < path.length then { made := [], place := start, obstacle := some .longName }
  else walk fs { place := start } (names path)

/-- A walk keeps what was made before it. -/
theorem mem_made_walk {p : Place} (fs : FileSystem) {w : Way} (ns : List Name)
    (h : p ∈ w.made) : p ∈ (walk fs w ns).made := by
  fun_induction walk fs w ns with
  | case1 | case4 | case5 | case6 | case10 => exact h
  | case2 | case3 | case7 | case8 | case9 => rename_i ih; exact ih h
  | case11 => rename_i ih; exact ih (List.mem_append_left _ h)

end Arbiter.Directory
