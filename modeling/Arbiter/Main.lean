import Arbiter.Simulation.Command

/-!
The simulator's command line. Settings come from the environment and from a file of settings in
the working directory or above it; the log goes to the standard error stream or to a directory.
-/

namespace Arbiter.Simulation

def readEnvironment : IO Environment := do
  let all ← IO.FS.readBinFile "/proc/self/environ"
  pure (Text.pieces 0 all.data.toList)

/-- The text of the nearest file of settings, going up from the working directory. -/
def readSettings : IO (Option String) := do
  let depth := ((← IO.currentDir).toString.splitOn "/").length
  let mut place := settingsFile
  for _ in [0:depth] do
    try
      let text ← IO.FS.readFile place
      return some text
    catch _ => place := "../" ++ place
  return none

def recordLine (r : Record) : String :=
  String.join ([r.severity.name, " ", r.message] ++ r.fields.map fun f =>
    " " ++ f.1 ++ "=" ++ f.2)

def writeNotes (directory : Option String) (notes : List Record) : IO Unit := do
  let lines := (notes.filter fun r => Severity.info.admits r.severity).map recordLine
  unless lines.isEmpty do
    let text := String.join (lines.map fun l => l ++ "\n")
    match directory with
    | none => (← IO.getStderr).putStr text
    | some d =>
      IO.FS.withFile (d ++ "/agent-sim.log") .append fun h => h.putStr text

def killedCode : Nat := 134

def leave (error : Option SessionError) : IO UInt32 := do
  let (code, lines) := exit error
  for l in lines do IO.eprintln l
  pure (code.getD killedCode).toUInt32

/-- Ticks in real time, up to the last tick or without end. -/
partial def play (directory : Option String) (s : Session) : IO UInt32 := do
  match s.advance with
  | .error e => leave (some e)
  | .ok p =>
    for l in p.printed do IO.println l
    writeNotes directory p.notes
    if p.value.isOver then
      match p.value.close with
      | .error e => leave (some e)
      | .ok q => do
        writeNotes directory q.notes
        leave none
    else
      IO.sleep s.agent.config.tickMs.toUInt32
      play directory p.value

/-- What stood in the way of a directory, as the system tells it. -/
def obstacleOf : IO.Error → Directory.Obstacle
  | .alreadyExists .. => .occupied
  | .inappropriateType .. => .belowFile
  | .noFileOrDirectory .. => .missing
  | _ => .longName

def start (e : Environment) : IO UInt32 := do
  let directory := e.get? logDirectoryKey
  for d in directory do
    try IO.FS.createDirAll d
    catch error => return (← leave (some (.directory (obstacleOf error))))
  match Session.ofConfig (Config.ofEnvironment e) with
  | .error error => leave (some error)
  | .ok p =>
    writeNotes directory p.notes
    play directory p.value

def main (p : Platform) : IO UInt32 := do
  match environment p (← readEnvironment) (← readSettings) with
  | .error refusal => leave (some (.refused refusal))
  | .ok e => start e

end Arbiter.Simulation
