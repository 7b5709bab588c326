import Arbiter.Simulation.Session

/-! The simulator as a command: what it prints and how it exits, for an environment. -/

namespace Arbiter.Simulation

def logDirectoryKey : String := "AGENT_LOG_DIR"

def settingsFile : String := ".env"

/-- What the command rests on: the system's files and the two libraries that have their say before
the program has its own. -/
structure Platform where
  files : Directory.FileSystem
  /-- Starts the workers that an environment asks for. -/
  startWorkers : Environment → Except Refusal Unit
  /-- Adds what a file of settings says to an environment. -/
  loadSettings : String → Environment → Except Refusal Environment

structure Effect where
  lines : List String
  errors : List String
  /-- None for a run that the system ends. -/
  exitCode : Option Nat
  /-- The directories that it makes for log files. -/
  directories : List Directory.Place
  deriving DecidableEq, Repr

/-! ### Before the first tick -/

variable (p : Platform)

/-- The environment of a run. The workers are started before the file of settings is read, if
there is one. -/
def environment (e : Environment) (file : Option String) : Except Refusal Environment := do
  p.startWorkers e
  match file with
  | none => .ok e
  | some text => p.loadSettings text e

/-- The length of the name of a log file: a stem with a dot and a date. -/
def logNameLength : Nat := 24

/-- Makes the directory for log files, if one is asked for, and a file in it; gives the
directories that were made. -/
def prepareLog (e : Environment) (file : Option String) :
    List Directory.Place × Option SessionError :=
  match e.bytes? logDirectoryKey with
  | none => ([], none)
  | some path =>
    let fs := p.files.withFiles (file.map fun _ => settingsFile).toList
    let making := Directory.make fs path
    let error :=
      match making.obstacle with
      | some o => some (.directory o)
      | none =>
        if Directory.admits path logNameLength && fs.takesFiles making.place then none
        else some .logFile
    (making.made, error)

/-! ### The run -/

def exit : Option SessionError → Option Nat × List String
  | none => (some 0, [])
  | some (.agent e) => (some 1, ["Error: " ++ e.message])
  | some (.directory o) => (some 1, ["Error: " ++ o.message])
  | some (.refused r) => (r.exitCode, r.errors)
  | some (.fault _) | some .logFile => (some 101, [])

def simulate (e : Environment) : List String × Option SessionError :=
  let config := Config.ofEnvironment e
  match Session.ofConfig config with
  | .error error => ([], some error)
  | .ok p => p.value.run config.maxTicks

/-- The whole run. A log that cannot be kept ends it before the settings are checked. -/
def run (e : Environment) (file : Option String) : Effect :=
  let (directories, lines, error) :=
    match environment p e file with
    | .error refusal => ([], [], some (.refused refusal))
    | .ok e =>
      match prepareLog p e file with
      | (directories, some error) => (directories, [], some error)
      | (directories, none) => (directories, simulate e)
  let (exitCode, errors) := exit error
  { lines, errors, exitCode, directories }

end Arbiter.Simulation
