import Arbiter.Journal
import Arbiter.Status.Report

/-! Sinks receive the events of a run and may write log records of them. -/

namespace Arbiter

/-- What a run tells its sink. -/
inductive SinkEvent where
  | stateChanged (change : StateChange)
  /-- Control moved between chains; none stands for idle. -/
  | chainChanged (previous next : Option String)
  | tickFinished (report : Report)
  deriving DecidableEq, Repr

inductive Sink where
  /-- Writes nothing. -/
  | silent
  /-- Writes state changes and chain switches. -/
  | logging
  /-- Writes these and, if wanted, each status line that differs from the line before. -/
  | statusLine (wanted : Bool) (lastLine : String)
  deriving DecidableEq, Repr

namespace Sink

def line (wanted : Bool) : Sink := statusLine wanted ""

def chainName (name : Option String) : String := name.getD "(idle)"

/-- The record of an event, for the events that do not depend on earlier ones. -/
def note : SinkEvent → List Record
  | .stateChanged c => [⟨.debug, "state change", [("task", c.label), ("state", c.state)]⟩]
  | .chainChanged previous next =>
    [⟨.info, "chain switch", [("from", chainName previous), ("to", chainName next)]⟩]
  | .tickFinished _ => []

/-- The sink after an event, and what it wrote. -/
def receive : Sink → SinkEvent → Sink × List Record
  | silent, _ => (silent, [])
  | logging, e => (logging, note e)
  | statusLine wanted last, .tickFinished report =>
    let line := report.text
    if wanted && line != last then
      (statusLine wanted line, [⟨.info, "task chain", [("status", line)]⟩])
    else (statusLine wanted last, [])
  | statusLine wanted last, e => (statusLine wanted last, note e)

end Sink

end Arbiter
