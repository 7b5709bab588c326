/-! Log records: a severity, a message and named fields in the order in which they were given. -/

namespace Arbiter

inductive Severity where
  | error
  | warn
  | info
  | debug
  | trace
  deriving DecidableEq, Repr

namespace Severity

def name : Severity → String
  | error => "ERROR"
  | warn => "WARN"
  | info => "INFO"
  | debug => "DEBUG"
  | trace => "TRACE"

def parse? : String → Option Severity
  | "error" => some error
  | "warn" => some warn
  | "info" => some info
  | "debug" => some debug
  | "trace" => some trace
  | _ => none

/-- Zero for the most severe. -/
def rank : Severity → Nat
  | error => 0
  | warn => 1
  | info => 2
  | debug => 3
  | trace => 4

/-- A journal kept at a severity holds the records that are at least as severe. -/
def admits (limit s : Severity) : Bool := s.rank ≤ limit.rank

end Severity

structure Record where
  severity : Severity
  message : String
  fields : List (String × String)
  deriving DecidableEq, Repr

end Arbiter
