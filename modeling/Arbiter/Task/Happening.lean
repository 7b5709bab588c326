import Arbiter.Task.Basic
import Arbiter.Status.Sink

/-!
What happens in a run: hook calls, tasks dropped by their holder, events for the sink and log
records, in one order.
-/

namespace Arbiter

inductive Happening (τ : Type) where
  | started (task : τ)
  | ticked (task : τ)
  | stopped (task : τ) (taker : Option τ)
  /-- Its node or chain no longer holds the task. -/
  | dropped (task : τ)
  | reported (event : SinkEvent)
  | noted (record : Record)
  deriving DecidableEq

namespace Happening

variable {τ : Type}

def record? : Happening τ → Option Record
  | noted r => some r
  | _ => none

def event? : Happening τ → Option SinkEvent
  | reported e => some e
  | _ => none

/-- Whether this is a call of a task's hook. -/
def isHook : Happening τ → Bool
  | started _ | ticked _ | stopped _ _ => true
  | _ => false

end Happening

def records {τ : Type} (trail : List (Happening τ)) : List Record :=
  trail.filterMap Happening.record?

def events {τ : Type} (trail : List (Happening τ)) : List SinkEvent :=
  trail.filterMap Happening.event?

/-! ### Views of a trail -/

variable {τ : Type}

theorem records_append (s t : List (Happening τ)) :
    records (s ++ t) = records s ++ records t := List.filterMap_append

theorem events_append (s t : List (Happening τ)) :
    events (s ++ t) = events s ++ events t := List.filterMap_append

theorem records_map_noted (rs : List Record) :
    records (rs.map (Happening.noted : Record → Happening τ)) = rs := by
  induction rs with
  | nil => rfl
  | cons r rs ih => exact congrArg (r :: ·) ih

theorem events_map_noted (rs : List Record) :
    events (rs.map (Happening.noted : Record → Happening τ)) = [] := by
  induction rs with
  | nil => rfl
  | cons r rs ih => exact ih

namespace Act

variable {κ τ α : Type}

def note (severity : Severity) (message : String) (fields : List (String × String)) :
    Act κ (Happening τ) Unit :=
  tell (.noted ⟨severity, message, fields⟩)

/-- Calls a hook: the call is on the trail before the records that it writes. -/
def call (h : Happening τ) (hook : Act κ Record α) : Act κ (Happening τ) α := do
  tell h
  mapTrail .noted hook

end Act

end Arbiter
