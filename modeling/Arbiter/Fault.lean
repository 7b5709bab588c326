/-! Counters and coordinates are bounded. A sum past its bound is a fault, and a fault ends the run.
-/

namespace Arbiter

inductive Fault where
  /-- A sum left the range of its counter or coordinate. -/
  | overflow
  /-- Tasks delegate to fresh tasks beyond the nesting limit. -/
  | tooDeep
  deriving DecidableEq, Repr

namespace Fault

def message : Fault → String
  | overflow => "attempt to add with overflow"
  | tooDeep => "tasks are nested beyond the limit"

end Fault

def count32 (n : Nat) : Except Fault Nat :=
  if n < 1 <<< 32 then .ok n else .error .overflow

def count64 (n : Nat) : Except Fault Nat :=
  if n < 1 <<< 64 then .ok n else .error .overflow

def coordinate (z : Int) : Except Fault Int :=
  if -0x80000000 ≤ z ∧ z < 0x80000000 then .ok z else .error .overflow

/-- A signed number of 64 bits. -/
def signed64 (z : Int) : Except Fault Int :=
  if -0x8000000000000000 ≤ z ∧ z < 0x8000000000000000 then .ok z else .error .overflow

theorem count32_eq_ok_iff {n m : Nat} : count32 n = .ok m ↔ n < 1 <<< 32 ∧ n = m := by
  unfold count32
  by_cases h : n < 1 <<< 32
  · rw [if_pos h]; exact ⟨fun e => ⟨h, Except.ok.inj e⟩, fun e => by rw [e.2]⟩
  · rw [if_neg h]; exact ⟨nofun, fun e => absurd e.1 h⟩

theorem count64_eq_ok_iff {n m : Nat} : count64 n = .ok m ↔ n < 1 <<< 64 ∧ n = m := by
  unfold count64
  by_cases h : n < 1 <<< 64
  · rw [if_pos h]; exact ⟨fun e => ⟨h, Except.ok.inj e⟩, fun e => by rw [e.2]⟩
  · rw [if_neg h]; exact ⟨nofun, fun e => absurd e.1 h⟩

theorem coordinate_eq_ok_iff {z w : Int} :
    coordinate z = .ok w ↔ (-0x80000000 ≤ z ∧ z < 0x80000000) ∧ z = w := by
  unfold coordinate
  by_cases h : -0x80000000 ≤ z ∧ z < 0x80000000
  · rw [if_pos h]; exact ⟨fun e => ⟨h, Except.ok.inj e⟩, fun e => by rw [e.2]⟩
  · rw [if_neg h]; exact ⟨nofun, fun e => absurd e.1 h⟩

end Arbiter
