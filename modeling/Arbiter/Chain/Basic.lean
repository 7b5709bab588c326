import Arbiter.Number.Binary32
import Arbiter.Spine.Tick

/-!
Chains: the concerns that compete for control. A chain says whether it is relevant and how
urgent it is, and may hold a spine; stopping and interrupting it are the same for all chains.
-/

namespace Arbiter

open Number

/-- The chains `χ` whose tasks are `τ` over a context `κ`. -/
class Chain (κ τ : outParam Type) (χ : Type) where
  name : χ → String
  /-- Whether the chain wants control. -/
  isRelevant : χ → κ → Except Fault Bool
  /-- How urgent the chain is while it is relevant. -/
  priority : χ → κ → Binary32
  spine? : χ → Option (Spine τ)
  /-- The chain with its spine changed, if it holds one. -/
  mapSpine : χ → (Spine τ → Spine τ) → χ
  /-- One tick in control. -/
  tick : χ → Trace → Act κ (Happening τ) (χ × Trace)

namespace Chain

variable {κ τ χ : Type} [Task κ τ] [Chain κ τ χ]

def isActive (c : χ) : Bool :=
  match spine? c with
  | none => false
  | some s => s.root.active

def onSpine (c : χ) (act : Spine τ → Act κ (Happening τ) (Spine τ)) :
    Act κ (Happening τ) χ :=
  match spine? c with
  | none => pure c
  | some s => do
    let s' ← act s
    pure (mapSpine c fun _ => s')

def stop (c : χ) : Act κ (Happening τ) χ := onSpine c (Spine.stop none)

/-- Control moves to the chain `next`, or to none. -/
def interrupt (c : χ) (next : Option String) : Act κ (Happening τ) χ := do
  Act.note .debug "chain interrupted" [("chain", name c), ("next", Sink.chainName next)]
  stop c

end Chain

end Arbiter
