import Arbiter.Chain.Basic

/-!
Arbitration. Of the chains that are relevant and whose priority is a number, the most urgent
one is selected, and of equally urgent ones the first.
-/

namespace Arbiter

open Number

variable {κ τ χ : Type} [Task κ τ] [Chain κ τ χ]

/-- The claim of a chain to control: its priority, if it is relevant and the priority is a
number. -/
def claim? (c : χ) (k : κ) : Except Fault (Option Binary32) := do
  if ← Chain.isRelevant c k then
    let p := Chain.priority c k
    pure (if p.isNaN then none else some p)
  else pure none

/-- The holder of the best claim so far, after a further claim of the chain at `index`. -/
def better (best : Option (Nat × Binary32)) (index : Nat) (claim : Option Binary32) :
    Option (Nat × Binary32) :=
  match claim, best with
  | none, _ => best
  | some p, none => some (index, p)
  | some p, some (_, top) => if top.less p then some (index, p) else best

def selectFrom (k : κ) : List χ → Nat → Option (Nat × Binary32) →
    Except Fault (Option (Nat × Binary32))
  | [], _, best => pure best
  | c :: rest, index, best => do
    let claim ← claim? c k
    selectFrom k rest (index + 1) (better best index claim)

def select (chains : List χ) (k : κ) : Except Fault (Option Nat) := do
  let best ← selectFrom k chains 0 none
  pure (best.map Prod.fst)

end Arbiter
