import Arbiter.Chain.Single

/-!
A plain chain ticks its root and nothing else: it neither ends nor replaces it. How urgent it is,
and whether it is relevant, may depend on the spine that it holds. A lane is a chain of either
kind.
-/

namespace Arbiter

open Number

structure PlainChain (κ τ : Type) where
  name : String
  priority : Option (Spine τ) → κ → Binary32
  relevance : Option (Spine τ) → κ → Bool := fun _ _ => true
  spine : Option (Spine τ) := none

namespace PlainChain

variable {κ τ : Type} [Task κ τ]

def tick (c : PlainChain κ τ) (trace : Trace) :
    Act κ (Happening τ) (PlainChain κ τ × Trace) :=
  match c.spine with
  | none => pure (c, trace)
  | some s => do
    let (s, trace) ← s.tick trace
    pure ({ c with spine := some s }, trace)

instance : Chain κ τ (PlainChain κ τ) where
  name c := c.name
  isRelevant c k := .ok (c.relevance c.spine k)
  priority c k := c.priority c.spine k
  spine? c := c.spine
  mapSpine c f := { c with spine := c.spine.map f }
  tick := tick

end PlainChain

inductive Lane (κ τ : Type) where
  | single (chain : SingleChain κ τ)
  | plain (chain : PlainChain κ τ)

namespace Lane

variable {κ τ : Type} [Task κ τ]

def name : Lane κ τ → String
  | single c => c.name
  | plain c => c.name

def single? : Lane κ τ → Option (SingleChain κ τ)
  | single c => some c
  | plain _ => none

def plain? : Lane κ τ → Option (PlainChain κ τ)
  | plain c => some c
  | single _ => none

def tick (l : Lane κ τ) (trace : Trace) : Act κ (Happening τ) (Lane κ τ × Trace) :=
  match l with
  | single c => do
    let (c, trace) ← c.tick trace
    pure (single c, trace)
  | plain c => do
    let (c, trace) ← c.tick trace
    pure (plain c, trace)

instance : Chain κ τ (Lane κ τ) where
  name := name
  isRelevant
    | single c, k => Chain.isRelevant c k
    | plain c, k => Chain.isRelevant c k
  priority
    | single c, k => Chain.priority c k
    | plain c, k => Chain.priority c k
  spine?
    | single c => c.spine
    | plain c => c.spine
  mapSpine
    | single c, f => single (Chain.mapSpine c f)
    | plain c, f => plain (Chain.mapSpine c f)
  tick := tick

end Lane

end Arbiter
