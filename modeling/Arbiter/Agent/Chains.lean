import Arbiter.Agent.Reactive
import Arbiter.Agent.UserChain

/-! The chains of an agent: reactive ones, the user's, and those that a host adds. -/

namespace Arbiter

open Number

inductive AgentChain where
  | reactive (chain : ReactiveChain)
  | user (chain : UserChain Job)
  | single (chain : SingleChain World Job)

namespace AgentChain

/-- The chain that holds the root. -/
def inner : AgentChain → SingleChain World Job
  | reactive c => c.inner
  | user c => c.inner
  | single c => c

def setInner (c : AgentChain) (inner : SingleChain World Job) : AgentChain :=
  match c with
  | reactive c => reactive { c with inner }
  | user c => user { c with inner }
  | single _ => single inner

def user? : AgentChain → Option (UserChain Job)
  | user c => some c
  | _ => none

def isRelevant (c : AgentChain) (w : World) : Except Fault Bool :=
  match c with
  | reactive c => c.isRelevant w
  | user c => Chain.isRelevant c w
  | single c => Chain.isRelevant c w

def tick (c : AgentChain) (trace : Trace) :
    Act World (Happening Job) (AgentChain × Trace) :=
  match c with
  | reactive c => do
    let (c, trace) ← c.tick trace
    pure (reactive c, trace)
  | user c => do
    let (c, trace) ← c.tick trace
    pure (user c, trace)
  | single c => do
    let (c, trace) ← c.tick trace
    pure (single c, trace)

instance : Chain World Job AgentChain where
  name c := c.inner.name
  isRelevant := isRelevant
  priority c w := c.inner.priority w
  spine? c := c.inner.spine
  mapSpine c f := c.setInner (Chain.mapSpine c.inner f)
  tick := tick

end AgentChain

end Arbiter
