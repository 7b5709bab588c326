import Arbiter.Runner.Select

/-!
The runner: chains in the order of registration, of which at most one holds control. A tick
selects a chain, hands control over if it changes, ticks the chain and tells the sink.
-/

namespace Arbiter

structure Runner (χ : Type) where
  chains : List χ := []
  /-- The place of the chain in control. -/
  current : Option Nat := none
  enabled : Bool := true
  trace : Trace := {}
  sink : Sink := .logging

namespace Runner

variable {κ τ χ : Type} [Task κ τ] [Chain κ τ χ]

def withSink (sink : Sink) : Runner χ := { sink }

def currentChain (r : Runner χ) : Option χ := r.current.bind fun i => r.chains[i]?

def currentName (r : Runner χ) : Option String := r.currentChain.map Chain.name

def report (r : Runner χ) : Report :=
  { chain := r.currentName, spine := r.trace.spine, enabled := r.enabled }

def setChain (r : Runner χ) (i : Nat) (c : χ) : Runner χ := { r with chains := r.chains.set i c }

def emit (r : Runner χ) (e : SinkEvent) : Act κ (Happening τ) (Runner χ) := do
  Act.tell (.reported e)
  let (sink, notes) := r.sink.receive e
  Act.tellAll (notes.map .noted)
  pure { r with sink }

def emitAll (r : Runner χ) : List SinkEvent → Act κ (Happening τ) (Runner χ)
  | [] => pure r
  | e :: rest => do
    let r ← r.emit e
    r.emitAll rest

def register (r : Runner χ) (c : χ) : Act κ (Happening τ) (Nat × Runner χ) := do
  Act.note .debug "chain registered"
    [("chain", Chain.name c), ("index", toString r.chains.length)]
  pure (r.chains.length, { r with chains := r.chains ++ [c] })

def registerAll (r : Runner χ) : List χ → Act κ (Happening τ) (Runner χ)
  | [] => pure r
  | c :: rest => do
    let (_, r) ← r.register c
    r.registerAll rest

def nameAt (r : Runner χ) (place : Option Nat) : Option String :=
  (place.bind fun i => r.chains[i]?).map Chain.name

def interruptHolder (r : Runner χ) (next : Option String) : Act κ (Happening τ) (Runner χ) :=
  match r.current with
  | none => pure r
  | some i =>
    match r.chains[i]? with
    | none => pure r
    | some c => do
      let c ← Chain.interrupt c next
      pure (r.setChain i c)

/-- Control leaves its holder, who is interrupted first, and goes to the selected chain. -/
def handOver (r : Runner χ) (selected : Option Nat) : Act κ (Happening τ) (Runner χ) := do
  let next := r.nameAt selected
  let previous := r.currentName
  let r ← r.interruptHolder next
  let r ← r.emit (.chainChanged previous next)
  pure { r with current := selected }

/-- Control goes to the selected chain, unless that has it already. -/
def grant (r : Runner χ) (selected : Option Nat) : Act κ (Happening τ) (Runner χ) :=
  if selected = r.current then pure r else r.handOver selected

/-- Control is taken away from the chain that has it. -/
def release (r : Runner χ) : Act κ (Happening τ) (Runner χ) :=
  if r.current.isSome then r.handOver none else pure r

def tickChain (r : Runner χ) : Option Nat → Act κ (Happening τ) (Runner χ)
  | none => pure { r with trace := {} }
  | some i =>
    match r.chains[i]? with
    | none => pure { r with trace := {} }
    | some c => do
      let (c, trace) ← Chain.tick c {}
      pure { r.setChain i c with trace }

/-- One tick; nothing happens while the runner is disabled. -/
def tick (r : Runner χ) : Act κ (Happening τ) (Runner χ) :=
  if r.enabled then do
    let k ← Act.get
    let selected ← Act.ofExcept (select r.chains k)
    let r ← r.grant selected
    let r ← r.tickChain selected
    let r ← r.emitAll (r.trace.changes.map .stateChanged)
    r.emit (.tickFinished r.report)
  else pure r

def enable (r : Runner χ) : Act κ (Happening τ) (Runner χ) := do
  if r.enabled then pure r
  else
    Act.note .info "task runner enabled" []
    pure { r with enabled := true }

def stopAll : List χ → Act κ (Happening τ) (List χ)
  | [] => pure []
  | c :: rest => do
    let c ← Chain.stop c
    let rest ← stopAll rest
    pure (c :: rest)

/-- Stops every chain and takes control away; ticks do nothing until the runner is enabled. -/
def disable (r : Runner χ) : Act κ (Happening τ) (Runner χ) := do
  let chains ← stopAll r.chains
  let r ← ({ r with chains } : Runner χ).release
  if r.enabled then Act.note .info "task runner disabled" []
  pure { r with enabled := false, trace := {} }

/-- Stops the chain in control and takes control away; the chain keeps its root. -/
def stopCurrent (r : Runner χ) : Act κ (Happening τ) (Runner χ) :=
  match r.current with
  | none => pure r
  | some i =>
    match r.chains[i]? with
    | none => pure r
    | some c => do
      let c ← Chain.stop c
      let r ← (r.setChain i c).handOver none
      pure { r with trace := {} }

end Runner

end Arbiter
