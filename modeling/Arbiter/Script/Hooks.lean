import Arbiter.Script.Basic
import Arbiter.Task.Basic

/-! The hooks of scripted tasks run their programs. -/

namespace Arbiter.Script

inductive Hook where
  | start
  | tick
  | stop
  deriving DecidableEq, Repr

/-- What a program has asked of the node so far. -/
structure Request where
  reply : Reply
  /-- The failure of the sub-task, until it is taken. -/
  childFailure : Option Failure := none
  candidate : Option Actor := none

namespace Program

/-- Runs a program in a hook. A stop hook has no say over its node, and only a tick hook chooses
a sub-task. -/
def run (hook : Hook) (ticks : Nat) (r : Request) : Program → Act Stage Record Request
  | done => pure r
  | log text rest => do
    Act.modify fun s => s.say (fill s.vars ticks text)
    rest.run hook ticks r
  | set var n rest => do
    Act.modify fun s => s.setVar var n
    rest.run hook ticks r
  | add var n rest => do
    let s ← Act.get
    let sum ← Act.ofExcept (signed64 (s.var var + n))
    Act.set (s.setVar var sum)
    rest.run hook ticks r
  | branch condition yes no rest => do
    let s ← Act.get
    let r ←
      if condition.holds s ticks none then yes.run hook ticks r else no.run hook ticks r
    rest.run hook ticks r
  | child name rest => do
    let s ← Act.get
    rest.run hook ticks
      (if hook = .tick then { r with candidate := some (s.actor name) } else r)
  | noChild rest =>
    rest.run hook ticks (if hook = .tick then { r with candidate := none } else r)
  | state text rest => do
    let s ← Act.get
    rest.run hook ticks
      (if hook = .stop then r
       else { r with reply := { r.reply with state := fill s.vars ticks text } })
  | fail text rest => do
    let s ← Act.get
    rest.run hook ticks
      (if hook = .stop then r
       else { r with reply := { r.reply with failure := some (fill s.vars ticks text) } })
  | echoState rest => do
    if hook ≠ .stop then Act.modify fun s => s.say ("state=" ++ r.reply.state)
    rest.run hook ticks r
  | childFailure rest =>
    if hook = .stop then rest.run hook ticks r
    else do
      let told :=
        match r.childFailure with
        | none => "none"
        | some f => f.text
      Act.modify fun s => s.say ("child failure: " ++ told)
      rest.run hook ticks
        { r with childFailure := none, reply := { r.reply with tookChildFailure := true } }

end Program

namespace Actor

def perform (a : Actor) (hook : Hook) (p : Program) (c : Control) : Act Stage Record Request :=
  p.run hook a.ticks { reply := c.unchanged, childFailure := c.childFailure }

def begin (a : Actor) (c : Control) : Act Stage Record (Actor × Reply) := do
  Act.modify fun s => s.say ("start " ++ a.name)
  let r ← a.perform .start a.definition.start c
  pure (a, r.reply)

def turn (a : Actor) (c : Control) : Act Stage Record (Turn Actor) := do
  let a := { a with ticks := a.ticks + 1 }
  Act.modify fun s => s.say ("tick " ++ a.name ++ " " ++ toString a.ticks)
  let r ← a.perform .tick a.definition.tick c
  pure { task := a, reply := r.reply, candidate := r.candidate }

def quit (a : Actor) (taker : Option Actor) : Act Stage Record Actor := do
  let by_ :=
    match taker with
    | none => ""
    | some t => " by " ++ t.label
  Act.modify fun s => s.say ("stop " ++ a.name ++ by_)
  let _ ← a.perform .stop a.definition.stop {}
  pure a

def isFinished (a : Actor) (s : Stage) : Except Fault Bool :=
  .ok (a.definition.finished.holds s a.ticks none)

def veto? (a : Actor) : Option (Stage → Option Actor → Bool) :=
  a.definition.force.map fun c s candidate => c.holds s a.ticks (some (candidate.map label))

instance : Task Stage Actor where
  onStart := begin
  onTick := turn
  onStop := quit
  isFinished := isFinished
  isEqual := isEqual
  label := label
  veto? := veto?

end Actor

end Arbiter.Script
