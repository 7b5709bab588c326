import Arbiter.Job.Walking

/-! The hooks of all jobs. -/

namespace Arbiter.Job

def fight (mob : Nat) (c : Control) : Act World Record (Turn Job) := do
  let w ← Act.get
  match w.mob? mob with
  | none => pure { task := kill mob, reply := c.unchanged }
  | some m =>
    let d ← Act.ofExcept (w.position.distance m.position)
    if d ≤ 1 then
      World.attack mob
      pure
        { task := kill mob
          reply := { state := "attacking (" ++ toString m.health ++ " hp)" } }
    else
      pure
        { task := kill mob
          reply := { state := "approaching" }
          candidate := some (gotoWithin m.position 1) }

/-- Chews on the best food and eats it with the last bite. -/
def chew (chewing : Nat) (c : Control) : Act World Record (Turn Job) := do
  let w ← Act.get
  match w.inventory.bestFood? with
  | none =>
    pure { task := eat chewing, reply := { state := c.state, failure := some "no food" } }
  | some food =>
    let chewing ← Act.ofExcept (count32 (chewing + 1))
    let state := "chewing " ++ food.name
    if biteTicks ≤ chewing then
      let _ ← World.eat food
      pure { task := eat 0, reply := { state } }
    else pure { task := eat chewing, reply := { state } }

/-- A job starts afresh; eating opens a frame that protects all food. -/
def begin (j : Job) (c : Control) : Act World Record (Job × Reply) :=
  match j with
  | step s => pure (step s.restarted, c.unchanged)
  | goto g => pure (goto g.restarted, c.unchanged)
  | wander v => pure (wander v.restarted, c.unchanged)
  | kill mob => pure (kill mob, c.unchanged)
  | eat _ => do
    World.openFrame (eat 0).label
    World.protect Item.foods
    pure (eat 0, c.unchanged)
  | idle => pure (idle, c.unchanged)

def turn (j : Job) (c : Control) : Act World Record (Turn Job) :=
  match j with
  | step s => s.turn c
  | goto g => g.turn c
  | wander v => v.turn
  | kill mob => fight mob c
  | eat chewing => chew chewing c
  | idle => pure { task := idle, reply := { state := "waiting" } }

def quit (j : Job) : Act World Record Job :=
  match j with
  | eat chewing => do
    World.closeFrame
    pure (eat chewing)
  | _ => pure j

def isFinished (j : Job) (w : World) : Except Fault Bool :=
  match j with
  | step s => .ok s.landed
  | goto g => g.arrived w.position
  | wander v => .ok (v.duration ≤ v.elapsed)
  | kill mob => .ok (w.mob? mob).isNone
  | eat _ => .ok (w.hunger = 0)
  | idle => .ok false

/-- A step under way refuses to make room. -/
def veto? : Job → Option (World → Option Job → Bool)
  | step s => some fun _ _ => s.isUnderWay
  | _ => none

instance : Task World Job where
  onStart := begin
  onTick := turn
  onStop j _ := quit j
  isFinished := isFinished
  isEqual := isEqual
  label := label
  veto? := veto?

end Arbiter.Job
