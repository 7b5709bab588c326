import Arbiter.Grid.Refuge
import Arbiter.World.Basic

/-! What tasks can do in the world, and what passes by itself. -/

namespace Arbiter.World

/-! ### Deeds -/

def record (d : Deed) : Act World Record Unit := do
  let w ← Act.get
  note .trace "leaf action" [("tick", toString w.tick), ("action", d.shown)]
  let count ← Act.ofExcept (count64 (w.deedCount + 1))
  Act.set { w with log := w.log.push d, deedCount := count }

/-- Moves one tile, unless the tile is blocked; a blocked move counts as being stuck. -/
def tryMove (d : Direction) : Act World Record Bool := do
  let w ← Act.get
  let target ← Act.ofExcept (w.position.step d)
  if w.isBlocked target then
    let stuck ← Act.ofExcept (count32 (w.stuck + 1))
    Act.set { w with stuck }
    record (.bump w.position d)
    pure false
  else
    Act.set { w with position := target, stuck := 0 }
    record (.move w.position target)
    pure true

/-- The mobs after a hit on the first one with an id, whose health is then given. A mob without
health left takes all mobs of its id with it. -/
def struck (damage id : Nat) (mobs : List Mob) : List Mob × Option Nat :=
  match mobs.find? fun m => m.id == id with
  | none => (mobs, none)
  | some m =>
    let left := m.health - damage
    if left = 0 then (mobs.filter fun n => n.id != id, some 0)
    else (hitFirst left mobs, some left)
where
  hitFirst (left : Nat) : List Mob → List Mob
    | [] => []
    | m :: rest =>
      if m.id == id then { m with health := left } :: rest else m :: hitFirst left rest

def attack (id : Nat) : Act World Record Unit := do
  record (.attack id)
  let w ← Act.get
  let (mobs, left) := struck w.rules.attackDamage id w.mobs
  if left = some 0 then note .debug "mob killed" [("mob", toString id)]
  Act.set { w with mobs }

def eat (i : Item) : Act World Record Bool := do
  let w ← Act.get
  match w.inventory.take? i with
  | none => pure false
  | some inventory =>
    Act.set { w with inventory, hunger := w.hunger - i.nourishment }
    record (.eat i)
    pure true

/-! ### Behaviour frames -/

def openFrame (label : String) : Act World Record Unit :=
  Act.modify fun w => { w with frames := w.frames.opened label }

def closeFrame : Act World Record Unit := do
  let w ← Act.get
  match w.frames with
  | [] => note .warn "behaviour stack popped while empty" []
  | _ :: rest => Act.set { w with frames := rest }

def protect (items : List Item) : Act World Record Unit := do
  let w ← Act.get
  match w.frames.protect? items with
  | none => note .warn "protected items added without a behaviour frame" []
  | some frames => Act.set { w with frames }

/-! ### Surroundings -/

def mobsWithin (w : World) (radius : Nat) : List Mob → Except Fault (List (Nat × Mob))
  | [] => pure []
  | m :: rest => do
    let d ← w.position.distance m.position
    let near ← mobsWithin w radius rest
    pure (if d ≤ radius then (d, m) :: near else near)

/-- Nearer, or as near with a lower id. -/
def closer (a b : Nat × Mob) : Bool := a.1 < b.1 || (a.1 == b.1 && a.2.id < b.2.id)

/-- The first of the closest. -/
def closest : List (Nat × Mob) → Option (Nat × Mob)
  | [] => none
  | a :: rest =>
    match closest rest with
    | none => some a
    | some b => if closer b a then some b else some a

/-- The nearest mob within a radius, of equally near ones that of the lowest id. -/
def nearestMob? (w : World) (radius : Nat) : Except Fault (Option Mob) := do
  let near ← w.mobsWithin radius w.mobs
  pure ((closest near).map Prod.snd)

def isSafe (w : World) (p : Position) : Bool := !w.isHazard p && !w.isBlocked p

def nearestSafe (w : World) : Except Fault Position := w.position.refuge w.isSafe

/-! ### The passing of time -/

/-- The hunger when the clock comes to a tick: it grows with the interval, up to its maximum. -/
def hungerAt (w : World) (tick : Nat) : Except Fault Nat :=
  let interval := w.rules.hungerInterval
  if 0 < interval && tick % interval == 0 then do
    let hunger ← count32 (w.hunger + 1)
    pure (min hunger maxHunger)
  else pure w.hunger

/-- One tick passes: hunger may grow, a hazard underfoot hurts. -/
def advance : Act World Record Unit := do
  let w ← Act.get
  let tick ← Act.ofExcept (count64 (w.tick + 1))
  let hunger ← Act.ofExcept (w.hungerAt tick)
  if w.onHazard then
    let health := w.health - w.rules.hazardDamage
    Act.set { w with tick, hunger, health }
    note .trace "hazard damage" [("health", toString health), ("position", w.position.text)]
  else Act.set { w with tick, hunger }

end Arbiter.World
