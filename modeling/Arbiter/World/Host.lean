import Arbiter.World.Deeds

/-! Changes that a host makes to the world. -/

namespace Arbiter.World

def spawnMob (id : Nat) (position : Position) (health : Nat) : Act World Record Unit := do
  note .debug "mob spawned" [("mob", toString id), ("position", position.text)]
  Act.modify fun w => { w with mobs := w.mobs ++ [{ id, position, health }] }

/-- Puts every mob with the id on a tile. -/
def moveMob (id : Nat) (position : Position) (w : World) : World :=
  { w with mobs := w.mobs.map fun m => if m.id == id then { m with position } else m }

def removeMob (id : Nat) (w : World) : World :=
  { w with mobs := w.mobs.filter fun m => m.id != id }

def addHazards (ps : List Position) (w : World) : World := { w with hazards := w.hazards.add ps }

def addHazardRectangle (low high : Position) (w : World) : World :=
  { w with hazards := w.hazards.addRectangle low high }

def removeHazards (ps : List Position) (w : World) : World :=
  { w with hazards := w.hazards.remove ps }

def clearHazards (w : World) : World := { w with hazards := {} }

def block (ps : List Position) (w : World) : World := { w with blocked := w.blocked.add ps }

def blockRectangle (low high : Position) (w : World) : World :=
  { w with blocked := w.blocked.addRectangle low high }

def unblock (ps : List Position) (w : World) : World := { w with blocked := w.blocked.remove ps }

def clearBlocked (w : World) : World := { w with blocked := {} }

def give (i : Item) (n : Nat) : Act World Record Unit := do
  let w ← Act.get
  let inventory ← Act.ofExcept (w.inventory.add i n)
  Act.set { w with inventory }

/-- Takes one unit of an item away; tells whether one was carried. -/
def take (i : Item) : Act World Record Bool := do
  let w ← Act.get
  match w.inventory.take? i with
  | none => pure false
  | some inventory =>
    Act.set { w with inventory }
    pure true

end Arbiter.World
