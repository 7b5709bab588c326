import Arbiter.Grid.Tiles

/-! Sets of tiles, kept as the regions that were added and removed, so that a large one is cheap. -/

namespace Arbiter

/-- Tiles that are added or removed together. -/
inductive Region where
  | tiles (ts : Tiles)
  /-- The tiles between two corners, both included; none if the corners are the wrong way round. -/
  | rectangle (low high : Position)
  deriving DecidableEq, Repr

def Region.contains : Region → Position → Bool
  | tiles ts, p => ts.contains p
  | rectangle low high, p =>
    decide (low.x ≤ p.x) && decide (p.x ≤ high.x) && decide (low.y ≤ p.y) && decide (p.y ≤ high.y)

/-- A region that was added to an area, or removed. -/
structure Patch where
  region : Region
  added : Bool
  deriving DecidableEq, Repr

structure Area where
  /-- What was done to the empty area, latest first. -/
  patches : List Patch := []
  deriving DecidableEq, Repr

namespace Area

/-- The latest patch on a tile decides. -/
def contains (a : Area) (p : Position) : Bool :=
  match a.patches.find? fun c => c.region.contains p with
  | some c => c.added
  | none => false

/-- The patches with one more for these tiles. It goes into the latest one where that can be. -/
def patch (ps : List Position) (added : Bool) : List Patch → List Patch
  | ⟨.tiles ts, latest⟩ :: rest =>
    if latest = added then ⟨.tiles (ts.insertMany ps), latest⟩ :: rest
    else ⟨.tiles (({} : Tiles).insertMany ps), added⟩ :: ⟨.tiles ts, latest⟩ :: rest
  | patches => ⟨.tiles (({} : Tiles).insertMany ps), added⟩ :: patches

def add (ps : List Position) (a : Area) : Area := ⟨patch ps true a.patches⟩

def remove (ps : List Position) (a : Area) : Area := ⟨patch ps false a.patches⟩

def addRectangle (low high : Position) (a : Area) : Area :=
  ⟨⟨.rectangle low high, true⟩ :: a.patches⟩

/-! ### What is in an area -/

theorem contains_empty (p : Position) : ({} : Area).contains p = false := rfl

theorem contains_patch (ps : List Position) (added : Bool) (cs : List Patch) (p : Position) :
    contains ⟨patch ps added cs⟩ p = if ps.contains p then added else contains ⟨cs⟩ p := by
  unfold patch
  split
  · rename_i ts latest rest
    split
    · rename_i h
      subst h
      cases hp : ps.contains p <;> cases ht : ts.contains p <;>
        simp_all [contains, Region.contains, Tiles.contains_insertMany]
    · cases hp : ps.contains p <;>
        simp_all [contains, Region.contains, Tiles.contains_insertMany, Tiles.contains_empty]
  · cases hp : ps.contains p <;>
      simp_all [contains, Region.contains, Tiles.contains_insertMany, Tiles.contains_empty]

theorem contains_add (ps : List Position) (a : Area) (p : Position) :
    (a.add ps).contains p = (ps.contains p || a.contains p) := by
  rw [add, contains_patch]
  cases ps.contains p <;> rfl

theorem contains_remove (ps : List Position) (a : Area) (p : Position) :
    (a.remove ps).contains p = (!ps.contains p && a.contains p) := by
  rw [remove, contains_patch]
  cases ps.contains p <;> rfl

theorem contains_addRectangle (low high : Position) (a : Area) (p : Position) :
    (a.addRectangle low high).contains p =
      ((Region.rectangle low high).contains p || a.contains p) := by
  cases h : (Region.rectangle low high).contains p <;> simp [addRectangle, contains, h]

end Area

/-! ### Rectangles -/

/-- A rectangle is the list of its tiles. -/
theorem Region.contains_rectangle (a b p : Position) :
    (rectangle a b).contains p = (Position.rectangle a b).contains p := by
  rw [Bool.eq_iff_iff]
  simp [contains, Position.mem_rectangle, and_assoc]

end Arbiter
