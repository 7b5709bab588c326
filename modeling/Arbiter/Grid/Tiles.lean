import Arbiter.Grid.Position

/-! Sets of single tiles. The tiles are spread over buckets, so that one is found at once. -/

namespace Arbiter

def bucketCount : Nat := 1024

/-- The bucket of a tile. Tiles of one row, and those of one column, are spread evenly. -/
def Position.bucket (p : Position) : Fin bucketCount :=
  ⟨((37 * p.x + p.y) % bucketCount).toNat, by unfold bucketCount; omega⟩

structure Tiles where
  buckets : Vector (List Position) bucketCount := Vector.replicate bucketCount []
  deriving DecidableEq, Repr

namespace Tiles

def contains (t : Tiles) (p : Position) : Bool := t.buckets[p.bucket].contains p

def insert (t : Tiles) (p : Position) : Tiles :=
  ⟨t.buckets.set p.bucket (p :: t.buckets[p.bucket])⟩

def insertMany (t : Tiles) (ps : List Position) : Tiles := ps.foldl insert t

theorem contains_empty (p : Position) : ({} : Tiles).contains p = false := by
  simp [contains]

theorem contains_insert (t : Tiles) (p q : Position) :
    (t.insert p).contains q = (q == p || t.contains q) := by
  by_cases hq : p.bucket = q.bucket
  · by_cases h : q = p <;> simp [insert, contains, hq, h]
  · have hn : q ≠ p := fun h => hq (by rw [h])
    have hv : (p.bucket : Nat) ≠ q.bucket := fun h => hq (Fin.ext h)
    simp [insert, contains, hv, hn]

theorem contains_insertMany (t : Tiles) (ps : List Position) (p : Position) :
    (t.insertMany ps).contains p = (ps.contains p || t.contains p) := by
  induction ps generalizing t with
  | nil => simp [insertMany]
  | cons q ps ih =>
    rw [insertMany, List.foldl_cons, ← insertMany, ih, contains_insert, List.contains_cons]
    cases p == q <;> simp

end Tiles

end Arbiter
