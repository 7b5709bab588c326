import Arbiter.Fault
import Arbiter.Text.Format

/-! Tiles of the grid, the four directions, and the distance along the axes. -/

namespace Arbiter

inductive Direction where
  | north
  | south
  | east
  | west
  deriving DecidableEq, Repr

namespace Direction

/-- The order in which neighbours are visited. -/
def all : List Direction := [north, east, south, west]

def name : Direction → String
  | north => "North"
  | south => "South"
  | east => "East"
  | west => "West"

def parse? (s : String) : Option Direction := all.find? fun d => d.name == s

def dx : Direction → Int
  | east => 1
  | west => -1
  | _ => 0

def dy : Direction → Int
  | north => 1
  | south => -1
  | _ => 0

/-- The direction a quarter turn to the right. -/
def clockwise : Direction → Direction
  | north => east
  | east => south
  | south => west
  | west => north

/-- A neighbour differs in one coordinate, by one. -/
theorem natAbs_dx_add_natAbs_dy (d : Direction) : d.dx.natAbs + d.dy.natAbs = 1 := by
  cases d <;> rfl

theorem clockwise_four (d : Direction) : d.clockwise.clockwise.clockwise.clockwise = d := by
  cases d <;> rfl

theorem mem_all (d : Direction) : d ∈ all := by
  cases d <;> decide

end Direction

@[ext]
structure Position where
  x : Int
  y : Int
  deriving DecidableEq, Repr

namespace Position

def origin : Position := ⟨0, 0⟩

def text (p : Position) : String := "(" ++ toString p.x ++ ", " ++ toString p.y ++ ")"

def shown (p : Position) : String :=
  Text.fields "Position" [("x", toString p.x), ("y", toString p.y)]

/-- The tile at an offset; a fault outside the range of coordinates. -/
def shift (p : Position) (dx dy : Int) : Except Fault Position := do
  let x ← coordinate (p.x + dx)
  let y ← coordinate (p.y + dy)
  pure ⟨x, y⟩

def step (p : Position) (d : Direction) : Except Fault Position := p.shift d.dx d.dy

def gap (p q : Position) : Nat := (p.x - q.x).natAbs + (p.y - q.y).natAbs

/-- The distance along the axes; a fault where it does not fit a counter. -/
def distance (p q : Position) : Except Fault Nat := count32 (p.gap q)

def towards? (p target : Position) : Option Direction :=
  if p.x < target.x then some .east
  else if target.x < p.x then some .west
  else if p.y < target.y then some .north
  else if target.y < p.y then some .south
  else none

def order (p q : Position) : Ordering := (compare p.x q.x).then (compare p.y q.y)

/-- The integers from `lo` to `hi`, both included. -/
def span (lo hi : Int) : List Int :=
  (List.range (hi - lo + 1).toNat).map fun (i : Nat) => lo + i

def rectangle (a b : Position) : List Position :=
  (span a.x b.x).flatMap fun x => (span a.y b.y).map fun y => ⟨x, y⟩

theorem mem_span {lo hi i : Int} : i ∈ span lo hi ↔ lo ≤ i ∧ i ≤ hi := by
  simp only [span, List.mem_map, List.mem_range]
  constructor
  · rintro ⟨n, h, rfl⟩
    omega
  · intro h
    exact ⟨(i - lo).toNat, by omega, by omega⟩

theorem mem_rectangle {a b p : Position} :
    p ∈ rectangle a b ↔ (a.x ≤ p.x ∧ p.x ≤ b.x) ∧ (a.y ≤ p.y ∧ p.y ≤ b.y) := by
  simp only [rectangle, List.mem_flatMap, List.mem_map, mem_span]
  constructor
  · rintro ⟨x, hx, y, hy, rfl⟩
    exact ⟨hx, hy⟩
  · intro h
    exact ⟨p.x, h.1, p.y, h.2, rfl⟩

/-! ### Distance -/

theorem gap_self (p : Position) : p.gap p = 0 := by
  unfold gap; omega

theorem gap_comm (p q : Position) : p.gap q = q.gap p := by
  unfold gap; omega

theorem gap_triangle (p q r : Position) : p.gap r ≤ p.gap q + q.gap r := by
  unfold gap; omega

theorem gap_eq_zero_iff {p q : Position} : p.gap q = 0 ↔ p = q := by
  constructor
  · intro h
    unfold gap at h
    exact Position.ext (by omega) (by omega)
  · rintro rfl
    exact gap_self p

theorem distance_eq_ok_iff {p q : Position} {n : Nat} :
    p.distance q = .ok n ↔ p.gap q < 1 <<< 32 ∧ p.gap q = n := count32_eq_ok_iff

/-! ### Steps -/

/-- No direction leads towards the tile on which one stands, and only from there. -/
theorem towards?_eq_none_iff {p q : Position} : p.towards? q = none ↔ p = q := by
  rw [Position.ext_iff]
  unfold towards?
  split
  · simp only [reduceCtorEq, false_iff]; omega
  · split
    · simp only [reduceCtorEq, false_iff]; omega
    · split
      · simp only [reduceCtorEq, false_iff]; omega
      · split
        · simp only [reduceCtorEq, false_iff]; omega
        · simp only [true_iff]; omega

theorem step_eq_ok {p q : Position} {d : Direction} (h : p.step d = .ok q) :
    q = ⟨p.x + d.dx, p.y + d.dy⟩ := by
  unfold step shift at h
  cases hx : coordinate (p.x + d.dx) with
  | error e => rw [hx] at h; cases h
  | ok x =>
    cases hy : coordinate (p.y + d.dy) with
    | error e => rw [hx, hy] at h; cases h
    | ok y =>
      rw [hx, hy] at h
      rw [(coordinate_eq_ok_iff.mp hx).2, (coordinate_eq_ok_iff.mp hy).2]
      exact (Except.ok.inj h).symm

theorem gap_of_step {p q : Position} {d : Direction} (h : p.step d = .ok q) : p.gap q = 1 := by
  rw [step_eq_ok h]
  cases d <;> simp only [gap, Direction.dx, Direction.dy] <;> omega

/-- A step towards a target brings it nearer by one. -/
theorem gap_of_step_towards {p q target : Position} {d : Direction}
    (ht : p.towards? target = some d) (h : p.step d = .ok q) :
    p.gap target = q.gap target + 1 := by
  rw [step_eq_ok h]
  unfold towards? at ht
  split at ht
  · cases ht; simp only [gap, Direction.dx, Direction.dy]; omega
  · split at ht
    · cases ht; simp only [gap, Direction.dx, Direction.dy]; omega
    · split at ht
      · cases ht; simp only [gap, Direction.dx, Direction.dy]; omega
      · split at ht
        · cases ht; simp only [gap, Direction.dx, Direction.dy]; omega
        · cases ht

end Position

end Arbiter
