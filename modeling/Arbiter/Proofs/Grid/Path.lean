import Arbiter.Proofs.Grid.Rings

/-! The way to a tile: along the x axis first, then along the y axis. -/

namespace Arbiter

/-- The coordinate `n` steps on the way from `a` to `b`. -/
def coordinateAlong (a b : Int) (n : Nat) : Int := if a ≤ b then min (a + n) b else max (a - n) b

section Coordinate

variable {a b : Int} {n : Nat}

theorem natAbs_coordinateAlong (a b : Int) (n : Nat) :
    (coordinateAlong a b n - b).natAbs = (a - b).natAbs - n := by
  unfold coordinateAlong
  split <;> omega

theorem natAbs_sub_coordinateAlong (a b : Int) (n : Nat) :
    (a - coordinateAlong a b n).natAbs = min n (a - b).natAbs := by
  unfold coordinateAlong
  split <;> omega

theorem coordinateAlong_succ_of_lt (h : coordinateAlong a b n < b) :
    coordinateAlong a b (n + 1) = coordinateAlong a b n + 1 := by
  unfold coordinateAlong at *
  split <;> omega

theorem coordinateAlong_succ_of_gt (h : b < coordinateAlong a b n) :
    coordinateAlong a b (n + 1) = coordinateAlong a b n - 1 := by
  unfold coordinateAlong at *
  split <;> omega

end Coordinate

namespace Position

variable {p q : Position} {i n : Nat}

/-- The tile `i` steps on the way from `p` to `q`. -/
def along (p q : Position) (i : Nat) : Position :=
  ⟨coordinateAlong p.x q.x i, coordinateAlong p.y q.y (i - (p.x - q.x).natAbs)⟩

theorem along_zero (p q : Position) : p.along q 0 = p := by
  have hx := natAbs_sub_coordinateAlong p.x q.x 0
  have hy := natAbs_sub_coordinateAlong p.y q.y 0
  apply Position.ext
  · show coordinateAlong p.x q.x 0 = p.x
    omega
  · show coordinateAlong p.y q.y (0 - _) = p.y
    rw [Nat.zero_sub]
    omega

/-- The way is as short as it can be. -/
theorem gap_along (p q : Position) (i : Nat) : (p.along q i).gap q = p.gap q - i := by
  have hx := natAbs_coordinateAlong p.x q.x i
  have hy := natAbs_coordinateAlong p.y q.y (i - (p.x - q.x).natAbs)
  unfold gap
  dsimp only [along]
  omega

theorem gap_along_le (p q : Position) (i : Nat) : p.gap (p.along q i) ≤ i := by
  have hx := natAbs_sub_coordinateAlong p.x q.x i
  have hy := natAbs_sub_coordinateAlong p.y q.y (i - (p.x - q.x).natAbs)
  unfold gap
  dsimp only [along]
  omega

/-- A step towards the target from a tile of the way leads to the next one. -/
theorem along_succ {d : Direction} (hd : (p.along q i).towards? q = some d) :
    p.along q (i + 1) = (p.along q i).beside d := by
  have hx := natAbs_coordinateAlong p.x q.x i
  have hx' := natAbs_coordinateAlong p.x q.x (i + 1)
  unfold towards? along at hd
  dsimp only at hd
  -- Steps along the y axis begin when those along the x axis are done.
  split at hd
  case isTrue heast =>
    cases hd
    have hwait : i + 1 - (p.x - q.x).natAbs = i - (p.x - q.x).natAbs := by omega
    apply Position.ext
    · exact coordinateAlong_succ_of_lt heast
    · simp [along, beside, Direction.dy, hwait]
  case isFalse heast =>
    split at hd
    case isTrue hwest =>
      cases hd
      have hwait : i + 1 - (p.x - q.x).natAbs = i - (p.x - q.x).natAbs := by omega
      apply Position.ext
      · exact coordinateAlong_succ_of_gt hwest
      · simp [along, beside, Direction.dy, hwait]
    case isFalse hwest =>
      have hover : coordinateAlong p.x q.x (i + 1) = coordinateAlong p.x q.x i := by omega
      have hgo : i + 1 - (p.x - q.x).natAbs = i - (p.x - q.x).natAbs + 1 := by omega
      split at hd
      case isTrue hnorth =>
        cases hd
        apply Position.ext
        · simp [along, beside, Direction.dx, hover]
        · simp [along, beside, Direction.dy, hgo, coordinateAlong_succ_of_lt hnorth]
      case isFalse hnorth =>
        split at hd
        case isTrue hsouth =>
          cases hd
          apply Position.ext
          · simp [along, beside, Direction.dx, hover]
          · show coordinateAlong p.y q.y (i + 1 - (p.x - q.x).natAbs) = _
            rw [hgo, coordinateAlong_succ_of_gt hsouth]
            rfl
        case isFalse hsouth => cases hd

/-- The way between two tiles stays as far from the limits of the grid as they are. -/
theorem Inland.along (hp : p.Inland n) (hq : q.Inland n) (i : Nat) : (p.along q i).Inland n := by
  obtain ⟨hw, he, hs, hn⟩ := hp
  obtain ⟨hw', he', hs', hn'⟩ := hq
  constructor <;> simp only [Position.along, coordinateAlong] <;> omega

theorem step_beside {d : Direction} (h : (p.beside d).Inland 0) :
    p.step d = .ok (p.beside d) := by
  obtain ⟨hw, he, hs, hn⟩ := h
  have hx : coordinate (p.x + d.dx) = .ok (p.x + d.dx) :=
    coordinate_of_mem ⟨by simpa [beside] using hw, by simpa [beside] using he⟩
  have hy : coordinate (p.y + d.dy) = .ok (p.y + d.dy) :=
    coordinate_of_mem ⟨by simpa [beside] using hs, by simpa [beside] using hn⟩
  unfold Position.step shift
  rw [hx, hy]
  rfl

end Position

end Arbiter
