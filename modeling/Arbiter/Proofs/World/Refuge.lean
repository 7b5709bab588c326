import Mathlib.Data.Nat.Find
import Arbiter.World.Deeds
import Arbiter.Proofs.Grid.Refuge

/-! The refuge of an agent: a nearest safe tile wherever one lies within the radius of the
search. -/

namespace Arbiter.World

theorem isSafe_iff {w : World} {p : Position} :
    w.isSafe p = true ↔ w.isHazard p = false ∧ w.isBlocked p = false := by
  simp [isSafe]

/-- The search from a tile that is not too close to a limit of the grid. It finds a nearest safe
tile if one is no farther than 32 steps; else it tries the tile 33 steps to the north, and stays
if that is not safe either. -/
theorem nearestSafe_spec (w : World) (hstart : w.position.Inland 33) :
    ∃ p, w.nearestSafe = .ok p ∧
      ((∃ q, w.position.gap q ≤ 32 ∧ w.isHazard q = false ∧ w.isBlocked q = false) →
        (w.isHazard p = false ∧ w.isBlocked p = false) ∧ w.position.gap p ≤ 32 ∧
          ∀ q, w.isHazard q = false ∧ w.isBlocked q = false →
            w.position.gap p ≤ w.position.gap q) ∧
      ((¬ ∃ q, w.position.gap q ≤ 32 ∧ w.isHazard q = false ∧ w.isBlocked q = false) →
        p = if w.isHazard ⟨w.position.x, w.position.y + 33⟩ = false ∧
            w.isBlocked ⟨w.position.x, w.position.y + 33⟩ = false
          then ⟨w.position.x, w.position.y + 33⟩ else w.position) := by
  simp only [← isSafe_iff]
  by_cases hsome : ∃ q, w.position.gap q ≤ 32 ∧ w.isSafe q = true
  · -- the nearest of all distances at which a tile is safe
    have hdistance : ∃ d, ∃ q, w.position.gap q = d ∧ w.isSafe q = true := by
      obtain ⟨q, -, hq⟩ := hsome
      exact ⟨_, q, rfl, hq⟩
    classical
    have hmin : ∀ q, w.isSafe q = true → Nat.find hdistance ≤ w.position.gap q :=
      fun q hq => Nat.find_min' hdistance ⟨q, rfl, hq⟩
    have hd : Nat.find hdistance ≤ 32 := by
      obtain ⟨q, hq, hsafe⟩ := hsome
      exact Nat.le_trans (hmin q hsafe) hq
    have hnear : ∀ q, w.position.gap q < Nat.find hdistance → w.isSafe q = false := by
      intro q hq
      rw [Bool.eq_false_iff]
      intro hsafe
      have := hmin q hsafe
      omega
    obtain ⟨p, hp, hgap, hsafe⟩ :=
      Position.refuge_nearest (hstart.mono (by omega)) hd hnear (Nat.find_spec hdistance)
    refine ⟨p, hp, fun _ => ⟨hsafe, by omega, ?_⟩, fun hnone => absurd hsome hnone⟩
    intro q hq
    rw [hgap]
    exact hmin q hq
  · have hbare : ∀ q, w.position.gap q ≤ Position.refugeRadius → w.isSafe q = false := by
      intro q hq
      rw [Bool.eq_false_iff]
      exact fun hsafe => hsome ⟨q, hq, hsafe⟩
    have hnorth : w.position.around (Position.northmost (Position.refugeRadius + 1)) =
        ⟨w.position.x, w.position.y + 33⟩ := by
      simp [Position.around, Position.northmost, Position.refugeRadius]
    have hbeyond := Position.refuge_beyond hstart hbare
    rw [hnorth] at hbeyond
    exact ⟨_, hbeyond, fun h => absurd h hsome, fun _ => rfl⟩

/-- A field of hazards that reaches as far as the search, and no farther to the north. -/
def wasteland : World :=
  { hazards := ({} : Area).addRectangle ⟨-40, -40⟩ ⟨40, 32⟩ }

theorem wasteland_isHazard {p : Position} :
    wasteland.isHazard p = true ↔ -40 ≤ p.x ∧ p.x ≤ 40 ∧ -40 ≤ p.y ∧ p.y ≤ 32 := by
  show Area.contains (Area.addRectangle ⟨-40, -40⟩ ⟨40, 32⟩ {}) p = true ↔ _
  rw [Area.contains_addRectangle]
  simp [Region.contains, Area.contains_empty, and_assoc]

theorem nearestSafe_wasteland :
    wasteland.position.Inland 33 ∧ wasteland.nearestSafe = .ok ⟨0, 33⟩ := by
  have hinland : wasteland.position.Inland 33 :=
    ⟨by decide, by decide, by decide, by decide⟩
  obtain ⟨p, hp, -, hnone⟩ := nearestSafe_spec wasteland hinland
  refine ⟨hinland, ?_⟩
  have hbare : ¬ ∃ q, wasteland.position.gap q ≤ 32 ∧ wasteland.isHazard q = false ∧
      wasteland.isBlocked q = false := by
    rintro ⟨q, hq, hfree, -⟩
    have hgap : (0 - q.x).natAbs + (0 - q.y).natAbs ≤ 32 := hq
    have : wasteland.isHazard q = true := wasteland_isHazard.mpr (by omega)
    simp [this] at hfree
  rw [hp, hnone hbare]
  decide

end Arbiter.World
