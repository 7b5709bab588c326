import Arbiter.Proofs.World.Deeds

/-! How an agent fares that goes the way it is heading, deed by deed, and turns to the right when it
bumps into a blocked tile. The tile that it comes from is free, so that it is two quarter turns from
a way out wherever it gets to. -/

namespace Arbiter

/-! ## Quarter turns -/

def Direction.turned (d : Direction) : Nat → Direction
  | 0 => d
  | i + 1 => d.clockwise.turned i

/-- Three quarter turns are enough for any direction. -/
theorem Direction.exists_turned (d e : Direction) : ∃ i ≤ 3, d.turned i = e := by
  cases d <;> cases e <;> decide

/-- Two quarter turns lead back. -/
theorem Position.beside_turned (p : Position) (d : Direction) :
    (p.beside d).beside (d.turned 2) = p := by
  cases d <;> apply Position.ext <;>
    simp only [beside, Direction.turned, Direction.clockwise, Direction.dx, Direction.dy] <;> omega

/-! ## Rows of bumps -/

/-- Deeds of which a move comes after at most `i` bumps, and after any further move at most three
bumps before the next. -/
inductive Brisk : Nat → List Deed → Prop
  | nil {i : Nat} : Brisk i []
  | bump {i : Nat} {p : Position} {d : Direction} {deeds : List Deed} (h : Brisk i deeds) :
      Brisk (i + 1) (.bump p d :: deeds)
  | move {i : Nat} {p q : Position} {deeds : List Deed} (h : Brisk 3 deeds) :
      Brisk i (.move p q :: deeds)

namespace Brisk

variable {i j : Nat} {deeds later : List Deed}

theorem mono (h : Brisk i deeds) (hij : i ≤ j) : Brisk j deeds := by
  induction h generalizing j with
  | nil => exact .nil
  | bump h ih =>
      obtain ⟨j, rfl⟩ : ∃ k, j = k + 1 := ⟨j - 1, by omega⟩
      exact .bump (ih (by omega))
  | move h ih => exact .move h

theorem of_append (h : Brisk i (deeds ++ later)) : Brisk i deeds := by
  induction deeds generalizing i with
  | nil => exact .nil
  | cons d deeds ih =>
      cases h with
      | bump h => exact .bump (ih h)
      | move h => exact .move (ih h)

theorem append_right (h : Brisk 3 (deeds ++ later)) : Brisk 3 later := by
  induction deeds with
  | nil => exact h
  | cons d deeds ih =>
      cases h with
      | bump h => exact ih (h.mono (by decide))
      | move h => exact ih h

theorem length_le (h : Brisk i deeds) (hmove : ∀ p q, Deed.move p q ∉ deeds) :
    deeds.length ≤ i := by
  induction h with
  | nil => exact Nat.zero_le _
  | bump h ih => exact Nat.succ_le_succ (ih fun p q hpq => hmove p q (List.mem_cons_of_mem _ hpq))
  | move h ih => exact absurd List.mem_cons_self (hmove _ _)

theorem of_row {row : List Deed} (h : Brisk 3 deeds) (hrow : row <:+: deeds) : Brisk 3 row := by
  obtain ⟨earlier, later, rfl⟩ := hrow
  rw [List.append_assoc] at h
  exact h.append_right.of_append

theorem exists_move (h : Brisk 3 deeds) (hfour : 4 ≤ deeds.length) :
    ∃ p q, Deed.move p q ∈ deeds :=
  Classical.byContradiction fun hnone =>
    absurd (h.length_le fun p q hpq => hnone ⟨p, q, hpq⟩) (by omega)

end Brisk

namespace World

/-! ## Roaming -/

def roam (w : World) (d : Direction) : World × Direction :=
  if w.isBlocked (w.position.beside d) then (w.bumped d, d.clockwise)
  else (w.moved (w.position.beside d), d)

def roamed : Nat → World → Direction → World × Direction
  | 0, w, d => (w, d)
  | n + 1, w, d => roamed n (w.roam d).1 (w.roam d).2

/-- None of `n` more deeds leads off the grid. -/
def OnGrid : Nat → World → Direction → Prop
  | 0, _, _ => True
  | n + 1, w, d => (∃ q, w.position.step d = .ok q) ∧ OnGrid n (w.roam d).1 (w.roam d).2

/-- The agent is not walled in: it comes to a free tile after at most `i` quarter turns. -/
structure Outlet (w : World) (d : Direction) (i : Nat) : Prop where
  here : w.isBlocked w.position = false
  free : w.isBlocked (w.position.beside (d.turned i)) = false
  few : i ≤ 3

variable {w : World} {d : Direction} {i j n : Nat} {e : Fault}

theorem exists_outlet (hhere : w.isBlocked w.position = false)
    (hfree : ∃ e, w.isBlocked (w.position.beside e) = false) (d : Direction) :
    ∃ i, w.Outlet d i := by
  obtain ⟨e, he⟩ := hfree
  obtain ⟨i, hi, hturned⟩ := d.exists_turned e
  exact ⟨i, hhere, by rw [hturned]; exact he, hi⟩

/-- Every bump takes a quarter turn off, and every move leaves the tile behind it as a way out. -/
theorem Outlet.roam (h : w.Outlet d i) :
    (∃ j, i = j + 1 ∧ w.roam d = (w.bumped d, d.clockwise) ∧
      (w.bumped d).Outlet d.clockwise j) ∨
    (w.roam d = (w.moved (w.position.beside d), d) ∧
      (w.moved (w.position.beside d)).Outlet d 2) := by
  rw [World.roam]
  by_cases hblocked : w.isBlocked (w.position.beside d) = true
  · rw [if_pos hblocked]
    cases i with
    | zero => exact absurd (hblocked.symm.trans h.free) (by decide)
    | succ j => exact Or.inl ⟨j, rfl, rfl, h.here, h.free, Nat.le_of_succ_le h.few⟩
  · rw [if_neg hblocked]
    refine Or.inr ⟨rfl, Bool.eq_false_iff.mpr hblocked, ?_, by decide⟩
    show w.isBlocked ((w.position.beside d).beside (d.turned 2)) = false
    rw [Position.beside_turned]
    exact h.here

/-- A fault of an agent whose counters have no room for `n` deeds of which up to `i` bumps come
first. -/
def Strains (w : World) (i n : Nat) (e : Fault) : Prop :=
  e = .overflow ∧ (1 <<< 32 ≤ w.stuck + i ∨ 1 <<< 64 ≤ w.deedCount + n)

theorem Strains.mono (h : w.Strains i n e) {m : Nat} (hi : i ≤ j) (hn : n ≤ m) :
    w.Strains j m e :=
  ⟨h.1, h.2.imp (by omega) (by omega)⟩

theorem Outlet.next (h : w.Outlet d i) :
    ∃ j, (w.roam d).1.Outlet (w.roam d).2 j ∧
      ∀ n e, (w.roam d).1.Strains j n e → w.Strains i (n + 1) e := by
  rcases h.roam with ⟨j, rfl, hroam, hj⟩ | ⟨hroam, hout⟩
  · rw [hroam]
    refine ⟨j, hj, ?_⟩
    rintro n e ⟨he, hstuck | hdeeds⟩
    · have hstuck : 1 <<< 32 ≤ w.stuck + 1 + j := hstuck
      exact ⟨he, Or.inl (by omega)⟩
    · have hdeeds : 1 <<< 64 ≤ w.deedCount + 1 + n := hdeeds
      exact ⟨he, Or.inr (by omega)⟩
  · rw [hroam]
    refine ⟨2, hout, ?_⟩
    rintro n e ⟨he, hstuck | hdeeds⟩
    · exact absurd hstuck (show ¬ 1 <<< 32 ≤ 0 + 2 by decide)
    · have hdeeds : 1 <<< 64 ≤ w.deedCount + 1 + n := hdeeds
      exact ⟨he, Or.inr (by omega)⟩

/-- A try to move the way one is heading. -/
theorem tryMove_roams (h : w.Outlet d i) (hgrid : ∃ q, w.position.step d = .ok q) :
    (tryMove d).Meets w (w.Strains i 1) fun moved w' _ =>
      w.roam d = (w', if moved then d else d.clockwise) := by
  obtain ⟨q, hq⟩ := hgrid
  obtain rfl : q = w.position.beside d := Position.step_eq_ok hq
  rw [World.roam]
  cases hblocked : w.isBlocked (w.position.beside d) with
  | false =>
      refine (tryMove_meets hq hblocked).mono (fun e he => ⟨he.1, Or.inr he.2⟩) ?_
      rintro moved w' t ⟨rfl, rfl⟩
      rfl
  | true =>
      -- A tile that is blocked is not the way out.
      have hpositive : i ≠ 0 := by
        rintro rfl
        cases hblocked.symm.trans h.free
      refine (tryMove_bumps hq hblocked).mono ?_ ?_
      · exact fun e he => ⟨he.1, he.2.imp (by omega) fun h => h⟩
      · rintro moved w' t ⟨rfl, rfl⟩
        rfl

/-! ## Many deeds -/

theorem Outlet.brisk (h : w.Outlet d i) (n : Nat) :
    ∃ deeds, (roamed n w d).1.history = deeds.reverse ++ w.history ∧ deeds.length = n ∧
      Brisk i deeds := by
  induction n generalizing w d i with
  | zero => exact ⟨[], rfl, rfl, .nil⟩
  | succ n ih =>
      rcases h.roam with ⟨j, rfl, hroam, hj⟩ | ⟨hroam, hout⟩
      · obtain ⟨deeds, hhistory, hlength, hbrisk⟩ := ih hj
        refine ⟨.bump w.position d :: deeds, ?_, by rw [List.length_cons, hlength], .bump hbrisk⟩
        rw [roamed, hroam, hhistory]
        simp
      · obtain ⟨deeds, hhistory, hlength, hbrisk⟩ := ih hout
        refine ⟨.move w.position (w.position.beside d) :: deeds, ?_,
          by rw [List.length_cons, hlength], .move (hbrisk.mono (by decide))⟩
        rw [roamed, hroam, hhistory]
        simp

theorem roamed_stuck_le (n : Nat) (w : World) (d : Direction) :
    (roamed n w d).1.stuck ≤ w.stuck + n := by
  induction n generalizing w d with
  | zero => exact Nat.le_refl _
  | succ n ih =>
      have hroam : (w.roam d).1.stuck ≤ w.stuck + 1 := by
        rw [roam]
        split
        · exact Nat.le_refl _
        · exact Nat.zero_le _
      have hrest := ih (w.roam d).1 (w.roam d).2
      rw [roamed]
      omega

theorem Outlet.stuck_le (h : w.Outlet d i) (hn : i < n) : (roamed n w d).1.stuck ≤ 3 := by
  induction n generalizing w d i with
  | zero => omega
  | succ n ih =>
      rcases h.roam with ⟨j, rfl, hroam, hj⟩ | ⟨hroam, hout⟩
      · rw [roamed, hroam]
        exact ih hj (by omega)
      · rw [roamed, hroam]
        show (roamed n (w.moved (w.position.beside d)) d).1.stuck ≤ 3
        by_cases hdue : 2 < n
        · exact ih hout hdue
        · have hfew := roamed_stuck_le n (w.moved (w.position.beside d)) d
          have hzero : (w.moved (w.position.beside d)).stuck = 0 := rfl
          omega

end World

end Arbiter
