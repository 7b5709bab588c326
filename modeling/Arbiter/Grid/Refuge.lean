import Arbiter.Grid.Tiles

/-!
The nearest safe tile, by a search outward from a start. Every tile that is looked at in vain puts
its neighbours at the end of the frontier, unless they have been there before.
-/

namespace Arbiter

namespace Position

/-- Behind a tile that is farther away than this the search gives up. -/
def refugeRadius : Nat := 32

structure Search where
  /-- The tiles to look at, the next one first. -/
  frontier : List Position
  /-- All tiles that have been on the frontier. -/
  seen : Tiles

namespace Search

def ofStart (start : Position) : Search := ⟨[start], ({} : Tiles).insert start⟩

def push (s : Search) (p : Position) : Search :=
  if s.seen.contains p then s else ⟨s.frontier ++ [p], s.seen.insert p⟩

/-- Pushes the neighbours of a tile, of which each must be on the grid. -/
def spread (p : Position) : List Direction → Search → Except Fault Search
  | [], s => pure s
  | d :: rest, s => do
    let q ← p.step d
    spread p rest (s.push q)

/-! ### The search ends

Only tiles in a square around the start are ever pushed, and each of them once. -/

def square (start : Position) : List Position :=
  rectangle ⟨start.x - (refugeRadius + 1), start.y - (refugeRadius + 1)⟩
    ⟨start.x + (refugeRadius + 1), start.y + (refugeRadius + 1)⟩

theorem mem_square {start p : Position} (h : start.gap p ≤ refugeRadius + 1) :
    p ∈ square start := by
  unfold gap refugeRadius at h
  simp only [square, mem_rectangle, refugeRadius]
  omega

/-- How many tiles the search can look at yet. -/
def remaining (start : Position) (s : Search) : Nat :=
  ((square start).filter fun p => !s.seen.contains p).length + s.frontier.length

variable {start p : Position} {s t : Search}

theorem remaining_cons (start p : Position) (rest : List Position) (seen : Tiles) :
    remaining start ⟨p :: rest, seen⟩ = remaining start ⟨rest, seen⟩ + 1 := rfl

theorem remaining_push (h : p ∈ square start) : (s.push p).remaining start ≤ s.remaining start := by
  unfold push
  split
  · exact Nat.le_refl _
  · rename_i hp
    have hfewer : ((square start).filter fun q => !(s.seen.insert p).contains q).length <
        ((square start).filter fun q => !s.seen.contains q).length := by
      have hsplit : ((square start).filter fun q => !(s.seen.insert p).contains q) =
          ((square start).filter fun q => !s.seen.contains q).filter (· != p) := by
        rw [List.filter_filter]
        apply List.filter_congr
        intro q _
        rw [Tiles.contains_insert, Bool.not_or]
        rfl
      rw [hsplit]
      exact List.length_filter_lt_length_iff_exists.mpr
        ⟨p, List.mem_filter.mpr ⟨h, by simpa using hp⟩, by simp⟩
    simp only [remaining, List.length_append, List.length_singleton]
    omega

theorem remaining_spread (hp : start.gap p ≤ refugeRadius) {ds : List Direction}
    (h : spread p ds s = .ok t) : t.remaining start ≤ s.remaining start := by
  induction ds generalizing s with
  | nil => exact Nat.le_of_eq (congrArg _ (Except.ok.inj h).symm)
  | cons d ds ih =>
    rw [spread] at h
    cases hq : p.step d with
    | error e => rw [hq] at h; cases h
    | ok q =>
      rw [hq] at h
      have hgap := gap_triangle start p q
      rw [gap_of_step hq] at hgap
      exact Nat.le_trans (ih h) (remaining_push (mem_square (by omega)))

end Search

/-- Looks at the frontier until a tile is safe. The start is left if there is no such tile, or if a
tile on the way is too far off. -/
def flood (safe : Position → Bool) (start : Position) : Search → Except Fault Position
  | ⟨[], _⟩ => pure start
  | ⟨p :: rest, seen⟩ =>
    if safe p then pure p
    else
      match _ : start.distance p with
      | .error e => .error e
      | .ok distance =>
        if _ : refugeRadius < distance then pure start
        else
          match _ : Search.spread p Direction.all ⟨rest, seen⟩ with
          | .error e => .error e
          | .ok next => flood safe start next
termination_by s => s.remaining start
decreasing_by
  rename_i hdistance hnear hnext
  obtain ⟨-, rfl⟩ := distance_eq_ok_iff.mp hdistance
  have := Search.remaining_spread (Nat.le_of_not_lt hnear) hnext
  rw [Search.remaining_cons]
  omega

/-- The body of the search, without what shows that it ends. -/
theorem flood_cons (safe : Position → Bool) (start p : Position) (rest : List Position)
    (seen : Tiles) :
    flood safe start ⟨p :: rest, seen⟩ = (do
      if safe p then pure p
      else
        let distance ← start.distance p
        if refugeRadius < distance then pure start
        else
          let next ← Search.spread p Direction.all ⟨rest, seen⟩
          flood safe start next) := by
  rw [flood]
  by_cases hs : safe p = true
  · rw [if_pos hs, if_pos hs]
  · rw [if_neg hs, if_neg hs]
    cases start.distance p with
    | error e => rfl
    | ok distance =>
      by_cases hfar : refugeRadius < distance
      · simp [hfar, bind, Except.bind]
      · simp only [bind, Except.bind, hfar, if_false, dite_false]
        cases Search.spread p Direction.all ⟨rest, seen⟩ <;> rfl

def refuge (safe : Position → Bool) (start : Position) : Except Fault Position :=
  flood safe start (.ofStart start)

end Position

end Arbiter
