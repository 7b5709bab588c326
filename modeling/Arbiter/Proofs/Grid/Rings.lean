import Arbiter.Grid.Refuge

/-! The tiles around a start in rings. Ring `d` holds the tiles at distance `d`, in the order in
which the tiles of the ring before reach them, each going north, east, south and west. The rings
are the same around every start, so they are laid out once, around the origin. -/

namespace Arbiter

/-! ## Limits of the grid -/

theorem coordinate_of_mem {z : Int} (h : -0x80000000 ≤ z ∧ z < 0x80000000) : coordinate z = .ok z :=
  coordinate_eq_ok_iff.mpr ⟨h, rfl⟩

namespace Position

/-- All tiles up to a distance are on the grid. -/
structure Inland (p : Position) (distance : Nat) : Prop where
  west : -0x80000000 ≤ p.x - distance
  east : p.x + distance < 0x80000000
  south : -0x80000000 ≤ p.y - distance
  north : p.y + distance < 0x80000000

structure Central (p : Position) : Prop where
  x : p.x.natAbs < 1 <<< 29
  y : p.y.natAbs < 1 <<< 29

def beside (p : Position) (d : Direction) : Position := ⟨p.x + d.dx, p.y + d.dy⟩

theorem gap_beside (p : Position) (d : Direction) : p.gap (p.beside d) = 1 := by
  cases d <;> simp only [gap, beside, Direction.dx, Direction.dy] <;> omega

theorem Inland.step {p q : Position} {n : Nat} (h : p.Inland (n + 1)) (hq : p.gap q ≤ n)
    (d : Direction) : q.step d = .ok (q.beside d) := by
  obtain ⟨hw, he, hs, hn⟩ := h
  have hgap : (p.x - q.x).natAbs + (p.y - q.y).natAbs ≤ n := hq
  have hx : coordinate (q.x + d.dx) = .ok (q.x + d.dx) := by
    cases d <;> refine coordinate_of_mem ?_ <;> simp only [Direction.dx] <;> omega
  have hy : coordinate (q.y + d.dy) = .ok (q.y + d.dy) := by
    cases d <;> refine coordinate_of_mem ?_ <;> simp only [Direction.dy] <;> omega
  unfold Position.step shift
  rw [hx, hy]
  rfl

theorem Inland.mono {p : Position} {m n : Nat} (h : p.Inland n) (hmn : m ≤ n) : p.Inland m := by
  obtain ⟨hw, he, hs, hn⟩ := h
  exact ⟨by omega, by omega, by omega, by omega⟩

theorem inland_of_gap {p : Position} {n : Nat} (h : origin.gap p + n < 1 <<< 31) : p.Inland n := by
  have hgap : (0 - p.x).natAbs + (0 - p.y).natAbs + n < 1 <<< 31 := h
  exact ⟨by omega, by omega, by omega, by omega⟩

/-! ## Rings -/

/-- The neighbours of a tile that are farther from the origin than the tile itself. -/
def outward (p : Position) : List Position :=
  (Direction.all.map p.beside).filter fun q => decide (origin.gap p < origin.gap q)

def appendNew (seen : List Position) : List Position → List Position
  | [] => seen
  | p :: rest => appendNew (if p ∈ seen then seen else seen ++ [p]) rest

def nextRing (ring : List Position) : List Position :=
  ring.foldl (fun seen p => appendNew seen p.outward) []

def ringsFrom : Nat → List Position → List (List Position)
  | 0, ring => [ring]
  | count + 1, ring => ring :: ringsFrom count (nextRing ring)

/-- The rings in which a refuge is searched, and the one after them. -/
def rings : List (List Position) := ringsFrom (refugeRadius + 1) [origin]

theorem mem_appendNew {p : Position} {seen more : List Position} :
    p ∈ appendNew seen more ↔ p ∈ seen ∨ p ∈ more := by
  induction more generalizing seen with
  | nil => simp [appendNew]
  | cons q more ih =>
      rw [appendNew, ih, List.mem_cons]
      by_cases hq : q ∈ seen
      · have hp : p = q → p ∈ seen := fun h => h ▸ hq
        simp only [hq, if_true]
        grind
      · simp only [hq, if_false, List.mem_append, List.mem_singleton, or_assoc]

theorem mem_nextRing {p : Position} {ring : List Position} :
    p ∈ nextRing ring ↔ ∃ q ∈ ring, p ∈ q.outward := by
  have h : ∀ seen : List Position,
      p ∈ ring.foldl (fun seen q => appendNew seen q.outward) seen ↔
        p ∈ seen ∨ ∃ q ∈ ring, p ∈ q.outward := by
    induction ring with
    | nil => simp
    | cons q ring ih =>
        intro seen
        simp [ih, mem_appendNew, or_assoc]
  simpa [nextRing] using h []

theorem mem_outward {p q : Position} :
    p ∈ q.outward ↔ ∃ d, p = q.beside d ∧ origin.gap q < origin.gap p := by
  simp only [outward, List.mem_filter, List.mem_map, decide_eq_true_eq]
  constructor
  · rintro ⟨⟨d, -, rfl⟩, h⟩
    exact ⟨d, rfl, h⟩
  · rintro ⟨d, rfl, h⟩
    exact ⟨⟨d, Direction.mem_all d, rfl⟩, h⟩

/-- The list holds exactly the tiles at a distance from the origin. -/
def IsRing (distance : Nat) (ring : List Position) : Prop :=
  ∀ p, p ∈ ring ↔ origin.gap p = distance

theorem isRing_origin : IsRing 0 [origin] := by
  intro p
  rw [List.mem_singleton, gap_eq_zero_iff, eq_comm]

/-- A tile off the origin has a neighbour that is nearer to the origin. -/
theorem exists_inward {p : Position} {n : Nat} (h : origin.gap p = n + 1) :
    ∃ q d, p = q.beside d ∧ origin.gap q = n := by
  have hstep : ∀ d : Direction, p = (⟨p.x - d.dx, p.y - d.dy⟩ : Position).beside d := by
    intro d
    simp [beside]
  suffices ∃ d : Direction, origin.gap ⟨p.x - d.dx, p.y - d.dy⟩ = n by
    obtain ⟨d, hd⟩ := this
    exact ⟨_, d, hstep d, hd⟩
  simp only [gap, origin] at h ⊢
  by_cases hx : p.x = 0
  · by_cases hy : 0 < p.y
    · exact ⟨.north, by simp only [Direction.dx, Direction.dy]; omega⟩
    · exact ⟨.south, by simp only [Direction.dx, Direction.dy]; omega⟩
  · by_cases hx' : 0 < p.x
    · exact ⟨.east, by simp only [Direction.dx, Direction.dy]; omega⟩
    · exact ⟨.west, by simp only [Direction.dx, Direction.dy]; omega⟩

theorem IsRing.next {n : Nat} {ring : List Position} (h : IsRing n ring) :
    IsRing (n + 1) (nextRing ring) := by
  intro p
  rw [mem_nextRing]
  constructor
  · rintro ⟨q, hq, hp⟩
    obtain ⟨d, rfl, hlt⟩ := mem_outward.mp hp
    have hn := (h q).mp hq
    have hle := gap_triangle origin q (q.beside d)
    rw [gap_beside] at hle
    omega
  · intro hp
    obtain ⟨q, d, rfl, hq⟩ := exists_inward hp
    exact ⟨q, (h q).mpr hq, mem_outward.mpr ⟨d, rfl, by omega⟩⟩

def northmost (distance : Nat) : Position := ⟨0, distance⟩

theorem head?_appendNew {p : Position} {seen : List Position} (more : List Position)
    (h : seen.head? = some p) : (appendNew seen more).head? = some p := by
  induction more generalizing seen with
  | nil => exact h
  | cons q more ih =>
      rw [appendNew]
      apply ih
      by_cases hq : q ∈ seen
      · simpa [hq] using h
      · simp [hq, h]

theorem head?_outward_northmost (n : Nat) :
    (northmost n).outward.head? = some (northmost (n + 1)) := by
  have hgap : ∀ k : Nat, origin.gap (northmost k) = k := by
    intro k
    simp only [gap, origin, northmost]
    omega
  have hnorth : (northmost n).beside Direction.north = northmost (n + 1) := by
    simp [beside, northmost, Direction.dx, Direction.dy]
  simp [outward, Direction.all, hnorth, hgap]

/-- Each ring is entered at its northmost tile. -/
theorem head?_nextRing {n : Nat} {ring : List Position} (h : ring.head? = some (northmost n)) :
    (nextRing ring).head? = some (northmost (n + 1)) := by
  cases ring with
  | nil => cases h
  | cons p ring =>
      obtain rfl : p = northmost n := Option.some.inj h
      have hfold : ∀ seen : List Position, seen.head? = some (northmost (n + 1)) →
          (ring.foldl (fun seen q => appendNew seen q.outward) seen).head? =
            some (northmost (n + 1)) := by
        clear h
        induction ring with
        | nil => exact fun _ h => h
        | cons q ring ih => exact fun _ h => ih _ (head?_appendNew _ h)
      apply hfold
      cases ho : (northmost n).outward with
      | nil =>
          have := head?_outward_northmost n
          simp [ho] at this
      | cons q more =>
          have hq : q = northmost (n + 1) := by
            simpa [ho] using head?_outward_northmost n
          show (appendNew [] (northmost n).outward).head? = _
          rw [ho, hq]
          exact head?_appendNew more rfl

/-! ## The search of rings -/

def around (start offset : Position) : Position := ⟨start.x + offset.x, start.y + offset.y⟩

/-- The rings keep their distances around every start. -/
theorem gap_around (start offset : Position) :
    start.gap (start.around offset) = origin.gap offset := by
  simp only [gap, around, origin]
  omega

def survey (p : Position) : Except Fault Unit :=
  Direction.all.forM fun d => do
    let _ ← p.step d

def searchRing (safe : Position → Bool) (start : Position) :
    List Position → Except Fault (Option Position)
  | [] => pure none
  | offset :: rest =>
    let p := start.around offset
    if safe p then pure (some p)
    else do
      p.survey
      searchRing safe start rest

/-- Searches rings in turn. Of the last one only the first tile counts. -/
def searchRings (safe : Position → Bool) (start : Position) :
    List (List Position) → Except Fault (Option Position)
  | [] => pure none
  | [ring] => pure ((ring.head?.map start.around).filter safe)
  | ring :: rest => do
    match ← searchRing safe start ring with
    | some p => pure (some p)
    | none => searchRings safe start rest

theorem Inland.survey {p q : Position} {n : Nat} (h : p.Inland (n + 1)) (hq : p.gap q ≤ n) :
    q.survey = .ok () := by
  have hd := h.step hq
  simp only [Position.survey, Direction.all, List.forM, hd]
  rfl

section Search

variable {safe : Position → Bool} {start : Position}

/-- Away from the limits of the grid a ring is searched for its first safe tile. -/
theorem searchRing_eq_find? (safe : Position → Bool) {ring : List Position}
    (h : ∀ offset ∈ ring, (start.around offset).survey = .ok ()) :
    searchRing safe start ring = .ok ((ring.map start.around).find? safe) := by
  induction ring with
  | nil => rfl
  | cons offset ring ih =>
      rw [searchRing, List.map_cons, List.find?_cons]
      by_cases hs : safe (start.around offset)
      · simp [hs]
        rfl
      · have hrest := ih fun o ho => h o (List.mem_cons_of_mem _ ho)
        simp [hs, h offset List.mem_cons_self, hrest]
        rfl

namespace IsRing

variable {n : Nat} {ring : List Position} (h : IsRing n ring)

include h

theorem gap_eq (start : Position) : ∀ offset ∈ ring, start.gap (start.around offset) = n := by
  intro offset ho
  rw [gap_around, (h offset).mp ho]

theorem search_eq (hstart : start.Inland (n + 1)) :
    searchRing safe start ring = .ok ((ring.map start.around).find? safe) :=
  searchRing_eq_find? safe fun offset ho => hstart.survey (Nat.le_of_eq (h.gap_eq start offset ho))

theorem find?_bare (hbare : ∀ p, start.gap p = n → safe p = false) :
    (ring.map start.around).find? safe = none := by
  rw [List.find?_eq_none]
  intro p hp
  obtain ⟨offset, ho, rfl⟩ := List.mem_map.mp hp
  simp [hbare _ (h.gap_eq start offset ho)]

end IsRing

theorem searchRings_cons (ring next : List Position) (count : Nat) :
    searchRings safe start (ring :: ringsFrom count next) =
      (do
        match ← searchRing safe start ring with
        | some p => pure (some p)
        | none => searchRings safe start (ringsFrom count next)) := by
  cases count <;> rfl

theorem exists_offset (start p : Position) :
    ∃ offset, start.around offset = p ∧ origin.gap offset = start.gap p := by
  refine ⟨⟨p.x - start.x, p.y - start.y⟩, ?_, ?_⟩
  · apply Position.ext <;> simp only [around] <;> omega
  · simp only [gap, origin]
    omega

/-- Rings from one no farther than the nearest safe tile to one behind it lead to a safe tile that
is as near. -/
theorem searchRings_nearest {count n d : Nat} {ring : List Position} (hstart : start.Inland (d + 1))
    (hring : IsRing n ring) (hn : n ≤ d) (hd : d < n + count)
    (hnear : ∀ p, start.gap p < d → safe p = false)
    (hsafe : ∃ p, start.gap p = d ∧ safe p = true) :
    ∃ p, searchRings safe start (ringsFrom count ring) = .ok (some p) ∧
      start.gap p = d ∧ safe p = true := by
  induction count generalizing n ring with
  | zero => omega
  | succ count ih =>
      rw [ringsFrom, searchRings_cons, hring.search_eq (hstart.mono (by omega))]
      by_cases hnd : n = d
      · subst hnd
        cases hfind : (ring.map start.around).find? safe with
        | none =>
            obtain ⟨p, hp, hps⟩ := hsafe
            obtain ⟨offset, rfl, ho⟩ := exists_offset start p
            have hmem := List.mem_map_of_mem (f := start.around) ((hring offset).mpr (ho.trans hp))
            exact absurd hps (List.find?_eq_none.mp hfind _ hmem)
        | some p =>
            obtain ⟨offset, ho, rfl⟩ := List.mem_map.mp (List.mem_of_find?_eq_some hfind)
            exact ⟨_, rfl, hring.gap_eq start offset ho, List.find?_some hfind⟩
      · rw [hring.find?_bare fun p hp => hnear p (by omega)]
        exact ih hring.next (by omega) (by omega)

theorem searchRings_within {count n : Nat} {ring : List Position}
    (hstart : start.Inland (n + count)) (hring : IsRing n ring) :
    ∃ found, searchRings safe start (ringsFrom count ring) = .ok found ∧
      ∀ p ∈ found, start.gap p ≤ n + count := by
  induction count generalizing n ring with
  | zero =>
      refine ⟨_, rfl, ?_⟩
      intro p hp
      obtain ⟨hp, -⟩ := Option.filter_eq_some_iff.mp hp
      obtain ⟨offset, ho, rfl⟩ := Option.map_eq_some_iff.mp hp
      exact Nat.le_of_eq (hring.gap_eq start offset (List.mem_of_head? ho))
  | succ count ih =>
      rw [ringsFrom, searchRings_cons, hring.search_eq (hstart.mono (by omega))]
      cases hfind : (ring.map start.around).find? safe with
      | some p =>
          obtain ⟨offset, ho, rfl⟩ := List.mem_map.mp (List.mem_of_find?_eq_some hfind)
          refine ⟨_, rfl, ?_⟩
          intro p hp
          obtain rfl := Option.some.inj hp
          rw [hring.gap_eq start offset ho]
          omega
      | none =>
          obtain ⟨found, hfound, hwithin⟩ := ih (hstart.mono (by omega)) hring.next
          exact ⟨found, hfound, fun p hp => by have := hwithin p hp; omega⟩

/-- Where no tile of the rings before the last is safe, only the northmost tile of the last one is
left. -/
theorem searchRings_bare {count n : Nat} {ring : List Position} (hstart : start.Inland (n + count))
    (hring : IsRing n ring) (hhead : ring.head? = some (northmost n))
    (hbare : ∀ p, start.gap p < n + count → safe p = false) :
    searchRings safe start (ringsFrom count ring) =
      .ok ((some (start.around (northmost (n + count)))).filter safe) := by
  induction count generalizing n ring with
  | zero =>
      rw [ringsFrom, searchRings, hhead]
      rfl
  | succ count ih =>
      have hrest := ih (n := n + 1) (hstart.mono (by omega)) hring.next (head?_nextRing hhead)
        fun p hp => hbare p (by omega)
      rw [show n + 1 + count = n + (count + 1) by omega] at hrest
      rw [ringsFrom, searchRings_cons, hring.search_eq (hstart.mono (by omega)),
        hring.find?_bare fun p hp => hbare p (by omega)]
      exact hrest

end Search

end Position

end Arbiter
