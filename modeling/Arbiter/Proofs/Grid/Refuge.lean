import Arbiter.Proofs.Grid.Rings

/-! The search for a refuge. Its frontier runs through the tiles ring by ring, so the first safe
tile that it comes to is a nearest one. -/

namespace Arbiter.Position

/-! ## The frontier -/

namespace Search

def reached (p : Position) (ds : List Direction) (s : Search) : Search :=
  ds.foldl (fun s d => s.push (p.beside d)) s

/-- A spread fails at the limits of the grid, and only there. -/
theorem spread_eq (p : Position) (ds : List Direction) (s : Search) :
    spread p ds s = (do
      ds.forM fun d => do let _ ← p.step d
      pure (s.reached p ds)) := by
  induction ds generalizing s with
  | nil => rfl
  | cons d ds ih =>
      rw [spread, List.forM]
      cases hq : p.step d with
      | error e => rfl
      | ok q =>
          obtain rfl : q = p.beside d := step_eq_ok hq
          exact ih (s.push (p.beside d))

/-- A search in the middle of ring `n`: the tiles `todo` are left of it, and the tiles `next` of the
ring after it have been reached. All are told by their offset from the start. -/
structure Amid (start : Position) (n : Nat) (todo next : List Position) (s : Search) : Prop where
  frontier : s.frontier = (todo ++ next).map start.around
  seen : ∀ q, s.seen.contains (start.around q) = true ↔ origin.gap q ≤ n ∨ q ∈ next

variable {start p q : Position} {n : Nat} {todo next : List Position} {s : Search}

theorem around_inj : start.around p = start.around q ↔ p = q := by
  simp only [Position.ext_iff, around]
  omega

theorem around_beside (start p : Position) (d : Direction) :
    (start.around p).beside d = start.around (p.beside d) := by
  apply Position.ext <;> simp only [around, beside] <;> omega

theorem around_origin (start : Position) : start.around origin = start := by
  apply Position.ext <;> simp [around, origin]

theorem amid_ofStart (start : Position) : (ofStart start).Amid start 0 [origin] [] := by
  refine ⟨by simp [ofStart, around_origin], fun q => ?_⟩
  have hcontains : (ofStart start).seen.contains (start.around q) = (start.around q == start) := by
    simp [ofStart, Tiles.contains_insert, Tiles.contains_empty]
  have hstart : start.around q = start ↔ q = origin := by
    have h : start.around q = start.around origin ↔ q = origin := around_inj
    rwa [around_origin] at h
  rw [hcontains, beq_iff_eq, hstart, Nat.le_zero, gap_eq_zero_iff]
  simp [eq_comm]

theorem Amid.push_near (h : s.Amid start n todo next) (hq : origin.gap q ≤ n) :
    s.push (start.around q) = s := by
  rw [push, if_pos ((h.seen q).mpr (.inl hq))]

theorem Amid.push_far (h : s.Amid start n todo next) (hq : ¬ origin.gap q ≤ n) :
    (s.push (start.around q)).Amid start n todo (if q ∈ next then next else next ++ [q]) := by
  by_cases hmem : q ∈ next
  · rw [push, if_pos ((h.seen q).mpr (.inr hmem)), if_pos hmem]
    exact h
  · have hnew : ¬ s.seen.contains (start.around q) = true := by
      rw [h.seen]
      exact not_or.mpr ⟨hq, hmem⟩
    rw [push, if_neg hnew, if_neg hmem]
    refine ⟨by simp [h.frontier], fun p => ?_⟩
    rw [Tiles.contains_insert, Bool.or_eq_true, beq_iff_eq, around_inj, h.seen]
    simp only [List.mem_append, List.mem_singleton]
    grind

/-- Around a tile of the ring, the neighbours that are farther out are pushed. -/
theorem Amid.reached (h : s.Amid start n todo next) (hp : origin.gap p = n) (ds : List Direction) :
    (s.reached (start.around p) ds).Amid start n todo
      (appendNew next
        ((ds.map p.beside).filter fun q => decide (origin.gap p < origin.gap q))) := by
  induction ds generalizing next s with
  | nil => exact h
  | cons d ds ih =>
      rw [Search.reached, List.foldl_cons, ← Search.reached, around_beside, List.map_cons,
        List.filter_cons]
      by_cases hd : origin.gap (p.beside d) ≤ n
      · rw [h.push_near hd, if_neg (by rw [decide_eq_true_eq]; omega)]
        exact ih h
      · rw [if_pos (by rw [decide_eq_true_eq]; omega), appendNew]
        exact ih (h.push_far hd)

theorem Amid.advance (h : s.Amid start n [] next) (hnext : IsRing (n + 1) next) :
    s.Amid start (n + 1) next [] := by
  refine ⟨by simpa using h.frontier, fun q => ?_⟩
  rw [h.seen, hnext]
  simp only [List.not_mem_nil, or_false]
  omega

end Search

/-! ## Ring by ring -/

section Flood

variable {safe : Position → Bool} {start : Position} {n : Nat} {s : Search}

/-- A tile within the radius is left behind when its neighbours have been surveyed. -/
theorem flood_near {p : Position} (hp : start.gap p ≤ refugeRadius) (rest : List Position)
    (seen : Tiles) :
    flood safe start ⟨p :: rest, seen⟩ =
      if safe p then pure p
      else p.survey >>= fun _ =>
        flood safe start (Search.reached p Direction.all ⟨rest, seen⟩) := by
  have hdistance : start.distance p = .ok (start.gap p) :=
    distance_eq_ok_iff.mpr ⟨Nat.lt_of_le_of_lt hp (by decide), rfl⟩
  rw [flood_cons, hdistance, Search.spread_eq]
  by_cases hs : safe p = true
  · rw [if_pos hs, if_pos hs]
  · rw [if_neg hs, if_neg hs]
    show (if refugeRadius < start.gap p then _ else _) = _
    rw [if_neg (Nat.not_lt.mpr hp), ← survey, bind_assoc]
    rfl

theorem flood_far {p : Position} (hp : start.gap p = refugeRadius + 1) (rest : List Position)
    (seen : Tiles) :
    flood safe start ⟨p :: rest, seen⟩ = pure (if safe p then p else start) := by
  have hdistance : start.distance p = .ok (refugeRadius + 1) :=
    distance_eq_ok_iff.mpr ⟨by rw [hp]; decide, hp⟩
  rw [flood_cons, hdistance]
  by_cases hs : safe p = true
  · rw [if_pos hs, if_pos hs]
  · rw [if_neg hs, if_neg hs]
    rfl

theorem flood_ring (safe : Position → Bool) {todo next : List Position}
    (hs : s.Amid start n todo next) (hn : n ≤ refugeRadius)
    (hring : ∀ p ∈ todo, origin.gap p = n) :
    ∃ t : Search,
      t.Amid start n [] (todo.foldl (fun seen p => appendNew seen p.outward) next) ∧
      flood safe start s = (do
        match ← searchRing safe start todo with
        | some p => pure p
        | none => flood safe start t) := by
  induction todo generalizing next s with
  | nil => exact ⟨s, hs, rfl⟩
  | cons p todo ih =>
      have hp := hring p List.mem_cons_self
      have hgap : start.gap (start.around p) ≤ refugeRadius := by rw [gap_around, hp]; exact hn
      obtain ⟨frontier, seen⟩ := s
      obtain rfl : frontier = start.around p :: (todo ++ next).map start.around := hs.frontier
      have hrest : (⟨(todo ++ next).map start.around, seen⟩ : Search).Amid start n todo next :=
        ⟨rfl, hs.seen⟩
      obtain ⟨t, ht, hflood⟩ := ih (hrest.reached hp Direction.all) fun q hq =>
        hring q (List.mem_cons_of_mem _ hq)
      refine ⟨t, ht, ?_⟩
      rw [flood_near hgap, searchRing, hflood]
      by_cases hsafe : safe (start.around p) = true
      · simp [hsafe]
      · simp [hsafe]

/-- From the start of a ring on, the search is that of the rings. -/
theorem flood_rings {count : Nat} {ring : List Position} (hs : s.Amid start n ring [])
    (hring : IsRing n ring) (hn : n + count = refugeRadius + 1) :
    flood safe start s =
      (do
        let found ← searchRings safe start (ringsFrom count ring)
        pure (found.getD start)) := by
  induction count generalizing n ring s with
  | zero =>
      obtain ⟨frontier, seen⟩ := s
      obtain rfl : frontier = (ring ++ []).map start.around := hs.frontier
      cases ring with
      | nil => rw [List.append_nil, List.map_nil, flood]; rfl
      | cons p ring =>
          have hgap : start.gap (start.around p) = refugeRadius + 1 :=
            (hring.gap_eq start p List.mem_cons_self).trans hn
          rw [List.append_nil, List.map_cons, flood_far hgap]
          by_cases hsafe : safe (start.around p) = true
          · simp [ringsFrom, searchRings, Option.filter, hsafe]
          · simp [ringsFrom, searchRings, Option.filter, hsafe]
  | succ count ih =>
      obtain ⟨t, ht, hflood⟩ := flood_ring safe hs (by omega) fun p => (hring p).mp
      rw [hflood, ih (ht.advance hring.next) hring.next (by omega), ringsFrom, searchRings_cons,
        bind_assoc]
      congr 1
      funext found
      cases found <;> rfl

/-- The search is the search of the rings, wherever it starts. -/
theorem refuge_eq (safe : Position → Bool) (start : Position) :
    start.refuge safe = (do
      let found ← searchRings safe start rings
      pure (found.getD start)) :=
  flood_rings (Search.amid_ofStart start) isRing_origin (by omega)

end Flood

/-! ## The refuge -/

section Refuge

variable {safe : Position → Bool} {start : Position}

theorem refuge_nearest {d : Nat} (hstart : start.Inland (d + 1)) (hd : d ≤ refugeRadius)
    (hnear : ∀ p, start.gap p < d → safe p = false)
    (hsafe : ∃ p, start.gap p = d ∧ safe p = true) :
    ∃ p, start.refuge safe = .ok p ∧ start.gap p = d ∧ safe p = true := by
  obtain ⟨p, hp, h⟩ : ∃ p, searchRings safe start rings = .ok (some p) ∧
      start.gap p = d ∧ safe p = true :=
    searchRings_nearest hstart isRing_origin (by omega) (by omega) hnear hsafe
  refine ⟨p, ?_, h⟩
  rw [refuge_eq, hp]
  rfl

theorem refuge_within (safe : Position → Bool) (hstart : start.Inland (refugeRadius + 1)) :
    ∃ p, start.refuge safe = .ok p ∧ start.gap p ≤ refugeRadius + 1 := by
  obtain ⟨found, hfound, hwithin⟩ : ∃ found, searchRings safe start rings = .ok found ∧
      ∀ p ∈ found, start.gap p ≤ 0 + (refugeRadius + 1) :=
    searchRings_within (hstart.mono (by omega)) isRing_origin
  refine ⟨found.getD start, ?_, ?_⟩
  · rw [refuge_eq, hfound]
    rfl
  · cases found with
    | none => simp [gap_self]
    | some p =>
        have := hwithin p rfl
        simpa using this

/-- Where no tile within the radius is safe, the search looks at one more tile, to the north. -/
theorem refuge_beyond (hstart : start.Inland (refugeRadius + 1))
    (hbare : ∀ p, start.gap p ≤ refugeRadius → safe p = false) :
    start.refuge safe = .ok (if safe (start.around (northmost (refugeRadius + 1))) = true
      then start.around (northmost (refugeRadius + 1)) else start) := by
  have h : searchRings safe start rings =
      .ok ((some (start.around (northmost (0 + (refugeRadius + 1))))).filter safe) :=
    searchRings_bare (hstart.mono (by omega)) isRing_origin rfl fun p hp => hbare p (by omega)
  have hkeep : ∀ p, ((some p).filter safe).getD start = if safe p = true then p else start := by
    intro p
    by_cases hp : safe p = true
    · simp [Option.filter, hp]
    · simp [Option.filter, hp]
  rw [refuge_eq, h, Nat.zero_add]
  exact congrArg Except.ok (hkeep _)

end Refuge

end Arbiter.Position
