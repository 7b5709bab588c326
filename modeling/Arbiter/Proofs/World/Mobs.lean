import Mathlib.Data.List.Nodup
import Arbiter.Proofs.Grid.Path
import Arbiter.Proofs.World.Deeds

/-! Which mob is the nearest one, what hits leave of the mobs when no two have the same id, and why
the nearest mob remains the nearest one for an agent that goes to it. -/

namespace Arbiter.World

variable {w v : World} {m n : Mob} {mobs : List Mob} {radius damage mob k i : Nat}

/-! ## The closest -/

section Closest

variable {a b : Nat × Mob} {near : List (Nat × Mob)}

theorem closer_eq_false_iff :
    closer a b = false ↔ b.1 < a.1 ∨ b.1 = a.1 ∧ b.2.id ≤ a.2.id := by
  simp only [closer, Bool.or_eq_false_iff, Bool.and_eq_false_iff, decide_eq_false_iff_not,
    beq_eq_false_iff_ne]
  omega

theorem closest_eq_none_iff : closest near = none ↔ near = [] := by
  cases near with
  | nil => simp [closest]
  | cons a near =>
      rw [closest]
      cases closest near with
      | none => simp
      | some b =>
          dsimp only
          split <;> simp

theorem closest_spec (h : closest near = some a) : a ∈ near ∧ ∀ b ∈ near, closer b a = false := by
  induction near generalizing a with
  | nil => cases h
  | cons c near ih =>
      rw [closest] at h
      cases htail : closest near with
      | none =>
          rw [htail] at h
          obtain rfl := Option.some.inj h
          obtain rfl := closest_eq_none_iff.mp htail
          simp [closer_eq_false_iff]
      | some b =>
          obtain ⟨hb, hfirst⟩ := ih htail
          rw [htail] at h
          dsimp only at h
          by_cases hc : closer b c
          · rw [if_pos hc] at h
            obtain rfl := Option.some.inj h
            refine ⟨List.mem_cons_of_mem _ hb, ?_⟩
            intro x hx
            rcases List.mem_cons.mp hx with rfl | hx
            · simp only [closer, Bool.or_eq_true, Bool.and_eq_true, decide_eq_true_iff,
                beq_iff_eq] at hc
              rw [closer_eq_false_iff]
              omega
            · exact hfirst x hx
          · rw [if_neg hc] at h
            obtain rfl := Option.some.inj h
            refine ⟨List.mem_cons_self, ?_⟩
            have hc := closer_eq_false_iff.mp (Bool.eq_false_iff.mpr hc)
            intro x hx
            rw [closer_eq_false_iff]
            rcases List.mem_cons.mp hx with rfl | hx
            · omega
            · have hx := closer_eq_false_iff.mp (hfirst x hx)
              omega

theorem closest_eq (ha : a ∈ near) (h : ∀ b ∈ near, b = a ∨ closer a b = true) :
    closest near = some a := by
  cases hc : closest near with
  | none =>
      rw [closest_eq_none_iff.mp hc] at ha
      cases ha
  | some c =>
      obtain ⟨hmem, hfirst⟩ := closest_spec hc
      rcases h c hmem with rfl | hcloser
      · rfl
      · rw [hfirst a ha] at hcloser
        cases hcloser

end Closest

/-- Of the mobs within the radius, this one is the nearest, and of equally near ones it has the
lowest id. -/
structure Nearest (w : World) (radius : Nat) (m : Mob) : Prop where
  mem : m ∈ w.mobs
  within : w.position.gap m.position ≤ radius
  first : ∀ b ∈ w.mobs, w.position.gap b.position ≤ radius →
    w.position.gap m.position < w.position.gap b.position ∨
      w.position.gap m.position = w.position.gap b.position ∧ m.id ≤ b.id

/-- With different ids there are no ties. -/
theorem Nearest.nearestMob? (h : w.Nearest radius m) (hids : (w.mobs.map Mob.id).Nodup)
    (hreach : ∀ b ∈ w.mobs, w.position.gap b.position < 1 <<< 32) :
    w.nearestMob? radius = .ok (some m) := by
  have hclosest : closest ((w.mobs.filter fun b => w.position.gap b.position ≤ radius).map
      fun b => (w.position.gap b.position, b)) = some (w.position.gap m.position, m) := by
    apply closest_eq
    · refine List.mem_map.mpr ⟨m, List.mem_filter.mpr ⟨h.mem, ?_⟩, rfl⟩
      exact decide_eq_true h.within
    · intro x hx
      obtain ⟨b, hb, rfl⟩ := List.mem_map.mp hx
      obtain ⟨hb, hnear⟩ := List.mem_filter.mp hb
      have hfirst := h.first b hb (of_decide_eq_true hnear)
      by_cases hid : b.id = m.id
      · rw [List.inj_on_of_nodup_map hids hb h.mem hid]
        exact Or.inl rfl
      · right
        simp only [closer, Bool.or_eq_true, Bool.and_eq_true, decide_eq_true_iff, beq_iff_eq]
        omega
  rw [World.nearestMob?, mobsWithin_eq hreach]
  show (Except.ok _ : Except Fault (Option Mob)) = _
  rw [hclosest]
  rfl

/-! ## Hits -/

def battered (damage mob k : Nat) (mobs : List Mob) : List Mob :=
  mobs.map fun m => if m.id = mob then { m with health := m.health - k * damage } else m

theorem battered_zero (damage mob : Nat) (mobs : List Mob) : battered damage mob 0 mobs = mobs := by
  simp [battered]

theorem mem_battered (h : n ∈ battered damage mob k mobs) :
    ∃ m ∈ mobs, n.id = m.id ∧ n.position = m.position := by
  obtain ⟨m, hm, rfl⟩ := List.mem_map.mp h
  refine ⟨m, hm, ?_⟩
  split <;> exact ⟨rfl, rfl⟩

theorem map_id_battered (damage mob k : Nat) (mobs : List Mob) :
    (battered damage mob k mobs).map Mob.id = mobs.map Mob.id := by
  rw [battered, List.map_map]
  apply List.map_congr_left
  intro m _
  show (if m.id = mob then { m with health := m.health - k * damage } else m).id = m.id
  split <;> rfl

theorem filter_battered (damage mob k : Nat) (mobs : List Mob) :
    (battered damage mob k mobs).filter (fun n => n.id != mob) =
      mobs.filter fun n => n.id != mob := by
  induction mobs with
  | nil => rfl
  | cons m mobs ih =>
      rw [battered] at ih ⊢
      rw [List.map_cons, List.filter_cons, List.filter_cons, ih]
      by_cases hm : m.id = mob
      · simp [hm]
      · simp [hm]

section Distinct

variable (hids : (mobs.map Mob.id).Nodup) (hm : m ∈ mobs)

include hids hm

theorem find?_battered :
    (battered damage m.id k mobs).find? (fun n => n.id == m.id) =
      some { m with health := m.health - k * damage } := by
  have hmem : { m with health := m.health - k * damage } ∈ battered damage m.id k mobs :=
    List.mem_map.mpr ⟨m, hm, by simp⟩
  cases hfind : (battered damage m.id k mobs).find? fun n => n.id == m.id with
  | none =>
      have := List.find?_eq_none.mp hfind _ hmem
      simp at this
  | some n =>
      have hid : n.id = m.id := by simpa using List.find?_some hfind
      rw [← map_id_battered damage m.id k] at hids
      rw [List.inj_on_of_nodup_map hids (List.mem_of_find?_eq_some hfind) hmem hid]

/-- The hit on the first mob of an id is one on all of them. -/
theorem hitFirst_battered :
    struck.hitFirst m.id (m.health - (k + 1) * damage) (battered damage m.id k mobs) =
      battered damage m.id (k + 1) mobs := by
  induction mobs with
  | nil => cases hm
  | cons n mobs ih =>
      obtain ⟨hfresh, hids⟩ := List.nodup_cons.mp hids
      rw [battered, battered, List.map_cons, List.map_cons, struck.hitFirst]
      rcases List.mem_cons.mp hm with rfl | hm
      · have hrest : ∀ j, battered damage m.id j mobs = mobs := by
          intro j
          rw [battered]
          refine (List.map_congr_left fun n hn => if_neg ?_).trans (List.map_id mobs)
          intro hid
          exact hfresh (hid ▸ List.mem_map_of_mem hn)
        have hrest' := (hrest k).trans (hrest (k + 1)).symm
        rw [battered, battered] at hrest'
        simp [hrest']
      · have hne : n.id ≠ m.id := by
          intro hid
          exact hfresh (hid ▸ List.mem_map_of_mem hm)
        have ih := ih hids hm
        rw [battered, battered] at ih
        simp [hne, ih]

/-- The mobs after one more hit: the mob that it hits goes with the last of its health. -/
theorem struck_battered :
    (struck damage m.id (battered damage m.id k mobs)).1 =
      if m.health ≤ (k + 1) * damage then mobs.filter (fun n => n.id != m.id)
      else battered damage m.id (k + 1) mobs := by
  have hleft : m.health - k * damage - damage = m.health - (k + 1) * damage := by
    rw [Nat.sub_sub, Nat.add_mul, Nat.one_mul]
  rw [struck]
  rw [find?_battered hids hm]
  dsimp only
  rw [hleft]
  by_cases hlast : m.health ≤ (k + 1) * damage
  · rw [if_pos hlast, if_pos (Nat.sub_eq_zero_of_le hlast)]
    exact filter_battered damage m.id k mobs
  · rw [if_neg hlast, if_neg fun hzero => hlast (Nat.sub_eq_zero_iff_le.mp hzero)]
    exact hitFirst_battered hids hm

end Distinct

/-! ## The way to the nearest -/

/-- For an agent on the way to the nearest mob, that mob remains the nearest one: others do not come
nearer by more than a tile each step, and those from beyond the radius stay behind. -/
theorem Nearest.along (h : w.Nearest radius m) (hi : i ≤ w.position.gap m.position)
    (hposition : v.position = w.position.along m.position i)
    (hmobs : v.mobs = battered damage m.id k w.mobs) :
    v.Nearest radius { m with health := m.health - k * damage } := by
  have hgap := Position.gap_along w.position m.position i
  have hwithin := h.within
  refine ⟨?_, ?_, ?_⟩
  · rw [hmobs]
    exact List.mem_map.mpr ⟨m, h.mem, by simp⟩
  · show v.position.gap m.position ≤ radius
    rw [hposition]
    omega
  · show ∀ b ∈ v.mobs, v.position.gap b.position ≤ radius →
      v.position.gap m.position < v.position.gap b.position ∨
        v.position.gap m.position = v.position.gap b.position ∧ m.id ≤ b.id
    rw [hmobs, hposition]
    intro b hb hnear
    obtain ⟨b', hb', hid, hplace⟩ := mem_battered hb
    have hfirst := h.first b' hb'
    have htri := Position.gap_triangle w.position (w.position.along m.position i) b'.position
    have hahead := Position.gap_along_le w.position m.position i
    rw [hplace] at hnear ⊢
    rw [hid]
    omega

end Arbiter.World
