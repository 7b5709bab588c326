import Arbiter.Proofs.Job.Direct
import Arbiter.Proofs.Job.Fight
import Arbiter.Proofs.World.Mobs

/-! The world during a fight with a mob that is the nearest one: after the way to it come the hits,
and until the last of them that mob remains the nearest one. -/

namespace Arbiter

variable {w v : World} {m : Mob} {radius i k n j : Nat}

/-- How many hits a mob takes. -/
def Mob.hits (m : Mob) (damage : Nat) : Nat := max 1 ((m.health + damage - 1) / damage)

theorem Mob.hits_pos (m : Mob) (damage : Nat) : 0 < m.hits damage := Nat.le_max_left _ _

theorem Mob.hits_le_iff {damage : Nat} (h : 0 < damage) :
    m.hits damage ≤ k + 1 ↔ m.health ≤ (k + 1) * damage := by
  have hdiv : (m.health + damage - 1) / damage < k + 2 ↔
      m.health + damage - 1 < (k + 2) * damage := Nat.div_lt_iff_lt_mul h
  have hmul : (k + 2) * damage = (k + 1) * damage + damage := Nat.succ_mul (k + 1) damage
  rw [hits]
  omega

namespace World

/-! ## The stages of a fight -/

/-- The steps to a tile from which the mob is in reach. -/
def approach (w : World) (m : Mob) : Nat := w.position.gap m.position - 1

/-- The ticks of a fight: two for each step and one for each hit. -/
def fightTicks (w : World) (m : Mob) : Nat :=
  2 * w.approach m + m.hits w.rules.attackDamage

/-- The steps that are done after `n` ticks. -/
def steps (w : World) (m : Mob) (n : Nat) : Nat := min (n / 2) (w.approach m)

/-- The hits that are dealt after `n` ticks. -/
def blows (w : World) (m : Mob) (n : Nat) : Nat := n - 2 * w.approach m

section Stages

variable (h : n < 2 * w.approach m)

theorem steps_succ_of_even (h : n % 2 = 0 ∨ 2 * w.approach m ≤ n) :
    w.steps m (n + 1) = w.steps m n := by
  rw [steps, steps]
  omega

include h

theorem steps_succ_of_odd (hodd : n % 2 = 1) : w.steps m (n + 1) = w.steps m n + 1 := by
  rw [steps, steps]
  omega

theorem blows_eq_zero : w.blows m n = 0 := by
  rw [blows]
  omega

theorem blows_succ_eq_zero : w.blows m (n + 1) = 0 := by
  rw [blows]
  omega

end Stages

theorem blows_succ (h : 2 * w.approach m ≤ n) : w.blows m (n + 1) = w.blows m n + 1 := by
  rw [blows, blows]
  omega

/-- The world after `i` steps to the mob and `k` hits on it. -/
def assailed (w : World) (m : Mob) (i : Nat) : Nat → World
  | 0 => w.walked m.position i
  | k + 1 => (w.assailed m i k).hit m.id

theorem assailed_position (w : World) (m : Mob) (i k : Nat) :
    (w.assailed m i k).position = w.position.along m.position i := by
  induction k with
  | zero => exact walked_position w m.position i
  | succ k ih => exact ih

theorem assailed_history (w : World) (m : Mob) (i k : Nat) :
    (w.assailed m i k).history = List.replicate k (.attack m.id) ++
      (((List.range i).map fun j => Deed.move (w.position.along m.position j)
        (w.position.along m.position (j + 1))).reverse ++ w.history) := by
  induction k with
  | zero => exact walked_history w m.position i
  | succ k ih =>
      rw [List.replicate_succ, List.cons_append, ← ih]
      exact DeedLog.history_push _ _

theorem assailed_deedCount (w : World) (m : Mob) (i k : Nat) :
    (w.assailed m i k).deedCount = w.deedCount + i + k := by
  induction k with
  | zero => exact walked_deedCount w m.position i
  | succ k ih =>
      show (w.assailed m i k).deedCount + 1 = w.deedCount + i + (k + 1)
      omega

theorem walked_surroundings (w : World) (target : Position) (i : Nat) :
    (w.walked target i).mobs = w.mobs ∧ (w.walked target i).inventory = w.inventory ∧
      (w.walked target i).hazards = w.hazards ∧ (w.walked target i).blocked = w.blocked ∧
      (w.walked target i).rules = w.rules := by
  induction i with
  | zero => exact ⟨rfl, rfl, rfl, rfl, rfl⟩
  | succ i ih => exact ih

/-- What else is in the world stays as it is. -/
theorem assailed_surroundings (w : World) (m : Mob) (i k : Nat) :
    (w.assailed m i k).inventory = w.inventory ∧ (w.assailed m i k).hazards = w.hazards ∧
      (w.assailed m i k).blocked = w.blocked ∧ (w.assailed m i k).rules = w.rules := by
  induction k with
  | zero => exact (walked_surroundings w m.position i).2
  | succ k ih => exact ih

/-- The hits leave the other mobs alone, and the last one takes the mob away. -/
theorem assailed_mobs (hids : (w.mobs.map Mob.id).Nodup) (hm : m ∈ w.mobs)
    (hdamage : 0 < w.rules.attackDamage) (i : Nat) :
    (k < m.hits w.rules.attackDamage →
      (w.assailed m i k).mobs = battered w.rules.attackDamage m.id k w.mobs) ∧
    (k = m.hits w.rules.attackDamage →
      (w.assailed m i k).mobs = w.mobs.filter fun b => b.id != m.id) := by
  induction k with
  | zero =>
      refine ⟨fun _ => ?_, fun hzero => ?_⟩
      · rw [battered_zero]
        exact (walked_surroundings w m.position i).1
      · have hpos := m.hits_pos w.rules.attackDamage
        omega
  | succ k ih =>
      have hlast := Mob.hits_le_iff (m := m) (k := k) hdamage
      have hstruck : k < m.hits w.rules.attackDamage → (w.assailed m i (k + 1)).mobs =
          if m.health ≤ (k + 1) * w.rules.attackDamage then w.mobs.filter (fun b => b.id != m.id)
          else battered w.rules.attackDamage m.id (k + 1) w.mobs := by
        intro hk
        obtain ⟨-, -, -, hrules⟩ := assailed_surroundings w m i k
        rw [← struck_battered hids hm, ← ih.1 hk, ← hrules]
        rfl
      refine ⟨fun hk => ?_, fun hk => ?_⟩
      · rw [hstruck (by omega), if_neg (by omega)]
      · rw [hstruck (by omega), if_pos (by omega)]

/-! ## The field -/

/-- Free ground without hazards, on which the mob is the nearest one within the radius, no two mobs
have the same id, and everybody is far from the limits of the grid. -/
structure Threatened (w : World) (radius : Nat) (m : Mob) : Prop where
  unblocked : ∀ p, w.isBlocked p = false
  safe : ∀ p, w.isHazard p = false
  central : w.position.Central
  mobs : ∀ b ∈ w.mobs, b.position.Central
  distinct : (w.mobs.map Mob.id).Nodup
  nearest : w.Nearest radius m

/-- The rules of the world do not matter for the field. -/
theorem Threatened.withRules (h : w.Threatened radius m) (rules : Rules) :
    ({ w with rules } : World).Threatened radius m :=
  ⟨h.unblocked, h.safe, h.central, h.mobs, h.distinct,
    h.nearest.mem, h.nearest.within, h.nearest.first⟩

/-- The counters have room for the fight. -/
structure Affords (w : World) (m : Mob) : Prop where
  tick : w.tick + w.fightTicks m < 1 <<< 64
  hunger : w.hunger + 1 < 1 <<< 32
  food : w.inventory.cookedBeef + w.inventory.bread + w.inventory.apple < 1 <<< 32
  deeds : w.deedCount + (w.approach m + m.hits w.rules.attackDamage) < 1 <<< 64

/-- The world `n` ticks later, `j` of which went to the fight. -/
def Fought (w : World) (m : Mob) (n j : Nat) (v : World) : Prop :=
  ∃ hunger, (hunger = w.hunger ∨ hunger ≤ maxHunger) ∧
    v = { w.assailed m (w.steps m j) (w.blows m j) with tick := w.tick + n, hunger }

theorem fought_self (w : World) (m : Mob) : Fought w m 0 0 w := by
  have hsteps : w.steps m 0 = 0 := by simp [steps]
  have hblows : w.blows m 0 = 0 := by simp [blows]
  refine ⟨w.hunger, Or.inl rfl, ?_⟩
  rw [hsteps, hblows]
  rfl

namespace Fought

theorem position (h : Fought w m n j v) :
    v.position = w.position.along m.position (w.steps m j) := by
  obtain ⟨hunger, -, rfl⟩ := h
  exact assailed_position w m _ _

theorem deedCount (h : Fought w m n j v) :
    v.deedCount = w.deedCount + w.steps m j + w.blows m j := by
  obtain ⟨hunger, -, rfl⟩ := h
  exact assailed_deedCount w m _ _

theorem hunger (h : Fought w m n j v) : v.hunger = w.hunger ∨ v.hunger ≤ maxHunger := by
  obtain ⟨hunger, hh, rfl⟩ := h
  exact hh

theorem tick (h : Fought w m n j v) : v.tick = w.tick + n := by
  obtain ⟨hunger, -, rfl⟩ := h
  rfl

theorem surroundings (h : Fought w m n j v) :
    v.inventory = w.inventory ∧ v.hazards = w.hazards ∧ v.blocked = w.blocked := by
  obtain ⟨hunger, -, rfl⟩ := h
  obtain ⟨hinventory, hhazards, hblocked, -⟩ :=
    assailed_surroundings w m (w.steps m j) (w.blows m j)
  exact ⟨hinventory, hhazards, hblocked⟩

theorem isBlocked (h : Fought w m n j v) (hw : w.Threatened radius m) (p : Position) :
    v.isBlocked p = false := by
  obtain ⟨-, -, hblocked⟩ := h.surroundings
  rw [World.isBlocked, hblocked]
  exact hw.unblocked p

theorem onHazard (h : Fought w m n j v) (hw : w.Threatened radius m) : v.onHazard = false := by
  obtain ⟨-, hhazards, -⟩ := h.surroundings
  rw [World.onHazard, World.isHazard, hhazards]
  exact hw.safe v.position

theorem mobs (h : Fought w m n j v) (hw : w.Threatened radius m)
    (hdamage : 0 < w.rules.attackDamage) (hj : j < w.fightTicks m) :
    v.mobs = battered w.rules.attackDamage m.id (w.blows m j) w.mobs := by
  obtain ⟨hunger, -, rfl⟩ := h
  have hpos := m.hits_pos w.rules.attackDamage
  rw [fightTicks] at hj
  apply (assailed_mobs hw.distinct hw.nearest.mem hdamage _).1
  rw [blows]
  omega

theorem history (h : Fought w m n j v) :
    v.history = List.replicate (w.blows m j) (.attack m.id) ++
      (((List.range (w.steps m j)).map fun i => Deed.move (w.position.along m.position i)
        (w.position.along m.position (i + 1))).reverse ++ w.history) := by
  obtain ⟨hunger, -, rfl⟩ := h
  exact assailed_history w m _ _

/-- The last hit takes the mob away. -/
theorem mobs_last (h : Fought w m n (w.fightTicks m) v) (hw : w.Threatened radius m)
    (hdamage : 0 < w.rules.attackDamage) :
    v.mobs = w.mobs.filter fun b => b.id != m.id := by
  obtain ⟨hunger, -, rfl⟩ := h
  apply (assailed_mobs hw.distinct hw.nearest.mem hdamage _).2
  rw [blows, fightTicks]
  omega

/-- The mob as it stands in the fight. -/
theorem mob? (h : Fought w m n j v) (hw : w.Threatened radius m)
    (hdamage : 0 < w.rules.attackDamage) (hj : j < w.fightTicks m) :
    v.mob? m.id =
      some { m with health := m.health - w.blows m j * w.rules.attackDamage } := by
  rw [World.mob?, h.mobs hw hdamage hj]
  exact find?_battered hw.distinct hw.nearest.mem

theorem gap (h : Fought w m n j v) :
    v.position.gap m.position = w.position.gap m.position - w.steps m j := by
  rw [h.position, Position.gap_along]

/-- It is out of reach until the way is done. -/
theorem far (h : Fought w m n j v) (hj : j < 2 * w.approach m) :
    1 < v.position.gap m.position := by
  rw [h.gap, steps]
  rw [approach] at hj ⊢
  omega

theorem near (h : Fought w m n j v) (hj : 2 * w.approach m ≤ j) :
    v.position.gap m.position ≤ 1 := by
  rw [h.gap, steps]
  rw [approach] at hj ⊢
  omega

theorem inland (h : Fought w m n j v) (hw : w.Threatened radius m) :
    v.position.Inland (1 <<< 30) := by
  rw [h.position]
  exact (hw.central.inland.mono (by omega)).along
    ((hw.mobs m hw.nearest.mem).inland.mono (by omega)) _

theorem gap_target_lt (h : Fought w m n j v) (hw : w.Threatened radius m) :
    v.position.gap m.position < 1 <<< 32 :=
  (h.inland hw).gap_lt ((hw.mobs m hw.nearest.mem).inland.mono (by omega))

theorem gap_lt (h : Fought w m n j v) (hw : w.Threatened radius m)
    (hdamage : 0 < w.rules.attackDamage) (hj : j < w.fightTicks m) :
    ∀ b ∈ v.mobs, v.position.gap b.position < 1 <<< 32 := by
  intro b hb
  rw [h.mobs hw hdamage hj] at hb
  obtain ⟨b', hb', -, hplace⟩ := mem_battered hb
  rw [hplace]
  exact (h.inland hw).gap_lt ((hw.mobs b' hb').inland.mono (by omega))

/-- It remains the nearest one. -/
theorem nearestMob? (h : Fought w m n j v) (hw : w.Threatened radius m)
    (hdamage : 0 < w.rules.attackDamage) (hj : j < w.fightTicks m) :
    v.nearestMob? radius =
      .ok (some { m with health := m.health - w.blows m j * w.rules.attackDamage }) := by
  have hmobs := h.mobs hw hdamage hj
  have hsteps : w.steps m j ≤ w.position.gap m.position := by
    rw [steps, approach]
    omega
  apply (hw.nearest.along hsteps h.position hmobs).nearestMob?
  · rw [hmobs, map_id_battered]
    exact hw.distinct
  · exact h.gap_lt hw hdamage hj

/-- One more deed is too many to count only if the fight is. -/
theorem overcounts (h : Fought w m n j v) (hj : j < w.fightTicks m) {e : Fault}
    (he : e = .overflow ∧ 1 <<< 64 ≤ v.deedCount + 1) : e = .overflow ∧ ¬ w.Affords m := by
  refine ⟨he.1, ?_⟩
  intro hroom
  have hdeeds := hroom.deeds
  have hcounted := h.deedCount
  rw [fightTicks] at hj
  rw [steps, blows] at hcounted
  omega

/-! ### What time and the fight do -/

theorem passed {hunger : Nat} (h : Fought w m n n v) (hw : w.Threatened radius m)
    (hh : hunger = v.hunger ∨ hunger ≤ maxHunger) :
    Fought w m (n + 1) n (v.passed hunger) := by
  have hsafe := h.onHazard hw
  obtain ⟨hunger', hh', rfl⟩ := h
  refine ⟨hunger, ?_, ?_⟩
  · rcases hh with rfl | hh
    · exact hh'
    · exact Or.inr hh
  · rw [World.passed, hsafe]
    rfl

/-- The first tick of a step changes nothing. -/
theorem waits (h : Fought w m n j v) (hj : j < 2 * w.approach m) (heven : j % 2 = 0) :
    Fought w m n (j + 1) v := by
  rw [Fought, steps_succ_of_even (Or.inl heven), blows_succ_eq_zero hj, ← blows_eq_zero hj]
  exact h

/-- The second one takes the agent to the next tile. -/
theorem moves (h : Fought w m n j v) (hj : j < 2 * w.approach m) (hodd : j % 2 = 1) :
    Fought w m n (j + 1) (v.moved (w.position.along m.position (w.steps m j + 1))) := by
  obtain ⟨hunger, hh, rfl⟩ := h
  refine ⟨hunger, hh, ?_⟩
  rw [steps_succ_of_odd hj hodd, blows_eq_zero hj, blows_succ_eq_zero hj]
  rfl

/-- After the way every tick is a hit. -/
theorem strikes (h : Fought w m n j v) (hj : 2 * w.approach m ≤ j) :
    Fought w m n (j + 1) (v.hit m.id) := by
  obtain ⟨hunger, hh, rfl⟩ := h
  refine ⟨hunger, hh, ?_⟩
  rw [steps_succ_of_even (Or.inr hj), blows_succ hj]
  rfl

end Fought

end World

end Arbiter
