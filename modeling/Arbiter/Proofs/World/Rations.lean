import Mathlib.Algebra.Order.Ring.Nat
import Mathlib.Data.Nat.Find
import Arbiter.Proofs.World.Deeds

/-! The food that is carried, unit by unit in the order in which it is eaten, and what is left of it
and of the hunger in the course of a meal. -/

namespace Arbiter

variable {w v : World} {F : Fault → Prop} {m n : Nat}

/-! ## Units of food -/

namespace Inventory

variable {c : Inventory} {i : Item} {rest : List Item}

/-- The carried units of food, the most nourishing first. -/
def rations (c : Inventory) : List Item :=
  Item.foods.flatMap fun i => List.replicate (c.count i) i

theorem sum_count_ok_iff {items : List Item} {sum : Nat} (hsum : sum < 1 <<< 32) :
    items.foldlM (fun sum i => count32 (sum + c.count i)) sum = .ok n ↔
      sum + (items.map c.count).sum = n ∧ n < 1 <<< 32 := by
  induction items generalizing sum with
  | nil =>
      constructor
      · intro h
        obtain rfl := Except.ok.inj h
        exact ⟨rfl, hsum⟩
      · rintro ⟨rfl, -⟩
        rfl
  | cons i items ih =>
      rw [List.foldlM_cons, List.map_cons, List.sum_cons, ← Nat.add_assoc]
      by_cases hi : sum + c.count i < 1 <<< 32
      · rw [count32_of_lt hi]
        exact ih hi
      · constructor
        · intro h
          rw [count32, if_neg hi] at h
          cases h
        · rintro ⟨rfl, hn⟩
          omega

theorem foodCount_eq_ok_iff : c.foodCount = .ok n ↔ c.rations.length = n ∧ n < 1 <<< 32 := by
  have hlength : c.rations.length = 0 + (Item.foods.map c.count).sum := by
    simp [rations, List.length_flatMap]
  rw [hlength]
  exact sum_count_ok_iff (by decide)

/-- The best food is the first unit. -/
theorem bestFood?_eq (c : Inventory) : c.bestFood? = c.rations.head? := by
  unfold bestFood? rations
  generalize Item.foods = items
  induction items with
  | nil => rfl
  | cons i items ih =>
      rw [List.flatMap_cons]
      cases hi : c.count i with
      | zero => simpa [hi] using ih
      | succ k => simp [hi, List.replicate_succ]

/-- When the first unit is taken, the others are left. -/
theorem exists_take? (h : c.rations = i :: rest) :
    ∃ c', c.take? i = some c' ∧ c'.rations = rest ∧
      ∀ j, j.isFood = false → c'.count j = c.count j := by
  obtain ⟨bread, apple, beef, cobblestone, torch⟩ := c
  cases beef with
  | succ beef =>
      obtain ⟨rfl, rfl⟩ := List.cons.inj h
      exact ⟨_, rfl, rfl, fun j hj => by cases j <;> first | rfl | cases hj⟩
  | zero =>
      cases bread with
      | succ bread =>
          obtain ⟨rfl, rfl⟩ := List.cons.inj h
          exact ⟨_, rfl, rfl, fun j hj => by cases j <;> first | rfl | cases hj⟩
      | zero =>
          cases apple with
          | succ apple =>
              obtain ⟨rfl, rfl⟩ := List.cons.inj h
              exact ⟨_, rfl, rfl, fun j hj => by cases j <;> first | rfl | cases hj⟩
          | zero => cases h

/-- The hunger that the first `m` units take away. -/
def relief (c : Inventory) (m : Nat) : Nat := ((c.rations.take m).map Item.nourishment).sum

theorem relief_succ {c : Inventory} {food : Item} (h : c.rations[m]? = some food) :
    c.relief (m + 1) = c.relief m + food.nourishment := by
  rw [relief, relief, List.take_add_one, h]
  simp

/-- The deeds of a meal of `m` units. -/
def eaten (c : Inventory) (m : Nat) : List Deed := (c.rations.take m).map Deed.eat

theorem eaten_succ {c : Inventory} {food : Item} (h : c.rations[m]? = some food) :
    c.eaten (m + 1) = c.eaten m ++ [.eat food] := by
  rw [eaten, eaten, List.take_add_one, h, Option.toList_some, List.map_append]
  rfl

/-- A meal of `k` units: it goes on while there is hunger and food. -/
structure Feeds (c : Inventory) (hunger k : Nat) : Prop where
  le : k ≤ c.rations.length
  hungry : ∀ j < k, c.relief j < hunger
  ends : hunger ≤ c.relief k ∨ k = c.rations.length

theorem exists_feeds (c : Inventory) (hunger : Nat) : ∃ k, c.Feeds hunger k := by
  have hend : ∃ k, hunger ≤ c.relief k ∨ k = c.rations.length := ⟨_, Or.inr rfl⟩
  refine ⟨Nat.find hend, Nat.find_min' hend (Or.inr rfl), ?_, Nat.find_spec hend⟩
  intro j hj
  have hnot := Nat.find_min hend hj
  omega

end Inventory

/-! ## Meals -/

namespace World

theorem eat_meets {food : Item} {inventory : Inventory}
    (htake : w.inventory.take? food = some inventory) :
    (eat food).Meets w (fun e => e = .overflow ∧ 1 <<< 64 ≤ w.deedCount + 1) fun _ v _ =>
      v = recorded { w with inventory, hunger := w.hunger - food.nourishment } (.eat food) := by
  rw [eat]
  apply Act.Meets.get_bind
  simp only [htake]
  refine Act.Meets.set_bind ((record_meets _ _).bind ?_)
  intro _ v t hv
  exact Act.meets_pure hv

/-- Off hazards and without hunger that grows, only the clock goes on. -/
theorem advance_calm (hinterval : w.rules.hungerInterval = 0) (hsafe : w.onHazard = false) :
    advance.Meets w (fun e => e = .overflow ∧ 1 <<< 64 ≤ w.tick + 1) fun _ v _ =>
      v = { w with tick := w.tick + 1 } := by
  have hhunger : w.hungerAt (w.tick + 1) = .ok w.hunger := by
    simp [hungerAt, hinterval]
    rfl
  rw [advance]
  refine Act.Meets.get_bind (Act.Meets.ofExcept_bind (fun e he => count64_error he) ?_)
  intro tick htick
  obtain ⟨-, rfl⟩ := count64_eq_ok_iff.mp htick
  refine Act.Meets.ofExcept_bind (by simp [hhunger]) ?_
  intro hunger hh
  obtain rfl := Except.ok.inj (hhunger.symm.trans hh)
  rw [hsafe]
  exact Act.meets_set rfl

/-- The world after `n` ticks, in the course of a meal of which `m` units are eaten. -/
def Dined (w : World) (n m : Nat) (v : World) : Prop :=
  ∃ frames inventory, inventory.rations = w.inventory.rations.drop m ∧
    (∀ i, i.isFood = false → inventory.count i = w.inventory.count i) ∧
    v = { w with
      tick := w.tick + n
      frames
      inventory
      hunger := w.hunger - w.inventory.relief m
      log := w.log.pushAll (w.inventory.eaten m)
      deedCount := w.deedCount + m }

theorem dined_self (w : World) : w.Dined 0 0 w :=
  ⟨w.frames, w.inventory, rfl, fun _ _ => rfl, by simp [Inventory.relief, Inventory.eaten]⟩

namespace Dined

theorem hunger (h : w.Dined n m v) : v.hunger = w.hunger - w.inventory.relief m := by
  obtain ⟨frames, inventory, -, -, rfl⟩ := h
  rfl

theorem rations (h : w.Dined n m v) : v.inventory.rations = w.inventory.rations.drop m := by
  obtain ⟨frames, inventory, hleft, -, rfl⟩ := h
  exact hleft

theorem counters (h : w.Dined n m v) : v.tick = w.tick + n ∧ v.deedCount = w.deedCount + m := by
  obtain ⟨frames, inventory, -, -, rfl⟩ := h
  exact ⟨rfl, rfl⟩

/-- What else is in the world stays as it is. -/
theorem surroundings (h : w.Dined n m v) :
    v.position = w.position ∧ v.mobs = w.mobs ∧ v.hazards = w.hazards ∧ v.blocked = w.blocked ∧
      v.stuck = w.stuck ∧ v.rules = w.rules := by
  obtain ⟨frames, inventory, -, -, rfl⟩ := h
  exact ⟨rfl, rfl, rfl, rfl, rfl, rfl⟩

theorem withFrames (h : w.Dined n m v) (frames : Frames) : w.Dined n m { v with frames } := by
  obtain ⟨-, inventory, hleft, hothers, rfl⟩ := h
  exact ⟨frames, inventory, hleft, hothers, rfl⟩

theorem later (h : w.Dined n m v) : w.Dined (n + 1) m { v with tick := v.tick + 1 } := by
  obtain ⟨frames, inventory, hleft, hothers, rfl⟩ := h
  exact ⟨frames, inventory, hleft, hothers, rfl⟩

theorem advance (h : w.Dined n m v) (hinterval : w.rules.hungerInterval = 0)
    (hsafe : ∀ p, w.isHazard p = false) :
    World.advance.Meets v (fun e => e = .overflow ∧ 1 <<< 64 ≤ w.tick + (n + 1)) fun _ v' _ =>
      w.Dined (n + 1) m v' := by
  obtain ⟨-, -, hhazards, -, -, hrules⟩ := h.surroundings
  have hsafe : v.onHazard = false := by
    rw [onHazard, isHazard, hhazards]
    exact hsafe v.position
  refine (advance_calm (by rw [hrules, hinterval]) hsafe).mono ?_ ?_
  · intro e he
    have htick := h.counters.1
    exact ⟨he.1, by omega⟩
  · intro _ v' t hv
    rw [hv]
    exact h.later

theorem bite {food : Item} {inventory : Inventory} (h : w.Dined n m v)
    (hnext : w.inventory.rations[m]? = some food)
    (hleft : inventory.rations = w.inventory.rations.drop (m + 1))
    (hothers : ∀ i, i.isFood = false → inventory.count i = v.inventory.count i) :
    w.Dined n (m + 1)
      (recorded { v with inventory, hunger := v.hunger - food.nourishment } (.eat food)) := by
  obtain ⟨frames, inventory', -, hothers', rfl⟩ := h
  refine ⟨frames, inventory, hleft, ?_, ?_⟩
  · intro i hi
    exact (hothers i hi).trans (hothers' i hi)
  · rw [Inventory.relief_succ hnext, Inventory.eaten_succ hnext, ← Nat.sub_sub,
      ← DeedLog.push_pushAll]
    rfl

/-- The next unit is the best food, and it can be eaten. -/
theorem eat (h : w.Dined n m v) (hm : m < w.inventory.rations.length) :
    ∃ food, v.inventory.bestFood? = some food ∧
      (World.eat food).Meets v (fun e => e = .overflow ∧ 1 <<< 64 ≤ w.deedCount + (m + 1))
        fun _ v' _ => w.Dined n (m + 1) v' := by
  have hleft := h.rations
  rw [List.drop_eq_getElem_cons hm] at hleft
  obtain ⟨inventory, htake, hleft', hothers⟩ := Inventory.exists_take? hleft
  refine ⟨w.inventory.rations[m], ?_, (eat_meets htake).mono ?_ ?_⟩
  · rw [Inventory.bestFood?_eq, hleft]
    rfl
  · intro e he
    have hdeeds := h.counters.2
    exact ⟨he.1, by omega⟩
  · intro _ v' t hv
    rw [hv]
    exact h.bite (List.getElem?_eq_getElem hm) hleft' hothers

/-- Behind the last unit there is no food. -/
theorem bestFood?_eq_none (h : w.Dined n m v) (hm : w.inventory.rations.length ≤ m) :
    v.inventory.bestFood? = none := by
  rw [Inventory.bestFood?_eq, h.rations, List.drop_of_length_le hm]
  rfl

end Dined

end World

end Arbiter
