import Arbiter.Proofs.Agent.Hunger
import Arbiter.Proofs.Agent.Rounds

/-! What a food chain makes of the food. Every third tick is a bite of the best unit that is left,
until the hunger is gone or the food is. -/

namespace Arbiter

variable {w v v' : World} {t k n m j : Nat} {o : Option Outcome}

/-! ## The food -/

theorem Inventory.relief_zero (c : Inventory) : c.relief 0 = 0 := rfl

theorem Inventory.relief_add {c d : Inventory} (h : d.rations = c.rations.drop m) (j : Nat) :
    c.relief (m + j) = c.relief m + d.relief j := by
  rw [relief, relief, relief, h, List.take_add, List.map_append, List.sum_append]

namespace World

theorem Dined.count (h : w.Dined n m v) {i : Item} (hi : i.isFood = false) :
    v.inventory.count i = w.inventory.count i := by
  obtain ⟨frames, inventory, -, hothers, rfl⟩ := h
  exact hothers i hi

theorem Dined.deedsSince (h : w.Dined n m v) (hm : m ≤ deedCapacity)
    (hleft : m ≤ w.inventory.rations.length) :
    v.deedsSince w.deedCount = (w.inventory.rations.take m).map .eat := by
  obtain ⟨frames, inventory, -, -, rfl⟩ := h
  have hlength : (w.inventory.eaten m).length = m := by simp [Inventory.eaten, hleft]
  have hcount : w.deedCount + m - w.deedCount = m := Nat.add_sub_cancel_left ..
  rw [World.deedsSince_eq]
  simp only [World.history, hcount, Nat.min_eq_left hm, DeedLog.history_pushAll]
  rw [List.take_append_of_le_length (by simp [hlength]), List.take_of_length_le (by simp [hlength]),
    List.reverse_reverse]
  rfl

/-- What `m` units leave of the hunger and of what is carried, whatever else goes on. -/
structure Fed (w : World) (m : Nat) (v : World) : Prop where
  hunger : v.hunger = w.hunger - w.inventory.relief m
  rations : v.inventory.rations = w.inventory.rations.drop m
  count : ∀ i, i.isFood = false → v.inventory.count i = w.inventory.count i

theorem fed_self (w : World) : w.Fed 0 w := ⟨rfl, rfl, fun _ _ => rfl⟩

theorem Fed.change (h : w.Fed m v) (hhunger : v'.hunger = v.hunger)
    (hcarried : v'.inventory = v.inventory) : w.Fed m v' :=
  ⟨hhunger.trans h.hunger, by rw [hcarried, h.rations], by rw [hcarried]; exact h.count⟩

theorem Fed.dined (h : w.Fed m v) (hv : v.Dined n j v') : w.Fed (m + j) v' := by
  refine ⟨?_, ?_, fun i hi => (hv.count hi).trans (h.count i hi)⟩
  · rw [hv.hunger, h.hunger, Inventory.relief_add h.rations, Nat.sub_sub]
  · rw [hv.rations, h.rations, List.drop_drop]

theorem Fed.length (h : w.Fed m v) :
    v.inventory.rations.length = w.inventory.rations.length - m := by
  rw [h.rations, List.length_drop]

/-- The deeds of a tick of a meal, the ticks counted from one: in every third tick the next unit is
eaten. -/
def servedIn (w : World) (tick : Nat) : List Deed :=
  if tick % 3 = 0 then ((w.inventory.rations[tick / 3 - 1]?).map Deed.eat).toList else []

theorem flatten_servedIn (w : World) (n : Nat) :
    ((List.range' 1 n).map w.servedIn).flatten =
      (w.inventory.rations.take (n / 3)).map .eat := by
  induction n with
  | zero => rfl
  | succ n ih =>
      rw [List.range'_concat, List.map_append, List.flatten_append, ih]
      simp only [Nat.one_mul, List.map_cons, List.map_nil, List.flatten_singleton, servedIn]
      by_cases hbite : (1 + n) % 3 = 0
      · rw [if_pos hbite, show (n + 1) / 3 = n / 3 + 1 by omega,
          show (1 + n) / 3 - 1 = n / 3 by omega, List.take_add_one, List.map_append]
        cases w.inventory.rations[n / 3]? <;> rfl
      · rw [if_neg hbite, show (n + 1) / 3 = n / 3 by omega, List.append_nil]

/-- A tick eats at most one unit, the first that is left. -/
theorem Fed.deedsSince (h : w.Fed (n / 3) v) (hleft : n / 3 < w.inventory.rations.length)
    (hv : v.Dined 0 ((n % 3 + 1) / 3) v') : v'.deedsSince v.deedCount = w.servedIn (n + 1) := by
  have hlength := h.length
  rw [hv.deedsSince (by simp only [deedCapacity]; omega) (by omega), h.rations, servedIn]
  by_cases hbite : (n + 1) % 3 = 0
  · have hone : (n % 3 + 1) / 3 = 1 := by omega
    have hnext : (n + 1) / 3 - 1 = n / 3 := by omega
    rw [if_pos hbite, hone, hnext, List.drop_eq_getElem_cons hleft, List.getElem?_eq_getElem hleft]
    rfl
  · have hnone : (n % 3 + 1) / 3 = 0 := by omega
    rw [if_neg hbite, hnone]
    rfl

end World

/-! ## The chain -/

/-- The food chain after `n` ticks of a meal. Before the first it holds none. -/
inductive Seated (t : Nat) (o : Option Outcome) : Nat → AgentChain → Prop
  | hungry : Seated t o 0 (.reactive (foodChain t none o))
  | chewing {n : Nat} {s : Spine Job} (hn : 0 < n) (hs : s.Dines (n % 3)) :
      Seated t o n (.reactive (foodChain t (some s) none))

/-- The end of a meal: a success without hunger, and a failure for want of food otherwise. -/
inductive World.Concludes (v : World) : Outcome → Prop
  | sated (h : v.hunger = 0) : Concludes v .finished
  | starving {failure : Failure} (h : v.hunger ≠ 0) (hreason : failure.reason = "no food") :
      Concludes v (.failed failure)

section Ticks

variable {c : AgentChain} {trace : Trace} {F : Fault → Prop}

theorem Seated.tick_inner {R : SingleChain World Job → World → Prop} (h : Seated t o n c)
    (hasks : n = 0 → Craves t v ∧ v.inventory.rations.length < 1 <<< 32)
    (htick : ∀ s : Spine Job, s.Dines (n % 3) →
      ((foodChain t (some s) none).inner.tick trace).Meets v F fun p v' _ => R p.1 v') :
    (Chain.tick c trace).Meets v F fun p v' _ =>
      ∃ inner, p.1 = .reactive { trigger := .hunger t, inner } ∧ R inner v' := by
  cases h with
  | hungry =>
      obtain ⟨hcraves, hfood⟩ := hasks rfl
      apply (ReactiveChain.tick_asking (c := foodChain t none o)
        (foodChain_request? hfood hcraves) rfl (htick _ .fresh)).imp
      rintro p v' u ⟨-, hp, inner, rfl, hR⟩
      exact ⟨inner, hp, hR⟩
  | @chewing _ s hn hs =>
      apply (ReactiveChain.tick_quiet (c := foodChain t (some s) none) rfl (htick s hs)).imp
      rintro p v' u ⟨-, hp, inner, rfl, hR⟩
      exact ⟨inner, hp, hR⟩

theorem Seated.tick_eats (h : Seated t o n c)
    (hasks : n = 0 → Craves t v ∧ v.inventory.rations.length < 1 <<< 32)
    (hhungry : 0 < v.hunger) (hfood : 0 < v.inventory.rations.length) :
    (Chain.tick c trace).Meets v (fun e => e = .overflow ∧ 1 <<< 64 ≤ v.deedCount + 1)
      fun p v' _ => Seated t o (n + 1) p.1 ∧ v.Dined 0 ((n % 3 + 1) / 3) v' := by
  refine (h.tick_inner hasks (R := fun inner v' => ∃ s',
    inner = (foodChain t (some s') none).inner ∧ s'.Dines ((n % 3 + 1) % Job.biteTicks) ∧
      v.Dined 0 (0 + (n % 3 + 1) / Job.biteTicks) v') fun s hs =>
        SingleChain.tick_meal rfl hs (Nat.mod_lt n (by decide)) (World.dined_self v) hhungry
          hfood).imp ?_
  rintro p v' u ⟨inner, hp, s', rfl, hs', hv'⟩
  rw [Nat.zero_add] at hv'
  have hmod : (n % 3 + 1) % Job.biteTicks = (n + 1) % 3 := by
    rw [Job.biteTicks]
    omega
  rw [hmod] at hs'
  rw [hp]
  exact ⟨.chewing (Nat.succ_pos n) hs', hv'⟩

theorem Seated.tick_ends (h : Seated t o n c)
    (hasks : n = 0 → Craves t v ∧ v.inventory.rations.length < 1 <<< 32)
    (hends : v.hunger = 0 ∨ v.inventory.rations.length = 0) :
    (Chain.tick c trace).Meets v F fun p v' _ => ∃ outcome,
      p.1 = .reactive (foodChain t none (some outcome)) ∧ v'.Concludes outcome ∧
        v.Dined 0 0 v' := by
  refine (h.tick_inner hasks (R := fun inner v' => ∃ outcome,
    inner = (foodChain t none (some outcome)).inner ∧ v'.Concludes outcome ∧ v.Dined 0 0 v')
      fun s hs => ?_).imp ?_
  · by_cases hsated : v.hunger = 0
    · apply (SingleChain.tick_sated (c := n % 3) rfl hs (World.dined_self v)
        (Nat.le_of_eq hsated)).imp
      intro p v' u hp
      obtain ⟨hp, hv'⟩ := hp
      have hhunger : v'.hunger = v.hunger := hv'.hunger
      exact ⟨.finished, hp, .sated (hhunger.trans hsated), hv'⟩
    · have hbare := hends.resolve_left hsated
      apply (SingleChain.tick_starving (c := n % 3) rfl hs (World.dined_self v)
        (Nat.pos_of_ne_zero hsated) (Nat.le_of_eq hbare)).imp
      intro p v' u hp
      obtain ⟨failure, hp, hreason, hv'⟩ := hp
      have hhunger : v'.hunger = v.hunger := hv'.hunger
      exact ⟨.failed failure, hp, .starving (by rw [hhunger]; exact hsated) hreason, hv'⟩
  · rintro p v' u ⟨inner, hp, outcome, rfl, hend, hv'⟩
    exact ⟨outcome, hp, hend, hv'⟩

end Ticks

/-! ## Runs -/

def Round.Spares (r : Round) : Prop :=
  ∀ w, (r.change w).hunger = w.hunger ∧ (r.change w).inventory = w.inventory

/-- The food chain and the world after `n` ticks of a meal of `k` units. -/
inductive Repast (t : Nat) (o : Option Outcome) (w : World) (k : Nat) :
    Nat → AgentChain → World → Prop
  | going {n : Nat} {c : AgentChain} {v : World} (hn : n ≤ 3 * k) (hc : Seated t o n c)
      (hv : w.Fed (n / 3) v) : Repast t o w k n c v
  | done {outcome : Outcome} {v : World} (hend : v.Concludes outcome) (hv : w.Fed k v) :
      Repast t o w k (3 * k + 1) (.reactive (foodChain t none (some outcome))) v

namespace Repast

variable {c : AgentChain} {r : Round} {rounds : List Round}

theorem fed (h : Repast t o w k n c v) : w.Fed (n / 3) v := by
  cases h with
  | going hn hc hv => exact hv
  | done hend hv => rwa [show (3 * k + 1) / 3 = k by omega]

theorem holds (h : Repast t o w k n c v) (hone : 1 ≤ n) (hn : n ≤ 3 * k) :
    ∃ s, c = .reactive (foodChain t (some s) none) := by
  cases h with
  | going _ hc hv =>
      cases hc with
      | hungry => omega
      | chewing hn hs => exact ⟨_, rfl⟩
  | done hend hv => omega

theorem ended (h : Repast t o w k n c v) (hn : n = 3 * k + 1) :
    ∃ outcome, c = .reactive (foodChain t none (some outcome)) ∧ v.Concludes outcome := by
  cases h with
  | going hle hc hv => omega
  | done hend hv => exact ⟨_, rfl, hend⟩

theorem craves (hv : w.Fed (n / 3) v) (ht : Craves t w)
    (hcount : w.inventory.rations.length < 1 <<< 32) (hn : n = 0) :
    Craves t v ∧ v.inventory.rations.length < 1 <<< 32 := by
  subst hn
  have hrations : v.inventory.rations = w.inventory.rations := hv.rations
  have hhunger : v.hunger = w.hunger := hv.hunger
  rw [Craves, hrations, hhunger]
  exact ⟨ht, hcount⟩

theorem tick (h : Repast t o w k n c v) (hn : n ≤ 3 * k) (hfeeds : w.inventory.Feeds w.hunger k)
    (ht : Craves t w) (hcount : w.inventory.rations.length < 1 <<< 32) (hr : r.Spares) :
    (Chain.tick c r.trace).Meets (r.change v)
      (fun e => e = .overflow ∧ 1 <<< 64 ≤ (r.change v).deedCount + 1) fun p v' _ =>
        Repast t o w k (n + 1) p.1 v' ∧
          v'.deedsSince (r.change v).deedCount = w.servedIn (n + 1) := by
  have hle := hfeeds.le
  cases h with
  | done hend hv => omega
  | going _ hc hv =>
      have hv := hv.change (hr v).1 (hr v).2
      have hasks := craves hv ht hcount
      have hleft := hv.length
      have hhunger := hv.hunger
      by_cases hgoes : n / 3 < k
      · have hneed := hfeeds.hungry (n / 3) hgoes
        apply (hc.tick_eats hasks (by omega) (by omega)).imp
        intro p v' u hp
        obtain ⟨hc', hv'⟩ := hp
        have hfed := hv.dined hv'
        rw [show n / 3 + (n % 3 + 1) / 3 = (n + 1) / 3 by omega] at hfed
        exact ⟨.going (by omega) hc' hfed, hv.deedsSince (by omega) hv'⟩
      · -- The last unit is eaten, and what ends the meal holds now.
        obtain rfl : n = 3 * k := by omega
        rw [show 3 * k / 3 = k by omega] at hv hleft hhunger
        have hends : (r.change v).hunger = 0 ∨ (r.change v).inventory.rations.length = 0 := by
          rcases hfeeds.ends with h | h
          · exact Or.inl (by omega)
          · exact Or.inr (by omega)
        apply (hc.tick_ends hasks hends).imp
        intro p v' u hp
        obtain ⟨outcome, hp, hend, hv'⟩ := hp
        have hnothing : v'.deedsSince (r.change v).deedCount = [] :=
          hv'.deedsSince (Nat.zero_le _) (Nat.zero_le _)
        rw [hp, hnothing, World.servedIn, if_neg (by omega)]
        exact ⟨.done hend (hv.dined hv'), rfl⟩

theorem play (h : Repast t o w k n c v) (hn : n + rounds.length ≤ 3 * k + 1)
    (hfeeds : w.inventory.Feeds w.hunger k) (ht : Craves t w)
    (hcount : w.inventory.rations.length < 1 <<< 32) (hrounds : ∀ r ∈ rounds, r.Spares) :
    (c.play rounds).Meets v (c.Overcounts rounds v) fun q v' _ =>
      Repast t o w k (n + rounds.length) q.1 v' ∧
        q.2 = (List.range' (n + 1) rounds.length).map w.servedIn := by
  induction rounds generalizing n c v with
  | nil => exact Act.meets_pure ⟨h, rfl⟩
  | cons r rounds ih =>
      rw [List.length_cons] at hn ⊢
      apply AgentChain.play_round (R := fun c' deeds v' =>
        Repast t o w k (n + (rounds.length + 1)) c' v' ∧
          deeds = (List.range' (n + 1) (rounds.length + 1)).map w.servedIn)
      refine ((h.tick (by omega) hfeeds ht hcount (hrounds r List.mem_cons_self)).ran).mono ?_ ?_
      · exact fun e he => AgentChain.overcounts_now he
      · intro p v₁ u hp
        obtain ⟨hran, hnext, hdeeds⟩ := hp
        have hlater := ih hnext (by omega) fun r' hr' => hrounds r' (List.mem_cons_of_mem _ hr')
        refine hlater.mono ?_ ?_
        · exact fun e he => he.later hran
        · intro q v₂ u' hq
          obtain ⟨hlast, hrest⟩ := hq
          rw [show n + 1 + rounds.length = n + (rounds.length + 1) by omega] at hlast
          refine ⟨hlast, ?_⟩
          rw [hdeeds, hrest, List.range'_succ, List.map_cons]

end Repast

/-- A hungry agent eats the best units, as many as it takes to end the hunger or as there are, one
in every third tick. The tick after the last bite ends the meal, as a success if the hunger is
gone. A run ends early only if there are too many deeds to count. -/
theorem foodChain_eats (t : Nat) (o : Option Outcome) (w : World) (ht : t ≤ w.hunger)
    (hfood : 1 ≤ w.inventory.rations.length)
    (hcount : w.inventory.rations.length < 1 <<< 32) :
    ∃ k, w.inventory.Feeds w.hunger k ∧ ∀ rounds : List Round, (∀ r ∈ rounds, r.Spares) →
      rounds.length ≤ 3 * k + 1 →
        ((AgentChain.reactive (foodChain t none o)).play rounds).Meets w
          ((AgentChain.reactive (foodChain t none o)).Overcounts rounds w) fun q v _ =>
            q.2 = (List.range' 1 rounds.length).map w.servedIn ∧
            q.2.flatten = (w.inventory.rations.take (rounds.length / 3)).map .eat ∧
            v.hunger = w.hunger - w.inventory.relief (rounds.length / 3) ∧
            v.inventory.rations = w.inventory.rations.drop (rounds.length / 3) ∧
            (∀ i, i.isFood = false → v.inventory.count i = w.inventory.count i) ∧
            (1 ≤ rounds.length → rounds.length ≤ 3 * k →
              ∃ s, q.1 = .reactive (foodChain t (some s) none)) ∧
            (rounds.length = 3 * k + 1 → ∃ outcome,
              q.1 = .reactive (foodChain t none (some outcome)) ∧ v.Concludes outcome) := by
  obtain ⟨k, hfeeds⟩ := w.inventory.exists_feeds w.hunger
  refine ⟨k, hfeeds, fun rounds hrounds hlength => ?_⟩
  have hcraves : Craves t w := ⟨ht, List.ne_nil_of_length_pos hfood⟩
  have hbegin : Repast t o w k 0 (.reactive (foodChain t none o)) w :=
    .going (Nat.zero_le _) .hungry w.fed_self
  apply (hbegin.play (by omega) hfeeds hcraves hcount hrounds).imp
  intro q v u hq
  obtain ⟨hend, hdeeds⟩ := hq
  rw [Nat.zero_add] at hend hdeeds
  have hfed := hend.fed
  refine ⟨hdeeds, ?_, hfed.hunger, hfed.rations, hfed.count, hend.holds, hend.ended⟩
  rw [hdeeds, World.flatten_servedIn]

def picnic : World := { hunger := 10, inventory := { bread := 1, apple := 1, torch := 1 } }

/-- The rounds of a meal in the course of which the agent is carried from tile to tile. -/
def outing : List Round :=
  (List.range 7).map fun i => { change := fun w => { w with position := ⟨i, 0⟩ } }

theorem outing_spares : ∀ r ∈ outing, r.Spares := by
  intro r hr
  obtain ⟨i, -, rfl⟩ := List.mem_map.mp hr
  exact fun w => ⟨rfl, rfl⟩

theorem foodChain_eats_picnic :
    ∃ d, (AgentChain.reactive (foodChain 10 none none)).play outing picnic = .ok d ∧
      d.value.2 = [[], [], [.eat .bread], [], [], [.eat .apple], []] ∧ d.context.hunger = 1 ∧
        ∃ failure, d.value.1 = .reactive (foodChain 10 none (some (.failed failure))) ∧
          failure.reason = "no food" := by
  obtain ⟨d, hd, -⟩ := Act.exists_ok (p := fun _ => true)
    (m := (AgentChain.reactive (foodChain 10 none none)).play outing) (k := picnic)
    (by decide +kernel)
  have hlength : outing.length = 7 := rfl
  have hspares := outing_spares
  -- Nothing may evaluate the run when the theorem is applied to it.
  generalize outing = rounds at hd hlength hspares ⊢
  obtain ⟨k, hfeeds, hrun⟩ := foodChain_eats 10 none picnic (by decide) (by decide) (by decide)
  obtain rfl : k = 2 := by
    rcases hfeeds.ends with h | h
    · have hfew : ∀ j ≤ 2, picnic.inventory.relief j < 10 := by decide
      exact absurd h (Nat.not_le.mpr (hfew k hfeeds.le))
    · exact h
  obtain ⟨hdeeds, -, hhunger, -, -, -, hend⟩ := (hrun rounds hspares (by omega)).of_ok hd
  rw [hlength] at hdeeds hhunger
  obtain ⟨outcome, hchain, hconcludes⟩ := hend hlength
  refine ⟨d, hd, hdeeds.trans (by decide), hhunger, ?_⟩
  cases hconcludes with
  | sated h =>
      rw [hhunger] at h
      cases h
  | starving h hreason => exact ⟨_, hchain, hreason⟩

/-- The same meal of an agent whose deeds are as many as can be counted. -/
def glut : World := { picnic with deedCount := 1 <<< 64 - 1 }

/-- More units than deeds are remembered, and hunger for all of them. -/
def orchard : World := { hunger := 1032, inventory := { cookedBeef := 1, apple := 256 } }

/-- The first bite may be one deed too many to count, and of a long meal only the latest bites are
remembered. -/
theorem foodChain_eats_glut :
    10 ≤ glut.hunger ∧ glut.inventory.rations.length = 2 ∧
      (AgentChain.reactive (foodChain 10 none none)).play (Round.ofTraces (List.replicate 3 {}))
        glut = .error .overflow ∧
      10 ≤ orchard.hunger ∧ orchard.inventory.rations.length = 257 ∧
      ∃ d, (AgentChain.reactive (foodChain 10 none none)).play
          (Round.ofTraces (List.replicate 771 {})) orchard = .ok d ∧
        d.value.2.flatten = .eat .cookedBeef :: List.replicate 256 (.eat .apple) ∧
          d.context.hunger = 0 ∧ d.context.deeds = List.replicate 256 (.eat .apple) := by
  have hrun : ((AgentChain.reactive (foodChain 10 none none)).play
      (Round.ofTraces (List.replicate 771 {}))).passes orchard (fun d =>
        d.value.2.flatten = .eat .cookedBeef :: List.replicate 256 (.eat .apple) ∧
          d.context.hunger = 0 ∧ d.context.deeds = List.replicate 256 (.eat .apple)) = true := by
    decide +kernel
  obtain ⟨d, hd, hmeal⟩ := Act.exists_ok hrun
  exact ⟨by decide, rfl, Act.error_of_fails (by decide +kernel), by decide, by decide +kernel, d,
    hd, of_decide_eq_true hmeal⟩

end Arbiter
