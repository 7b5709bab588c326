import Arbiter.Proofs.Agent.Guard
import Arbiter.Proofs.Job.Assault

/-! An agent whose worst trouble is a mob fights the nearest one to its end. It takes two ticks for
each tile of the way and one for each hit. -/

namespace Arbiter

variable {w v : World} {m : Mob} {c : Config} {a : Agent} {radius n j : Nat}

/-! ## The fight -/

/-- What the chain that fights holds after `n` ticks of the fight. -/
inductive Stance (w : World) (m : Mob) : Nat → Option (Spine Job) → Prop
  | resting : Stance w m 0 none
  | closing {n : Nat} {s : Spine Job} (hn : n % 2 = 0 ∨ 2 * w.approach m ≤ n)
      (h : Spine.Closing m.id m.position (w.position.along m.position (w.steps m n)) s) :
      Stance w m n (some s)
  | charging {n : Nat} {s : Spine Job} {d : Direction} (hn : n % 2 = 1)
      (hway : n < 2 * w.approach m)
      (hd : (w.position.along m.position (w.steps m n)).towards? m.position = some d)
      (h : Spine.Charging m.id m.position (w.position.along m.position (w.steps m n)) d s) :
      Stance w m n (some s)

namespace World.Fought

theorem tick_begins {s : Spine Job} (hv : w.Fought m n j v) (hw : w.Threatened radius m)
    (hdamage : 0 < w.rules.attackDamage) (heven : j % 2 = 0) (hway : j < 2 * w.approach m)
    (h : Spine.Closing m.id m.position (w.position.along m.position (w.steps m j)) s) :
    (s.tick {}).Meets v (fun e => e = .overflow ∧ ¬ w.Affords m) fun r v' _ =>
      r.1.root.failure = none ∧ Stance w m (j + 1) (some r.1) ∧ w.Fought m n (j + 1) v' := by
  have hmob := hv.mob? hw hdamage (Nat.lt_of_lt_of_le hway (Nat.le_add_right _ _))
  obtain ⟨d, hd⟩ := Position.exists_towards (hv.far hway)
  rw [← hv.position] at h
  apply (h.begins hmob rfl (hv.gap_target_lt hw) (hv.far hway) hd).imp
  intro r v' t hr
  obtain ⟨hcharging, rfl⟩ := hr
  rw [hv.position, ← steps_succ_of_even (Or.inl heven)] at hcharging hd
  exact ⟨hcharging.root.unfailed, .charging (by omega) (by omega) hd hcharging,
    hv.waits hway heven⟩

theorem tick_lands {s : Spine Job} {d : Direction} (hv : w.Fought m n j v)
    (hw : w.Threatened radius m) (hdamage : 0 < w.rules.attackDamage) (hodd : j % 2 = 1)
    (hway : j < 2 * w.approach m)
    (hd : (w.position.along m.position (w.steps m j)).towards? m.position = some d)
    (h : Spine.Charging m.id m.position (w.position.along m.position (w.steps m j)) d s) :
    (s.tick {}).Meets v (fun e => e = .overflow ∧ ¬ w.Affords m) fun r v' _ =>
      r.1.root.failure = none ∧ Stance w m (j + 1) (some r.1) ∧ w.Fought m n (j + 1) v' := by
  have hmob := hv.mob? hw hdamage (Nat.lt_of_lt_of_le hway (Nat.le_add_right _ _))
  have hnext := Position.along_succ hd
  have hq : v.position.step d = .ok (w.position.along m.position (w.steps m j + 1)) := by
    rw [hv.position, hnext]
    apply Position.step_beside
    rw [← hnext]
    exact (hw.central.inland.along (hw.mobs m hw.nearest.mem).inland _).mono (Nat.zero_le _)
  rw [← hv.position] at h hd
  refine (h.lands hmob rfl (hv.gap_target_lt hw) (hv.far hway) hd hq
    (hv.isBlocked hw _)).mono ?_ ?_
  · intro e he
    exact hv.overcounts (Nat.lt_of_lt_of_le hway (Nat.le_add_right _ _)) he
  · intro r v' t hr
    obtain ⟨hclosing, rfl⟩ := hr
    rw [← steps_succ_of_odd hway hodd] at hclosing
    exact ⟨hclosing.unfailed, .closing (by omega) hclosing, hv.moves hway hodd⟩

theorem tick_hits {s : Spine Job} (hv : w.Fought m n j v) (hw : w.Threatened radius m)
    (hdamage : 0 < w.rules.attackDamage) (hj : j < w.fightTicks m) (hover : 2 * w.approach m ≤ j)
    (h : Spine.Closing m.id m.position (w.position.along m.position (w.steps m j)) s) :
    (s.tick {}).Meets v (fun e => e = .overflow ∧ ¬ w.Affords m) fun r v' _ =>
      r.1.root.failure = none ∧ Stance w m (j + 1) (some r.1) ∧ w.Fought m n (j + 1) v' := by
  rw [← steps_succ_of_even (Or.inr hover)] at h
  refine (h.hits (hv.mob? hw hdamage hj) (hv.near hover)).mono (fun _ he => hv.overcounts hj he) ?_
  intro r v' t hr
  obtain ⟨hclosing, rfl⟩ := hr
  exact ⟨hclosing.unfailed, .closing (by omega) hclosing, hv.strikes hover⟩

theorem tick_closing {s : Spine Job} (hv : w.Fought m n j v) (hw : w.Threatened radius m)
    (hdamage : 0 < w.rules.attackDamage) (hj : j < w.fightTicks m)
    (hstage : j % 2 = 0 ∨ 2 * w.approach m ≤ j)
    (h : Spine.Closing m.id m.position (w.position.along m.position (w.steps m j)) s) :
    (s.tick {}).Meets v (fun e => e = .overflow ∧ ¬ w.Affords m) fun r v' _ =>
      r.1.root.failure = none ∧ Stance w m (j + 1) (some r.1) ∧ w.Fought m n (j + 1) v' := by
  by_cases hway : j < 2 * w.approach m
  · exact hv.tick_begins hw hdamage (by omega) hway h
  · exact hv.tick_hits hw hdamage hj (Nat.le_of_not_lt hway) h

end World.Fought

theorem Stance.tick {held : Option (Spine Job)} (h : Stance w m j held) (hv : w.Fought m n j v)
    (hw : w.Threatened radius m) (hdamage : 0 < w.rules.attackDamage) (hj : j < w.fightTicks m) :
    (Chain.tick (AgentChain.reactive (defense radius held)) {}).Meets v
      (fun e => e = .overflow ∧ ¬ w.Affords m) fun p v' _ => ∃ s,
        p.1 = .reactive (defense radius (some s)) ∧ Stance w m (j + 1) (some s) ∧
          w.Fought m n (j + 1) v' := by
  have hnearest := hv.nearestMob? hw hdamage hj
  have hmob := hv.mob? hw hdamage hj
  cases h with
  | resting =>
      exact defense_begins hnearest hmob
        (hv.tick_closing hw hdamage hj (Or.inl rfl) (Spine.closing_ofTask _ _ _))
  | closing hstage h =>
      exact defense_goes_on hnearest hmob h.task h.unfailed
        (hv.tick_closing hw hdamage hj hstage h)
  | charging hodd hway hd h =>
      exact defense_goes_on hnearest hmob h.root.task h.root.unfailed
        (hv.tick_lands hw hdamage hodd hway hd h)

/-! ## The agent -/

/-- How an agent stands after `n` ticks of the fight: the chain that fights has been in control
since the first of them. -/
structure Defending (c : Config) (w : World) (m : Mob) (n : Nat) (a : Agent) : Prop where
  chains : ∃ s u, Stance w m n s ∧ u.Waiting ∧ a.runner.chains = garrison c s u
  current : a.runner.current = if n = 0 then none else some 1
  enabled : a.runner.enabled = true
  world : w.Fought m n n a.world

theorem Agent.New.defending (h : a.New c w) (m : Mob) : Defending c w m 0 a := by
  obtain ⟨u, hu, hchains⟩ := h.chains
  have hw := h.world
  subst hw
  exact ⟨⟨none, u, .resting, hu, hchains⟩, h.current, h.enabled, World.fought_self _ _⟩

theorem World.Fought.advance (h : w.Fought m n n v) (hw : w.Threatened radius m)
    (hn : n < w.fightTicks m) :
    World.advance.Meets v (fun e => e = .overflow ∧ ¬ w.Affords m) fun _ v' _ =>
      w.Fought m (n + 1) n v' := by
  refine (World.advance_meets v).mono ?_ ?_
  · intro e he
    obtain ⟨he, hfull⟩ := he
    refine ⟨he, ?_⟩
    intro hroom
    have htick := hroom.tick
    have hhunger := hroom.hunger
    have hticked := h.tick
    have hhungry := h.hunger
    have hmax : maxHunger = 20 := rfl
    omega
  · intro _ v' t hv
    obtain ⟨hunger, hhunger, rfl⟩ := hv
    exact h.passed hw hhunger

theorem Defending.tick (h : Defending c w m n a) (hw : w.Threatened c.defenseRadius m)
    (hdamage : 0 < w.rules.attackDamage) (hn : n < w.fightTicks m) :
    Agent.tick.Meets a (fun e => e = .overflow ∧ ¬ w.Affords m) fun _ b _ =>
      Defending c w m (n + 1) b := by
  obtain ⟨held, u, hstance, hu, hchains⟩ := h.chains
  have hfree : a.runner.Free 1 := Runner.free_of_current h.current
  refine (Agent.tick_selected (i := 1) (R := fun chain v => ∃ s,
    chain = .reactive (defense c.defenseRadius (some s)) ∧ Stance w m (n + 1) (some s) ∧
      w.Fought m (n + 1) (n + 1) v) h.enabled hfree (by rw [hchains]; rfl)
    ((h.world.advance hw hn).imp ?_)).imp ?_
  · intro _ v t hv
    have hnearest := hv.nearestMob? hw hdamage hn
    have hsafe := hv.onHazard hw
    rw [hchains]
    refine ⟨?_, fun _ hs => select_garrison hu hsafe hnearest hs, hstance.tick hv hw hdamage hn⟩
    intro e he
    obtain ⟨he, hfood⟩ := select_garrison_error hsafe hnearest (hv.gap_lt hw hdamage hn) he
    obtain ⟨hinventory, -⟩ := hv.surroundings
    refine ⟨he, ?_⟩
    intro hroom
    have := hroom.food
    rw [hinventory] at hfood
    omega
  · intro _ b t hb
    obtain ⟨chain, ⟨s, rfl, hstance', hworld⟩, hb, hcur, he⟩ := hb
    rw [hchains] at hb
    exact ⟨⟨some s, u, hstance', hu, hb⟩, by simpa using hcur, he, hworld⟩

theorem Agent.New.times_defending (h : a.New c w) (hw : w.Threatened c.defenseRadius m)
    (hdamage : 0 < w.rules.attackDamage) (hn : n ≤ w.fightTicks m) :
    (Act.times n Agent.tick).Meets a (fun e => e = .overflow ∧ ¬ w.Affords m) fun _ b _ =>
      Defending c w m n b := by
  refine Act.Meets.times ?_ (h.defending m)
  intro i hi b hb
  exact hb.tick hw hdamage (Nat.lt_of_lt_of_le hi hn)

namespace Defending

theorem currentName (h : Defending c w m n a) (hn : 1 ≤ n) :
    a.runner.currentName = some "Mob Defense" := by
  obtain ⟨s, u, -, -, hchains⟩ := h.chains
  have hcur := h.current
  rw [if_neg (by omega)] at hcur
  exact Runner.currentName_of_current hcur (by rw [hchains]; rfl)

theorem root (h : Defending c w m n a) (hn : 1 ≤ n) :
    a.currentSpine.map (fun s => s.root.task) = some (.kill m.id) := by
  obtain ⟨held, u, hstance, -, hchains⟩ := h.chains
  have hcur := h.current
  rw [if_neg (by omega)] at hcur
  have hspine : a.currentSpine = held := by
    unfold Agent.currentSpine Runner.currentChain
    rw [hcur, hchains]
    rfl
  rw [hspine]
  cases hstance with
  | resting => omega
  | closing _ h => exact congrArg some h.task
  | charging _ _ _ h => exact congrArg some h.root.task

end Defending

namespace Agent

/-- An agent that is built with the built-in chains, without hazards and blocked tiles around it,
fights the nearest mob within the radius, of equally near ones that of the lowest id. The fight is
the root of the chain that has control in all of its ticks. The agent goes to the next tile to the
mob and then hits it, which takes two ticks for each step and one for each hit. With the last of
these ticks and not before the mob is gone, and nothing happens to the others. A run ends early only
if a counter of the initial world is about to overflow. -/
theorem mob_defense (p : AgentPlan) (m : Mob) (k : World) (hbuiltin : p.builtin = true)
    (hextra : p.extra = []) (hvalid : p.config.validate = .ok ())
    (hdamage : 0 < p.config.world.attackDamage)
    (hfield : (p.world.getD {}).Threatened p.config.defenseRadius m) :
    ∃ a trail, p.build k = .ok ⟨.ok a, k, trail⟩ ∧
      a.world = { p.world.getD {} with rules := p.config.world } ∧
      ∀ n ≤ a.world.fightTicks m,
        (Act.times n tick).Meets a (fun e => e = .overflow ∧ ¬ a.world.Affords m) fun _ b _ =>
          (1 ≤ n → b.runner.currentName = some "Mob Defense" ∧
            b.currentSpine.map (fun s => s.root.task) = some (.kill m.id)) ∧
          (b.world.mob? m.id = none ↔ n = a.world.fightTicks m) ∧
          (n < a.world.fightTicks m → b.world.mobs =
            World.battered p.config.world.attackDamage m.id (a.world.blows m n) a.world.mobs) ∧
          (n = a.world.fightTicks m → b.world.mobs = a.world.mobs.filter fun o => o.id != m.id) ∧
          b.world.position = a.world.position.along m.position (a.world.steps m n) ∧
          b.world.history = List.replicate (a.world.blows m n) (.attack m.id) ++
            (((List.range (a.world.steps m n)).map fun i =>
              Deed.move (a.world.position.along m.position i)
                (a.world.position.along m.position (i + 1))).reverse ++ a.world.history) ∧
          b.world.deedCount = a.world.deedCount + a.world.steps m n + a.world.blows m n := by
  obtain ⟨a, trail, hbuild, hnew⟩ := AgentPlan.build_ok hbuiltin hextra hvalid k
  have hworld := hnew.world
  have hrules : a.world.rules = p.config.world := by rw [hworld]
  have hw : a.world.Threatened p.config.defenseRadius m := by
    rw [hworld]
    exact hfield.withRules p.config.world
  have hdamage : 0 < a.world.rules.attackDamage := by
    rw [hrules]
    exact hdamage
  refine ⟨a, trail, hbuild, hworld, ?_⟩
  intro n hn
  rw [← hworld] at hnew
  apply (hnew.times_defending hw hdamage hn).imp
  intro _ b t hb
  have hfought := hb.world
  refine ⟨fun h => ⟨hb.currentName h, hb.root h⟩, ?_, ?_, ?_, hfought.position, hfought.history,
    hfought.deedCount⟩
  · by_cases hlast : n = a.world.fightTicks m
    · subst hlast
      simp [World.mob?, hfought.mobs_last hw hdamage]
    · simp [hfought.mob? hw hdamage (by omega), hlast]
  · intro hlt
    rw [hfought.mobs hw hdamage hlt, hrules]
  · intro hlast
    subst hlast
    exact hfought.mobs_last hw hdamage

def ambush : World := { hunger := 15, mobs := [⟨3, ⟨0, 2⟩, 4⟩, ⟨1, ⟨2, 0⟩, 5⟩] }

theorem ambush_threatened : ambush.Threatened 6 ⟨1, ⟨2, 0⟩, 5⟩ := by
  refine ⟨Area.contains_empty, Area.contains_empty, ⟨by decide, by decide⟩, ?_, by decide,
    by decide, by decide, by decide⟩
  exact List.forall_mem_cons.mpr ⟨⟨by decide, by decide⟩,
    List.forall_mem_cons.mpr ⟨⟨by decide, by decide⟩, nofun⟩⟩

theorem mob_defense_ambush :
    ∃ a trail d, AgentPlan.build { world := some ambush } {} = .ok ⟨.ok a, {}, trail⟩ ∧
      Act.times 4 tick a = .ok d ∧ d.context.runner.currentName = some "Mob Defense" ∧
      d.context.world.mobs = [⟨3, ⟨0, 2⟩, 4⟩] ∧
      d.context.world.history = [.attack 1, .attack 1, .move ⟨0, 0⟩ ⟨1, 0⟩] := by
  obtain ⟨a, trail, hbuild, hworld, hrun⟩ :=
    mob_defense { world := some ambush } ⟨1, ⟨2, 0⟩, 5⟩ {} rfl rfl rfl (by decide)
      ambush_threatened
  have hticks : a.world.fightTicks ⟨1, ⟨2, 0⟩, 5⟩ = 4 := by
    rw [hworld]
    decide
  have hroom : a.world.Affords ⟨1, ⟨2, 0⟩, 5⟩ := by
    rw [hworld]
    exact ⟨by decide, by decide, by decide, by decide⟩
  have hgo := (hrun 4 (by omega)).mono (G := fun _ => False) (fun _ he => he.2 hroom)
    fun _ _ _ h => h
  obtain ⟨d, hd, hroot, -, -, hmobs, -, hhistory, -⟩ := hgo.ok
  refine ⟨a, trail, d, hbuild, hd, (hroot (by omega)).1, ?_, ?_⟩
  · rw [hmobs hticks.symm, hworld]
    decide
  · rw [hhistory, hworld]
    decide

/-- The same mobs around an agent with more food than can be counted. -/
def granary : World := { ambush with inventory := { bread := 1 <<< 32 - 1, apple := 1 } }

theorem granary_threatened : granary.Threatened 6 ⟨1, ⟨2, 0⟩, 5⟩ := by
  have h := ambush_threatened
  exact ⟨h.unblocked, h.safe, h.central, h.mobs, h.distinct, h.nearest.mem, h.nearest.within,
    h.nearest.first⟩

/-- All chains are asked whether they want control, so with too much food the first tick ends the
run. -/
theorem mob_defense_granary :
    ∃ (p : AgentPlan) (m : Mob) (a : Agent) (trail : List (Happening Job)),
      p.builtin = true ∧ p.extra = [] ∧ p.config.validate = .ok () ∧
        0 < p.config.world.attackDamage ∧
        (p.world.getD {}).Threatened p.config.defenseRadius m ∧
        p.build {} = .ok ⟨.ok a, {}, trail⟩ ∧ tick a = .error .overflow := by
  obtain ⟨a, trail, hbuild, -⟩ :=
    AgentPlan.build_ok (p := { world := some granary }) rfl rfl rfl {}
  exact ⟨{ world := some granary }, ⟨1, ⟨2, 0⟩, 5⟩, a, trail, rfl, rfl, rfl, by decide,
    granary_threatened, hbuild, AgentPlan.first_tick_error hbuild (by decide +kernel)⟩

end Agent

end Arbiter
