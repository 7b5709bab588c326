import Arbiter.Proofs.Agent.Survival
import Arbiter.Proofs.Grid.Refuge

/-! An agent on a hazard leaves it by the shortest way, whatever else goes on. Every step takes two
ticks, in both of which the hazard hurts. -/

namespace Arbiter

variable {F : Fault → Prop} {w : World} {target : Position}

namespace World

/-! ## The field -/

/-- The agent stands on a hazard, and of the tiles without one the nearest is `d` tiles away. No
tile is blocked, and everybody is far from the limits of the grid. -/
structure Beset (w : World) (d : Nat) : Prop where
  unblocked : ∀ p, w.isBlocked p = false
  onHazard : w.onHazard = true
  central : w.position.Central
  mobs : ∀ m ∈ w.mobs, m.position.Central
  positive : 1 ≤ d
  within : d ≤ 32
  refuge : ∃ p, w.position.gap p = d ∧ w.isHazard p = false
  nearest : ∀ p, w.position.gap p < d → w.isHazard p = true

structure HasRoom (w : World) (d : Nat) : Prop where
  tick : w.tick + (2 * d + 1) < 1 <<< 64
  hunger : w.hunger + 1 < 1 <<< 32
  food : w.inventory.cookedBeef + w.inventory.bread + w.inventory.apple < 1 <<< 32
  deeds : w.deedCount + d < 1 <<< 64

variable {d : Nat}

theorem Beset.inland (h : w.Beset d) : w.position.Inland (d + 1) := by
  have hx := h.central.x
  have hy := h.central.y
  have hd := h.within
  exact ⟨by omega, by omega, by omega, by omega⟩

theorem Beset.gap_mob (h : w.Beset d) {p : Position} (hp : w.position.gap p ≤ d) {m : Mob}
    (hm : m ∈ w.mobs) : p.gap m.position < 1 <<< 32 := by
  have hx := h.central.x
  have hy := h.central.y
  have hmx := (h.mobs m hm).x
  have hmy := (h.mobs m hm).y
  have hd := h.within
  have hgap : w.position.gap m.position ≤ 1 <<< 31 := by
    simp only [Position.gap]
    omega
  have htri := Position.gap_triangle p w.position m.position
  have hsymm := Position.gap_comm p w.position
  omega

theorem Beset.nearestSafe (h : w.Beset d) :
    ∃ target, w.nearestSafe = .ok target ∧ w.position.gap target = d ∧
      w.isHazard target = false := by
  obtain ⟨p, hp, hsafe⟩ := h.refuge
  have hnear : ∀ q, w.position.gap q < d → w.isSafe q = false := by
    intro q hq
    simp [isSafe, h.nearest q hq]
  have hsafe' : w.isSafe p = true := by simp [isSafe, hsafe, h.unblocked p]
  obtain ⟨target, htarget, hgap, hsafe⟩ :=
    Position.refuge_nearest h.inland h.within hnear ⟨p, hp, hsafe'⟩
  refine ⟨target, htarget, hgap, ?_⟩
  simpa [isSafe, h.unblocked target] using hsafe

end World

/-! ## The way -/

/-- The world after `n` ticks on hazards and `m` steps without a stop, with the agent on the tile
`p`. -/
def Underway (w : World) (n m : Nat) (p : Position) (v : World) : Prop :=
  ∃ hunger stuck log, (hunger = w.hunger ∨ hunger ≤ maxHunger) ∧
    v = { w with
      tick := w.tick + n
      position := p
      health := w.health - n * w.rules.hazardDamage
      hunger
      stuck
      log
      deedCount := w.deedCount + m }

section Way

variable {v : World} {n m d : Nat} {p : Position}

theorem underway_self (w : World) : Underway w 0 0 w.position w :=
  ⟨w.hunger, w.stuck, w.log, Or.inl rfl, by simp⟩

theorem Underway.passed {hunger : Nat} (h : Underway w n m p v) (hz : w.isHazard p = true)
    (hh : hunger = v.hunger ∨ hunger ≤ maxHunger) :
    Underway w (n + 1) m p (v.passed hunger) := by
  obtain ⟨hunger', stuck, log, hh', rfl⟩ := h
  refine ⟨hunger, stuck, log, ?_, ?_⟩
  · rcases hh with rfl | hh
    · exact hh'
    · exact Or.inr hh
  · have hz' : w.hazards.contains p = true := hz
    simp only [World.passed, World.onHazard, World.isHazard, hz', if_true, Nat.sub_sub,
      Nat.add_assoc, Nat.add_mul, Nat.one_mul]

theorem Underway.moved (h : Underway w n m p v) (q : Position) :
    Underway w n (m + 1) q (v.moved q) := by
  obtain ⟨hunger, stuck, log, hh, rfl⟩ := h
  exact ⟨hunger, 0, _, hh, rfl⟩

theorem Underway.half {hunger : Nat} (h : Underway w n (n / 2) p v) (hz : w.isHazard p = true)
    (hh : hunger = v.hunger ∨ hunger ≤ maxHunger) (q : Position) :
    Underway w (n + 1) ((n + 1) / 2) (if n % 2 = 1 then q else p)
      (if n % 2 = 1 then (v.passed hunger).moved q else v.passed hunger) := by
  have hpassed := h.passed hz hh
  by_cases hodd : n % 2 = 1
  · have hhalf : (n + 1) / 2 = n / 2 + 1 := by omega
    rw [if_pos hodd, if_pos hodd, hhalf]
    exact hpassed.moved q
  · have hhalf : (n + 1) / 2 = n / 2 := by omega
    rw [if_neg hodd, if_neg hodd, hhalf]
    exact hpassed

theorem Underway.surroundings (h : Underway w n m p v) :
    v.mobs = w.mobs ∧ v.inventory = w.inventory ∧ v.hazards = w.hazards ∧
      v.blocked = w.blocked := by
  obtain ⟨hunger, stuck, log, -, rfl⟩ := h
  exact ⟨rfl, rfl, rfl, rfl⟩

theorem Underway.health (h : Underway w n m p v) :
    v.health = w.health - n * w.rules.hazardDamage := by
  obtain ⟨hunger, stuck, log, -, rfl⟩ := h
  rfl

theorem Underway.deedCount (h : Underway w n m p v) : v.deedCount = w.deedCount + m := by
  obtain ⟨hunger, stuck, log, -, rfl⟩ := h
  rfl

theorem Underway.advance (h : Underway w n m p v) (hn : n ≤ 2 * d) :
    World.advance.Meets v (fun e => e = .overflow ∧ ¬ w.HasRoom d) fun _ v' _ =>
      ∃ hunger, (hunger = v.hunger ∨ hunger ≤ maxHunger) ∧ v' = v.passed hunger := by
  obtain ⟨hunger, stuck, log, hh, rfl⟩ := h
  refine (World.advance_meets _).mono ?_ fun _ _ _ h => h
  intro e he
  obtain ⟨he, hfull⟩ := he
  refine ⟨he, ?_⟩
  intro hroom
  have htick := hroom.tick
  have hhunger := hroom.hunger
  have hmax : maxHunger = 20 := rfl
  dsimp only at hfull
  omega

end Way

/-- How an escape stands after `n` ticks: the walk has come half as many tiles, and the chain of
survival has been in control since the first tick. -/
structure Fleeing (c : Config) (w : World) (target : Position) (d n : Nat) (a : Agent) : Prop where
  chains : ∃ s u, Stage target a.world.position n s ∧ u.Waiting ∧
    a.runner.chains = .reactive (survival s none) :: AgentPlan.followers c u
  current : a.runner.current = if n = 0 then none else some 0
  enabled : a.runner.enabled = true
  world : Underway w n (n / 2) a.world.position a.world
  behind : w.position.gap a.world.position ≤ n / 2
  ahead : a.world.position.gap target + n / 2 = d

section Flight

variable {c : Config} {a : Agent} {n d : Nat}

theorem Agent.New.fleeing (h : a.New c w) (htarget : w.position.gap target = d) :
    Fleeing c w target d 0 a := by
  obtain ⟨u, hu, hchains⟩ := h.chains
  have hw := h.world
  subst hw
  exact ⟨⟨none, u, .resting, hu, hchains⟩, h.current, h.enabled, underway_self _,
    Nat.le_of_eq (Position.gap_self _), htarget⟩

theorem Fleeing.tick_survival {s : Option (Spine Job)} {u : UserChain Job}
    {R : AgentChain → World → Prop} (h : Fleeing c w target d n a) (hw : w.Beset d) (hn : n ≤ 2 * d)
    (hu : u.Waiting)
    (hchains : a.runner.chains = .reactive (survival s none) :: AgentPlan.followers c u)
    (hrelevant : s = none → a.world.onHazard = true)
    (htick : ∀ hunger, (hunger = a.world.hunger ∨ hunger ≤ maxHunger) →
      (Chain.tick (AgentChain.reactive (survival s none)) {}).Meets (a.world.passed hunger)
        (fun e => e = .overflow ∧ ¬ w.HasRoom d) fun p v _ => R p.1 v) :
    Agent.tick.Meets a (fun e => e = .overflow ∧ ¬ w.HasRoom d) fun _ b _ =>
      ∃ chain, R chain b.world ∧ b.runner.chains = chain :: AgentPlan.followers c u ∧
        b.runner.current = some 0 ∧ b.runner.enabled = true := by
  have hfree : a.runner.Free 0 := Runner.free_of_current h.current
  refine (Agent.tick_selected (i := 0) (R := R) h.enabled hfree (by rw [hchains]; rfl)
    ((h.world.advance hn).imp ?_)).imp ?_
  · intro _ v t hv
    obtain ⟨hunger, hhunger, rfl⟩ := hv
    have hrelevant' : s = none → (a.world.passed hunger).onHazard = true := hrelevant
    rw [hchains]
    refine ⟨?_, fun _ hs => select_survival hu hrelevant' hs, htick hunger hhunger⟩
    intro e he
    obtain ⟨b, hb, he⟩ :=
      select_head_error (survival_isRelevant hrelevant') (survival_priority s none _) he
    obtain ⟨hmobs, hinventory, -⟩ := h.world.surroundings
    have hreach : ∀ m ∈ (a.world.passed hunger).mobs,
        (a.world.passed hunger).position.gap m.position < 1 <<< 32 := by
      intro m hm
      rw [World.passed, hmobs] at hm
      have hbehind := h.behind
      exact hw.gap_mob (p := a.world.position) (by omega) hm
    obtain ⟨he, hfood⟩ := followers_error hreach hb he
    rw [World.passed, hinventory] at hfood
    refine ⟨he, ?_⟩
    intro hroom
    have := hroom.food
    omega
  · intro _ b t hb
    obtain ⟨chain, hR, hb, hrest⟩ := hb
    rw [hchains] at hb
    exact ⟨chain, hR, hb, hrest⟩

theorem Fleeing.onHazard (h : Fleeing c w target d n a) (hw : w.Beset d) (hn : n < 2 * d) :
    w.isHazard a.world.position = true ∧ a.world.onHazard = true := by
  have hbehind := h.behind
  have hz := hw.nearest a.world.position (by omega)
  obtain ⟨-, -, hhazards, -⟩ := h.world.surroundings
  refine ⟨hz, ?_⟩
  rw [World.onHazard, World.isHazard, hhazards]
  exact hz

/-- Before the target is reached there is a next tile on the way, which is one nearer. -/
theorem Fleeing.next (h : Fleeing c w target d n a) (hw : w.Beset d) (hn : n < 2 * d) :
    ∃ dir q, a.world.position.towards? target = some dir ∧ a.world.position.step dir = .ok q ∧
      w.position.gap q ≤ n / 2 + 1 ∧ q.gap target + (n / 2 + 1) = d := by
  have hbehind := h.behind
  have hahead := h.ahead
  have hfar : 0 < a.world.position.gap target := by omega
  obtain ⟨dir, hdir⟩ := Position.exists_towards hfar
  have hstep := hw.inland.step (q := a.world.position) (by omega) dir
  have hnext := Position.gap_of_step hstep
  have hleft := Position.gap_of_step_towards hdir hstep
  have htri := Position.gap_triangle w.position a.world.position (a.world.position.beside dir)
  exact ⟨dir, _, hdir, hstep, by omega, by omega⟩

theorem Fleeing.tick_stage {s : Option (Spine Job)} {dir : Direction} {q : Position}
    (h : Fleeing c w target d n a) (hw : w.Beset d) (hsafe : w.nearestSafe = .ok target)
    (hn : n < 2 * d) (hstage : Stage target a.world.position n s)
    (hdir : a.world.position.towards? target = some dir)
    (hstep : a.world.position.step dir = .ok q) (hunger : Nat) :
    (Chain.tick (AgentChain.reactive (survival s none)) {}).Meets (a.world.passed hunger)
      (fun e => e = .overflow ∧ ¬ w.HasRoom d) fun p v _ =>
        ∃ s', p.1 = .reactive (survival s' none) ∧ Stage target v.position (n + 1) s' ∧
          v = if n % 2 = 1 then (a.world.passed hunger).moved q else a.world.passed hunger := by
  obtain ⟨-, -, hhazards, hblocked⟩ := h.world.surroundings
  obtain ⟨-, honHazard⟩ := h.onHazard hw hn
  have hbehind := h.behind
  have hahead := h.ahead
  have hd := hw.within
  -- The search starts from the world of the first tick, which differs from `w` only in counters.
  have hfirst : n = 0 → (a.world.passed hunger).onHazard = true ∧
      (a.world.passed hunger).nearestSafe = .ok target := by
    intro hzero
    have hposition : a.world.position = w.position :=
      (Position.gap_eq_zero_iff.mp (by omega)).symm
    refine ⟨honHazard, ?_⟩
    rw [← hsafe]
    exact World.nearestSafe_congr hposition hhazards hblocked
  have hcount : a.world.position.gap target < 1 <<< 32 := by omega
  have hfar : 0 < a.world.position.gap target := by omega
  have hfree : (a.world.passed hunger).isBlocked q = false := by
    rw [World.isBlocked, World.passed, hblocked]
    exact hw.unblocked q
  apply (Stage.tick (w := a.world.passed hunger) hstage hfirst hcount hfar hdir hstep hfree).mono
  · intro e he
    obtain ⟨he, hodd, hfull⟩ := he
    refine ⟨he, ?_⟩
    intro hroom
    have hdeeds := hroom.deeds
    have hcounted := h.world.deedCount
    rw [World.passed] at hfull
    dsimp only at hfull
    omega
  · intro p v t hp
    exact hp

theorem Fleeing.tick (h : Fleeing c w target d n a) (hw : w.Beset d)
    (hsafe : w.nearestSafe = .ok target) (hn : n < 2 * d) :
    Agent.tick.Meets a (fun e => e = .overflow ∧ ¬ w.HasRoom d) fun _ b _ =>
      Fleeing c w target d (n + 1) b := by
  obtain ⟨s, u, hstage, hu, hchains⟩ := h.chains
  obtain ⟨dir, q, hdir, hstep, hbehind', hahead'⟩ := h.next hw hn
  obtain ⟨hz, honHazard⟩ := h.onHazard hw hn
  have hbehind := h.behind
  have hahead := h.ahead
  refine (h.tick_survival (R := fun chain v => ∃ s' hunger,
    chain = .reactive (survival s' none) ∧ Stage target v.position (n + 1) s' ∧
      (hunger = a.world.hunger ∨ hunger ≤ maxHunger) ∧
      v = if n % 2 = 1 then (a.world.passed hunger).moved q else a.world.passed hunger)
    hw (by omega) hu hchains (fun _ => honHazard) ?_).imp ?_
  · intro hunger hhunger
    apply (h.tick_stage hw hsafe hn hstage hdir hstep hunger).imp
    intro p v t hp
    obtain ⟨s', hp, hs', hv⟩ := hp
    exact ⟨s', hunger, hp, hs', hhunger, hv⟩
  · intro _ b t hb
    obtain ⟨chain, ⟨s', hunger, rfl, hs', hhunger, hv⟩, hb, hcur, he⟩ := hb
    have hposition : b.world.position = if n % 2 = 1 then q else a.world.position := by
      rw [hv]
      split <;> rfl
    refine ⟨⟨s', u, hs', hu, hb⟩, by simpa using hcur, he, ?_, ?_, ?_⟩
    · rw [hposition, hv]
      exact h.world.half hz hhunger q
    · rw [hposition]
      split <;> omega
    · rw [hposition]
      split <;> omega

/-- The escape is over: the chain of survival is in control and holds nothing. -/
structure Escaped (a : Agent) : Prop where
  chain : ∃ o, a.runner.chains[0]? = some (.reactive (survival none o))
  current : a.runner.current = some 0

/-- On the target the walk ends. -/
theorem Fleeing.arrive (h : Fleeing c w target d (2 * d) a) (hw : w.Beset d) :
    Agent.tick.Meets a (fun e => e = .overflow ∧ ¬ w.HasRoom d) fun _ b _ => Escaped b := by
  obtain ⟨s, u, hstage, hu, hchains⟩ := h.chains
  have hpositive := hw.positive
  have hat : a.world.position.gap target = 0 := by
    have hahead := h.ahead
    omega
  obtain ⟨s, rfl, hpoised⟩ : ∃ s', s = some s' ∧
      Spine.Poised target 0 a.world.position s' := by
    generalize hn : 2 * d = n at hstage
    cases hstage with
    | resting => omega
    | @poised i s hs => exact ⟨s, rfl, hs⟩
    | crossing => omega
  refine (h.tick_survival (R := fun chain _ =>
    chain = .reactive (survival none (some .finished))) hw (by omega) hu hchains nofun ?_).imp ?_
  · intro hunger _
    apply (ReactiveChain.tick_quiet (R := fun inner v =>
      inner = (survival none (some .finished)).inner ∧ v = a.world.passed hunger) rfl
      (arrived_tick (w := a.world.passed hunger) hpoised hat)).imp
    intro p v t hp
    obtain ⟨chain, hp, inner, rfl, rfl, -⟩ := hp
    exact hp
  · intro _ b t hb
    obtain ⟨chain, rfl, hb, hcur, -⟩ := hb
    exact ⟨⟨some .finished, by rw [hb]; rfl⟩, hcur⟩

/-- A run of a new agent up to the tick after the last step. -/
theorem Agent.New.times_tick (h : a.New c w) (hw : w.Beset d) (hsafe : w.nearestSafe = .ok target)
    (htarget : w.position.gap target = d) (hn : n ≤ 2 * d + 1) :
    (Act.times n Agent.tick).Meets a (fun e => e = .overflow ∧ ¬ w.HasRoom d) fun _ b _ =>
      n ≤ 2 * d ∧ Fleeing c w target d n b ∨ n = 2 * d + 1 ∧ Escaped b := by
  refine Act.Meets.times
    (I := fun n b => n ≤ 2 * d ∧ Fleeing c w target d n b ∨ n = 2 * d + 1 ∧ Escaped b) ?_
    (Or.inl ⟨by omega, h.fleeing htarget⟩)
  intro i hi b hb
  rcases hb with ⟨-, hb⟩ | ⟨hi', -⟩
  · by_cases hlast : i = 2 * d
    · subst hlast
      exact (hb.arrive hw).imp fun _ _ _ he => Or.inr ⟨rfl, he⟩
    · exact (hb.tick hw hsafe (by omega)).imp fun _ _ _ hf => Or.inl ⟨by omega, hf⟩
  · omega

theorem Fleeing.currentName (h : Fleeing c w target d n a) (hn : 1 ≤ n) :
    a.runner.currentName = some "World Survival" := by
  obtain ⟨s, u, -, -, hchains⟩ := h.chains
  have hcur := h.current
  rw [if_neg (by omega)] at hcur
  exact Runner.currentName_of_current hcur (by rw [hchains]; rfl)

theorem Escaped.currentName (h : Escaped a) : a.runner.currentName = some "World Survival" := by
  obtain ⟨o, ho⟩ := h.chain
  exact Runner.currentName_of_current h.current ho

end Flight

namespace World

variable {d : Nat}

theorem Beset.withRules (h : w.Beset d) (rules : Rules) : ({ w with rules } : World).Beset d :=
  ⟨h.unblocked, h.onHazard, h.central, h.mobs, h.positive, h.within, h.refuge, h.nearest⟩

end World

namespace Agent

/-- An agent that is built with the built-in chains in a field of hazards, `d` tiles from the
nearest tile without one, and is given any user jobs, goes to that tile in `2 * d` ticks. The chain
of survival is in control all the while, each of the ticks costs the damage of the hazard, and one
tick later the chain holds nothing. A run of so many ticks ends early only if a counter of the
initial world is about to overflow. -/
theorem hazard_escape (p : AgentPlan) (d : Nat) (requests : List (Job × Option Callback))
    (k : World) (hbuiltin : p.builtin = true) (hextra : p.extra = [])
    (hvalid : p.config.validate = .ok ()) (hfield : (p.world.getD {}).Beset d) :
    ∃ a trail target, p.build k = .ok ⟨.ok a, k, trail⟩ ∧
      a.world = { p.world.getD {} with rules := p.config.world } ∧
      a.world.nearestSafe = .ok target ∧ a.world.position.gap target = d ∧
      ∀ n ≤ 2 * d + 1,
        (requestAll requests >>= fun _ => Act.times n tick).Meets a
          (fun e => e = .overflow ∧ ¬ a.world.HasRoom d) fun _ b _ =>
            (1 ≤ n → b.runner.currentName = some "World Survival") ∧
            (n = 2 * d → b.world.position = target ∧
              b.world.health = a.world.health - 2 * d * p.config.world.hazardDamage) ∧
            (n = 2 * d + 1 → ∃ chain, b.runner.chains[0]? = some chain ∧
              Chain.name chain = "World Survival" ∧ Chain.spine? chain = none) := by
  obtain ⟨a, trail, hbuild, hnew⟩ := AgentPlan.build_ok hbuiltin hextra hvalid k
  have hworld := hnew.world
  have hw : a.world.Beset d := by
    rw [hworld]
    exact hfield.withRules p.config.world
  obtain ⟨target, hsafe, htarget, -⟩ := hw.nearestSafe
  refine ⟨a, trail, target, hbuild, hworld, hsafe, htarget, ?_⟩
  intro n hn
  rw [← hworld] at hnew
  apply (hnew.requestAll requests).bind
  intro _ b t hb
  apply (hb.times_tick hw hsafe htarget hn).imp
  intro _ b' t' hb'
  rcases hb' with ⟨hle, hflee⟩ | ⟨rfl, hescaped⟩
  · refine ⟨hflee.currentName, ?_, fun h => by omega⟩
    rintro rfl
    have hahead := hflee.ahead
    have hrules : a.world.rules = p.config.world := by rw [hworld]
    refine ⟨Position.gap_eq_zero_iff.mp (by omega), ?_⟩
    rw [hflee.world.health, hrules]
  · refine ⟨fun _ => hescaped.currentName, fun h => by omega, fun _ => ?_⟩
    obtain ⟨o, ho⟩ := hescaped.chain
    exact ⟨_, ho, rfl, rfl⟩

def minefield : World :=
  { hunger := 15
    inventory := { bread := 2 }
    mobs := [⟨1, ⟨2, 0⟩, 8⟩]
    hazards := ({} : Area).addRectangle ⟨-3, -1⟩ ⟨3, 1⟩ }

theorem minefield_beset : minefield.Beset 2 := by
  have hhazard : ∀ p, minefield.isHazard p = true ↔
      -3 ≤ p.x ∧ p.x ≤ 3 ∧ -1 ≤ p.y ∧ p.y ≤ 1 := by
    intro p
    show Area.contains (Area.addRectangle ⟨-3, -1⟩ ⟨3, 1⟩ {}) p = true ↔ _
    rw [Area.contains_addRectangle]
    simp [Region.contains, Area.contains_empty, and_assoc]
  refine ⟨Area.contains_empty, by decide, ⟨by decide, by decide⟩, ?_, by decide, by decide,
    ⟨⟨0, 2⟩, by decide, by decide⟩, ?_⟩
  · intro m hm
    obtain rfl := List.mem_singleton.mp hm
    exact ⟨by decide, by decide⟩
  · intro p hp
    rw [hhazard]
    have hgap : (0 - p.x).natAbs + (0 - p.y).natAbs < 2 := hp
    omega

theorem hazard_escape_minefield :
    ∃ a trail d, AgentPlan.build { world := some minefield } {} = .ok ⟨.ok a, {}, trail⟩ ∧
      (requestAll [(.wanderFor 3, none)] >>= fun _ => Act.times 4 tick) a = .ok d ∧
      d.context.runner.currentName = some "World Survival" ∧ d.context.world.health = 16 := by
  obtain ⟨a, trail, target, hbuild, hworld, -, -, hrun⟩ :=
    hazard_escape { world := some minefield } 2 [(.wanderFor 3, none)] {} rfl rfl rfl
      minefield_beset
  have hroom : a.world.HasRoom 2 := by
    rw [hworld]
    exact ⟨by decide, by decide, by decide, by decide⟩
  have hhealth : a.world.health = 20 := by
    rw [hworld]
    rfl
  have hgo := (hrun 4 (by omega)).mono (G := fun _ => False) (fun _ he => he.2 hroom)
    fun _ _ _ h => h
  obtain ⟨d, hd, hname, hend, -⟩ := hgo.ok
  refine ⟨a, trail, d, hbuild, hd, hname (by omega), ?_⟩
  rw [(hend rfl).2, hhealth]
  rfl

/-- The same field with more food than can be counted. -/
def larder : World := { minefield with inventory := { bread := 1 <<< 32 - 1, apple := 1 } }

theorem larder_beset : larder.Beset 2 := by
  have h := minefield_beset
  exact ⟨h.unblocked, h.onHazard, h.central, h.mobs, h.positive, h.within, h.refuge, h.nearest⟩

/-- All chains are asked whether they want control, so with too much food the first tick ends the
run. -/
theorem hazard_escape_larder :
    ∃ (p : AgentPlan) (a : Agent) (trail : List (Happening Job)),
      p.builtin = true ∧ p.extra = [] ∧ p.config.validate = .ok () ∧
        (p.world.getD {}).Beset 2 ∧ p.build {} = .ok ⟨.ok a, {}, trail⟩ ∧
        tick a = .error .overflow := by
  obtain ⟨a, trail, hbuild, -⟩ :=
    AgentPlan.build_ok (p := { world := some larder }) rfl rfl rfl {}
  exact ⟨{ world := some larder }, a, trail, rfl, rfl, rfl, larder_beset, hbuild,
    AgentPlan.first_tick_error hbuild (by decide +kernel)⟩

end Agent

end Arbiter
