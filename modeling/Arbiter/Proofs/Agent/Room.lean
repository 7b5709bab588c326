import Arbiter.Proofs.Conduct.Agent
import Arbiter.Proofs.Grid.Refuge

/-! Runs of bounded length have room. Every tick uses up a little of the range of each counter and
coordinate, so an agent that starts far from their limits comes to none of them. -/

namespace Arbiter

/-- A walk of the job leads nowhere near the limits of the grid. -/
def Job.Near (j : Job) : Prop := ∀ p ∈ j.target?, Position.origin.gap p ≤ 1 <<< 30 + 1 <<< 29 + 33

namespace World

/-- How much of the range of each counter and coordinate is used up after `n` ticks, when there is
room for one more turn of every job of a rank below `r`. Only the job that is ticked last can move.
-/
structure Ample (n r : Nat) (js : List Job) (w : World) : Prop where
  ticks : n ≤ 1 <<< 29
  begun : min r 1 ≤ n
  position : Position.origin.gap w.position + min r 1 ≤ 1 <<< 30 + n
  mobs : ∀ m ∈ w.mobs, Position.origin.gap m.position ≤ 1 <<< 30
  deeds : w.deedCount + r ≤ 1 <<< 63 + 3 * n
  stuck : w.stuck + r ≤ 1 <<< 31 + 3 * n
  tick : w.tick ≤ 1 <<< 63 + n
  hunger : w.hunger + 1 < 1 <<< 32
  food : w.inventory.cookedBeef + w.inventory.bread + w.inventory.apple < 1 <<< 32
  counters : ∀ j ∈ js, j.counter + (if j.kind.rank < r then 1 else 0) ≤ n

namespace Ample

variable {n r : Nat} {js a b : List Job} {j : Job} {w : World}

theorem spend (h : w.Ample n (r + 1) js) : w.Ample n r js where
  ticks := h.ticks
  begun := by have := h.begun; omega
  position := by have := h.position; omega
  mobs := h.mobs
  deeds := by have := h.deeds; omega
  stuck := by have := h.stuck; omega
  tick := h.tick
  hunger := h.hunger
  food := h.food
  counters i hi := by
    have hcounter := h.counters i hi
    split <;> split at hcounter <;> omega

/-- Other jobs at work and other frames need no room of their own. -/
theorem withJobs {is : List Job} (h : w.Ample n r js) (frames : Frames)
    (hcounters : ∀ i ∈ is, i.counter + (if i.kind.rank < r then 1 else 0) ≤ n) :
    ({ w with frames } : World).Ample n r is :=
  ⟨h.ticks, h.begun, h.position, h.mobs, h.deeds, h.stuck, h.tick, h.hunger, h.food, hcounters⟩

theorem begins (h : w.Ample n r (a ++ b)) (frames : Frames) :
    ({ w with frames } : World).Ample n r (a ++ j.restarted :: b) := by
  refine h.withJobs frames ?_
  intro i hi
  rcases List.mem_append.mp hi with hi | hi
  · exact h.counters i (List.mem_append_left b hi)
  · rcases List.mem_cons.mp hi with rfl | hi
    · have hbegun := h.begun
      rw [j.counter_restarted]
      split <;> omega
    · exact h.counters i (List.mem_append_right a hi)

theorem quits (h : w.Ample n r (a ++ j :: b)) (frames : Frames) :
    ({ w with frames } : World).Ample n r (a ++ b) := by
  refine h.withJobs frames ?_
  intro i hi
  rcases List.mem_append.mp hi with hi | hi
  · exact h.counters i (List.mem_append_left _ hi)
  · exact h.counters i (List.mem_append_right _ (List.mem_cons_of_mem _ hi))

/-! ### Distances -/

theorem inland (h : w.Ample n r js) : w.position.Inland (Position.refugeRadius + 1) := by
  have hposition := h.position
  have hticks := h.ticks
  have hradius : Position.refugeRadius = 32 := rfl
  exact Position.inland_of_gap (by omega)

theorem near (h : w.Ample n r js) (hj : j.Near) :
    ∀ p ∈ j.target?, w.position.gap p < 1 <<< 32 := by
  intro p hp
  have htarget := hj p hp
  have hposition := h.position
  have hticks := h.ticks
  have htriangle := Position.gap_triangle w.position Position.origin p
  rw [Position.gap_comm w.position Position.origin] at htriangle
  omega

theorem nearMobs (h : w.Ample n r js) : ∀ m ∈ w.mobs, w.position.gap m.position < 1 <<< 32 := by
  intro m hm
  have hmob := h.mobs m hm
  have hposition := h.position
  have hticks := h.ticks
  have htriangle := Position.gap_triangle w.position Position.origin m.position
  rw [Position.gap_comm w.position Position.origin] at htriangle
  omega

/-! ### Turns -/

theorem hasRoom (h : w.Ample n (j.kind.rank + 1) (a ++ j :: b)) (hj : j.Near) : j.HasRoom w := by
  have hticks := h.ticks
  have hcounter := h.counters j (List.mem_append_right a List.mem_cons_self)
  rw [if_pos (Nat.lt_succ_self _)] at hcounter
  refine ⟨⟨h.inland.mono (by decide), ?_, ?_⟩, ?_, h.near hj, h.nearMobs⟩
  · have := h.stuck
    omega
  · have := h.deeds
    omega
  · omega

theorem turns {turn : Turn Job} {w' : World} (h : w.Ample n (j.kind.rank + 1) (a ++ j :: b))
    (ht : j.Turned w turn w') : w'.Ample n j.kind.rank (a ++ turn.task :: b) := by
  have hcounters : ∀ i ∈ a ++ turn.task :: b,
      i.counter + (if i.kind.rank < j.kind.rank then 1 else 0) ≤ n := by
    have hothers : ∀ i ∈ a ++ j :: b,
        i.counter + (if i.kind.rank < j.kind.rank then 1 else 0) ≤ n := by
      intro i hi
      have hcounter := h.counters i hi
      split <;> split at hcounter <;> omega
    intro i hi
    rcases List.mem_append.mp hi with hi | hi
    · exact hothers i (List.mem_append_left _ hi)
    · rcases List.mem_cons.mp hi with rfl | hi
      · have hcounter := h.counters j (List.mem_append_right a List.mem_cons_self)
        rw [if_pos (Nat.lt_succ_self _)] at hcounter
        have hturn := ht.counter
        rw [ht.kind, if_neg (Nat.lt_irrefl _)]
        omega
      · exact hothers i (List.mem_append_right a (List.mem_cons_of_mem _ hi))
  have hstill := ht.position
  have hposition := h.position
  have hdeeds := h.deeds
  have hstuck := h.stuck
  have hbegun := h.begun
  rcases ht.deed with rfl | ⟨d, hd⟩
  · exact ⟨h.ticks, by omega, by omega, h.mobs, by omega, by omega, h.tick, h.hunger, h.food,
      hcounters⟩
  · refine ⟨h.ticks, by omega, ?_, ?_, ?_, ?_, ?_, ?_, ?_, hcounters⟩
    · by_cases hrank : 0 < j.kind.rank
      · rw [hstill hrank]
        omega
      · have hgap := hd.gap_le
        have htriangle := Position.gap_triangle Position.origin w.position w'.position
        omega
    · intro m hm
      obtain ⟨m', hm', hp⟩ := hd.mobs m hm
      rw [← hp]
      exact h.mobs m' hm'
    · have := hd.deedCount
      omega
    · have := hd.stuck_le
      omega
    · rw [hd.tick]
      exact h.tick
    · have := hd.hunger_le
      have := h.hunger
      omega
    · have hbeef : w'.inventory.cookedBeef ≤ w.inventory.cookedBeef := hd.count_le .cookedBeef
      have hbread : w'.inventory.bread ≤ w.inventory.bread := hd.count_le .bread
      have happle : w'.inventory.apple ≤ w.inventory.apple := hd.count_le .apple
      have := h.food
      omega

/-! ### Triggers -/

theorem yields_holds (h : w.Ample n r js) (t : Trigger) :
    Yields (t.holds w) (fun _ => False) fun _ => True := by
  cases t with
  | hazard => exact yields_pure trivial
  | mob radius =>
      obtain ⟨near, hnear⟩ := nearestMob?_ok h.nearMobs radius
      rw [Trigger.holds, hnear]
      exact yields_pure trivial
  | stuck threshold => exact yields_pure trivial
  | hunger threshold =>
      rw [Trigger.holds]
      split
      · refine Yields.bind (P := fun _ => True) ?_ fun _ _ => yields_pure trivial
        refine yields_iff.mpr ⟨fun e he => ?_, fun _ _ => trivial⟩
        have hfull := (Inventory.foodCount_error he).2
        have := h.food
        omega
      · exact yields_pure trivial

theorem yields_answer? (h : w.Ample n r js) (t : Trigger) :
    Yields (t.answer? w) (fun _ => False) fun job => ∀ j ∈ job, j.Near := by
  cases t with
  | hazard =>
      rw [Trigger.answer?]
      split
      · obtain ⟨p, hp, hwithin⟩ := Position.refuge_within w.isSafe h.inland
        rw [nearestSafe, hp]
        refine yields_pure ?_
        rintro j hj q hq
        cases hj
        cases hq
        have hposition := h.position
        have hticks := h.ticks
        have htriangle := Position.gap_triangle Position.origin w.position p
        have hradius : Position.refugeRadius = 32 := rfl
        show Position.origin.gap p ≤ _
        omega
      · exact yields_pure (by simp)
  | mob radius =>
      obtain ⟨near, hnear⟩ := nearestMob?_ok h.nearMobs radius
      rw [Trigger.answer?, hnear]
      refine yields_pure ?_
      rintro j hj
      obtain ⟨m, -, rfl⟩ := Option.map_eq_some_iff.mp hj
      intro q hq
      cases hq
  | stuck threshold =>
      rw [Trigger.answer?]
      refine (h.yields_holds (.stuck threshold)).bind ?_
      intro holds _
      refine yields_pure ?_
      split
      · rintro j hj
        cases hj
        intro q hq
        cases hq
      · intro j hj
        cases hj
  | hunger threshold =>
      rw [Trigger.answer?]
      refine (h.yields_holds (.hunger threshold)).bind ?_
      intro holds _
      refine yields_pure ?_
      split
      · rintro j hj
        cases hj
        intro q hq
        cases hq
      · intro j hj
        cases hj

end Ample

theorem ample_conduct (n : Nat) :
    Conduct (fun _ => False) (fun _ => True) Job.Near fun r js w => w.Ample n r js where
  routine _ _ := trivial
  spend := Ample.spend
  begins {r a b j w} hj h := ⟨by rw [Job.Near, j.target?_restarted]; exact hj, h.begins _⟩
  quits h := h.quits _
  closes _ _ _ _ := trivial
  turns {a b j w turn w'} hj h ht := by
    refine ⟨by rw [Job.Near, ht.target]; exact hj, ?_, h.turns ht⟩
    intro s hs p hp
    obtain ⟨m, hm, rfl⟩ := (ht.candidate s hs).2 p hp
    have := h.mobs m hm
    omega
  room hj h := Or.inr (h.hasRoom hj)
  target hj h := Or.inr (h.near hj)
  idle := nofun
  holds t h := h.yields_holds t
  answer t h := h.yields_answer? t

/-- A tick makes room for the turns that are taken in it. -/
theorem advance_ample {n : Nat} (hn : n < 1 <<< 29) {js : List Job} {w : World}
    (h : w.Ample n 0 js) :
    advance.Keeps w (fun _ => False) (fun _ => True) fun _ w' => w'.Ample (n + 1) 3 js := by
  have htick := h.tick
  have hhunger := h.hunger
  refine (advance_keeps w).mono ?_ (fun _ _ => trivial) ?_
  · rintro e ⟨-, hfull⟩
    omega
  · rintro _ w' ⟨hunger, hlimit, rfl⟩
    have hposition := h.position
    have hdeeds := h.deeds
    have hstuck := h.stuck
    refine ⟨hn, by omega, ?_, h.mobs, ?_, ?_, ?_, ?_, h.food, ?_⟩
    · show Position.origin.gap w.position + min 3 1 ≤ 1 <<< 30 + (n + 1)
      omega
    · show w.deedCount + 3 ≤ 1 <<< 63 + 3 * (n + 1)
      omega
    · show w.stuck + 3 ≤ 1 <<< 31 + 3 * (n + 1)
      omega
    · show w.tick + 1 ≤ 1 <<< 63 + (n + 1)
      omega
    · show hunger + 1 < 1 <<< 32
      have hmax : maxHunger = 20 := rfl
      omega
    · intro j hj
      have hcounter := h.counters j hj
      have hrank := j.kind.rank_le
      rw [if_neg (Nat.not_lt_zero _)] at hcounter
      rw [if_pos (by omega)]
      omega

/-- Everybody and every counter is far from the limits, and the food can be counted. -/
structure Modest (w : World) : Prop where
  position : w.position.Central
  mobs : ∀ m ∈ w.mobs, m.position.Central
  hunger : w.hunger < 1 <<< 32 - 1
  stuck : w.stuck ≤ 1 <<< 31
  tick : w.tick ≤ 1 <<< 63
  deeds : w.deedCount ≤ 1 <<< 63
  food : w.inventory.cookedBeef + w.inventory.bread + w.inventory.apple < 1 <<< 32

end World

theorem Position.Central.gap_le {p : Position} (h : p.Central) : origin.gap p ≤ 1 <<< 30 := by
  have hx := h.x
  have hy := h.y
  show (0 - p.x).natAbs + (0 - p.y).natAbs ≤ 1 <<< 30
  omega

theorem World.Modest.ample {w : World} (h : w.Modest) : w.Ample 0 0 [] where
  ticks := by decide
  begun := by decide
  position := h.position.gap_le
  mobs m hm := (h.mobs m hm).gap_le
  deeds := h.deeds
  stuck := h.stuck
  tick := h.tick
  hunger := by have := h.hunger; omega
  food := h.food
  counters := nofun

/-! ## Runs -/

namespace Agent

/-- No change of the world, and no request for a walk far from the origin. -/
def Operation.Modest : Operation → Prop
  | request job _ => ∀ p ∈ job.target?, p.Central
  | change _ => False
  | _ => True

theorem Operation.Modest.fits {op : Operation} (h : op.Modest)
    (V : Nat → List Job → World → Prop) : op.Fits Job.Near V := by
  cases op with
  | request job callback =>
      intro p hp
      have := (h p hp).gap_le
      omega
  | change f => exact h.elim
  | _ => trivial

/-- A run of at most `2 ^ 29` ticks, with any requests, cancellations and stops in between, comes to
no limit of a counter or coordinate: it goes through. -/
theorem bounded_run_ok (p : AgentPlan) (ops : List Operation) (k : World)
    (hbuiltin : p.builtin = true) (hextra : p.extra = []) (hvalid : p.config.validate = .ok ())
    (hmodest : (p.world.getD {}).Modest) (hops : ∀ op ∈ ops, op.Modest)
    (hticks : ops.countP Operation.isTick ≤ 1 <<< 29) :
    ∃ a trail, p.build k = .ok ⟨.ok a, k, trail⟩ ∧ ∃ d, performAll ops a = .ok d := by
  obtain ⟨a, trail, hbuild, -⟩ := AgentPlan.build_ok hbuiltin hextra hvalid k
  obtain ⟨hrunner, hnobody, hworld⟩ : a.runner.Tidy True Job.Near ∧
      (True → a.runner.atWork = []) ∧
      a.world = { p.world.getD {} with rules := p.config.world } :=
    AgentPlan.build_tidy hbuild fun c hc => absurd (hextra ▸ hc) List.not_mem_nil
  have hample : a.world.Ample 0 0 a.runner.atWork := by
    have hw : ({ p.world.getD {} with rules := p.config.world } : World).Modest :=
      ⟨hmodest.position, hmodest.mobs, hmodest.hunger, hmodest.stuck, hmodest.tick, hmodest.deeds,
        hmodest.food⟩
    rw [hnobody trivial, hworld]
    exact hw.ample
  have hrun : (performAll ops).Keeps a (fun _ => False) (Happening.Notes fun _ => True) fun _ b =>
      b.Follows True Job.Near (World.Ample (0 + ops.countP Operation.isTick) 0 · ·) :=
    Follows.performAll_keeps World.ample_conduct (fun n hn _ _ h => World.advance_ample hn h)
      (fun op hop => (hops op hop).fits _) (by rw [Nat.zero_add]; exact hticks)
      ⟨hrunner, hample⟩
  obtain ⟨d, hd, -⟩ := Act.Meets.ok hrun
  exact ⟨a, trail, hbuild, d, hd⟩

/-- A hungry agent with a mob in sight and counters that are already high. -/
def veteran : AgentPlan where
  world := some
    { tick := 1 <<< 63
      hunger := 15
      inventory := { bread := 1 <<< 32 - 2, apple := 1 }
      mobs := [⟨1, ⟨0x1FFFFFFF, 4⟩, 8⟩]
      stuck := 1 <<< 31
      deedCount := 1 <<< 63 }

theorem bounded_run_ok_veteran :
    ∃ a trail, AgentPlan.build veteran {} = .ok ⟨.ok a, {}, trail⟩ ∧
      ∃ d, performAll [.request (.gotoTarget ⟨-2, 7⟩) none, .tick, .tick, .stop,
        .request (.wanderFor 3) (some (.tagged "walk")), .tick, .cancel, .tick] a = .ok d :=
  bounded_run_ok veteran _ {} rfl rfl rfl
    ⟨⟨by decide, by decide⟩,
      by
        intro m hm
        obtain rfl := List.mem_singleton.mp hm
        exact ⟨by decide, by decide⟩,
      by decide, by decide, by decide, by decide, by decide⟩
    (by
      intro op hop
      simp only [List.mem_cons, List.not_mem_nil, or_false] at hop
      rcases hop with rfl | rfl | rfl | rfl | rfl | rfl | rfl | rfl
      · rintro p hp
        cases hp
        exact ⟨by decide, by decide⟩
      · trivial
      · trivial
      · trivial
      · exact nofun
      · trivial
      · trivial
      · trivial)
    (by decide)

end Agent

end Arbiter
