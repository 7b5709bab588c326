import Arbiter.Proofs.Agent.Basic
import Arbiter.Proofs.Job.Walking

/-! The chain of survival: how it walks off a hazard, and why no other built-in chain takes control
from it. -/

namespace Arbiter

variable {F : Fault → Prop} {w : World} {target : Position}

/-! ## Ticks of reactive chains -/

theorem AgentChain.tick_reactive {c : ReactiveChain} {trace : Trace}
    {R : ReactiveChain → World → Prop}
    (h : (c.tick trace).Meets w F fun p w' _ => R p.1 w') :
    (Chain.tick (AgentChain.reactive c) trace).Meets w F fun p w' _ =>
      ∃ c', p.1 = .reactive c' ∧ R c' w' := by
  show (AgentChain.tick (.reactive c) trace).Meets w F _
  rw [AgentChain.tick]
  apply h.bind
  intro p w' t h'
  exact Act.meets_pure ⟨p.1, rfl, h'⟩

namespace ReactiveChain

variable {c : ReactiveChain} {trace : Trace} {R : SingleChain World Job → World → Prop}

/-- A tick in which the chain asks for nothing. -/
theorem tick_quiet (hr : c.request? w = .ok none)
    (h : (c.inner.tick trace).Meets w F fun p w' _ => R p.1 w') :
    (Chain.tick (AgentChain.reactive c) trace).Meets w F fun p w' _ =>
      ∃ c', p.1 = .reactive c' ∧ ∃ inner, c' = { c with inner } ∧ R inner w' := by
  apply AgentChain.tick_reactive (R := fun c' w' => ∃ inner, c' = { c with inner } ∧ R inner w')
  rw [ReactiveChain.tick]
  refine Act.Meets.get_bind (Act.Meets.ofExcept_bind (by simp [hr]) ?_)
  intro job hjob
  obtain rfl : none = job := Except.ok.inj (hr.symm.trans hjob)
  simp only [pure_bind]
  apply h.bind
  intro p w' t hR
  exact Act.meets_pure ⟨p.1, rfl, hR⟩

/-- A tick in which the chain asks for a job. -/
theorem tick_requesting {job : Job} {inner : SingleChain World Job}
    (hr : c.request? w = .ok (some job))
    (hrun : (c.inner.run job).Meets w F fun r w' _ => r.2 = inner ∧ w' = w)
    (h : (inner.tick trace).Meets w F fun p w' _ => R p.1 w') :
    (Chain.tick (AgentChain.reactive c) trace).Meets w F fun p w' _ =>
      ∃ c', p.1 = .reactive c' ∧ ∃ inner, c' = { c with inner } ∧ R inner w' := by
  apply AgentChain.tick_reactive (R := fun c' w' => ∃ inner, c' = { c with inner } ∧ R inner w')
  rw [ReactiveChain.tick]
  refine Act.Meets.get_bind (Act.Meets.ofExcept_bind (by simp [hr]) ?_)
  intro job' hjob
  obtain rfl : some job = job' := Except.ok.inj (hr.symm.trans hjob)
  apply hrun.bind
  intro r w' t h'
  obtain ⟨accepted, inner'⟩ := r
  obtain ⟨rfl, rfl⟩ := h'
  simp only [pure_bind]
  apply h.bind
  intro p w'' t' hR
  exact Act.meets_pure ⟨p.1, rfl, hR⟩

/-- A tick in which the chain holds nothing and asks for a job. -/
theorem tick_asking {job : Job} (hr : c.request? w = .ok (some job))
    (hempty : c.inner.spine = none)
    (h : (({ c.inner with spine := some (.ofTask job), outcome := none } :
      SingleChain World Job).tick trace).Meets w F fun p w' _ => R p.1 w') :
    (Chain.tick (AgentChain.reactive c) trace).Meets w F fun p w' _ =>
      ∃ c', p.1 = .reactive c' ∧ ∃ inner, c' = { c with inner } ∧ R inner w' := by
  refine tick_requesting hr ?_ h
  unfold SingleChain.run SingleChain.isServing SingleChain.vacate
  simp only [hempty, Bool.false_eq_true, if_false, pure_bind]
  exact Act.Meets.note_bind (Act.meets_pure ⟨rfl, rfl⟩)

/-- A tick in which the chain asks for the job that its root does already. -/
theorem tick_serving {job : Job} (hr : c.request? w = .ok (some job))
    (hserving : c.inner.isServing job = true)
    (h : (c.inner.tick trace).Meets w F fun p w' _ => R p.1 w') :
    (Chain.tick (AgentChain.reactive c) trace).Meets w F fun p w' _ =>
      ∃ c', p.1 = .reactive c' ∧ ∃ inner, c' = { c with inner } ∧ R inner w' := by
  refine tick_requesting hr ?_ h
  rw [SingleChain.run]
  rw [if_pos hserving]
  exact Act.meets_pure ⟨rfl, rfl⟩

end ReactiveChain

/-! ## Triggers -/

theorem isRelevant_hazard (w : World) :
    Chain.isRelevant (AgentChain.reactive (.ofTrigger .hazard)) w = .ok w.onHazard := rfl

theorem holds_mob {radius : Nat} {near : Option Mob} (h : w.nearestMob? radius = .ok near) :
    (Trigger.mob radius).holds w = .ok near.isSome := by
  rw [Trigger.holds]
  rw [h]
  rfl

/-! ## The chain of survival -/

/-- The chain that leaves hazards, with what it holds and how its last root ended. -/
def survival (s : Option (Spine Job)) (o : Option Outcome) : ReactiveChain :=
  { trigger := .hazard
    inner := { (ReactiveChain.ofTrigger .hazard).inner with spine := s, outcome := o } }

/-- What the chain holds after `n` ticks of an escape, on the tile `p`. -/
inductive Stage (target p : Position) : Nat → Option (Spine Job) → Prop
  | resting : Stage target p 0 none
  | poised {i s} (h : Spine.Poised target 0 p s) : Stage target p (2 * i) (some s)
  | crossing {i s d} (hd : p.towards? target = some d) (h : Spine.Crossing target 0 p d s) :
      Stage target p (2 * i + 1) (some s)

theorem survival_isRelevant {s : Option (Spine Job)} {o : Option Outcome}
    (h : s = none → w.onHazard = true) :
    Chain.isRelevant (AgentChain.reactive (survival s o)) w = .ok true := by
  cases s with
  | none =>
      show (pure w.onHazard : Except Fault Bool) = .ok true
      rw [h rfl]
      rfl
  | some s => rfl

section Ticks

variable {s : Spine Job} {d : Direction} {trace : Trace}

theorem poised_tick (h : Spine.Poised target 0 w.position s)
    (hcount : w.position.gap target < 1 <<< 32) (hfar : 0 < w.position.gap target)
    (hd : w.position.towards? target = some d) :
    ((survival (some s) none).inner.tick trace).Meets w F fun p w' _ =>
      ∃ s', p.1 = (survival (some s') none).inner ∧
        Spine.Crossing target 0 w.position d s' ∧ w' = w := by
  have hunfinished := unfinished_gotoWithin h.task hcount hfar
  apply SingleChain.tick_working (s := s) rfl h.unfailed hunfinished
  apply (h.tick hcount hfar hd).imp
  intro r w' t h'
  obtain ⟨hs, hw⟩ := h'
  exact ⟨hs.root.unfailed, hs, hw⟩

theorem crossing_tick {q : Position} (h : Spine.Crossing target 0 w.position d s)
    (hcount : w.position.gap target < 1 <<< 32) (hfar : 0 < w.position.gap target)
    (hd : w.position.towards? target = some d) (hq : w.position.step d = .ok q)
    (hfree : w.isBlocked q = false) :
    ((survival (some s) none).inner.tick trace).Meets w
      (fun e => e = .overflow ∧ 1 <<< 64 ≤ w.deedCount + 1) fun p w' _ =>
        ∃ s', p.1 = (survival (some s') none).inner ∧
          Spine.Poised target 0 q s' ∧ w' = w.moved q := by
  have hunfinished := unfinished_gotoWithin h.root.task hcount hfar
  apply SingleChain.tick_working (s := s) rfl h.root.unfailed hunfinished
  apply (h.tick hcount hfar hd hq hfree).imp
  intro r w' t h'
  obtain ⟨hs, hw⟩ := h'
  exact ⟨hs.unfailed, hs, hw⟩

theorem arrived_tick (h : Spine.Poised target 0 w.position s) (hat : w.position.gap target = 0) :
    ((survival (some s) none).inner.tick trace).Meets w F fun p w' _ =>
      p.1 = (survival none (some .finished)).inner ∧ w' = w := by
  have hfinished : s.root.isFinished w = .ok true := by
    rw [isFinished_gotoWithin h.task (by omega)]
    simp [hat]
  apply SingleChain.tick_finished (R := fun w' => w' = w) (s := s) rfl h.unfailed hfinished
  refine Spine.stop_walk ?_ none
  intro n hn
  rcases List.mem_cons.mp hn with rfl | hn
  · rw [h.task]
    rfl
  · obtain ⟨t, ht, -⟩ := h.below n hn
    rw [ht]
    rfl

end Ticks

/-- A tick of the chain while the target is ahead: in even ticks a step begins, in odd ones it lands
on the tile `q`. -/
theorem Stage.tick {n : Nat} {s : Option (Spine Job)} {d : Direction} {q : Position}
    (h : Stage target w.position n s)
    (hfirst : n = 0 → w.onHazard = true ∧ w.nearestSafe = .ok target)
    (hcount : w.position.gap target < 1 <<< 32) (hfar : 0 < w.position.gap target)
    (hd : w.position.towards? target = some d) (hq : w.position.step d = .ok q)
    (hfree : w.isBlocked q = false) :
    (Chain.tick (AgentChain.reactive (survival s none)) {}).Meets w
      (fun e => e = .overflow ∧ n % 2 = 1 ∧ 1 <<< 64 ≤ w.deedCount + 1) fun p w' _ =>
        ∃ s', p.1 = .reactive (survival s' none) ∧ Stage target w'.position (n + 1) s' ∧
          w' = if n % 2 = 1 then w.moved q else w := by
  cases h with
  | resting =>
      obtain ⟨hz, hsafe⟩ := hfirst rfl
      have hrequest : (survival none none).request? w = .ok (some (.gotoTarget target)) := by
        show (if w.onHazard then w.nearestSafe >>= fun safe => pure (some (Job.gotoTarget safe))
          else pure none) = _
        rw [if_pos hz, hsafe]
        rfl
      apply (ReactiveChain.tick_asking (R := fun inner w' => ∃ s',
        inner = (survival (some s') none).inner ∧ Spine.Crossing target 0 w.position d s' ∧ w' = w)
        hrequest rfl (poised_tick (Spine.poised_ofTask target 0 w.position) hcount hfar hd)).imp
      intro p w' t h'
      obtain ⟨c, hp, inner, rfl, s', rfl, hs', rfl⟩ := h'
      exact ⟨some s', hp, .crossing (i := 0) hd hs', rfl⟩
  | @poised i s h =>
      apply (ReactiveChain.tick_quiet (R := fun inner w' => ∃ s',
        inner = (survival (some s') none).inner ∧ Spine.Crossing target 0 w.position d s' ∧ w' = w)
        rfl (poised_tick h hcount hfar hd)).imp
      intro p w' t h'
      obtain ⟨c, hp, inner, rfl, s', rfl, hs', rfl⟩ := h'
      exact ⟨some s', hp, .crossing hd hs', by simp⟩
  | @crossing i s d' hd' h =>
      obtain rfl : d = d' := Option.some.inj (hd.symm.trans hd')
      refine (ReactiveChain.tick_quiet (R := fun inner w' => ∃ s',
        inner = (survival (some s') none).inner ∧ Spine.Poised target 0 q s' ∧ w' = w.moved q)
        rfl (crossing_tick h hcount hfar hd hq hfree)).mono ?_ ?_
      · intro e he
        exact ⟨he.1, by omega, he.2⟩
      · intro p w' t h'
        obtain ⟨c, hp, inner, rfl, s', rfl, hs', rfl⟩ := h'
        have hodd : (2 * i + 1) % 2 = 1 := by omega
        refine ⟨some s', hp, ?_, by rw [if_pos hodd]⟩
        exact .poised (i := i + 1) hs'

/-! ## The other chains -/

theorem survival_priority (s : Option (Spine Job)) (o : Option Outcome) (w : World) :
    (Chain.priority (AgentChain.reactive (survival s o)) w).isNaN = false := by
  show (Trigger.priority .hazard).isNaN = false
  decide +kernel

section Followers

variable {c : Config} {u : UserChain Job} {b : AgentChain}

/-- No other chain is more urgent than leaving a hazard. -/
theorem followers_outranked (hu : u.Waiting) (hb : b ∈ AgentPlan.followers c u) (w : World) :
    (Trigger.priority .hazard).less (Chain.priority b w) = false := by
  simp only [AgentPlan.followers, List.mem_cons, List.not_mem_nil, or_false] at hb
  rcases hb with rfl | rfl | rfl | rfl
  · show (Trigger.priority .hazard).less (.ofInt 65) = false
    decide +kernel
  · show (Trigger.priority .hazard).less (.ofInt 60) = false
    decide +kernel
  · show (Trigger.priority .hazard).less (.ofInt 55) = false
    decide +kernel
  · show (Trigger.priority .hazard).less (u.inner.priority w) = false
    rw [hu.priority]
    show (Trigger.priority .hazard).less (.ofInt 50) = false
    decide +kernel

/-- Whether the others want control can be asked unless there is too much food to count. -/
theorem followers_error {e : Fault} (hmobs : ∀ m ∈ w.mobs, w.position.gap m.position < 1 <<< 32)
    (hb : b ∈ AgentPlan.followers c u) (he : Chain.isRelevant b w = .error e) :
    e = .overflow ∧ 1 <<< 32 ≤ w.inventory.cookedBeef + w.inventory.bread + w.inventory.apple := by
  simp only [AgentPlan.followers, List.mem_cons, List.not_mem_nil, or_false] at hb
  rcases hb with rfl | rfl | rfl | rfl
  · obtain ⟨near, hnear⟩ := World.nearestMob?_ok hmobs c.defenseRadius
    have he : (Trigger.mob c.defenseRadius).holds w = .error e := he
    rw [holds_mob hnear] at he
    cases he
  · cases he
  · have he : Trigger.holds (.hunger c.hungerThreshold) w = .error e := he
    unfold Trigger.holds at he
    dsimp only at he
    split at he
    · cases hfood : w.inventory.foodCount with
      | error e' =>
          rw [hfood] at he
          cases he
          exact Inventory.foodCount_error hfood
      | ok food => rw [hfood] at he; cases he
    · cases he
  · cases he

end Followers

/-- The chain of survival is selected while it holds a walk or the agent stands on a hazard. -/
theorem select_survival {s : Option (Spine Job)} {c : Config} {u : UserChain Job}
    {selected : Option Nat} (hu : u.Waiting) (h : s = none → w.onHazard = true)
    (hs : select (.reactive (survival s none) :: AgentPlan.followers c u) w = .ok selected) :
    selected = some 0 :=
  select_head (survival_isRelevant h) (survival_priority s none w)
    (fun _ hb => followers_outranked hu hb w) hs

end Arbiter
