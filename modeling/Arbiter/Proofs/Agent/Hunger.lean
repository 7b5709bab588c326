import Arbiter.Proofs.Agent.Lookup
import Arbiter.Proofs.Agent.Survival
import Arbiter.Proofs.Job.Meal

/-! An agent that nothing troubles but hunger. Its food chain takes control when the hunger is at
the threshold, eats bite by bite, and gives control back to the user chain. Only with a threshold of
zero and more food than it needs the chain stays relevant with nothing to do. -/

namespace Arbiter

variable {F : Fault → Prop} {w v : World} {c : Config} {t k n m : Nat} {job : Job}

/-! ## User chains with a job -/

/-- A job for an agent that stands on the tile: to wait, or to walk between tiles far from the
limits of the grid. -/
inductive Job.Errand (p : Position) : Job → Prop
  | wait : Errand p .idle
  | walk {target : Position} {range : Nat} (hp : p.Central) (htarget : target.Central) :
      Errand p (.gotoWithin target range)

namespace UserChain

variable {u : UserChain Job}

def installed (job : Job) : SingleChain World Job :=
  { name := UserChain.name
    priority := fun _ => UserChain.priority
    spine := some (.ofTask job) }

def Tasked (job : Job) (u : UserChain Job) : Prop := u.inner = installed job

theorem run_tasked (idle : Bool) (job : Job) (callback : Option Callback) :
    ((ofIdle idle : UserChain Job).run job callback).Meets w F fun r w' _ =>
      r.2.Tasked job ∧ w' = w := by
  have hrun : ((ofIdle idle : UserChain Job).inner.run job).Meets w F fun r w' _ =>
      r = (true, installed job) ∧ w' = w := by
    have hempty : (ofIdle idle : UserChain Job).inner.spine = none := rfl
    unfold SingleChain.run SingleChain.isServing SingleChain.vacate
    simp only [hempty, Bool.false_eq_true, if_false, pure_bind]
    exact Act.Meets.note_bind (Act.meets_pure ⟨rfl, rfl⟩)
  rw [run]
  apply hrun.bind
  intro r w' t hr
  obtain ⟨rfl, rfl⟩ := hr
  apply (answer_meets .cancelled).bind
  intro u w'' t' hu
  obtain ⟨hu, rfl⟩ := hu
  apply Act.Meets.get_bind
  split
  · exact Act.Meets.note_bind (Act.meets_pure ⟨hu, rfl⟩)
  · exact Act.meets_pure ⟨hu, rfl⟩

theorem complete_meets (u : UserChain Job) (o : Outcome) :
    (u.complete o).Meets w F fun v _ _ => v.inner.name = u.inner.name := by
  have hconclude : (u.conclude o).Meets w F fun v _ _ => v.inner.name = u.inner.name := by
    rw [conclude]
    apply (answer_meets o).bind
    intro v w' t hv
    have hname : v.inner.name = u.inner.name := by rw [hv.1]
    dsimp only
    split
    · refine Act.Meets.bind ((run_meets Job.releases _ _ _).mono (fun _ => False.elim)
        fun _ _ _ h => h) ?_
      intro r w'' t' hr
      exact Act.meets_pure (hr.trans hname)
    · exact Act.meets_pure hname
  rw [complete]
  apply Act.Meets.get_bind
  split
  · exact Act.Meets.note_bind hconclude
  · exact hconclude

theorem tick_wait :
    ((installed .idle).tick {}).Meets v F fun p _ _ => p.1.name = UserChain.name := by
  have htick : ((Spine.ofTask Job.idle).tick {}).Meets v F fun r _ _ =>
      r.1.root.failure = none ∧ True := by
    obtain ⟨depth, htick⟩ := Spine.exists_depth (.ofTask Job.idle) {}
    rw [htick]
    refine (Spine.tick_alone (R := fun _ _ => True)
      ((Spine.ready_walk (j := .idle) (Or.inl ⟨rfl, fun _ => rfl⟩)).imp ?_)).imp ?_
    · intro s w' t hs
      exact ⟨_, hs.1, hs.2.1, fun c => Act.meets_pure ⟨rfl, rfl, trivial⟩⟩
    · intro r w' t hr
      obtain ⟨-, j, hj, -⟩ := hr
      exact ⟨hj.unfailed, trivial⟩
  apply (SingleChain.tick_working (c := installed .idle) (R := fun _ _ => True) rfl rfl rfl
    htick).imp
  intro p w' t hp
  obtain ⟨s', hp, -⟩ := hp
  rw [hp]
  rfl

theorem tick_walk {target : Position} {range : Nat} (hp : v.position.Central)
    (htarget : target.Central) :
    ((installed (.gotoWithin target range)).tick {}).Meets v F fun p _ _ =>
      p.1.name = UserChain.name := by
  have hcount : v.position.gap target < 1 <<< 32 := by
    have hx := hp.x
    have hy := hp.y
    have hx' := htarget.x
    have hy' := htarget.y
    unfold Position.gap
    omega
  by_cases hnear : v.position.gap target ≤ range
  · have hfinished : (Spine.ofTask (Job.gotoWithin target range)).root.isFinished v = .ok true := by
      rw [isFinished_gotoWithin rfl hcount, decide_eq_true hnear]
    apply (SingleChain.tick_finished (c := installed (.gotoWithin target range))
      (R := fun _ => True) rfl rfl hfinished (Act.meets_pure trivial)).imp
    intro p w' t hp
    rw [hp.1]
    rfl
  · have hfar : range < v.position.gap target := Nat.lt_of_not_le hnear
    obtain ⟨d, hd⟩ := Position.exists_towards hfar
    have htick : ((Spine.ofTask (Job.gotoWithin target range)).tick {}).Meets v F fun r _ _ =>
        r.1.root.failure = none ∧ True := by
      apply ((Spine.poised_ofTask target range v.position).tick hcount hfar hd).imp
      intro r w' t hr
      exact ⟨hr.1.root.unfailed, trivial⟩
    apply (SingleChain.tick_working (c := installed (.gotoWithin target range))
      (R := fun _ _ => True) rfl rfl (unfinished_gotoWithin rfl hcount hfar) htick).imp
    intro p w' t hp
    obtain ⟨s', hp, -⟩ := hp
    rw [hp]
    rfl

/-- The first tick of a job comes to no limit. -/
theorem Tasked.tick (hu : u.Tasked job) (hjob : job.Errand v.position) :
    (Chain.tick (AgentChain.user u) {}).Meets v F fun p _ _ =>
      Chain.name p.1 = UserChain.name := by
  have hinner : (u.inner.tick {}).Meets v F fun p _ _ => p.1.name = UserChain.name := by
    rw [hu]
    cases hjob with
    | wait => exact tick_wait
    | walk hp htarget => exact tick_walk hp htarget
  have htick : (u.tick {}).Meets v F fun p _ _ => p.1.inner.name = UserChain.name := by
    rw [UserChain.tick]
    apply hinner.bind
    intro p w' t hname
    obtain ⟨inner, trace⟩ := p
    dsimp only
    split
    · exact Act.meets_pure hname
    · apply (complete_meets _ _).bind
      intro u' w'' t' hu'
      exact Act.meets_pure (hu'.trans hname)
  show (AgentChain.tick (.user u) {}).Meets v F _
  rw [AgentChain.tick]
  apply htick.bind
  intro p w' t hname
  exact Act.meets_pure hname

end UserChain

/-! ## Arbitration -/

theorem Config.stuckTicks_ne_zero (h : c.validate = .ok ()) : c.stuckTicks ≠ 0 := by
  intro hzero
  rw [Config.validate, hzero] at h
  split at h
  · cases h
  · cases h

namespace World

/-- Nothing but hunger is the matter: no hazard, no mob, no blocked tile, no blocked move. -/
structure Calm (w : World) : Prop where
  hazards : ∀ p, w.isHazard p = false
  mobs : w.mobs = []
  unblocked : ∀ p, w.isBlocked p = false
  stuck : w.stuck = 0

theorem Calm.withRules (h : w.Calm) (rules : Rules) : ({ w with rules } : World).Calm :=
  ⟨h.hazards, h.mobs, h.unblocked, h.stuck⟩

theorem Dined.calm (h : w.Dined n m v) (hw : w.Calm) : v.Calm := by
  obtain ⟨-, hmobs, hhazards, hblocked, hstuck, -⟩ := h.surroundings
  refine ⟨?_, hmobs.trans hw.mobs, ?_, hstuck.trans hw.stuck⟩
  · intro p
    rw [isHazard, hhazards]
    exact hw.hazards p
  · intro p
    rw [isBlocked, hblocked]
    exact hw.unblocked p

end World

/-- The chain that eats, with what it holds and how its last root ended. -/
def foodChain (t : Nat) (s : Option (Spine Job)) (o : Option Outcome) : ReactiveChain :=
  { trigger := .hunger t
    inner := { (ReactiveChain.ofTrigger (.hunger t)).inner with spine := s, outcome := o } }

/-- The built-in chains while only the food chain and the user chain have anything to do. -/
def lineup (c : Config) (s : Option (Spine Job)) (o : Option Outcome) (u : UserChain Job) :
    List AgentChain :=
  [.reactive (.ofTrigger .hazard),
   .reactive (.ofTrigger (.mob c.defenseRadius)),
   .reactive (.ofTrigger (.stuck c.stuckTicks)),
   .reactive (foodChain c.hungerThreshold s o),
   .user u]

def Craves (t : Nat) (v : World) : Prop := t ≤ v.hunger ∧ v.inventory.rations ≠ []

section Arbitration

variable {s : Option (Spine Job)} {o : Option Outcome} {u : UserChain Job}

theorem holds_hunger (hfood : v.inventory.rations.length < 1 <<< 32) :
    ∃ b, (Trigger.hunger t).holds v = .ok b ∧ (b = true ↔ Craves t v) := by
  unfold Trigger.holds Craves
  dsimp only
  by_cases ht : t ≤ v.hunger
  · have hcount := Inventory.foodCount_eq_ok_iff.mpr ⟨rfl, hfood⟩
    rw [if_pos ht, hcount]
    refine ⟨decide (0 < v.inventory.rations.length), rfl, ?_⟩
    rw [decide_eq_true_iff, List.length_pos_iff]
    exact ⟨fun h => ⟨ht, h⟩, And.right⟩
  · rw [if_neg ht]
    exact ⟨false, rfl, by simp [ht]⟩

theorem foodChain_isRelevant (hfood : v.inventory.rations.length < 1 <<< 32) :
    ∃ b, Chain.isRelevant (AgentChain.reactive (foodChain t s o)) v = .ok b ∧
      (b = true ↔ s = none → Craves t v) := by
  cases s with
  | some s => exact ⟨true, rfl, by simp⟩
  | none =>
      obtain ⟨b, hb, hcraves⟩ := holds_hunger (t := t) hfood
      exact ⟨b, hb, by simp [hcraves]⟩

theorem foodChain_request? (hfood : v.inventory.rations.length < 1 <<< 32) (h : Craves t v) :
    (foodChain t none o).request? v = .ok (some .eatFood) := by
  obtain ⟨b, hb, hcraves⟩ := holds_hunger (t := t) hfood
  obtain rfl := hcraves.mpr h
  show (Trigger.hunger t).holds v >>= _ = _
  rw [hb]
  rfl

/-- In calm, control is between the food chain and the user chain. -/
theorem select_lineup (hv : v.Calm) (hc : c.stuckTicks ≠ 0) :
    select (lineup c s o u) v = (selectFrom v
      [AgentChain.reactive (foodChain c.hungerThreshold s o), .user u] 3 none).map
        fun best => best.map Prod.fst := by
  have hhazard : Chain.isRelevant (AgentChain.reactive (.ofTrigger .hazard)) v = .ok false := by
    rw [isRelevant_hazard, World.onHazard, hv.hazards]
  have hmob : Chain.isRelevant (AgentChain.reactive (.ofTrigger (.mob c.defenseRadius))) v =
      .ok false := by
    have hnone : v.nearestMob? c.defenseRadius = .ok none := by
      rw [World.nearestMob?, hv.mobs]
      rfl
    exact holds_mob hnone
  have hstuck : Chain.isRelevant (AgentChain.reactive (.ofTrigger (.stuck c.stuckTicks))) v =
      .ok false := by
    show (pure (decide (c.stuckTicks ≤ v.stuck)) : Except Fault Bool) = _
    rw [hv.stuck, decide_eq_false (by omega)]
    rfl
  rw [select, lineup]
  rw [selectFrom_irrelevant hhazard, selectFrom_irrelevant hmob, selectFrom_irrelevant hstuck]
  rfl

theorem claim?_tasked (hu : u.Tasked job) :
    claim? (AgentChain.user u) v = .ok (some UserChain.priority) := by
  have hrelevant : Chain.isRelevant (AgentChain.user u) v = .ok true := by
    show Chain.isRelevant u.inner v = _
    rw [hu]
    rfl
  have hpriority : Chain.priority (AgentChain.user u) v = UserChain.priority := by
    show u.inner.priority v = _
    rw [hu]
    rfl
  have hclaim := claim?_relevant hrelevant (by rw [hpriority]; decide +kernel)
  rw [hclaim, hpriority]

/-- The food chain is selected while it is relevant, and the user chain otherwise. -/
theorem select_food (hv : v.Calm) (hc : c.stuckTicks ≠ 0) (hu : u.Tasked job)
    (hfood : v.inventory.rations.length < 1 <<< 32) :
    ((s = none → Craves c.hungerThreshold v) → select (lineup c s o u) v = .ok (some 3)) ∧
      (¬ (s = none → Craves c.hungerThreshold v) → select (lineup c s o u) v = .ok (some 4)) := by
  obtain ⟨b, hb, hrelevant⟩ := foodChain_isRelevant (t := c.hungerThreshold) (s := s) (o := o) hfood
  have hless : (Number.Binary32.ofInt 55).less UserChain.priority = false := by decide +kernel
  rw [select_lineup hv hc]
  constructor
  · intro h
    obtain rfl := hrelevant.mpr h
    have hclaim : claim? (AgentChain.reactive (foodChain c.hungerThreshold s o)) v =
        .ok (some (.ofInt 55)) :=
      claim?_relevant hb (show (Number.Binary32.ofInt 55).isNaN = false by decide +kernel)
    have hbetter : better (some (3, .ofInt 55)) 4 (some UserChain.priority) =
        some (3, .ofInt 55) := by
      simp [better, hless]
    have huser : selectFrom v [AgentChain.user u] 4 (some (3, .ofInt 55)) =
        .ok (some (3, .ofInt 55)) := by
      rw [selectFrom, claim?_tasked hu]
      exact congrArg Except.ok hbetter
    rw [selectFrom, hclaim]
    show (selectFrom v [AgentChain.user u] 4 (some (3, .ofInt 55))).map _ = _
    rw [huser]
    rfl
  · intro h
    have hfalse : b = false := by
      cases b with
      | true => exact absurd (hrelevant.mp rfl) h
      | false => rfl
    rw [hfalse] at hb
    rw [selectFrom_irrelevant hb, selectFrom, claim?_tasked hu]
    rfl

end Arbitration

end Arbiter
