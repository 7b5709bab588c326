import Arbiter.Proofs.Conduct.Agent
import Arbiter.World.Host

/-! How an agent moves. In one tick it tries one tile at the most, next to where it stood, and it
enters that tile only if it is free; requests and stops never move it. -/

namespace Arbiter

/-- A move, whether it was blocked or not. -/
def Deed.isStep : Deed → Bool
  | .move _ _ | .bump _ _ => true
  | .attack _ | .eat _ => false

namespace World

/-! ## Footwork -/

/-- How the steps since another world, of which there is one at the most, led from there to here. -/
inductive Footwork (w₀ w : World) : List Deed → Prop
  | stayed (hp : w.position = w₀.position) : Footwork w₀ w []
  | moved {d : Direction} {q : Position} (hq : w₀.position.step d = .ok q)
      (hfree : w₀.isBlocked q = false) (hp : w.position = q) :
      Footwork w₀ w [.move w₀.position q]
  | bumped {d : Direction} {q : Position} (hq : w₀.position.step d = .ok q)
      (hblocked : w₀.isBlocked q = true) (hp : w.position = w₀.position) :
      Footwork w₀ w [.bump w₀.position d]

theorem Footwork.congr {w₀ w w' : World} {deeds : List Deed} (h : w₀.Footwork w deeds)
    (hposition : w'.position = w.position) : w₀.Footwork w' deeds := by
  cases h with
  | stayed hp => exact .stayed (hposition.trans hp)
  | moved hq hfree hp => exact .moved hq hfree (hposition.trans hp)
  | bumped hq hblocked hp => exact .bumped hq hblocked (hposition.trans hp)

/-- The deeds since another world, when jobs of a rank below `r` may still take their turns: none
of them is a step unless all turns are taken. -/
structure Course (w₀ : World) (r : Nat) (w : World) (deeds : List Deed) : Prop where
  blocked : w.blocked = w₀.blocked
  history : w.history = deeds ++ w₀.history
  count : w.deedCount = w₀.deedCount + deeds.length
  spent : deeds.length + r ≤ 3
  steps : 0 < r → deeds.filter Deed.isStep = []
  footwork : w₀.Footwork w (deeds.filter Deed.isStep)

namespace Course

variable {w₀ w w' : World} {r : Nat} {deeds : List Deed} {d : Deed}

theorem refl (w : World) : w.Course 3 w [] :=
  ⟨rfl, rfl, rfl, Nat.le_refl _, fun _ => rfl, .stayed rfl⟩

theorem spend (h : w₀.Course (r + 1) w deeds) : w₀.Course r w deeds where
  blocked := h.blocked
  history := h.history
  count := h.count
  spent := by have := h.spent; omega
  steps _ := h.steps (Nat.succ_pos r)
  footwork := h.footwork

theorem position (h : w₀.Course (r + 1) w deeds) : w.position = w₀.position := by
  have hfootwork := h.footwork
  rw [h.steps (Nat.succ_pos r)] at hfootwork
  cases hfootwork with
  | stayed hp => exact hp

theorem congr (h : w₀.Course r w deeds) (hposition : w'.position = w.position)
    (hblocked : w'.blocked = w.blocked) (hhistory : w'.history = w.history)
    (hcount : w'.deedCount = w.deedCount) : w₀.Course r w' deeds where
  blocked := hblocked.trans h.blocked
  history := hhistory.trans h.history
  count := hcount.trans h.count
  spent := h.spent
  steps := h.steps
  footwork := h.footwork.congr hposition

theorem attacked {mob : Nat} (h : w₀.Course (r + 1) w deeds) (hd : w.Did (.attack mob) w') :
    w₀.Course r w' (.attack mob :: deeds) where
  blocked := hd.blocked.trans h.blocked
  history := by rw [hd.history, h.history]; rfl
  count := by rw [hd.deedCount, h.count]; rfl
  spent := by have := h.spent; simp only [List.length_cons]; omega
  steps _ := h.steps (Nat.succ_pos r)
  footwork := by
    have hsteps : (Deed.attack mob :: deeds).filter Deed.isStep = [] := h.steps (Nat.succ_pos r)
    rw [hsteps]
    cases hd
    exact .stayed h.position

theorem did (h : w₀.Course 1 w deeds) (hd : w.Did d w') : w₀.Course 0 w' (d :: deeds) where
  blocked := hd.blocked.trans h.blocked
  history := by rw [hd.history, h.history]; rfl
  count := by rw [hd.deedCount, h.count]; rfl
  spent := by have := h.spent; simp only [List.length_cons]; omega
  steps := nofun
  footwork := by
    have hsteps := h.steps Nat.one_pos
    have hposition := h.position
    have hisBlocked : ∀ p, w.isBlocked p = w₀.isBlocked p := by
      intro p
      rw [isBlocked, isBlocked, h.blocked]
    cases hd with
    | @move d q hq hfree =>
        show w₀.Footwork _ (.move w.position q :: deeds.filter Deed.isStep)
        rw [hsteps, hposition]
        rw [hposition] at hq
        exact .moved hq (by rwa [← hisBlocked]) rfl
    | @bump d q hq hblocked =>
        show w₀.Footwork _ (.bump w.position d :: deeds.filter Deed.isStep)
        rw [hsteps, hposition]
        rw [hposition] at hq
        exact .bumped hq (by rwa [← hisBlocked]) rfl
    | attack mob =>
        show w₀.Footwork _ (deeds.filter Deed.isStep)
        rw [hsteps]
        exact .stayed hposition
    | eat hcarried =>
        show w₀.Footwork _ (deeds.filter Deed.isStep)
        rw [hsteps]
        exact .stayed hposition

end Course

/-- Jobs that delegate leave the steps to those that do not, of which one takes a turn in a tick. -/
theorem course_conduct (w₀ : World) :
    Conduct (fun _ => True) (fun _ => True) (fun _ => True) fun r _ w =>
      ∃ deeds, w₀.Course r w deeds := by
  refine Conduct.lenient (fun _ _ => trivial) ?_ ?_ ?_ (fun _ _ _ _ => trivial) ?_
  · rintro r js w ⟨deeds, h⟩
    exact ⟨deeds, h.spend⟩
  · rintro r a b j w ⟨deeds, h⟩
    exact ⟨deeds, h.congr rfl rfl rfl rfl⟩
  · rintro r a b j w ⟨deeds, h⟩
    exact ⟨deeds, h.congr rfl rfl rfl rfl⟩
  · rintro a b j w turn w' ⟨deeds, h⟩ ht
    rcases Nat.eq_zero_or_pos j.kind.rank with hrank | hrank
    · rw [hrank] at h ⊢
      rcases ht.deed with rfl | ⟨d, hd⟩
      · exact ⟨deeds, h.spend⟩
      · exact ⟨d :: deeds, h.did hd⟩
    · rcases ht.still hrank with rfl | ⟨mob, hd⟩
      · exact ⟨deeds, h.spend⟩
      · exact ⟨.attack mob :: deeds, h.attacked hd⟩

theorem advance_course (w : World) :
    advance.Keeps w (fun _ => True) (fun _ => True) fun _ w' => ∃ deeds, w.Course 3 w' deeds := by
  refine (advance_keeps w).mono (fun _ _ => trivial) (fun _ _ => trivial) ?_
  rintro _ w' ⟨hunger, -, rfl⟩
  exact ⟨[], (Course.refl w).congr rfl rfl rfl rfl⟩

end World

namespace Agent

theorem Follows.deedless {w₀ : World} {b : Agent}
    (h : b.Follows False (fun _ => True) fun _ w => ∃ deeds, w₀.Course 3 w deeds) :
    b.world.position = w₀.position ∧ b.world.history = w₀.history ∧
      b.world.deedCount = w₀.deedCount := by
  obtain ⟨deeds, hcourse⟩ := h.work
  have hspent := hcourse.spent
  obtain rfl : deeds = [] := List.length_eq_zero_iff.mp (by omega)
  exact ⟨hcourse.position, hcourse.history, hcourse.count⟩

/-! ## Runs -/

/-- However an agent was run, and whatever its host did with its chains before, a tick of it records
one step at the most: a move from where it stood to a free tile beside it, where it stands
afterwards, or a bump into a blocked one. Without a move it stays where it is. Requests for user
jobs, their cancellation and a stop do no deed at all. -/
theorem movement_safe {p : AgentPlan} {a : Agent} {k k' : World} {trail : List (Happening Job)}
    (ops : List Operation) (hbuild : p.build k = .ok ⟨.ok a, k', trail⟩)
    (hextra : ∀ c ∈ p.extra, ∃ past, c.inner.Used past) :
    (performAll ops).Ensures a fun _ b _ =>
      (tick.Ensures b fun _ c _ => ∃ deeds, c.world.history = deeds ++ b.world.history ∧
        c.world.deedCount = b.world.deedCount + deeds.length ∧
        b.world.Footwork c.world (deeds.filter Deed.isStep)) ∧
      ∀ op : Operation, op.isTick = false → op.isChange = false →
        (perform op).Ensures b fun _ c _ => c.world.position = b.world.position ∧
          c.world.history = b.world.history ∧ c.world.deedCount = b.world.deedCount := by
  obtain ⟨hrunner, -⟩ := AgentPlan.build_used hbuild hextra
  apply (performAll_tidy ops hrunner).imp
  intro _ b _ hb
  have hstart : b.Follows False (fun _ => True) fun _ w => ∃ deeds, b.world.Course 3 w deeds :=
    ⟨hb, [], .refl b.world⟩
  constructor
  · refine Act.Meets.imp (tick_keeps (World.course_conduct b.world) hb
      (World.advance_course b.world)) ?_
    rintro _ c _ ⟨-, hc⟩
    obtain ⟨deeds, hcourse⟩ := hc.work
    exact ⟨deeds, hcourse.history, hcourse.count, hcourse.footwork⟩
  · intro op htick hchange
    have hop : op.Fits (fun _ => True) fun _ _ w => ∃ deeds, b.world.Course 3 w deeds := by
      cases op with
      | change f => cases hchange
      | _ => trivial
    refine Act.Meets.imp (hstart.perform_keeps (m := 3) (World.course_conduct b.world) htick hop) ?_
    rintro _ c _ ⟨-, hc⟩
    exact hc.deedless

def approached : AgentPlan where
  world := some { mobs := [⟨1, ⟨3, 0⟩, 20⟩] }

/-- The mob steps in front of the agent, who hits it and finishes the step that is under way. -/
theorem movement_safe_approached :
    ∃ a trail d e, AgentPlan.build approached {} = .ok ⟨.ok a, {}, trail⟩ ∧
      performAll [.tick, .change (World.moveMob 1 ⟨1, 0⟩)] a = .ok d ∧
      tick d.context = .ok e ∧
      e.context.world.history = [.move ⟨0, 0⟩ ⟨1, 0⟩, .attack 1] ++ d.context.world.history ∧
      d.context.world.Footwork e.context.world [.move ⟨0, 0⟩ ⟨1, 0⟩] := by
  obtain ⟨⟨value, context, trail⟩, hbuild, hp⟩ := Act.exists_ok (m := AgentPlan.build approached)
    (k := {})
    (p := fun e => decide (e.context = {}) && match e.value with
      | .ok a => (performAll [.tick, .change (World.moveMob 1 ⟨1, 0⟩)]).passes a fun d =>
          tick.passes d.context fun e => decide (e.context.world.history =
            [.move ⟨0, 0⟩ ⟨1, 0⟩, .attack 1] ++ d.context.world.history)
      | .error _ => false)
    (by decide +kernel)
  simp only [Bool.and_eq_true, decide_eq_true_eq] at hp
  obtain ⟨rfl, hp⟩ := hp
  cases value with
  | error e => cases hp
  | ok a =>
      obtain ⟨d, hd, hp⟩ := Act.exists_ok hp
      obtain ⟨e, he, hdeeds⟩ := Act.exists_ok hp
      have hrun := movement_safe [.tick, .change (World.moveMob 1 ⟨1, 0⟩)] hbuild
        (fun c hc => absurd hc List.not_mem_nil)
      obtain ⟨deeds, hhistory, -, hfootwork⟩ := (hrun.of_ok hd).1.of_ok he
      have hdeeds := of_decide_eq_true hdeeds
      obtain rfl := List.append_cancel_right (hhistory.symm.trans hdeeds)
      exact ⟨a, trail, d, e, hbuild, hd, he, hdeeds, hfootwork⟩

end Agent

end Arbiter
