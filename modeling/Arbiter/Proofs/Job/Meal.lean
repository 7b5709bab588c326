import Arbiter.Proofs.Job.Turns
import Arbiter.Proofs.Job.Walking
import Arbiter.Proofs.World.Rations

/-! How a meal goes. Every third turn is a bite, of the best food that is left. The meal ends when
the hunger is gone, or it fails when the food is. -/

namespace Arbiter

variable {w v : World} {F : Fault → Prop} {n m c : Nat}

/-! ## Turns -/

namespace Job

theorem eat_turn (h : w.Dined n m v) (hm : m < w.inventory.rations.length) (hc : c < biteTicks)
    (control : Control) :
    ((eat c).turn control).Meets v (fun e => e = .overflow ∧ 1 <<< 64 ≤ w.deedCount + (m + 1))
      fun turn v' _ => turn.reply.failure = none ∧ turn.candidate = none ∧
        turn.task = .eat ((c + 1) % biteTicks) ∧ w.Dined n (m + (c + 1) / biteTicks) v' := by
  obtain ⟨food, hbest, heat⟩ := h.eat hm
  have hc : c < 3 := hc
  rw [turn, chew]
  apply Act.Meets.get_bind
  simp only [hbest]
  refine Act.Meets.ofExcept_bind (fun e he => ?_) ?_
  · have := (count32_error he).2
    omega
  intro chewed hchewed
  obtain ⟨-, rfl⟩ := count32_eq_ok_iff.mp hchewed
  by_cases hbite : biteTicks ≤ c + 1
  · obtain rfl : c = 2 := by
      rw [biteTicks] at hbite
      omega
    rw [if_pos hbite]
    apply heat.bind
    intro _ v' t hv
    exact Act.meets_pure ⟨rfl, rfl, rfl, hv⟩
  · have hlt := Nat.lt_of_not_le hbite
    rw [if_neg hbite, Nat.mod_eq_of_lt hlt, Nat.div_eq_of_lt hlt]
    exact Act.meets_pure ⟨rfl, rfl, rfl, h⟩

theorem eat_turn_fails (h : v.inventory.bestFood? = none) (control : Control) :
    ((eat c).turn control).Meets v F fun turn v' _ =>
      turn.reply.failure = some "no food" ∧ turn.task = .eat c ∧ v' = v := by
  rw [turn, chew]
  apply Act.Meets.get_bind
  simp only [h]
  exact Act.meets_pure ⟨rfl, rfl, rfl⟩

end Job

/-! ## Spines -/

namespace Spine

/-- A meal with `c` chews of the next bite behind it, which may not have started. -/
inductive Dines : Nat → Spine Job → Prop
  | fresh : Dines 0 (ofTask .eatFood)
  | chewing {c : Nat} {n : Node Job} (h : n.Working (.eat c)) : Dines c { root := n }

variable {s : Spine Job} {trace : Trace}

theorem Dines.root (h : Dines c s) :
    s.root.failure = none ∧ s.root.task = .eat c ∧ s.below = [] := by
  cases h with
  | fresh => exact ⟨rfl, rfl, rfl⟩
  | chewing h => exact ⟨h.unfailed, h.task, rfl⟩

/-- The start of a meal opens its frame. -/
theorem ready_meal (h : Dines c s) (hv : w.Dined n m v) :
    s.ready.Meets v F fun s' v' _ =>
      s'.root.Working (.eat c) ∧ s'.below = [] ∧ w.Dined n m v' := by
  rw [ready]
  cases h with
  | chewing h =>
      rw [if_neg (by simp [h.started])]
      exact Act.meets_pure ⟨h, rfl, hv⟩
  | fresh =>
      rw [if_pos (show (ofTask Job.eatFood).root.pending = true from rfl)]
      rw [start]
      apply Act.Meets.note_bind
      have hbegin : (Task.onStart (ofTask Job.eatFood).root.task
          { (ofTask Job.eatFood).root.control with childFailure := none } :
            Act World Record (Job × Reply)).Meets v F fun p v' _ =>
          p = (.eat 0, Control.unchanged {}) ∧ w.Dined n m v' := by
        refine Act.Meets.imp (Job.begin_keeps (.eat 0)) ?_
        rintro p v' t ⟨-, hp, rfl⟩
        exact ⟨hp, hv.withFrames _⟩
      apply (Act.Meets.called hbegin).bind
      intro p v' t hp
      obtain ⟨rfl, hv'⟩ := hp
      exact Act.meets_pure ⟨⟨⟨⟨rfl, rfl, rfl⟩, rfl⟩, rfl, rfl⟩, rfl, hv'⟩

/-- The end of a meal closes its frame. -/
theorem stop_meal (htask : s.root.task = .eat c) (hbelow : s.below = []) (hv : w.Dined n m v)
    (taker : Option Job) : (s.stop taker).Meets v F fun _ v' _ => w.Dined n m v' := by
  have hquit : (Task.onStop s.root.task taker : Act World Record Job).Meets v F fun _ v' _ =>
      w.Dined n m v' := by
    rw [htask]
    refine Act.Meets.imp (Job.quit_keeps (.eat c)) ?_
    rintro _ v' t ⟨-, -, rfl⟩
    exact hv.withFrames _
  have hhalt : (halt taker s.root).Meets v F fun _ v' _ => w.Dined n m v' := by
    unfold halt leave
    apply Act.Meets.note_bind
    split
    · exact Act.meets_pure hv
    · apply (Act.Meets.called hquit).bind
      intro _ v' t hv'
      exact Act.meets_pure hv'
  rw [stop]
  split
  · apply hhalt.bind
    intro root v' t hv'
    rw [hbelow]
    refine Act.Meets.bind (P := fun _ v'' _ => v'' = v') (Act.meets_tellAll rfl) ?_
    intro _ v'' u hv''
    rw [hv'']
    exact Act.meets_pure hv'
  · exact Act.meets_pure hv

theorem tick_meal (h : Dines c s) (hc : c < Job.biteTicks) (hv : w.Dined n m v)
    (hm : m < w.inventory.rations.length) :
    (s.tick trace).Meets v (fun e => e = .overflow ∧ 1 <<< 64 ≤ w.deedCount + (m + 1))
      fun r v' _ => r.1.Dines ((c + 1) % Job.biteTicks) ∧
        w.Dined n (m + (c + 1) / Job.biteTicks) v' := by
  obtain ⟨depth, htick⟩ := exists_depth s trace
  rw [htick]
  refine (tick_alone (R := fun j v' => j = .eat ((c + 1) % Job.biteTicks) ∧
    w.Dined n (m + (c + 1) / Job.biteTicks) v') ((ready_meal h hv).imp ?_)).imp ?_
  · intro s₁ v₁ t₁ h₁
    obtain ⟨hwork, hbelow, hv₁⟩ := h₁
    exact ⟨_, hwork, hbelow, fun control => Job.eat_turn hv₁ hm hc control⟩
  · rintro ⟨⟨root, below⟩, trace'⟩ v' t ⟨hbelow, j, hj, rfl, hv'⟩
    obtain rfl : below = [] := hbelow
    exact ⟨.chewing hj, hv'⟩

theorem tick_meal_fails (h : Dines c s) (hv : w.Dined n m v)
    (hm : w.inventory.rations.length ≤ m) :
    (s.tick trace).Meets v F fun r v' _ =>
      r.1.root.failure = some "no food" ∧ w.Dined n m v' := by
  obtain ⟨depth, htick⟩ := exists_depth s trace
  rw [htick]
  refine tickWithin_fails (R := fun s' v' => s'.root.failure = some "no food" ∧ w.Dined n m v')
    ((ready_meal h hv).imp ?_)
  intro s₁ v₁ t₁ h₁
  obtain ⟨hwork, hbelow, hv₁⟩ := h₁
  refine ⟨hwork.unstopped, ?_⟩
  have htask := hwork.task
  rw [htask]
  apply (Job.eat_turn_fails (hv₁.bestFood?_eq_none hm) s₁.root.control).imp
  intro turn v₂ t₂ h₂
  obtain ⟨hreason, hgoes, rfl⟩ := h₂
  refine ⟨_, hreason, ?_⟩
  rw [fail]
  apply (stop_meal (s := { s₁ with root := turned s₁.root turn }) hgoes hbelow hv₁ none).bind
  intro s' v₃ t₃ hv₃
  exact Act.Meets.note_bind (Act.meets_pure ⟨rfl, hv₃⟩)

theorem Dines.isFinished (h : Dines c s) :
    s.root.isFinished v = .ok (decide (v.hunger = 0)) := by
  rw [Node.isFinished]
  rw [h.root.2.1]
  rfl

end Spine

/-! ## Chains -/

namespace SingleChain

variable {chain : SingleChain World Job} {s : Spine Job} {trace : Trace}

theorem tick_meal (hs : chain.spine = some s) (h : s.Dines c) (hc : c < Job.biteTicks)
    (hv : w.Dined n m v) (hhungry : w.inventory.relief m < w.hunger)
    (hm : m < w.inventory.rations.length) :
    (chain.tick trace).Meets v (fun e => e = .overflow ∧ 1 <<< 64 ≤ w.deedCount + (m + 1))
      fun p v' _ => ∃ s', p.1 = { chain with spine := some s' } ∧
        s'.Dines ((c + 1) % Job.biteTicks) ∧ w.Dined n (m + (c + 1) / Job.biteTicks) v' := by
  have hunfinished : s.root.isFinished v = .ok false := by
    rw [h.isFinished, hv.hunger, decide_eq_false (by omega)]
  apply tick_working hs h.root.1 hunfinished
  apply (Spine.tick_meal h hc hv hm).imp
  intro r v' t h'
  exact ⟨h'.1.root.1, h'⟩

theorem tick_sated (hs : chain.spine = some s) (h : s.Dines c) (hv : w.Dined n m v)
    (hsated : w.hunger ≤ w.inventory.relief m) :
    (chain.tick trace).Meets v F fun p v' _ =>
      p.1 = { chain with spine := none, outcome := some .finished } ∧ w.Dined n m v' := by
  have hfinished : s.root.isFinished v = .ok true := by
    rw [h.isFinished, hv.hunger, decide_eq_true (by omega)]
  obtain ⟨hfail, htask, hbelow⟩ := h.root
  exact tick_finished hs hfail hfinished (Spine.stop_meal htask hbelow hv none)

theorem tick_starving (hs : chain.spine = some s) (h : s.Dines c) (hv : w.Dined n m v)
    (hhungry : w.inventory.relief m < w.hunger) (hm : w.inventory.rations.length ≤ m) :
    (chain.tick trace).Meets v F fun p v' _ => ∃ failure,
      p.1 = { chain with spine := none, outcome := some (.failed failure) } ∧
        failure.reason = "no food" ∧ w.Dined n m v' := by
  have hunfinished : s.root.isFinished v = .ok false := by
    rw [h.isFinished, hv.hunger, decide_eq_false (by omega)]
  apply tick_failing (R := fun failure v' => failure.reason = "no food" ∧ w.Dined n m v') hs
    h.root.1 hunfinished
  apply (Spine.tick_meal_fails h hv hm).imp
  intro r v' t h'
  obtain ⟨hreason, hv'⟩ := h'
  exact ⟨{ task := Task.label r.1.root.task, reason := "no food" },
    by simp [Node.failureReport, hreason], rfl, hv'⟩

/-- A meal of `k` units is over with the last of them, with or without success. -/
theorem tick_over (hfeeds : w.inventory.Feeds w.hunger m) (hs : chain.spine = some s)
    (h : s.Dines c) (hv : w.Dined n m v) :
    (chain.tick trace).Meets v F fun p v' _ => ∃ outcome,
      p.1 = { chain with spine := none, outcome := some outcome } ∧ w.Dined n m v' := by
  by_cases hsated : w.hunger ≤ w.inventory.relief m
  · apply (tick_sated hs h hv hsated).imp
    intro p v' t hp
    exact ⟨.finished, hp⟩
  · have hlast : m = w.inventory.rations.length := hfeeds.ends.resolve_left hsated
    apply (tick_starving hs h hv (Nat.lt_of_not_le hsated) (Nat.le_of_eq hlast.symm)).imp
    intro p v' t hp
    obtain ⟨failure, hp, -, hv'⟩ := hp
    exact ⟨.failed failure, hp, hv'⟩

end SingleChain

end Arbiter
