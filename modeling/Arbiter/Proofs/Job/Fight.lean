import Arbiter.Proofs.Job.Walking

/-! How a fight goes on free ground. While its mob is out of reach it delegates a walk, which takes
two ticks for every tile. In reach it drops the walk and hits the mob in every tick. -/

namespace Arbiter

variable {w : World} {F : Fault → Prop} {m : Mob}

/-! ## Turns -/

namespace Job

variable {mob : Nat}

theorem kill_asks (hm : w.mob? mob = some m) (hcount : w.position.gap m.position < 1 <<< 32)
    (hfar : 1 < w.position.gap m.position) :
    (Job.kill mob).Asks w none (some (.gotoWithin m.position 1)) (.kill mob) := by
  intro c _
  have hd : w.position.distance m.position = .ok (w.position.gap m.position) :=
    count32_of_lt hcount
  show (fight mob c).Meets w _ _
  rw [fight]
  apply Act.Meets.get_bind
  simp only [hm]
  refine Act.Meets.ofExcept_bind (by simp [hd]) ?_
  intro d hd'
  obtain rfl := Except.ok.inj (hd.symm.trans hd')
  rw [if_neg (by omega)]
  exact Act.meets_pure ⟨rfl, nofun, rfl, rfl, rfl⟩

theorem kill_hits (hm : w.mob? mob = some m) (hnear : w.position.gap m.position ≤ 1)
    (c : Control) :
    ((Job.kill mob).turn c).Meets w (fun e => e = .overflow ∧ 1 <<< 64 ≤ w.deedCount + 1)
      fun turn w' _ => turn.reply.failure = none ∧ turn.candidate = none ∧
        turn.task = .kill mob ∧ w' = w.hit mob := by
  have hd : w.position.distance m.position = .ok (w.position.gap m.position) :=
    count32_of_lt (by omega)
  show (fight mob c).Meets w _ _
  rw [fight]
  apply Act.Meets.get_bind
  simp only [hm]
  refine Act.Meets.ofExcept_bind (by simp [hd]) ?_
  intro d hd'
  obtain rfl := Except.ok.inj (hd.symm.trans hd')
  rw [if_pos hnear]
  apply (World.attack_meets w mob).bind
  intro _ w' t hw
  exact Act.meets_pure ⟨rfl, rfl, rfl, hw⟩

theorem isFinished_kill {n : Node Job} (hn : n.task = .kill mob) (hm : w.mob? mob = some m) :
    n.isFinished w = .ok false := by
  rw [Node.isFinished]
  rw [hn]
  show (Except.ok (w.mob? mob).isNone : Except Fault Bool) = _
  rw [hm]
  rfl

end Job

namespace Spine

variable {mob : Nat} {target p : Position} {d : Direction} {s : Spine Job} {trace : Trace}

/-- A fight that holds nothing, or a walk to the tile of its mob that comes to its next step on the
tile `p`. -/
structure Closing (mob : Nat) (target p : Position) (s : Spine Job) : Prop where
  root : s.root.pending = true ∧ s.root.failure = none ∧ s.root.task = .kill mob ∨
    s.root.Working (.kill mob)
  below : s.below = [] ∨ ∃ walk : Spine Job, s.below = walk.nodes ∧ Poised target 1 p walk

/-- A fight whose walk is in the middle of a step from the tile `p`. -/
structure Charging (mob : Nat) (target p : Position) (d : Direction) (s : Spine Job) : Prop where
  root : s.root.Working (.kill mob)
  below : ∃ walk : Spine Job, s.below = walk.nodes ∧ Crossing target 1 p d walk

theorem closing_ofTask (mob : Nat) (target p : Position) :
    Closing mob target p (ofTask (.kill mob)) :=
  ⟨Or.inl ⟨rfl, rfl, rfl⟩, Or.inl rfl⟩

theorem Closing.unfailed (h : Closing mob target p s) : s.root.failure = none := by
  rcases h.root with hroot | hroot
  · exact hroot.2.1
  · exact hroot.unfailed

theorem Closing.task (h : Closing mob target p s) : s.root.task = .kill mob := by
  rcases h.root with hroot | hroot
  · exact hroot.2.2
  · exact hroot.task

theorem Closing.ready (h : Closing mob target p s) :
    s.ready.Meets w F fun s' w' _ =>
      s'.root.Working (.kill mob) ∧ s'.below = s.below ∧ w' = w := by
  apply ready_walk
  rcases h.root with ⟨hp, -, htask⟩ | hroot
  · refine Or.inl ⟨hp, ?_⟩
    intro c
    rw [htask]
    rfl
  · exact Or.inr hroot

theorem Poised.vetoed {range : Nat} (h : Poised target range p s) (candidate : Option Job) :
    vetoed w s.nodes candidate = false := by
  have hroot : s.root.refuses w candidate = false := by
    rw [Node.refuses]
    rw [h.task]
    rfl
  have hbelow : Spine.vetoed w s.below candidate = false := by
    apply vetoed_over
    intro n hn
    obtain ⟨t, ht, hover, -⟩ := h.below n hn
    exact ⟨t, ht, hover⟩
  rw [Spine.vetoed, nodes, List.any_cons, hroot]
  exact hbelow

theorem Poised.isEat {range : Nat} (h : Poised target range p s) :
    ∀ n ∈ s.nodes, n.task.isEat = false := by
  intro n hn
  rcases List.mem_cons.mp hn with rfl | hn
  · rw [h.task]
    rfl
  · obtain ⟨t, ht, -⟩ := h.below n hn
    rw [ht]
    rfl

/-- The walk that is asked for is kept if it is held. -/
theorem settle_walk {parent : Node Job} {walk : Spine Job} {range : Nat}
    (h : walk.root.task = .gotoWithin target range) :
    (settle parent walk.nodes (some (.gotoWithin target range))).Meets w F fun below w' _ =>
      below = walk.nodes ∧ w' = w := by
  have hequal : Task.isEqual (Job.gotoWithin target range) walk.root.task = true := by
    rw [h]
    show (decide (target = target) && decide (range = range)) = true
    simp
  rw [nodes, settle]
  rw [if_pos hequal]
  exact Act.meets_pure ⟨rfl, rfl⟩

/-- Out of reach the first of two ticks begins a step. -/
theorem Closing.begins (h : Closing mob target w.position s) (hm : w.mob? mob = some m)
    (htarget : m.position = target) (hcount : w.position.gap target < 1 <<< 32)
    (hfar : 1 < w.position.gap target) (hd : w.position.towards? target = some d) :
    (s.tick trace).Meets w F fun r w' _ => Charging mob target w.position d r.1 ∧ w' = w := by
  subst htarget
  obtain ⟨walk, hpoised, hsettle⟩ : ∃ walk : Spine Job, Poised m.position 1 w.position walk ∧
      ∀ n, (settle n s.below (some (.gotoWithin m.position 1))).Meets w F fun below w' _ =>
        below = walk.nodes ∧ w' = w := by
    rcases h.below with hnil | ⟨walk, hbelow, hpoised⟩
    · refine ⟨ofTask (.gotoWithin m.position 1), poised_ofTask _ _ _, ?_⟩
      intro n
      rw [hnil]
      exact Act.meets_pure ⟨rfl, rfl⟩
    · refine ⟨walk, hpoised, ?_⟩
      intro n
      rw [hbelow]
      exact settle_walk hpoised.task
  refine tick_within fun _ => ?_
  refine (tickWithin_holding walk
    (R := fun sub w' => Crossing m.position 1 w.position d sub ∧ w' = w)
    h.ready (Job.kill_asks hm hcount hfar) hsettle ?_).imp ?_
  · intro trace'
    apply (hpoised.tickWithin hcount hfar hd).imp
    intro r w' t h'
    exact ⟨h'.1.root.unfailed, h'⟩
  · intro r w' t h'
    obtain ⟨hroot, sub, hbelow, hcrossing, hw⟩ := h'
    exact ⟨⟨hroot, sub, hbelow, hcrossing⟩, hw⟩

theorem Charging.lands {q : Position} (h : Charging mob target w.position d s)
    (hm : w.mob? mob = some m) (htarget : m.position = target)
    (hcount : w.position.gap target < 1 <<< 32) (hfar : 1 < w.position.gap target)
    (hd : w.position.towards? target = some d) (hq : w.position.step d = .ok q)
    (hfree : w.isBlocked q = false) :
    (s.tick trace).Meets w (fun e => e = .overflow ∧ 1 <<< 64 ≤ w.deedCount + 1) fun r w' _ =>
      Closing mob target q r.1 ∧ w' = w.moved q := by
  subst htarget
  obtain ⟨walk, hwalk, hcrossing⟩ := h.below
  refine tick_within fun _ => ?_
  refine (tickWithin_holding walk
    (R := fun sub w' => Poised m.position 1 q sub ∧ w' = w.moved q)
    (ready_walk (Or.inr h.root)) (Job.kill_asks hm hcount hfar) ?_ ?_).imp ?_
  · intro n
    rw [hwalk]
    exact settle_walk hcrossing.root.task
  · intro trace'
    apply (hcrossing.tickWithin hcount hfar hd hq hfree).imp
    intro r w' t h'
    exact ⟨h'.1.unfailed, h'⟩
  · intro r w' t h'
    obtain ⟨hroot, sub, hbelow, hpoised, hw⟩ := h'
    exact ⟨⟨Or.inr hroot, Or.inr ⟨sub, hbelow, hpoised⟩⟩, hw⟩

/-- In reach a tick drops the walk and hits the mob. -/
theorem Closing.hits (h : Closing mob target p s) (hm : w.mob? mob = some m)
    (hnear : w.position.gap m.position ≤ 1) :
    (s.tick trace).Meets w (fun e => e = .overflow ∧ 1 <<< 64 ≤ w.deedCount + 1) fun r w' _ =>
      Closing mob target p r.1 ∧ w' = w.hit mob := by
  refine tick_within fun _ => ?_
  refine tickWithin_meets (R := fun s' w' => Closing mob target p s' ∧ w' = w.hit mob)
    (h.ready.imp ?_)
  intro s₁ w₁ t₁ h₁
  obtain ⟨hroot, hbelow, rfl⟩ := h₁
  refine ⟨hroot.unstopped, ?_⟩
  have htask := hroot.task
  rw [htask]
  apply (Job.kill_hits hm hnear s₁.root.control).imp
  intro turn w₂ t₂ h₂
  obtain ⟨hfail, hcand, hsame, rfl⟩ := h₂
  refine ⟨hfail, ?_⟩
  intro n hn
  have hn' : n.Working (.kill mob) := by
    have := hroot.turned nofun hn
    rwa [hsame] at this
  have hdrops : (settle n s₁.below turn.candidate).Meets (w₁.hit mob)
      (fun e => e = .overflow ∧ 1 <<< 64 ≤ w₁.deedCount + 1) fun below w' _ =>
        below = [] ∧ w' = w₁.hit mob := by
    rw [hcand, hbelow]
    rcases h.below with hnil | ⟨walk, hwalk, hpoised⟩
    · rw [hnil]
      exact settle_drops (by simp [Spine.vetoed]) (by simp)
    · rw [hwalk]
      exact settle_drops (hpoised.vetoed none) hpoised.isEat
  apply hdrops.imp
  intro below w₃ t₃ h₃
  obtain ⟨rfl, rfl⟩ := h₃
  refine ⟨fun _ => ⟨⟨Or.inr hn', Or.inl rfl⟩, rfl⟩, ?_⟩
  intro m' rest hm'
  cases hm'

end Spine

end Arbiter
