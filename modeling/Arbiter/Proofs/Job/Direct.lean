import Arbiter.Proofs.Grid.Path
import Arbiter.Proofs.Job.Recovery

/-! How a walk goes whose way is free: it takes the way tile by tile, each in two ticks, and is
finished with the last tick that it needs. -/

namespace Arbiter

variable {w : World} {target : Position} {range : Nat}

namespace World

/-- The world after the first `i` moves on the way to a tile. -/
def walked (w : World) (target : Position) : Nat → World
  | 0 => w
  | i + 1 => (w.walked target i).moved (w.position.along target (i + 1))

theorem walked_position (w : World) (target : Position) (i : Nat) :
    (w.walked target i).position = w.position.along target i := by
  cases i with
  | zero => exact (Position.along_zero _ _).symm
  | succ i => rfl

theorem walked_log (w : World) (target : Position) (i : Nat) :
    (w.walked target i).log = w.log.pushAll ((List.range i).map fun j =>
      Deed.move (w.position.along target j) (w.position.along target (j + 1))) := by
  induction i with
  | zero => rfl
  | succ i ih =>
      show (w.walked target i).log.push _ = _
      rw [ih, DeedLog.push_pushAll, walked_position, List.range_succ, List.map_append]
      rfl

theorem walked_history (w : World) (target : Position) (i : Nat) :
    (w.walked target i).history =
      ((List.range i).map fun j =>
        Deed.move (w.position.along target j) (w.position.along target (j + 1))).reverse ++
        w.history := by
  rw [history, walked_log, DeedLog.history_pushAll]
  rfl

theorem walked_deedCount (w : World) (target : Position) (i : Nat) :
    (w.walked target i).deedCount = w.deedCount + i := by
  induction i with
  | zero => rfl
  | succ i ih =>
      show (w.walked target i).deedCount + 1 = w.deedCount + (i + 1)
      rw [ih, Nat.add_assoc]

theorem walked_isBlocked (w : World) (target : Position) (i : Nat) (p : Position) :
    (w.walked target i).isBlocked p = w.isBlocked p := by
  induction i with
  | zero => rfl
  | succ i ih => exact ih

/-- A way on the grid on which nothing is blocked, to a tile that is out of range. -/
structure Leads (w : World) (target : Position) (range : Nat) : Prop where
  here : w.position.Inland 0
  there : target.Inland 0
  count : w.position.gap target < 1 <<< 32
  far : range < w.position.gap target
  free : ∀ i ≤ w.position.gap target, w.isBlocked (w.position.along target i) = false

end World

namespace Walk

/-- A walk of which `n` ticks are done. -/
inductive Direct (w₀ : World) (target : Position) (range : Nat) (s : Spine Job) :
    Nat → World → Prop
  | poised (i : Nat) (h : Spine.Poised target range (w₀.position.along target i) s) :
      Direct w₀ target range s (2 * i) (w₀.walked target i)
  | crossing (i : Nat) (d : Direction)
      (h : Spine.Crossing target range (w₀.position.along target i) d s)
      (hd : (w₀.position.along target i).towards? target = some d) :
      Direct w₀ target range s (2 * i + 1) (w₀.walked target i)

variable {w₀ : World} {s : Spine Job} {trace : Trace} {n : Nat}

theorem Direct.tick (h : Direct w₀ target range s n w) (hlead : w₀.Leads target range)
    (hn : n < 2 * (w₀.position.gap target - range)) :
    (s.tick trace).Meets w (w₀.Overcounts ((n + 1) / 2)) fun r w' _ =>
      Direct w₀ target range r.1 (n + 1) w' := by
  have hcount := hlead.count
  cases h with
  | poised i h =>
      have hgap := Position.gap_along w₀.position target i
      rw [← World.walked_position] at h hgap
      obtain ⟨d, hd⟩ := Position.exists_towards
        (show range < (w₀.walked target i).position.gap target by omega)
      apply (h.tick (by omega) (by omega) hd).imp
      intro r w' t h'
      obtain ⟨hcross, rfl⟩ := h'
      rw [World.walked_position] at hcross hd
      exact .crossing i d hcross hd
  | crossing i d h hd =>
      have hgap := Position.gap_along w₀.position target i
      have hnext := Position.along_succ hd
      have hstep : (w₀.position.along target i).step d =
          .ok (w₀.position.along target (i + 1)) := by
        rw [hnext]
        exact Position.step_beside (hnext ▸ hlead.here.along hlead.there (i + 1))
      have hfree : (w₀.walked target i).isBlocked (w₀.position.along target (i + 1)) = false := by
        rw [World.walked_isBlocked]
        exact hlead.free (i + 1) (by omega)
      rw [← World.walked_position] at h hd hgap hstep
      refine (h.tick (by omega) (by omega) hd hstep hfree).mono ?_ ?_
      · intro e he
        rw [World.walked_deedCount] at he
        exact ⟨he.1, by omega⟩
      · intro r w' t h'
        obtain ⟨hpoised, rfl⟩ := h'
        exact .poised (i + 1) hpoised

theorem Direct.goOn {m : Nat} (h : Direct w₀ target range s m w) (hlead : w₀.Leads target range)
    (hn : m + n ≤ 2 * (w₀.position.gap target - range)) :
    (goOn n s).Meets w (w₀.Overcounts ((m + n) / 2)) fun s' w' _ =>
      Direct w₀ target range s' (m + n) w' := by
  induction n generalizing s w m with
  | zero => exact h
  | succ n ih =>
      rw [show m + (n + 1) = m + 1 + n by omega]
      refine goOn_tick ((h.tick hlead (by omega)).mono ?_ ?_)
      · exact fun e he => he.mono (by omega)
      · exact fun r w' t h' => ih h' (by omega)

theorem Direct.unfailed (h : Direct w₀ target range s n w) : s.root.failure = none := by
  cases h with
  | poised i h => exact h.unfailed
  | crossing i d h hd => exact h.root.unfailed

theorem Direct.task (h : Direct w₀ target range s n w) :
    s.root.task = .gotoWithin target range := by
  cases h with
  | poised i h => exact h.task
  | crossing i d h hd => exact h.root.task

theorem Direct.world (h : Direct w₀ target range s n w) : w = w₀.walked target (n / 2) := by
  cases h with
  | poised i h => rw [show 2 * i / 2 = i by omega]
  | crossing i d h hd => rw [show (2 * i + 1) / 2 = i by omega]

theorem Direct.begin (w : World) (target : Position) (range : Nat) :
    Direct w target range (.ofTask (.gotoWithin target range)) 0 w := by
  have hpoised := Spine.poised_ofTask target range w.position
  rw [← Position.along_zero w.position target] at hpoised
  exact .poised 0 hpoised

/-- A walk whose way along the x axis and then along the y axis is free takes that way. Every tile
costs two ticks and is one deed, and the walk is finished as soon as the last of them is done, not
before. A run ends early only if there are too many deeds to count. -/
theorem straight (w : World) (target : Position) (range n : Nat) (hstart : w.position.Inland 0)
    (htarget : target.Inland 0) (hcount : w.position.gap target < 1 <<< 32)
    (hfar : range < w.position.gap target)
    (hfree : ∀ i ≤ w.position.gap target, w.isBlocked (w.position.along target i) = false)
    (hn : n ≤ 2 * (w.position.gap target - range)) :
    (goOn n (.ofTask (.gotoWithin target range))).Meets w (w.Overcounts (n / 2)) fun s w' _ =>
      w'.position = w.position.along target (n / 2) ∧
      w'.log = w.log.pushAll ((List.range (n / 2)).map fun i =>
        Deed.move (w.position.along target i) (w.position.along target (i + 1))) ∧
      w'.deedCount = w.deedCount + n / 2 ∧
      s.root.failure = none ∧
      s.root.isFinished w' = .ok (decide (n = 2 * (w.position.gap target - range))) := by
  have hlead : w.Leads target range := ⟨hstart, htarget, hcount, hfar, hfree⟩
  have hrun := (Direct.begin w target range).goOn (n := n) hlead (by omega)
  rw [Nat.zero_add] at hrun
  apply hrun.imp
  intro s w' t h
  have hgap := Position.gap_along w.position target (n / 2)
  have hworld := h.world
  have hposition : w'.position = w.position.along target (n / 2) := by
    rw [hworld, World.walked_position]
  refine ⟨hposition, ?_, ?_, h.unfailed, ?_⟩
  · rw [hworld, World.walked_log]
  · rw [hworld, World.walked_deedCount]
  · rw [isFinished_gotoWithin h.task (by rw [hposition]; omega), hposition, hgap]
    congr 1
    rw [decide_eq_decide]
    omega

/-- A world in which only the way that goes along the x axis first is free. -/
def corner : World := { blocked := ({} : Area).addRectangle ⟨0, 1⟩ ⟨1, 1⟩ }

theorem straight_corner :
    ∃ d, goOn 6 (.ofTask (.gotoWithin ⟨2, 1⟩ 0)) corner = .ok d ∧
      d.context.position = ⟨2, 1⟩ ∧
      d.context.deeds = [.move ⟨0, 0⟩ ⟨1, 0⟩, .move ⟨1, 0⟩ ⟨2, 0⟩, .move ⟨2, 0⟩ ⟨2, 1⟩] ∧
      d.value.root.isFinished d.context = .ok true := by
  -- Nothing may evaluate the run when the theorem is applied to it.
  generalize hn : 6 = n
  have hrun := straight corner ⟨2, 1⟩ 0 n ⟨by decide, by decide, by decide, by decide⟩
    ⟨by decide, by decide, by decide, by decide⟩ (by decide) (by decide) (by decide)
    (by rw [← hn]; decide)
  obtain ⟨d, hd, hposition, hlog, -, -, hfinished⟩ :=
    (hrun.mono (G := fun _ => False)
      (fun e he => absurd he.2 (by rw [← hn]; decide)) fun _ _ _ h => h).ok
  rw [← hn] at hposition hlog hfinished
  exact ⟨d, hd, hposition, congrArg DeedLog.recent hlog, hfinished⟩

/-- A world in which no further deed can be counted. -/
def tallied : World := { deedCount := 1 <<< 64 - 1 }

/-- The first move of a walk may be one too many to count, and of a long walk only the latest moves
are remembered. -/
theorem straight_tallied :
    tallied.position.gap ⟨2, 0⟩ = 2 ∧
      (∀ i ≤ 2, tallied.isBlocked (tallied.position.along ⟨2, 0⟩ i) = false) ∧
      goOn 2 (.ofTask (.gotoWithin ⟨2, 0⟩ 0)) tallied = .error .overflow ∧
      ∃ d, goOn 514 (.ofTask (.gotoWithin ⟨257, 0⟩ 0)) ({} : World) = .ok d ∧
        d.context.position = ⟨257, 0⟩ ∧ d.context.deedCount = 257 ∧
        d.context.deeds.length = 256 := by
  refine ⟨by decide, by decide, Act.error_of_fails (by decide +kernel), ?_⟩
  have hlead : ({} : World).Leads ⟨257, 0⟩ 0 :=
    ⟨⟨by decide, by decide, by decide, by decide⟩, ⟨by decide, by decide, by decide, by decide⟩,
      by decide, by decide, fun _ _ => rfl⟩
  -- Nothing may evaluate the run when the lemma is applied to it.
  generalize hn : 514 = n
  have hrun := (Direct.begin {} ⟨257, 0⟩ 0).goOn (n := n) hlead (by rw [← hn]; decide)
  obtain ⟨d, hd, hdirect⟩ := (hrun.mono (G := fun _ => False)
    (fun e he => absurd he.2 (by rw [← hn]; decide)) fun _ _ _ h => h).ok
  have hworld := hdirect.world
  rw [Nat.zero_add, ← hn] at hworld
  refine ⟨d, hd, ?_, ?_, ?_⟩
  · rw [hworld, World.walked_position]
    decide
  · rw [hworld, World.walked_deedCount]
  · rw [World.deeds_eq_take, hworld, World.walked_history, List.length_reverse, List.length_take]
    simp only [List.length_append, List.length_reverse, List.length_map, List.length_range]
    exact Nat.min_eq_left (by decide)

end Walk

end Arbiter
