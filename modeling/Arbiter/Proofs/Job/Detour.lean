import Arbiter.Proofs.Job.Recovery

/-! How a walk goes among blocked tiles. Each of its steps takes two ticks and ends on another tile
or in a bump. A bump is followed by a sidestep, and the third one by the failure of the walk. The
distance alone does not fall, but with what the bumps allow for it does. -/

namespace Arbiter

variable {w : World} {F : Fault → Prop}

/-! ## Bumps -/

def Deed.isBump : Deed → Bool
  | bump _ _ => true
  | _ => false

namespace World

/-- How many moves of the world went into blocked tiles. -/
def bumps (w : World) : Nat := w.history.countP Deed.isBump

@[simp] theorem bumps_bumped (w : World) (d : Direction) : (w.bumped d).bumps = w.bumps + 1 := by
  rw [bumps, history_bumped]
  exact List.countP_cons_of_pos rfl

@[simp] theorem bumps_moved (w : World) (q : Position) : (w.moved q).bumps = w.bumps := by
  rw [bumps, history_moved]
  exact List.countP_cons_of_neg nofun

end World

theorem Step.turn_bumps {d : Direction} {q : Position} (hq : w.position.step d = .ok q)
    (hblocked : w.isBlocked q = true) (p : Position) (c : Control) :
    (({ source := p, direction := d, progress := 1 } : Step).turn c).Meets w
      (fun e => e = .overflow ∧ (1 <<< 32 ≤ w.stuck + 1 ∨ 1 <<< 64 ≤ w.deedCount + 1))
      fun turn w' _ => (∃ reason, turn.reply.failure = some reason) ∧
        turn.task.isEat = false ∧ w' = w.bumped d := by
  rw [turn]
  rw [if_neg (by simp)]
  refine Act.Meets.ofExcept_bind (fun e he => ?_) ?_
  · have := count32_error he
    simp at this
  intro progress hprogress
  obtain ⟨-, rfl⟩ := count32_eq_ok_iff.mp hprogress
  rw [if_pos (show ticks ≤ 1 + 1 by decide)]
  apply (World.tryMove_bumps hq hblocked).bind
  intro b w' t h
  obtain ⟨rfl, hw⟩ := h
  exact Act.meets_pure ⟨⟨_, rfl⟩, rfl, hw⟩

namespace Goto

variable {g h : Goto} {p q : Position} {d : Direction} {c : Control}

/-! ## What walks do about bumps -/

/-- A walk whose last step was blocked steps aside, if it has patience left. -/
theorem asks_aside {f : Failure} (hpatience : g.blocked + 1 < patience)
    (hd : g.blockedDirection? w.position = some d)
    (hcount : w.position.gap g.target < 1 <<< 32) (hfar : g.range < w.position.gap g.target) :
    (Job.goto g).Asks w (some f) (some (.stepFrom w.position d.clockwise)) (.goto { g with
      blocked := g.blocked + 1
      detour := some { place := w.position, direction := d.clockwise } }) := by
  intro c hc
  have hheads : Heads { g with
      blocked := g.blocked + 1
      detour := some { place := w.position, direction := d.clockwise } } w.position d.clockwise _ :=
    .aside rfl
  obtain ⟨text, hnext⟩ := hheads.next hcount hfar c.state true
  rw [Job.turn, turn]
  apply Act.Meets.get_bind
  rw [hc]
  refine Act.Meets.ofExcept_bind (fun e he => ?_) ?_
  · have := (count32_error he).2
    rw [patience] at hpatience
    omega
  intro blocked hblocked
  obtain ⟨-, rfl⟩ := count32_eq_ok_iff.mp hblocked
  dsimp only
  rw [if_neg (by omega)]
  have hdirection : blockedDirection? { g with blocked := g.blocked + 1 } w.position = some d := hd
  simp only [hdirection]
  refine Act.Meets.bind (P := fun _ w' _ => w' = w) (Act.meets_tell rfl) ?_
  intro _ w' t hw
  subst hw
  apply Act.meets_ofExcept (by simp [hnext])
  intro turn hturn
  obtain rfl := Except.ok.inj (hnext.symm.trans hturn)
  exact ⟨rfl, fun _ => rfl, rfl, rfl, rfl⟩

theorem turn_gives_up {f : Failure} (hc : c.childFailure = some f)
    (hpatience : g.blocked + 1 = patience) :
    (g.turn c).Meets w F fun turn w' _ =>
      (∃ reason, turn.reply.failure = some reason) ∧ turn.task.isEat = false ∧ w' = w := by
  rw [turn]
  apply Act.Meets.get_bind
  rw [hc]
  refine Act.Meets.ofExcept_bind (fun e he => ?_) ?_
  · have := (count32_error he).2
    rw [patience] at hpatience
    omega
  intro blocked hblocked
  obtain ⟨-, rfl⟩ := count32_eq_ok_iff.mp hblocked
  dsimp only
  rw [if_pos (Nat.le_of_eq hpatience.symm)]
  exact Act.meets_pure ⟨⟨_, rfl⟩, rfl, rfl⟩

theorem exists_blockedDirection (g : Goto) (hfar : g.range < p.gap g.target) :
    ∃ d, g.blockedDirection? p = some d := by
  rw [blockedDirection?]
  cases g.detour with
  | some e => exact ⟨e.direction, rfl⟩
  | none => exact Position.exists_towards hfar

theorem Heads.again (hheads : g.Heads p d h) : h.Heads p d h := by
  cases hheads with
  | aside hdetour => exact .aside hdetour
  | direct _ hd => exact .direct (g := { g with detour := none }) (by simp) hd

/-- A sidestep that was planned on a tile is over on any other. -/
theorem Heads.elsewhere (hheads : g.Heads p d h) (hp : p ≠ q) : ∀ e ∈ h.detour, e.place ≠ q := by
  intro e he
  cases hheads with
  | aside hdetour =>
      rw [hdetour] at he
      obtain rfl := Option.some.inj he
      exact hp
  | direct _ _ => cases he

end Goto

namespace Spine

variable {s : Spine Job} {trace : Trace} {j j' : Job} {f : Option Failure} {p q : Position}
  {d : Direction}

/-! ## Ticks that fail -/

theorem fail_walk (h : ∀ n ∈ s.nodes, n.task.isEat = false) (reason : String) :
    (s.fail reason).Meets w F fun s' w' _ => s'.root.failure = some reason ∧ w' = w := by
  rw [fail]
  apply (stop_walk h none).bind
  intro s' w' t hw
  exact Act.Meets.note_bind (Act.meets_pure ⟨rfl, hw⟩)

theorem tick_gives_up {depth : Nat} {R : World → Prop}
    (hready : s.ready.Meets w F fun s' w' _ => s'.root.Faces j f ∧ s'.below = [] ∧ w' = w)
    (hturn : ∀ c : Control, c.childFailure = f → (j.turn c).Meets w F fun turn w' _ =>
      (∃ reason, turn.reply.failure = some reason) ∧ turn.task.isEat = false ∧ R w') :
    (tickWithin (depth + 1) s trace).Meets w F fun r w' _ =>
      (∃ reason, r.1.root.failure = some reason) ∧ R w' := by
  refine tickWithin_fails (R := fun s' w' => (∃ reason, s'.root.failure = some reason) ∧ R w')
    (hready.imp ?_)
  intro s₁ w₁ t₁ h₁
  obtain ⟨hwork, hbelow, rfl⟩ := h₁
  refine ⟨hwork.unstopped, ?_⟩
  have htask := hwork.task
  rw [htask]
  apply (hturn s₁.root.control hwork.childFailure).imp
  intro turn w₂ t₂ h₂
  obtain ⟨⟨reason, hreason⟩, heat, hR⟩ := h₂
  refine ⟨reason, hreason, ?_⟩
  have hnodes : ∀ n ∈ ({ s₁ with root := turned s₁.root turn } : Spine Job).nodes,
      n.task.isEat = false := by
    intro n hn
    obtain rfl : n = turned s₁.root turn := by simpa [nodes, hbelow] using hn
    exact heat
  apply (fail_walk hnodes reason).imp
  intro s' w₃ t₃ h₃
  obtain ⟨hfail, rfl⟩ := h₃
  exact ⟨⟨reason, hfail⟩, hR⟩

/-- A step under way bumps into a blocked tile, and its job comes to face the failure. -/
theorem tick_bumps {candidate : Option Job} {n : Node Job}
    (hready : s.ready.Meets w
      (fun e => e = .overflow ∧ (1 <<< 32 ≤ w.stuck + 1 ∨ 1 <<< 64 ≤ w.deedCount + 1))
      fun s' w' _ => s'.root.Faces j f ∧ s'.below = s.below ∧ w' = w)
    (hasks : j.Asks w f candidate j') (hbelow : s.below = [n])
    (hn : n.Working (.step { source := p, direction := d, progress := 1 }))
    (hq : w.position.step d = .ok q) (hblocked : w.isBlocked q = true) :
    (s.tick trace).Meets w
      (fun e => e = .overflow ∧ (1 <<< 32 ≤ w.stuck + 1 ∨ 1 <<< 64 ≤ w.deedCount + 1))
      fun r w' _ => (∃ failure, r.1.root.Faces j' (some failure)) ∧ r.1.below = [] ∧
        w' = w.bumped d := by
  refine tick_within fun _ => ?_
  refine (tickWithin_delegating (R := fun f' below w' => (∃ failure, f' = some failure) ∧
    below = [] ∧ w' = w.bumped d) hready hasks ?_).imp ?_
  · intro parent
    rw [hbelow]
    apply (settle_underWay hn.task rfl candidate).imp
    intro below w₁ t₁ h₁
    obtain ⟨rfl, rfl⟩ := h₁
    refine Or.inr ⟨{ root := n }, rfl, ?_⟩
    intro trace'
    refine (tick_gives_up (R := fun w' => w' = w₁.bumped d)
      (j := .step { source := p, direction := d, progress := 1 }) (ready_walk (Or.inr hn))
      fun c _ => Step.turn_bumps hq hblocked p c).imp ?_
    intro r w₂ t₂ h₂
    obtain ⟨⟨reason, hreason⟩, hw⟩ := h₂
    have hreport : r.1.root.failureReport = some { task := Task.label r.1.root.task, reason } := by
      simp [Node.failureReport, hreason]
    exact ⟨⟨_, hreport⟩, by simp [hreason], hw⟩
  · intro r w' t h'
    obtain ⟨f', hroot, ⟨failure, rfl⟩, hbelow, hw⟩ := h'
    exact ⟨⟨failure, hroot⟩, hbelow, hw⟩

end Spine

/-- The fault of a world in which the bumps or the deeds of a walk over `e` tiles are too many to
count. -/
def World.Overruns (w : World) (e : Nat) (f : Fault) : Prop :=
  f = .overflow ∧ (1 <<< 32 ≤ w.stuck + Goto.patience ∨ 1 <<< 64 ≤ w.deedCount + (e + 6))

namespace Walk

variable {w₀ : World} {s : Spine Job} {trace : Trace} {g : Goto} {target : Position} {d : Direction}
  {range e b n aside : Nat}

/-! ## What a walk may spend -/

/-- How a walk fares that began in the world `w₀` and has bumped `b` times: at the most `n` steps
are left to it. A sidestep that is due, for which `aside` is 1, may lead it away by one tile, and
what it costs was set aside by the bump before it. -/
structure Spent (w₀ : World) (target : Position) (range e b n aside : Nat) (w : World) : Prop where
  goal : target.Inland (1 <<< 30 + 2)
  inland : w.position.Inland (1 <<< 30 + (2 + aside - b))
  room : w.position.gap target + 6 + 2 * aside ≤ range + n + 3 * b
  patient : b ≤ 2 + aside
  bumps : w.bumps = w₀.bumps + b
  stuck : w.stuck ≤ w₀.stuck + b
  deeds : w.deedCount + n ≤ w₀.deedCount + (e + 6)

namespace Spent

theorem gap_lt (h : Spent w₀ target range e b n aside w) : w.position.gap target < 1 <<< 32 :=
  (h.inland.mono (by omega)).gap_lt (h.goal.mono (by omega))

theorem step (h : Spent w₀ target range e b n aside w) (d : Direction) :
    w.position.step d = .ok (w.position.beside d) :=
  (h.inland.mono (show 0 + 1 ≤ _ by omega)).step (Nat.le_of_eq (Position.gap_self _)) d

theorem direct (h : Spent w₀ target range e b (n + 1) 0 w)
    (hd : w.position.towards? target = some d) :
    Spent w₀ target range e b n 0 (w.moved (w.position.beside d)) := by
  have hgap := Position.gap_of_step_towards hd (h.step d)
  have hroom := h.room
  have hdeeds := h.deeds
  refine ⟨h.goal, h.inland.towards (h.goal.mono (by omega)) hd, ?_, h.patient,
    (w.bumps_moved _).trans h.bumps, Nat.zero_le _, ?_⟩
  · show (w.position.beside d).gap target + 6 + 2 * 0 ≤ range + n + 3 * b
    omega
  · show w.deedCount + 1 + n ≤ _
    omega

theorem sidestep (h : Spent w₀ target range e b (n + 1) 1 w) (hb : b ≤ 2) (d : Direction) :
    Spent w₀ target range e b n 0 (w.moved (w.position.beside d)) := by
  have hgap := Position.gap_triangle (w.position.beside d) w.position target
  rw [Position.gap_comm (w.position.beside d) w.position, Position.gap_beside] at hgap
  have hroom := h.room
  have hdeeds := h.deeds
  refine ⟨h.goal, (h.inland.mono ?_).beside d, ?_, hb, (w.bumps_moved _).trans h.bumps,
    Nat.zero_le _, ?_⟩
  · omega
  · show (w.position.beside d).gap target + 6 + 2 * 0 ≤ range + n + 3 * b
    omega
  · show w.deedCount + 1 + n ≤ _
    omega

theorem bumped (h : Spent w₀ target range e b (n + 1) aside w) (hb : b ≤ 2) (d : Direction) :
    Spent w₀ target range e (b + 1) n 1 (w.bumped d) := by
  have hroom := h.room
  have hstuck := h.stuck
  have hdeeds := h.deeds
  refine ⟨h.goal, h.inland.mono ?_, ?_, ?_, ?_, ?_, ?_⟩
  · omega
  · show w.position.gap target + 6 + 2 * 1 ≤ range + n + 3 * (b + 1)
    omega
  · omega
  · rw [World.bumps_bumped, h.bumps]
    rfl
  · show w.stuck + 1 ≤ _
    omega
  · show w.deedCount + 1 + n ≤ _
    omega

/-- There is room to count the next deed, unless the world in which the walk began overruns. -/
theorem overruns {f : Fault} (h : Spent w₀ target range e b (n + 1) aside w) (hb : b ≤ 2)
    (hf : f = .overflow ∧ (1 <<< 32 ≤ w.stuck + 1 ∨ 1 <<< 64 ≤ w.deedCount + 1)) :
    w₀.Overruns e f := by
  have hstuck := h.stuck
  have hdeeds := h.deeds
  refine ⟨hf.1, ?_⟩
  rw [Goto.patience]
  omega

end Spent

/-! ## Where a walk stands -/

/-- A walk without a bump to deal with, between two steps. The sidestep that it planned last is
over. -/
structure Clear (g : Goto) (s : Spine Job) (w : World) : Prop where
  root : s.root.pending = true ∧ s.root.failure = none ∧ s.root.task = .goto g ∧ g.restarted = g ∨
    s.root.Working (.goto g)
  below : ∀ m ∈ s.below, ∃ t, m.task = .step t ∧ t.isUnderWay = false ∧ t.source ≠ w.position
  gone : ∀ t ∈ g.detour, t.place ≠ w.position

structure Bumped (g : Goto) (s : Spine Job) (w : World) : Prop where
  root : ∃ f, s.root.Faces (.goto g) (some f)
  below : s.below = []
  far : g.range < w.position.gap g.target

structure Striding (g : Goto) (d : Direction) (s : Spine Job) (w : World) : Prop where
  root : s.root.Working (.goto g)
  below : ∃ m, s.below = [m] ∧
    m.Working (.step { source := w.position, direction := d, progress := 1 })
  heads : g.Heads w.position d g
  far : g.range < w.position.gap g.target

/-- A walk between two steps, with `n` steps left to it at the most. -/
inductive Between (w₀ : World) (e n : Nat) (s : Spine Job) (w : World) : Prop
  | clear {g : Goto} (h : Clear g s w) (hspent : Spent w₀ g.target g.range e g.blocked n 0 w)
  | bumped {g : Goto} (h : Bumped g s w)
      (hspent : Spent w₀ g.target g.range e (g.blocked + 1) n 1 w)

/-- A walk in the middle of a step, with `n` steps left to it after that at the most. -/
inductive Amid (w₀ : World) (e n : Nat) (s : Spine Job) (w : World) : Prop
  | direct {g : Goto} {d : Direction} (h : Striding g d s w)
      (hd : w.position.towards? g.target = some d)
      (hspent : Spent w₀ g.target g.range e g.blocked (n + 1) 0 w)
  | aside {g : Goto} {d : Direction} (h : Striding g d s w)
      (hspent : Spent w₀ g.target g.range e g.blocked (n + 1) 1 w) (hb : g.blocked ≤ 2)

theorem Clear.unfailed (h : Clear g s w) : s.root.failure = none := by
  rcases h.root with h | h
  · exact h.2.1
  · exact h.unfailed

theorem Clear.task (h : Clear g s w) : s.root.task = .goto g := by
  rcases h.root with h | h
  · exact h.2.2.1
  · exact h.task

theorem Between.unfailed (h : Between w₀ e n s w) : s.root.failure = none := by
  cases h with
  | clear h _ => exact h.unfailed
  | bumped h _ =>
      obtain ⟨f, hf⟩ := h.root
      exact hf.unfailed

/-! ## Steps -/

theorem Clear.begins (h : Clear g s w)
    (hspent : Spent w₀ g.target g.range e g.blocked (n + 1) 0 w)
    (hfar : g.range < w.position.gap g.target) :
    (s.tick trace).Meets w F fun r w' _ => Amid w₀ e n r.1 w' := by
  obtain ⟨d, hd⟩ := Position.exists_towards hfar
  have hheads : g.Heads w.position d { g with detour := none } := .direct h.gone hd
  have hready : s.ready.Meets w F fun s' w' _ =>
      s'.root.Working (.goto g) ∧ s'.below = s.below ∧ w' = w := by
    apply Spine.ready_walk
    rcases h.root with ⟨hp, -, htask, hfresh⟩ | hroot
    · refine Or.inl ⟨hp, ?_⟩
      intro c
      rw [htask]
      show pure (Job.goto g.restarted, c.unchanged) = _
      rw [hfresh]
    · exact Or.inr hroot
  refine Spine.tick_within fun _ => ?_
  apply (Spine.tickWithin_begins hready (hheads.asks hspent.gap_lt hfar) h.below).imp
  intro r w' t h'
  obtain ⟨hroot, hbelow, rfl⟩ := h'
  exact .direct ⟨hroot, hbelow, hheads.again, hfar⟩ hd hspent

theorem Bumped.begins (h : Bumped g s w)
    (hspent : Spent w₀ g.target g.range e (g.blocked + 1) (n + 1) 1 w)
    (hpatience : g.blocked + 1 < Goto.patience) :
    (s.tick trace).Meets w F fun r w' _ => Amid w₀ e n r.1 w' := by
  obtain ⟨f, hf⟩ := h.root
  obtain ⟨d, hd⟩ := g.exists_blockedDirection h.far
  have hready : s.ready.Meets w F fun s' w' _ =>
      s'.root.Faces (.goto g) (some f) ∧ s'.below = s.below ∧ w' = w := by
    rw [Spine.ready]
    rw [if_neg (by simp [hf.started])]
    exact Act.meets_pure ⟨hf, rfl, rfl⟩
  have hasks := Goto.asks_aside (f := f) hpatience hd hspent.gap_lt h.far
  refine Spine.tick_within fun _ => ?_
  apply (Spine.tickWithin_begins hready hasks (by simp [h.below])).imp
  intro r w' t h'
  obtain ⟨hroot, hbelow, rfl⟩ := h'
  exact .aside ⟨hroot, hbelow, .aside rfl, h.far⟩ hspent (Nat.le_of_lt_succ hpatience)

theorem Striding.ends (h : Striding g d s w)
    (hspent : Spent w₀ g.target g.range e g.blocked (n + 1) aside w) (hb : g.blocked ≤ 2)
    (hlands : Spent w₀ g.target g.range e g.blocked n 0 (w.moved (w.position.beside d))) :
    (s.tick trace).Meets w (w₀.Overruns e) fun r w' _ => Between w₀ e n r.1 w' := by
  obtain ⟨m, hbelow, hm⟩ := h.below
  have hasks := h.heads.asks hspent.gap_lt h.far
  have hq := hspent.step d
  cases hblocked : w.isBlocked (w.position.beside d) with
  | true =>
      refine (Spine.tick_bumps (Spine.ready_walk (Or.inr h.root)) hasks hbelow hm hq hblocked).mono
        (fun f hf => hspent.overruns hb hf) ?_
      intro r w' t h'
      obtain ⟨hroot, hnil, rfl⟩ := h'
      exact .bumped ⟨hroot, hnil, h.far⟩ (hspent.bumped hb d)
  | false =>
      refine Spine.tick_within fun _ => ?_
      refine (Spine.tickWithin_lands (Spine.ready_walk (Or.inr h.root)) hasks hbelow hm hq
        hblocked).mono (fun f hf => hspent.overruns hb ⟨hf.1, Or.inr hf.2⟩) ?_
      intro r w' t h'
      obtain ⟨hroot, rfl, m', hm', hover⟩ := h'
      have helse : w.position ≠ w.position.beside d := by
        intro hsame
        have hgap := Position.gap_beside w.position d
        rw [← hsame, Position.gap_self] at hgap
        omega
      refine .clear ⟨Or.inr hroot, ?_, h.heads.elsewhere helse⟩ hlands
      intro m'' hm''
      rw [hm', List.mem_singleton] at hm''
      subst hm''
      exact ⟨_, hover.task, rfl, helse⟩

theorem Amid.tick (h : Amid w₀ e n s w) :
    (s.tick trace).Meets w (w₀.Overruns e) fun r w' _ => Between w₀ e n r.1 w' := by
  cases h with
  | direct h hd hspent => exact h.ends hspent hspent.patient (hspent.direct hd)
  | aside h hspent hb => exact h.ends hspent hb (hspent.sidestep hb _)

/-! ## Runs -/

/-- How a walk that began in the world `w₀` stands `left` ticks before its end. It gives up in the
tick after its last bump, or it gets there with fewer bumps. -/
structure Course (w₀ : World) (fails : Bool) (left : Nat) (s : Spine Job) (w : World) : Prop where
  bumps : ∃ b ≤ Goto.patience, w.bumps = w₀.bumps + b ∧
    (b = Goto.patience ↔ fails = true ∧ left ≤ 1)
  goes : 0 < left → s.root.failure = none ∧ s.root.isFinished w = .ok false
  ends : left = 0 → if fails then s.root.failure ≠ none else Reached s w

def Ends (w₀ : World) (e most : Nat) (s : Spine Job) (w : World) : Prop :=
  ∃ n ≤ most, ∃ fails, ∀ m ≤ n, (goOn m s).Meets w (w₀.Overruns e) fun s' w' _ =>
    Course w₀ fails (n - m) s' w'

theorem ends_of_reached {most : Nat} (h : Reached s w) (hbumps : w.bumps = w₀.bumps + b)
    (hb : b < Goto.patience) : Ends w₀ e most s w := by
  refine ⟨0, Nat.zero_le _, false, ?_⟩
  intro m hm
  obtain rfl := Nat.le_zero.mp hm
  exact Act.meets_pure ⟨⟨b, by omega, hbumps, by simp; omega⟩, by simp, fun _ => by simpa using h⟩

theorem ends_of_gives_up {most : Nat} (hfail : s.root.failure = none)
    (hgoes : s.root.isFinished w = .ok false) (hbumps : w.bumps = w₀.bumps + Goto.patience)
    (h : (s.tick {}).Meets w (w₀.Overruns e) fun r w' _ =>
      (∃ reason, r.1.root.failure = some reason) ∧ w' = w) : Ends w₀ e (most + 1) s w := by
  refine ⟨1, by omega, true, ?_⟩
  intro m hm
  cases m with
  | zero =>
      exact Act.meets_pure
        ⟨⟨_, Nat.le_refl _, hbumps, by simp⟩, fun _ => ⟨hfail, hgoes⟩, by simp⟩
  | succ m =>
      obtain rfl : m = 0 := by omega
      refine Act.Meets.bind (perform_tick (R := fun s' w' =>
        (∃ reason, s'.root.failure = some reason) ∧ w' = w) h) ?_
      intro s' w' t h'
      obtain ⟨⟨reason, hreason⟩, rfl⟩ := h'
      exact Act.meets_pure
        ⟨⟨_, Nat.le_refl _, hbumps, by simp⟩, by simp, fun _ => by simp [hreason]⟩

/-- A walk that goes on ends one tick later than what its tick leaves. -/
theorem ends_of_tick {most : Nat} (hfail : s.root.failure = none)
    (hgoes : s.root.isFinished w = .ok false) (hbumps : w.bumps = w₀.bumps + b)
    (hb : b < Goto.patience)
    (h : (s.tick {}).Meets w (w₀.Overruns e) fun r w' _ =>
      r.1.root.failure = none ∧ Ends w₀ e most r.1 w') : Ends w₀ e (most + 1) s w := by
  have hstep := perform_tick (R := fun s' w' => s'.root.failure = none ∧ Ends w₀ e most s' w') h
  cases hrun : Walk.perform s .tick w with
  | error f =>
      -- The run stops here, and every longer one stops here too.
      have hf : w₀.Overruns e f := by
        rw [Act.Meets, hrun] at hstep
        exact hstep
      refine ⟨1, by omega, false, ?_⟩
      intro m hm
      cases m with
      | zero =>
          exact Act.meets_pure ⟨⟨b, by omega, hbumps, by simp; omega⟩,
            fun _ => ⟨hfail, hgoes⟩, by simp⟩
      | succ m =>
          have hend : (Walk.perform s .tick).Meets w (w₀.Overruns e) fun _ _ _ => False := by
            rw [Act.Meets, hrun]
            exact hf
          exact hend.bind fun _ _ _ => False.elim
  | ok d =>
      obtain ⟨hnone, n, hn, fails, hends⟩ := hstep.of_ok hrun
      refine ⟨n + 1, by omega, fails, ?_⟩
      intro m hm
      cases m with
      | zero =>
          refine Act.meets_pure ⟨⟨b, by omega, hbumps, ?_⟩, fun _ => ⟨hfail, hgoes⟩, by simp⟩
          refine ⟨fun h => by omega, ?_⟩
          rintro ⟨rfl, hleft⟩
          obtain rfl : n = 0 := by omega
          -- The tick would have failed already.
          have hcourse := hends 0 (Nat.le_refl _)
          exact absurd hnone (Course.ends (hcourse.of_ok rfl) rfl)
      | succ m =>
          refine Act.Meets.bind (P := fun s' w' _ => s' = d.value ∧ w' = d.context) ?_ ?_
          · rw [Act.Meets, hrun]
            exact ⟨rfl, rfl⟩
          · intro s' w' t h'
            obtain ⟨rfl, rfl⟩ := h'
            rw [Nat.add_sub_add_right]
            exact hends m (by omega)

theorem Amid.goes (h : Amid w₀ e n s w) :
    s.root.failure = none ∧ s.root.isFinished w = .ok false ∧
      ∃ b < Goto.patience, w.bumps = w₀.bumps + b := by
  have hgoes : ∀ {g d aside}, Striding g d s w →
      Spent w₀ g.target g.range e g.blocked (n + 1) aside w →
      s.root.failure = none ∧ s.root.isFinished w = .ok false := by
    intro g d aside h hspent
    have hfar := h.far
    refine ⟨h.root.unfailed, ?_⟩
    rw [isFinished_goto h.root.task hspent.gap_lt, decide_eq_false (by omega)]
  cases h with
  | direct h hd hspent =>
      obtain ⟨hfail, hunfinished⟩ := hgoes h hspent
      exact ⟨hfail, hunfinished, _, Nat.lt_succ_of_le hspent.patient, hspent.bumps⟩
  | aside h hspent hb =>
      obtain ⟨hfail, hunfinished⟩ := hgoes h hspent
      exact ⟨hfail, hunfinished, _, Nat.lt_succ_of_le hb, hspent.bumps⟩

/-- A walk that can take a step ends if it ends from wherever that step leads. -/
theorem ends_of_begins {most : Nat} (hfail : s.root.failure = none)
    (hgoes : s.root.isFinished w = .ok false) (hbumps : w.bumps = w₀.bumps + b)
    (hb : b < Goto.patience)
    (h : (s.tick {}).Meets w (w₀.Overruns e) fun r w' _ => Amid w₀ e n r.1 w')
    (hrest : ∀ s' w', Between w₀ e n s' w' → Ends w₀ e most s' w') :
    Ends w₀ e (most + 2) s w := by
  refine ends_of_tick hfail hgoes hbumps hb (h.imp ?_)
  intro r w' t hamid
  obtain ⟨hfail', hgoes', b', hb', hbumps'⟩ := hamid.goes
  refine ⟨hfail', ends_of_tick hfail' hgoes' hbumps' hb' (hamid.tick.imp ?_)⟩
  intro r' w'' u hbetween
  exact ⟨hbetween.unfailed, hrest _ _ hbetween⟩

theorem Clear.arrives {most : Nat} (h : Clear g s w)
    (hspent : Spent w₀ g.target g.range e g.blocked n 0 w)
    (hnear : w.position.gap g.target ≤ g.range) : Ends w₀ e most s w := by
  have hreached : Reached s w := by
    refine ⟨?_, h.unfailed⟩
    rw [isFinished_goto h.task hspent.gap_lt, decide_eq_true hnear]
  exact ends_of_reached hreached hspent.bumps (Nat.lt_succ_of_le hspent.patient)

theorem Bumped.unfinished (h : Bumped g s w)
    (hspent : Spent w₀ g.target g.range e (g.blocked + 1) n 1 w) :
    s.root.failure = none ∧ s.root.isFinished w = .ok false := by
  obtain ⟨f, hf⟩ := h.root
  have hfar := h.far
  refine ⟨hf.unfailed, ?_⟩
  rw [isFinished_goto hf.task hspent.gap_lt, decide_eq_false (by omega)]

theorem Bumped.gives_up {most : Nat} (h : Bumped g s w)
    (hspent : Spent w₀ g.target g.range e (g.blocked + 1) n 1 w)
    (hpatience : g.blocked + 1 = Goto.patience) : Ends w₀ e (most + 1) s w := by
  obtain ⟨f, hf⟩ := h.root
  obtain ⟨hfail, hgoes⟩ := h.unfinished hspent
  have hbumps := hspent.bumps
  rw [hpatience] at hbumps
  refine ends_of_gives_up hfail hgoes hbumps ?_
  obtain ⟨depth, htick⟩ := Spine.exists_depth s {}
  rw [htick]
  refine Spine.tick_gives_up (j := .goto g) (f := some f) ?_
    fun c hc => Goto.turn_gives_up hc hpatience
  rw [Spine.ready]
  rw [if_neg (by simp [hf.started])]
  exact Act.meets_pure ⟨hf, h.below, rfl⟩

/-- By induction on the number of steps that are left. What a walk has spent leaves it another step
as long as it is off its target and has not lost its patience. -/
theorem Between.ends (h : Between w₀ e n s w) : Ends w₀ e (2 * n + 1) s w := by
  induction n generalizing s w with
  | zero =>
      cases h with
      | clear h hspent =>
          have hroom := hspent.room
          have hpatient := hspent.patient
          exact h.arrives hspent (by omega)
      | bumped h hspent =>
          have hroom := hspent.room
          have hpatient := hspent.patient
          have hfar := h.far
          exact h.gives_up hspent (by rw [Goto.patience]; omega)
  | succ n ih =>
      cases h with
      | @clear g h hspent =>
          by_cases hfar : g.range < w.position.gap g.target
          · have hgoes : s.root.isFinished w = .ok false := by
              rw [isFinished_goto h.task hspent.gap_lt, decide_eq_false (by omega)]
            exact ends_of_begins h.unfailed hgoes hspent.bumps (Nat.lt_succ_of_le hspent.patient)
              (h.begins hspent hfar) fun _ _ => ih
          · exact h.arrives hspent (Nat.le_of_not_lt hfar)
      | @bumped g h hspent =>
          by_cases hpatience : g.blocked + 1 = Goto.patience
          · exact h.gives_up hspent hpatience
          · have hpatient := hspent.patient
            have hleft : g.blocked + 1 < Goto.patience := by
              rw [Goto.patience] at hpatience ⊢
              omega
            obtain ⟨hfail, hgoes⟩ := h.unfinished hspent
            exact ends_of_begins hfail hgoes hspent.bumps hleft (h.begins hspent hleft)
              fun _ _ => ih

/-- A walk to within the range of a target, `e` tiles from there, ends in `2 * (e + 6) + 1` ticks,
whatever tiles are blocked. It gives up in the tick after its third bump, or it gets there with
fewer. A run ends early only if there are too many bumps or deeds to count. -/
theorem goto_ends (target : Position) (range e : Nat) (w : World) (hstart : w.position.Central)
    (htarget : target.Central) (hgap : w.position.gap target = range + e) :
    ∃ n ≤ 2 * (e + 6) + 1, ∃ fails, ∀ m ≤ n,
      (goOn m (.ofTask (.gotoWithin target range))).Meets w (w.Overruns e) fun s w' _ =>
        Course w fails (n - m) s w' := by
  have hclear : Clear { target, range } (.ofTask (.gotoWithin target range)) w :=
    ⟨Or.inl ⟨rfl, rfl, rfl, rfl⟩, by simp [Spine.ofTask], by simp⟩
  have hspent : Spent w target range e 0 (e + 6) 0 w :=
    ⟨htarget.inland, hstart.inland, by omega, by omega, rfl, Nat.le_refl _, Nat.le_refl _⟩
  exact Between.ends (.clear hclear hspent)

def pillar : World := { blocked := Area.addRectangle ⟨1, 0⟩ ⟨1, 0⟩ {} }

theorem goto_ends_pillar :
    ∃ n ≤ 2 * (2 + 6) + 1, ∃ d, goOn n (.ofTask (.gotoWithin ⟨2, 0⟩ 0)) pillar = .ok d ∧
      (d.value.root.failure ≠ none ∧ d.context.bumps = 3 ∨
        Reached d.value d.context ∧ d.context.bumps < 3) := by
  obtain ⟨n, hn, fails, hends⟩ := goto_ends ⟨2, 0⟩ 0 2 pillar ⟨by decide, by decide⟩
    ⟨by decide, by decide⟩ (by decide)
  have hroom : ∀ f, ¬ pillar.Overruns 2 f := by
    rintro f ⟨-, h⟩
    revert h
    decide
  obtain ⟨d, hd, hcourse⟩ := ((hends n (Nat.le_refl n)).mono (G := fun _ => False)
    (fun f hf => hroom f hf) fun _ _ _ h => h).ok
  obtain ⟨b, hb, hbumps, hlast⟩ := hcourse.bumps
  have hend := hcourse.ends (Nat.sub_self n)
  have hnone : pillar.bumps = 0 := rfl
  rw [hnone, Nat.zero_add] at hbumps
  refine ⟨n, hn, d, hd, ?_⟩
  rw [hbumps]
  cases fails with
  | true => exact Or.inl ⟨hend, hlast.mpr ⟨rfl, by omega⟩⟩
  | false =>
      have hfewer : b ≠ 3 := fun h => absurd (hlast.mp h).1 (by simp)
      rw [Goto.patience] at hb
      exact Or.inr ⟨hend, by omega⟩

def worn : World := { pillar with stuck := 1 <<< 32 - 1 }

/-- The first bump ends the run. -/
theorem goto_ends_worn :
    worn.position.Central ∧ worn.position.gap ⟨2, 0⟩ = 0 + 2 ∧
      ∀ n ≤ 2 * (2 + 6) + 1, ∀ d, goOn n (.ofTask (.gotoWithin ⟨2, 0⟩ 0)) worn = .ok d →
        d.value.root.failure = none ∧ d.value.root.isFinished d.context = .ok false := by
  refine ⟨⟨by decide, by decide⟩, by decide, ?_⟩
  intro n hn d hd
  have hrun : ∀ n ∈ List.range 18,
      (match goOn n (.ofTask (.gotoWithin ⟨2, 0⟩ 0)) worn with
        | .ok d => decide (d.value.root.failure = none) &&
          match d.value.root.isFinished d.context with
          | .ok finished => !finished
          | .error _ => false
        | .error _ => true) = true := by
    decide +kernel
  have hgoes := hrun n (List.mem_range.mpr (by omega))
  simp only [hd, Bool.and_eq_true, decide_eq_true_eq] at hgoes
  obtain ⟨hfail, hfinished⟩ := hgoes
  refine ⟨hfail, ?_⟩
  split at hfinished
  · next finished h => simpa [h] using hfinished
  · cases hfinished

end Walk

end Arbiter
