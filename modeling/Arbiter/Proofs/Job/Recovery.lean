import Arbiter.Proofs.Job.Walking

/-! How a walk goes on after the agent was put elsewhere. A step under way is taken to its end
first, from wherever the agent is by then. After that the walk takes its steps from where the agent
stands, unless the next of them is the one that it holds and that is over: then it waits forever. -/

namespace Arbiter

variable {w : World} {target : Position} {range : Nat}

/-! ## The field -/

namespace Position

variable {p q : Position} {d : Direction} {n : Nat}

theorem Central.inland (h : p.Central) : p.Inland (1 <<< 30 + 2) := by
  have hx := h.x
  have hy := h.y
  exact ⟨by omega, by omega, by omega, by omega⟩

theorem Inland.beside (h : p.Inland (n + 1)) (d : Direction) : (p.beside d).Inland n := by
  obtain ⟨hw, he, hs, hn⟩ := h
  cases d <;> constructor <;> simp only [Position.beside, Direction.dx, Direction.dy] <;> omega

/-- A step towards a target keeps the distance from the limits of the grid that both tiles have. -/
theorem Inland.towards (hp : p.Inland n) (hq : q.Inland n) (hd : p.towards? q = some d) :
    (p.beside d).Inland n := by
  obtain ⟨hw, he, hs, hn⟩ := hp
  obtain ⟨hw', he', hs', hn'⟩ := hq
  cases d <;> constructor <;>
    grind [Position.towards?, Position.beside, Direction.dx, Direction.dy]

theorem Inland.gap_lt (hp : p.Inland (1 <<< 30)) (hq : q.Inland (1 <<< 30)) :
    p.gap q < 1 <<< 32 := by
  obtain ⟨hw, he, hs, hn⟩ := hp
  obtain ⟨hw', he', hs', hn'⟩ := hq
  unfold gap
  omega

end Position

namespace World

/-- Free ground around an agent that is far from the limits of the grid. -/
structure Open (w : World) : Prop where
  inland : w.position.Inland (1 <<< 30)
  unblocked : ∀ p, w.isBlocked p = false

theorem Open.put {p : Position} (h : w.Open) (hp : p.Inland (1 <<< 30)) :
    ({ w with position := p } : World).Open :=
  ⟨hp, h.unblocked⟩

theorem Open.moved {p : Position} (h : w.Open) (hp : p.Inland (1 <<< 30)) : (w.moved p).Open :=
  ⟨hp, h.unblocked⟩

theorem Open.step (h : w.Open) (d : Direction) :
    w.position.step d = .ok (w.position.beside d) :=
  (h.inland.mono (by decide : 0 + 1 ≤ 1 <<< 30)).step (Nat.le_of_eq (Position.gap_self _)) d

/-- The way to a target that is not reached. -/
theorem Open.ahead (h : w.Open) (htarget : target.Inland (1 <<< 30))
    (hfar : range < w.position.gap target) :
    ∃ d, w.position.towards? target = some d ∧ (w.position.beside d).Inland (1 <<< 30) ∧
      w.position.gap target = (w.position.beside d).gap target + 1 := by
  obtain ⟨d, hd⟩ := Position.exists_towards hfar
  exact ⟨d, hd, h.inland.towards htarget hd, Position.gap_of_step_towards hd (h.step d)⟩

/-- The fault of a world in which `n` more deeds are too many to count. -/
def Overcounts (w : World) (n : Nat) (e : Fault) : Prop :=
  e = .overflow ∧ 1 <<< 64 ≤ w.deedCount + n

theorem Overcounts.mono {w' : World} {m n : Nat} {e : Fault} (h : w'.Overcounts m e)
    (hle : w'.deedCount + m ≤ w.deedCount + n) : w.Overcounts n e :=
  ⟨h.1, Nat.le_trans h.2 hle⟩

end World

/-! ## Operations -/

namespace Walk

/-- What a host does with a walk: it ticks it, or puts the agent on a tile. -/
inductive Operation where
  | tick
  | put (place : Position)

def perform (s : Spine Job) : Operation → Act World (Happening Job) (Spine Job)
  | .tick => do
    let (s, _) ← s.tick {}
    pure s
  | .put place => do
    Act.modify fun w => { w with position := place }
    pure s

def performAll (s : Spine Job) : List Operation → Act World (Happening Job) (Spine Job)
  | [] => pure s
  | op :: rest => do
    let s ← perform s op
    performAll s rest

/-- The host lets the walk go on for a number of ticks. -/
def goOn (n : Nat) (s : Spine Job) : Act World (Happening Job) (Spine Job) :=
  performAll s (List.replicate n .tick)

variable {s : Spine Job} {F : Fault → Prop}

theorem perform_tick {R : Spine Job → World → Prop}
    (h : (s.tick {}).Meets w F fun r w' _ => R r.1 w') :
    (perform s .tick).Meets w F fun s' w' _ => R s' w' := by
  rw [perform]
  apply h.bind
  intro r w' t hr
  exact Act.meets_pure hr

theorem goOn_tick {n : Nat} {R : Spine Job → World → Prop}
    (h : (s.tick {}).Meets w F fun r w' _ =>
      (goOn n r.1).Meets w' F fun s'' w'' _ => R s'' w'') :
    (goOn (n + 1) s).Meets w F fun s' w' _ => R s' w' :=
  (perform_tick (R := fun s' w' => (goOn n s').Meets w' F fun s'' w'' _ => R s'' w'') h).bind
    fun _ _ _ hs => hs

theorem goOn_succ {n : Nat} {R : Spine Job → World → Prop}
    (h : (s.tick {}).Meets w (w.Overcounts 1) fun r w' _ =>
      w'.deedCount ≤ w.deedCount + 1 ∧
        (goOn n r.1).Meets w' (w'.Overcounts n) fun s'' w'' _ => R s'' w'') :
    (goOn (n + 1) s).Meets w (w.Overcounts (n + 1)) fun s' w' _ => R s' w' := by
  refine goOn_tick (h.mono (fun e he => he.mono (by omega)) ?_)
  intro r w' t hr
  exact hr.2.mono (fun e he => he.mono (by omega)) fun _ _ _ hR => hR

/-! ## What a walk holds -/

/-- A walk to within the range of the target takes a step in the direction `d` from the tile `q`. -/
structure Leads (target : Position) (range : Nat) (q : Position) (d : Direction) : Prop where
  inland : q.Inland (1 <<< 30)
  far : range < q.gap target
  towards : q.towards? target = some d

theorem Leads.lands {p q : Position} {d : Direction} (h : Leads target range q d)
    (htarget : target.Inland (1 <<< 30)) (hp : p = q ∨ p.Inland (1 <<< 30 + 1)) :
    (p.beside d).Inland (1 <<< 30) := by
  rcases hp with rfl | hp
  · exact h.inland.towards htarget h.towards
  · exact hp.beside d

/-- What a walk holds while the agent stands on the tile `p`. A step that has begun lands next to
`p`, whether it was begun there or not. -/
inductive Holds (target : Position) (range : Nat) (p : Position) : List (Node Job) → Prop
  | nothing : Holds target range p []
  | begun {n q d} (hstep : Leads target range q d) (hplace : p = q ∨ p.Inland (1 <<< 30 + 1))
      (hn : n.Working (.step { source := q, direction := d, progress := 1 })) :
      Holds target range p [n]
  | landed {n q d} (hstep : Leads target range q d)
      (hn : n.Working (.step { source := q, direction := d, progress := 2, landed := true })) :
      Holds target range p [n]

/-- A walk on free ground, between two operations. -/
structure Goes (target : Position) (range : Nat) (s : Spine Job) (w : World) : Prop
    extends w.Open where
  root : s.root.Walks target range
  held : Holds target range w.position s.below

theorem goes_ofTask (hw : w.Open) : Goes target range (.ofTask (.gotoWithin target range)) w :=
  ⟨hw, Or.inl ⟨rfl, rfl, rfl⟩, .nothing⟩

theorem Goes.put {p : Position} (h : Goes target range s w) (hp : p.Inland (1 <<< 30 + 1)) :
    Goes target range s { w with position := p } := by
  refine ⟨h.toOpen.put (hp.mono (by omega)), h.root, ?_⟩
  have hheld := h.held
  generalize s.below = below at hheld ⊢
  cases hheld with
  | nothing => exact .nothing
  | begun hstep _ hn => exact .begun hstep (Or.inr hp) hn
  | landed hstep hn => exact .landed hstep hn

/-! ## Ticks -/

/-- Off the target a walk asks for a step, within its range it asks for nothing. -/
theorem Goes.asks (h : Goes target range s w) (htarget : target.Inland (1 <<< 30)) :
    ∃ candidate,
      (Job.gotoWithin target range).Asks w none candidate (.gotoWithin target range) := by
  have hcount := h.inland.gap_lt htarget
  by_cases hfar : range < w.position.gap target
  · obtain ⟨d, hd, -, -⟩ := h.ahead htarget hfar
    exact ⟨_, Goto.asks_towards hcount hfar hd⟩
  · exact ⟨none, Goto.asks_nothing hcount (Nat.le_of_not_lt hfar)⟩

variable {trace : Trace} {n : Node Job} {q : Position} {d : Direction}

/-- A step that has begun lands next to the tile on which the agent stands. -/
theorem Goes.tick_begun (h : Goes target range s w) (htarget : target.Inland (1 <<< 30))
    (hbelow : s.below = [n])
    (hn : n.Working (.step { source := q, direction := d, progress := 1 })) :
    (s.tick trace).Meets w (w.Overcounts 1) fun r w' _ =>
      r.1.root.Working (.gotoWithin target range) ∧ w' = w.moved (w.position.beside d) ∧
        ∃ m, r.1.below = [m] ∧
          m.Working (.step { source := q, direction := d, progress := 2, landed := true }) := by
  obtain ⟨candidate, hasks⟩ := h.asks htarget
  exact Spine.tick_within fun _ =>
    Spine.tickWithin_lands (Spine.ready_of_walks h.root) hasks hbelow hn (h.step d) (h.unblocked _)

theorem poised_of_nothing (hroot : s.root.Walks target range) (hbelow : s.below = [])
    (p : Position) : Spine.Poised target range p s :=
  ⟨hroot, by simp [hbelow]⟩

theorem poised_of_over {t : Step} (hroot : s.root.Walks target range) (hbelow : s.below = [n])
    (hn : n.task = .step t) (hover : t.isUnderWay = false) {p : Position} (hp : t.source ≠ p) :
    Spine.Poised target range p s := by
  refine ⟨hroot, ?_⟩
  intro m hm
  rw [hbelow, List.mem_singleton] at hm
  subst hm
  exact ⟨t, hn, hover, hp⟩

theorem goes_of_crossing (hw : w.Open) (hstep : Leads target range w.position d)
    (h : Spine.Crossing target range w.position d s) : Goes target range s w := by
  obtain ⟨n, hbelow, hn⟩ := h.below
  refine ⟨hw, Or.inr h.root, ?_⟩
  rw [hbelow]
  exact .begun hstep (Or.inl rfl) hn

/-- A walk that holds nothing, or a step from elsewhere that is over, comes to its next step. -/
theorem Goes.tick_poised (h : Goes target range s w) (htarget : target.Inland (1 <<< 30))
    (hp : Spine.Poised target range w.position s) (hfar : range < w.position.gap target) :
    (s.tick trace).Meets w F fun r w' _ =>
      Goes target range r.1 w' ∧ w'.deedCount ≤ w.deedCount + 1 := by
  obtain ⟨d, hd, -, -⟩ := h.ahead htarget hfar
  apply (hp.tick (h.inland.gap_lt htarget) hfar hd).imp
  intro r w' t h'
  obtain ⟨hcross, rfl⟩ := h'
  exact ⟨goes_of_crossing h.toOpen ⟨h.inland, hfar, hd⟩ hcross, by omega⟩

/-- Within its range a walk gives up the steps that are over. -/
theorem Goes.tick_arrived (h : Goes target range s w) (htarget : target.Inland (1 <<< 30))
    (hnear : w.position.gap target ≤ range)
    (hover : ∀ n ∈ s.below, ∃ t, n.task = .step t ∧ t.isUnderWay = false) :
    (s.tick trace).Meets w F fun r w' _ =>
      Goes target range r.1 w' ∧ w'.deedCount ≤ w.deedCount + 1 := by
  refine Spine.tick_within fun _ => ?_
  refine (Spine.tickWithin_delegating (R := fun f below w' => f = none ∧ below = [] ∧ w' = w)
    (Spine.ready_of_walks h.root) (Goto.asks_nothing (h.inland.gap_lt htarget) hnear) ?_).imp ?_
  · intro parent
    apply (Spine.settle_drops (Spine.vetoed_over hover none) (Spine.isEat_over hover)).imp
    intro below w' t h'
    exact Or.inl ⟨h'.1, rfl, rfl, h'.2⟩
  · intro r w' t h'
    obtain ⟨f, hroot, rfl, hbelow, rfl⟩ := h'
    refine ⟨⟨h.toOpen, Or.inr hroot, ?_⟩, by omega⟩
    rw [hbelow]
    exact .nothing

/-! ## Walks that wait forever -/

/-- A walk whose next step is the one that it holds and that is over. -/
structure Stalled (target : Position) (range : Nat) (s : Spine Job) (w : World) : Prop
    extends w.Open where
  root : s.root.Walks target range
  spent : ∃ n d, s.below = [n] ∧ Leads target range w.position d ∧
    n.Working (.step { source := w.position, direction := d, progress := 2, landed := true })

theorem Stalled.goes (h : Stalled target range s w) : Goes target range s w := by
  obtain ⟨n, d, hbelow, hstep, hn⟩ := h.spent
  refine ⟨h.toOpen, h.root, ?_⟩
  rw [hbelow]
  exact .landed hstep hn

/-- The step that is over counts as the one that is asked for, and no turn of it moves the agent. -/
theorem Stalled.tick (h : Stalled target range s w) (htarget : target.Inland (1 <<< 30)) :
    (s.tick trace).Meets w F fun r w' _ => Stalled target range r.1 w' ∧ w' = w := by
  obtain ⟨n, d, hbelow, hstep, hn⟩ := h.spent
  refine Spine.tick_within fun _ => ?_
  refine (Spine.tickWithin_holding { root := n } (R := fun sub w' => sub.below = [] ∧
    sub.root.Working (.step
      { source := w.position, direction := d, progress := 2, landed := true }) ∧ w' = w)
    (Spine.ready_of_walks h.root)
    (Goto.asks_towards (h.inland.gap_lt htarget) hstep.far hstep.towards) ?_ ?_).imp ?_
  · intro parent
    have hequal : Task.isEqual (Job.stepFrom w.position d) n.task = true := by
      rw [hn.task]
      show (decide (w.position = w.position) && decide (d = d)) = true
      simp
    rw [hbelow]
    simp only [Spine.settle, hequal, if_true]
    exact Act.meets_pure ⟨rfl, rfl⟩
  · intro trace'
    refine (Spine.tick_alone (R := fun j w' => j = .step
      { source := w.position, direction := d, progress := 2, landed := true } ∧ w' = w)
      ((Spine.ready_walk (Or.inr hn)).imp ?_)).imp ?_
    · intro s₁ w₁ t₁ h₁
      obtain ⟨hwork, hnil, rfl⟩ := h₁
      exact ⟨_, hwork, hnil, fun c => Step.turn_over rfl c⟩
    · intro r w' t h'
      obtain ⟨hnil, j, hj, rfl, rfl⟩ := h'
      exact ⟨hj.unfailed, hnil, hj, rfl⟩
  · intro r w' t h'
    obtain ⟨hroot, sub, hm, hnil, hj, rfl⟩ := h'
    exact ⟨⟨h.toOpen, Or.inr hroot, sub.root, d, by rw [hm, Spine.nodes, hnil], hstep, hj⟩, rfl⟩

theorem Stalled.goOn (h : Stalled target range s w) (htarget : target.Inland (1 <<< 30)) (n : Nat) :
    (goOn n s).Meets w (w.Overcounts n) fun s' w' _ => s'.root.isFinished w' = .ok false := by
  induction n generalizing s with
  | zero =>
      obtain ⟨m, d, -, hstep, -⟩ := h.spent
      exact unfinished_gotoWithin h.root.task (h.inland.gap_lt htarget) hstep.far
  | succ n ih =>
      refine goOn_succ ((h.tick htarget).imp ?_)
      intro r w' t h'
      obtain ⟨h', rfl⟩ := h'
      exact ⟨by omega, ih h'⟩

/-! ## Runs -/

/-- What a tick of a walk on free ground keeps. -/
theorem Goes.tick (h : Goes target range s w) (htarget : target.Inland (1 <<< 30)) :
    (s.tick trace).Meets w (w.Overcounts 1) fun r w' _ =>
      Goes target range r.1 w' ∧ w'.deedCount ≤ w.deedCount + 1 := by
  have hheld := h.held
  generalize hbelow : s.below = below at hheld
  cases hheld with
  | nothing =>
      by_cases hfar : range < w.position.gap target
      · exact h.tick_poised htarget (poised_of_nothing h.root hbelow _) hfar
      · exact h.tick_arrived htarget (Nat.le_of_not_lt hfar) (by simp [hbelow])
  | @begun n q d hstep hplace hn =>
      have hlands := hstep.lands htarget hplace
      apply (h.tick_begun htarget hbelow hn).imp
      intro r w' t h'
      obtain ⟨hroot, rfl, m, hm, hover⟩ := h'
      refine ⟨⟨h.toOpen.moved hlands, Or.inr hroot, ?_⟩, Nat.le_refl _⟩
      rw [hm]
      exact .landed hstep hover
  | @landed n q d hstep hn =>
      by_cases hfar : range < w.position.gap target
      -- Off the target it matters whether the walk asks for the step that it holds.
      · by_cases hq : q = w.position
        · subst hq
          have hstalled : Stalled target range s w := ⟨h.toOpen, h.root, n, d, hbelow, hstep, hn⟩
          apply (hstalled.tick htarget).imp
          intro r w' t h'
          obtain ⟨h', rfl⟩ := h'
          exact ⟨h'.goes, by omega⟩
        · exact h.tick_poised htarget (poised_of_over h.root hbelow hn.task rfl hq) hfar
      · refine h.tick_arrived htarget (Nat.le_of_not_lt hfar) ?_
        intro m hm
        rw [hbelow, List.mem_singleton] at hm
        subst hm
        exact ⟨_, hn.task, rfl⟩

theorem Goes.perform {op : Operation} (h : Goes target range s w)
    (htarget : target.Inland (1 <<< 30)) (hop : ∀ p, op = .put p → p.Central) :
    (Walk.perform s op).Meets w (w.Overcounts 1) fun s' w' _ =>
      Goes target range s' w' ∧ w'.deedCount ≤ w.deedCount + 1 := by
  cases op with
  | tick => exact perform_tick (h.tick htarget)
  | put p =>
      refine Act.Meets.bind (P := fun _ w' _ => w' = { w with position := p })
        (Act.meets_modify rfl) ?_
      intro _ w' t hw
      refine Act.meets_pure ⟨?_, by rw [hw]; exact Nat.le_succ _⟩
      rw [hw]
      exact h.put ((hop p rfl).inland.mono (by omega))

theorem Goes.performAll {ops : List Operation} (h : Goes target range s w)
    (htarget : target.Inland (1 <<< 30)) (hops : ∀ p, .put p ∈ ops → p.Central) :
    (Walk.performAll s ops).Meets w (w.Overcounts ops.length) fun s' w' _ =>
      Goes target range s' w' := by
  induction ops generalizing s w with
  | nil => exact Act.meets_pure h
  | cons op ops ih =>
      rw [Walk.performAll]
      have hop := h.perform htarget fun p hp => hops p (hp ▸ List.mem_cons_self)
      refine Act.Meets.bind (hop.mono (fun e he => he.mono ?_) fun _ _ _ hs => hs) ?_
      · rw [List.length_cons]
        omega
      · intro s' w' t hs
        have hrest := ih hs.1 fun p hp => hops p (List.mem_cons_of_mem _ hp)
        refine hrest.mono (fun e he => he.mono ?_) fun _ _ _ hR => hR
        have := hs.2
        rw [List.length_cons]
        omega

/-! ## Walks that get there -/

/-- A walk to which `n` ticks are left. -/
inductive Remains (target : Position) (range : Nat) (s : Spine Job) (w : World) : Nat → Prop
  | poised {e} (h : Spine.Poised target range w.position s)
      (hgap : w.position.gap target = range + e) : Remains target range s w (2 * e)
  | crossing {e d} (h : Spine.Crossing target range w.position d s)
      (hd : w.position.towards? target = some d)
      (hgap : w.position.gap target = range + (e + 1)) : Remains target range s w (2 * e + 1)

theorem Remains.tick {n : Nat} (h : Remains target range s w (n + 1)) (hw : w.Open)
    (htarget : target.Inland (1 <<< 30)) :
    (s.tick trace).Meets w (w.Overcounts 1) fun r w' _ =>
      w'.deedCount ≤ w.deedCount + 1 ∧ w'.Open ∧ Remains target range r.1 w' n := by
  have hcount := hw.inland.gap_lt htarget
  generalize hm : n + 1 = m at h
  cases h with
  | @poised e h hgap =>
      obtain ⟨e, rfl⟩ : ∃ i, e = i + 1 := ⟨e - 1, by omega⟩
      obtain rfl : n = 2 * e + 1 := by omega
      obtain ⟨d, hd, -, -⟩ := hw.ahead htarget (show range < _ by omega)
      apply (h.tick hcount (by omega) hd).imp
      intro r w' t h'
      obtain ⟨hcross, rfl⟩ := h'
      exact ⟨by omega, hw, .crossing hcross hd hgap⟩
  | @crossing e d h hd hgap =>
      obtain rfl : n = 2 * e := by omega
      obtain ⟨d', hd', hlands, hnext⟩ := hw.ahead htarget (show range < _ by omega)
      obtain rfl : d = d' := Option.some.inj (hd.symm.trans hd')
      apply (h.tick hcount (by omega) hd (hw.step d) (hw.unblocked _)).imp
      intro r w' t h'
      obtain ⟨hpoised, rfl⟩ := h'
      refine ⟨Nat.le_refl _, hw.moved hlands, .poised hpoised ?_⟩
      show (w.position.beside d).gap target = range + e
      omega

/-- A walk that has reached the range of its target, without a failure. -/
def Reached (s : Spine Job) (w : World) : Prop :=
  s.root.isFinished w = .ok true ∧ s.root.failure = none

theorem reached_of_gap (hroot : s.root.Walks target range) (hw : w.Open)
    (htarget : target.Inland (1 <<< 30)) (hnear : w.position.gap target ≤ range) :
    Reached s w := by
  refine ⟨?_, hroot.unfailed⟩
  rw [isFinished_gotoWithin hroot.task (hw.inland.gap_lt htarget), decide_eq_true hnear]

theorem Remains.goOn {n : Nat} (h : Remains target range s w n) (hw : w.Open)
    (htarget : target.Inland (1 <<< 30)) :
    (goOn n s).Meets w (w.Overcounts n) fun s' w' _ => Reached s' w' := by
  induction n generalizing s w with
  | zero =>
      have hend : Reached s w := by
        generalize hm : 0 = m at h
        cases h with
        | poised h hgap => exact reached_of_gap h.root hw htarget (by omega)
        | crossing h hd hgap => omega
      exact hend
  | succ n ih =>
      refine goOn_succ ((h.tick hw htarget).imp ?_)
      intro r w' t h'
      obtain ⟨hcount, hw', h'⟩ := h'
      exact ⟨hcount, ih h' hw'⟩

/-! ## Recovery -/

/-- A step is off a tile on which the agent will stand when the step is over. -/
def comesBack (p : Position) : Job → Bool
  | .step t => t.source = if t.landed then p else p.beside t.direction
  | _ => false

theorem Goes.anyTask_comesBack {t : Step} (h : Goes target range s w) (hbelow : s.below = [n])
    (hn : n.task = .step t) (p : Position) :
    s.anyTask (comesBack p) = decide (t.source = if t.landed then p else p.beside t.direction) := by
  rw [Spine.anyTask]
  simp [Spine.nodes, hbelow, hn, h.root.task, comesBack, Job.gotoWithin]

/-- A step from elsewhere lands first. It costs a tick and at most one tile. -/
theorem Goes.recovers_begun {e : Nat} (h : Goes target range s w)
    (htarget : target.Inland (1 <<< 30)) (hgap : w.position.gap target = range + e)
    (hbelow : s.below = [n])
    (hn : n.Working (.step { source := q, direction := d, progress := 1 }))
    (hlands : (w.position.beside d).Inland (1 <<< 30)) (hback : q ≠ w.position.beside d) :
    ∃ n ≤ 2 * e + 4, (goOn n s).Meets w (w.Overcounts n) fun s' w' _ => Reached s' w' := by
  have hmoved := h.toOpen.moved hlands
  have htri := Position.gap_triangle (w.position.beside d) w.position target
  rw [Position.gap_comm (w.position.beside d) w.position, Position.gap_beside] at htri
  by_cases hfar : range < (w.position.beside d).gap target
  · refine ⟨2 * ((w.position.beside d).gap target - range) + 1, by omega,
      goOn_succ ((h.tick_begun htarget hbelow hn).imp ?_)⟩
    intro r w' t h'
    obtain ⟨hroot, rfl, m, hm, hover⟩ := h'
    have hpoised : Spine.Poised target range (w.position.beside d) r.1 :=
      poised_of_over (Or.inr hroot) hm hover.task rfl hback
    refine ⟨Nat.le_refl _, Remains.goOn (.poised hpoised ?_) hmoved htarget⟩
    show (w.position.beside d).gap target = _
    omega
  · refine ⟨1, by omega, goOn_succ ((h.tick_begun htarget hbelow hn).imp ?_)⟩
    intro r w' t h'
    obtain ⟨hroot, rfl, -⟩ := h'
    have hend : Reached r.1 (w.moved (w.position.beside d)) :=
      reached_of_gap (Or.inr hroot) hmoved htarget (Nat.le_of_not_lt hfar)
    exact ⟨Nat.le_refl _, hend⟩

/-- A walk that does not come back to the step that it holds gets there. -/
theorem Goes.recovers {e : Nat} (h : Goes target range s w) (htarget : target.Inland (1 <<< 30))
    (hgap : w.position.gap target = range + e)
    (hback : s.anyTask (comesBack w.position) = false) :
    ∃ n ≤ 2 * e + 4, (goOn n s).Meets w (w.Overcounts n) fun s' w' _ => Reached s' w' := by
  have hheld := h.held
  generalize hbelow : s.below = below at hheld
  cases hheld with
  | nothing =>
      have hpoised := poised_of_nothing h.root hbelow w.position
      exact ⟨2 * e, by omega, Remains.goOn (.poised hpoised hgap) h.toOpen htarget⟩
  | @begun n q d hstep hplace hn =>
      rw [h.anyTask_comesBack hbelow hn.task] at hback
      have hback : q ≠ w.position.beside d := by simpa using hback
      exact h.recovers_begun htarget hgap hbelow hn (hstep.lands htarget hplace) hback
  | @landed n q d hstep hn =>
      rw [h.anyTask_comesBack hbelow hn.task] at hback
      have hq : q ≠ w.position := by simpa using hback
      have hpoised := poised_of_over h.root hbelow hn.task rfl hq
      exact ⟨2 * e, by omega, Remains.goOn (.poised hpoised hgap) h.toOpen htarget⟩

/-- A walk that comes back to the step that it holds never gets there. -/
theorem Goes.stalls (h : Goes target range s w) (htarget : target.Inland (1 <<< 30))
    (hfar : range < w.position.gap target) (hback : s.anyTask (comesBack w.position) = true)
    (n : Nat) :
    (goOn n s).Meets w (w.Overcounts n) fun s' w' _ => s'.root.isFinished w' = .ok false := by
  have hheld := h.held
  generalize hbelow : s.below = below at hheld
  cases hheld with
  | nothing =>
      rw [Spine.anyTask] at hback
      simp [Spine.nodes, hbelow, h.root.task, comesBack, Job.gotoWithin] at hback
  | @begun m q d hstep hplace hm =>
      rw [h.anyTask_comesBack hbelow hm.task] at hback
      have hq : q = w.position.beside d := by simpa using hback
      cases n with
      | zero => exact unfinished_gotoWithin h.root.task (h.inland.gap_lt htarget) hfar
      | succ n =>
          refine goOn_succ ((h.tick_begun htarget hbelow hm).imp ?_)
          intro r w' t h'
          obtain ⟨hroot, rfl, m', hm', hover⟩ := h'
          rw [← hq]
          have hstalled : Stalled target range r.1 (w.moved q) :=
            ⟨h.toOpen.moved hstep.inland, Or.inr hroot, m', d, hm', hstep, hover⟩
          exact ⟨Nat.le_refl _, hstalled.goOn htarget n⟩
  | @landed m q d hstep hm =>
      rw [h.anyTask_comesBack hbelow hm.task] at hback
      obtain rfl : q = w.position := by simpa using hback
      have hstalled : Stalled target range s w := ⟨h.toOpen, h.root, m, d, hbelow, hstep, hm⟩
      exact hstalled.goOn htarget n

/-- A walk on free ground, with the agent put on any tiles between its ticks, does not fail. Left
alone `e` tiles from its range it gets there in `2 * e + 4` ticks, except that a walk that comes
back to the step that it holds never gets there. A run ends early only if there are too many deeds
to count. -/
theorem recovery (target : Position) (range : Nat) (ops : List Operation) (w : World)
    (hfree : ∀ p, w.isBlocked p = false) (htarget : target.Central)
    (hstart : w.position.Central) (hops : ∀ p, .put p ∈ ops → p.Central) :
    (performAll (.ofTask (.gotoWithin target range)) ops).Meets w (w.Overcounts ops.length)
      fun s w' _ => s.root.failure = none ∧
        ∀ e, 0 < e → w'.position.gap target = range + e →
          if s.anyTask (comesBack w'.position) then
            ∀ n, (goOn n s).Meets w' (w'.Overcounts n) fun s' w'' _ =>
              s'.root.isFinished w'' = .ok false
          else
            ∃ n ≤ 2 * e + 4, (goOn n s).Meets w' (w'.Overcounts n) fun s' w'' _ =>
              Reached s' w'' := by
  have htarget := htarget.inland.mono (show 1 <<< 30 ≤ 1 <<< 30 + 2 by omega)
  have hw : w.Open := ⟨hstart.inland.mono (by omega), hfree⟩
  apply ((goes_ofTask hw).performAll htarget hops).imp
  intro s w' t h
  refine ⟨h.root.unfailed, ?_⟩
  intro e he hgap
  cases hback : s.anyTask (comesBack w'.position) with
  | true => exact h.stalls htarget (by omega) hback
  | false => exact h.recovers htarget hgap hback

/-- The agent is put on another tile while a step is under way. -/
theorem recovery_carriedOff :
    ∃ d, performAll (.ofTask (.gotoWithin ⟨2, 0⟩ 0)) [.tick, .put ⟨0, 1⟩] {} = .ok d ∧
      ∃ n ≤ 10, ∃ d', goOn n d.value d.context = .ok d' ∧ Reached d'.value d'.context := by
  obtain ⟨d, hd, hp⟩ := Act.exists_ok
    (m := performAll (.ofTask (.gotoWithin ⟨2, 0⟩ 0)) [.tick, .put ⟨0, 1⟩]) (k := {})
    (p := fun d => d.context.position = ⟨0, 1⟩ && d.context.deedCount = 0 &&
      !d.value.anyTask (comesBack d.context.position))
    (by decide +kernel)
  simp only [Bool.and_eq_true, decide_eq_true_eq, Bool.not_eq_true'] at hp
  obtain ⟨⟨hplace, hcount⟩, hback⟩ := hp
  have hput : ∀ p, .put p ∈ [Operation.tick, .put ⟨0, 1⟩] → p.Central := by
    intro p hp
    obtain rfl : p = ⟨0, 1⟩ := by simpa using hp
    exact ⟨by decide, by decide⟩
  -- Nothing may evaluate the run when the theorem is applied to it.
  generalize [Operation.tick, .put ⟨0, 1⟩] = ops at hd hput ⊢
  have hrun := (recovery ⟨2, 0⟩ 0 ops {} Area.contains_empty ⟨by decide, by decide⟩
    ⟨by decide, by decide⟩ hput).of_ok hd
  have hend := hrun.2 3 (by omega) (by rw [hplace]; rfl)
  rw [if_neg (by simp [hback])] at hend
  obtain ⟨n, hn, hend⟩ := hend
  have hgo := hend.mono (G := fun _ => False) (fun e he => absurd he.2 (by omega))
    fun _ _ _ h => h
  obtain ⟨d', hd', hreached⟩ := hgo.ok
  exact ⟨d, hd, n, hn, d', hd', hreached⟩

/-- Put back on the tile where its first step began, a walk of two tiles stays there. -/
theorem recovery_putBack :
    ∃ d, performAll (.ofTask (.gotoWithin ⟨2, 0⟩ 0)) [.tick, .tick, .put ⟨0, 0⟩] {} = .ok d ∧
      d.context.position.gap ⟨2, 0⟩ = 0 + 2 ∧
      ∀ n ≤ 2 * 2 + 4, ∃ d', goOn n d.value d.context = .ok d' ∧
        d'.value.root.isFinished d'.context = .ok false := by
  obtain ⟨d, hd, hp⟩ := Act.exists_ok
    (m := performAll (.ofTask (.gotoWithin ⟨2, 0⟩ 0)) [.tick, .tick, .put ⟨0, 0⟩]) (k := {})
    (p := fun d => d.context.position.gap ⟨2, 0⟩ = 0 + 2 && (List.range 9).all fun n =>
      (goOn n d.value).passes d.context fun d' =>
        match d'.value.root.isFinished d'.context with
        | .ok finished => !finished
        | .error _ => false)
    (by decide +kernel)
  simp only [Bool.and_eq_true, decide_eq_true_eq, List.all_eq_true, List.mem_range] at hp
  refine ⟨d, hd, hp.1, ?_⟩
  intro n hn
  obtain ⟨d', hd', hfinished⟩ := Act.exists_ok (hp.2 n (by omega))
  refine ⟨d', hd', ?_⟩
  split at hfinished
  · next finished h => simpa [h] using hfinished
  · cases hfinished

end Walk

end Arbiter
