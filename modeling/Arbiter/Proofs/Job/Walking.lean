import Arbiter.Job.Hooks
import Arbiter.Proofs.Ticks
import Arbiter.Proofs.World.Deeds

/-! How a walk to a target goes on free ground: every tile takes two ticks. The first one makes a
step ready and begins it, the second one lands it. -/

namespace Arbiter

variable {w : World} {F : Fault → Prop}

theorem Position.exists_towards {p q : Position} {n : Nat} (hfar : n < p.gap q) :
    ∃ d, p.towards? q = some d := by
  cases hd : p.towards? q with
  | some d => exact ⟨d, rfl⟩
  | none =>
      have hgap := gap_eq_zero_iff.mpr (towards?_eq_none_iff.mp hd)
      omega

/-! ## Ends of activations -/

namespace Job

theorem quit_of_not_isEat {j : Job} (h : j.isEat = false) : j.quit = pure j := by
  cases j with
  | eat chewing => cases h
  | _ => rfl

end Job

namespace Spine

theorem halt_walk {n : Node Job} (h : n.task.isEat = false) (taker : Option Job) :
    (halt taker n).Meets w F fun _ w' _ => w' = w := by
  unfold halt leave
  apply Act.Meets.note_bind
  split
  · exact Act.meets_pure rfl
  · have hquit : (Task.onStop n.task taker : Act World Record Job) = pure n.task :=
      Job.quit_of_not_isEat h
    rw [hquit]
    apply (Act.Meets.called (Act.meets_pure (Q := fun _ w' _ => w' = w) rfl)).bind
    intro _ w' t hw
    exact Act.meets_pure hw

theorem haltAll_walk {above nodes : List (Node Job)} (h : ∀ n ∈ nodes, n.task.isEat = false)
    (taker : Option Job) : (haltAll taker above nodes).Meets w F fun _ w' _ => w' = w := by
  induction nodes generalizing above w with
  | nil => exact Act.meets_pure rfl
  | cons n nodes ih =>
      rw [haltAll]
      by_cases ha : n.active
      · rw [if_pos ha]
        apply (halt_walk (h n List.mem_cons_self) taker).bind
        intro n' w' t hw
        subst hw
        exact ih fun m hm => h m (List.mem_cons_of_mem _ hm)
      · rw [if_neg ha]
        apply (dropAll_meets _ w).bind
        intro _ w' t hw
        exact Act.meets_pure hw.1

/-- A teardown without meals leaves the world alone. -/
theorem stopAndDrop_walk {nodes : List (Node Job)} (h : ∀ n ∈ nodes, n.task.isEat = false)
    (taker : Option Job) : (stopAndDrop taker nodes).Meets w F fun _ w' _ => w' = w := by
  rw [stopAndDrop]
  apply (haltAll_walk h taker).bind
  intro halted w' t hw
  apply (dropAll_meets halted w').imp
  intro _ w'' u hu
  exact hu.1.trans hw

theorem stop_walk {s : Spine Job} (h : ∀ n ∈ s.nodes, n.task.isEat = false)
    (taker : Option Job) : (s.stop taker).Meets w F fun _ w' _ => w' = w := by
  rw [stop]
  split
  · apply (halt_walk (h s.root List.mem_cons_self) taker).bind
    intro n w' t hw
    subst hw
    apply (stopAndDrop_walk (fun m hm => h m (List.mem_cons_of_mem _ hm)) taker).bind
    intro _ w'' u hu
    exact Act.meets_pure hu
  · exact Act.meets_pure rfl

end Spine

/-! ## Turns -/

namespace Step

theorem turn_begins (p : Position) (d : Direction) (c : Control) :
    (({ source := p, direction := d } : Step).turn c).Meets w F fun turn w' _ =>
      turn.reply.failure = none ∧ turn.candidate = none ∧
        turn.task = .step { source := p, direction := d, progress := 1 } ∧ w' = w := by
  rw [turn]
  rw [if_neg (by simp)]
  refine Act.Meets.ofExcept_bind (fun e he => ?_) ?_
  · have := count32_error he
    simp at this
  intro progress hprogress
  obtain ⟨-, rfl⟩ := count32_eq_ok_iff.mp hprogress
  rw [if_neg (show ¬ ticks ≤ 0 + 1 by decide)]
  exact Act.meets_pure ⟨rfl, rfl, rfl, rfl⟩

theorem turn_lands {d : Direction} {q : Position} (hq : w.position.step d = .ok q)
    (hfree : w.isBlocked q = false) (p : Position) (c : Control) :
    (({ source := p, direction := d, progress := 1 } : Step).turn c).Meets w
      (fun e => e = .overflow ∧ 1 <<< 64 ≤ w.deedCount + 1) fun turn w' _ =>
        turn.reply.failure = none ∧ turn.candidate = none ∧
          turn.task = .step { source := p, direction := d, progress := 2, landed := true } ∧
          w' = w.moved q := by
  rw [turn]
  rw [if_neg (by simp)]
  refine Act.Meets.ofExcept_bind (fun e he => ?_) ?_
  · have := count32_error he
    simp at this
  intro progress hprogress
  obtain ⟨-, rfl⟩ := count32_eq_ok_iff.mp hprogress
  rw [if_pos (show ticks ≤ 1 + 1 by decide)]
  apply (World.tryMove_meets hq hfree).bind
  intro b w' t h
  obtain ⟨rfl, hw⟩ := h
  exact Act.meets_pure ⟨rfl, rfl, rfl, hw⟩

theorem turn_over {s : Step} (h : s.landed = true) (c : Control) :
    (s.turn c).Meets w F fun turn w' _ =>
      turn.reply.failure = none ∧ turn.candidate = none ∧ turn.task = .step s ∧ w' = w := by
  rw [turn]
  rw [if_pos h]
  exact Act.meets_pure ⟨rfl, rfl, rfl, rfl⟩

end Step

/-! ## Nodes at work -/

/-- A node that works on a job and faces the failure of a sub-task, if there is one. -/
structure Node.Faces (n : Node Job) (j : Job) (f : Option Failure) : Prop extends n.Started where
  task : n.task = j
  childFailure : n.control.childFailure = f

/-- A node that works on a job and has no failure of a sub-task to deal with. -/
abbrev Node.Working (n : Node Job) (j : Job) : Prop := n.Faces j none

theorem Node.Faces.faced {n : Node Job} {j : Job} {f : Option Failure} (h : n.Faces j f)
    (g : Option Failure) :
    Node.Faces { n with control := { n.control with childFailure := g } } j g :=
  ⟨⟨⟨h.active, h.unstopped, h.unfailed⟩, h.started⟩, h.task, rfl⟩

/-- A node that takes a turn works on what its job has become, if it took the failure. -/
theorem Node.Faces.turned {n m : Node Job} {j : Job} {f : Option Failure} {turn : Turn Job}
    (h : n.Faces j f) (htook : f.isSome → turn.reply.tookChildFailure = true)
    (hm : m = { Spine.turned n turn with reportedState := m.reportedState }) :
    m.Working turn.task := by
  have hchild : (n.control.apply turn.reply).childFailure = none := by
    cases f with
    | none => simp [Control.apply, h.childFailure]
    | some failure => simp [Control.apply, htook rfl]
  rw [hm]
  exact ⟨⟨⟨h.active, h.unstopped, h.unfailed⟩, h.started⟩, rfl, hchild⟩

/-- Facing `f`, a job asks for a candidate and goes on as another one. Nothing else comes of its
turn. -/
def Job.Asks (w : World) (j : Job) (f : Option Failure) (candidate : Option Job) (j' : Job) :
    Prop :=
  ∀ c : Control, c.childFailure = f → (j.turn c).Meets w (fun _ => False) fun turn w' _ =>
    turn.reply.failure = none ∧ (f.isSome → turn.reply.tookChildFailure = true) ∧
      turn.candidate = candidate ∧ turn.task = j' ∧ w' = w

/-! ## What walks ask for -/

namespace Goto

variable {g h : Goto} {p : Position} {d : Direction}

theorem arrived_eq (hcount : p.gap g.target < 1 <<< 32) :
    g.arrived p = .ok (decide (p.gap g.target ≤ g.range)) := by
  have hd : p.distance g.target = .ok (p.gap g.target) := count32_of_lt hcount
  rw [arrived]
  rw [hd]
  rfl

/-- From the tile `p` the walk asks for a step in the direction `d` and goes on as `h`: it takes the
sidestep that it planned on that tile, or a direct step. -/
inductive Heads (g : Goto) (p : Position) (d : Direction) : Goto → Prop where
  | aside (hdetour : g.detour = some { place := p, direction := d }) : Heads g p d g
  | direct (hover : ∀ e ∈ g.detour, e.place ≠ p) (hd : p.towards? g.target = some d) :
      Heads g p d { g with detour := none }

theorem direct_eq (hcount : p.gap g.target < 1 <<< 32) (hd : p.towards? g.target = some d)
    (state : String) (took : Bool) :
    g.direct p state took = .ok
      { task := .goto g
        reply := { state := toString (p.gap g.target) ++ " left", tookChildFailure := took }
        candidate := some (Job.stepFrom p d) } := by
  have hdist : p.distance g.target = .ok (p.gap g.target) := count32_of_lt hcount
  rw [direct]
  rw [hd, hdist]
  rfl

theorem Heads.next (hheads : g.Heads p d h) (hcount : p.gap g.target < 1 <<< 32)
    (hfar : g.range < p.gap g.target) (state : String) (took : Bool) :
    ∃ text, g.next p state took = .ok
      { task := .goto h
        reply := { state := text, tookChildFailure := took }
        candidate := some (Job.stepFrom p d) } := by
  have harrived : g.arrived p = .ok false := by
    rw [arrived_eq hcount, decide_eq_false (Nat.not_le.mpr hfar)]
  rw [Goto.next, harrived]
  cases hheads with
  | aside hdetour =>
      refine ⟨"sidestepping", ?_⟩
      simp only [hdetour, if_true]
      rfl
  | direct hover hd =>
      refine ⟨toString (p.gap g.target) ++ " left", ?_⟩
      have hdirect : ({ g with detour := none } : Goto).direct p state took = .ok _ :=
        direct_eq (g := { g with detour := none }) hcount hd state took
      cases hdetour : g.detour with
      | none =>
          have hsame : ({ g with detour := none } : Goto) = g := by rw [← hdetour]
          rw [hsame] at hdirect ⊢
          exact hdirect
      | some e =>
          have he : ¬ e.place = p := hover e hdetour
          simp only [if_neg he]
          exact hdirect

theorem asks_of_next {candidate : Option Job}
    (hnext : ∀ state, ∃ text, g.next w.position state false =
      .ok { task := .goto h, reply := { state := text }, candidate }) :
    (Job.goto g).Asks w none candidate (.goto h) := by
  intro c hc
  obtain ⟨text, hnext⟩ := hnext c.state
  rw [Job.turn, turn]
  apply Act.Meets.get_bind
  rw [hc]
  apply Act.meets_ofExcept (by simp [hnext])
  intro turn hturn
  obtain rfl := Except.ok.inj (hnext.symm.trans hturn)
  exact ⟨rfl, nofun, rfl, rfl, rfl⟩

theorem asks_nothing (hcount : w.position.gap g.target < 1 <<< 32)
    (hnear : w.position.gap g.target ≤ g.range) : (Job.goto g).Asks w none none (.goto g) := by
  refine asks_of_next fun state => ⟨"arrived", ?_⟩
  rw [next]
  rw [arrived_eq hcount]
  simp only [hnear, decide_true]
  rfl

theorem Heads.asks (hheads : g.Heads w.position d h) (hcount : w.position.gap g.target < 1 <<< 32)
    (hfar : g.range < w.position.gap g.target) :
    (Job.goto g).Asks w none (some (.stepFrom w.position d)) (.goto h) :=
  asks_of_next fun state => hheads.next hcount hfar state false

theorem asks_towards {target : Position} {range : Nat} (hcount : w.position.gap target < 1 <<< 32)
    (hfar : range < w.position.gap target) (hd : w.position.towards? target = some d) :
    (Job.gotoWithin target range).Asks w none (some (.stepFrom w.position d))
      (.gotoWithin target range) :=
  Heads.asks (g := { target, range }) (.direct (by simp) hd) hcount hfar

end Goto

/-! ## Walks at work -/

theorem Node.refuses_step {n : Node Job} {t : Step} (ht : n.task = .step t)
    (candidate : Option Job) : n.refuses w candidate = t.isUnderWay := by
  rw [Node.refuses]
  rw [ht]
  rfl

def Node.Walks (n : Node Job) (target : Position) (range : Nat) : Prop :=
  n.pending = true ∧ n.failure = none ∧ n.task = .gotoWithin target range ∨
    n.Working (.gotoWithin target range)

theorem Node.Walks.unfailed {n : Node Job} {target : Position} {range : Nat}
    (h : n.Walks target range) : n.failure = none := by
  rcases h with h | h
  · exact h.2.1
  · exact h.unfailed

theorem Node.Walks.task {n : Node Job} {target : Position} {range : Nat}
    (h : n.Walks target range) : n.task = .gotoWithin target range := by
  rcases h with h | h
  · exact h.2.2
  · exact h.task

theorem isFinished_goto {n : Node Job} {g : Goto} (hn : n.task = .goto g)
    (hcount : w.position.gap g.target < 1 <<< 32) :
    n.isFinished w = .ok (decide (w.position.gap g.target ≤ g.range)) := by
  rw [Node.isFinished]
  rw [hn]
  exact Goto.arrived_eq hcount

theorem isFinished_gotoWithin {n : Node Job} {target : Position} {range : Nat}
    (hn : n.task = .gotoWithin target range) (hcount : w.position.gap target < 1 <<< 32) :
    n.isFinished w = .ok (decide (w.position.gap target ≤ range)) :=
  isFinished_goto (g := { target, range }) hn hcount

theorem unfinished_gotoWithin {n : Node Job} {target : Position} {range : Nat}
    (hn : n.task = .gotoWithin target range) (hcount : w.position.gap target < 1 <<< 32)
    (hfar : range < w.position.gap target) : n.isFinished w = .ok false := by
  rw [isFinished_gotoWithin hn hcount, decide_eq_false (by omega)]

namespace Spine

theorem ready_walk {s : Spine Job} {j : Job}
    (h : s.root.pending = true ∧ (∀ c, s.root.task.begin c = pure (j, c.unchanged)) ∨
      s.root.Working j) :
    s.ready.Meets w F fun s' w' _ => s'.root.Working j ∧ s'.below = s.below ∧ w' = w := by
  rw [ready]
  rcases h with ⟨hp, hbegin⟩ | h
  · rw [if_pos hp]
    rw [start]
    apply Act.Meets.note_bind
    have hstart : ∀ c, (Task.onStart s.root.task c : Act World Record (Job × Reply)) =
        pure (j, c.unchanged) := hbegin
    dsimp only
    rw [hstart]
    apply (Act.Meets.called (Act.meets_pure (Q := fun a w' _ =>
      a = (j, Control.unchanged { s.root.control with childFailure := none }) ∧ w' = w)
      ⟨rfl, rfl⟩)).bind
    intro a w' t ha
    obtain ⟨rfl, rfl⟩ := ha
    exact Act.meets_pure ⟨⟨⟨⟨rfl, rfl, rfl⟩, rfl⟩, rfl, rfl⟩, rfl, rfl⟩
  · rw [if_neg (by simp [h.started])]
    exact Act.meets_pure ⟨h, rfl, rfl⟩

theorem ready_of_walks {s : Spine Job} {target : Position} {range : Nat}
    (h : s.root.Walks target range) :
    s.ready.Meets w F fun s' w' _ =>
      s'.root.Working (.gotoWithin target range) ∧ s'.below = s.below ∧ w' = w := by
  apply ready_walk
  rcases h with ⟨hp, -, htask⟩ | h
  · refine Or.inl ⟨hp, ?_⟩
    intro c
    rw [htask]
    rfl
  · exact Or.inr h

/-- A tick of a job that delegates nothing. -/
theorem tick_alone {depth : Nat} {s : Spine Job} {trace : Trace} {R : Job → World → Prop}
    (h : s.ready.Meets w F fun s₁ w₁ _ => ∃ j, s₁.root.Working j ∧ s₁.below = [] ∧
      ∀ c, (j.turn c).Meets w₁ F fun turn w₂ _ =>
        turn.reply.failure = none ∧ turn.candidate = none ∧ R turn.task w₂) :
    (tickWithin (depth + 1) s trace).Meets w F fun r w' _ =>
      r.1.below = [] ∧ ∃ j, r.1.root.Working j ∧ R j w' := by
  refine tickWithin_meets
    (R := fun s' w' => s'.below = [] ∧ ∃ j, s'.root.Working j ∧ R j w') (h.imp ?_)
  intro s₁ w₁ t₁ h₁
  obtain ⟨j, hj, hbelow, hturn⟩ := h₁
  refine ⟨hj.unstopped, ?_⟩
  have htask := hj.task
  rw [htask]
  apply (hturn s₁.root.control).imp
  intro turn w₂ t₂ h₂
  obtain ⟨hfail, hcand, hR⟩ := h₂
  refine ⟨hfail, ?_⟩
  intro n hn
  rw [hbelow, hcand]
  refine Act.meets_pure ⟨?_, ?_⟩
  · intro _
    exact ⟨rfl, turn.task, hj.turned nofun hn, hR⟩
  · intro m rest hm
    cases hm

/-! ## Steps of a walk -/

/-- A walk that comes to its next step on the tile `p`. What is held below are steps that were begun
elsewhere and are over. -/
structure Poised (target : Position) (range : Nat) (p : Position) (s : Spine Job) : Prop where
  root : s.root.pending = true ∧ s.root.failure = none ∧ s.root.task = .gotoWithin target range ∨
    s.root.Working (.gotoWithin target range)
  below : ∀ n ∈ s.below, ∃ t, n.task = .step t ∧ t.isUnderWay = false ∧ t.source ≠ p

structure Crossing (target : Position) (range : Nat) (p : Position) (d : Direction)
    (s : Spine Job) : Prop where
  root : s.root.Working (.gotoWithin target range)
  below : ∃ n, s.below = [n] ∧ n.Working (.step { source := p, direction := d, progress := 1 })

section Walk

variable {target p : Position} {range : Nat} {d : Direction} {s : Spine Job} {trace : Trace}

theorem poised_ofTask (target : Position) (range : Nat) (p : Position) :
    Poised target range p (ofTask (.gotoWithin target range)) :=
  ⟨Or.inl ⟨rfl, rfl, rfl⟩, by simp [ofTask]⟩

theorem Poised.unfailed (h : Poised target range p s) : s.root.failure = none :=
  Node.Walks.unfailed h.root

theorem Poised.task (h : Poised target range p s) : s.root.task = .gotoWithin target range :=
  Node.Walks.task h.root

theorem vetoed_over {below : List (Node Job)}
    (h : ∀ n ∈ below, ∃ t, n.task = .step t ∧ t.isUnderWay = false) (candidate : Option Job) :
    vetoed w below candidate = false := by
  rw [vetoed, List.any_eq_false]
  intro n hn
  obtain ⟨t, ht, hover⟩ := h n hn
  simp [Node.refuses_step ht, hover]

theorem isEat_over {below : List (Node Job)}
    (h : ∀ n ∈ below, ∃ t, n.task = .step t ∧ t.isUnderWay = false) :
    ∀ n ∈ below, n.task.isEat = false := by
  intro n hn
  obtain ⟨t, ht, -⟩ := h n hn
  rw [ht]
  rfl

/-- Steps that are over are dropped for a step from elsewhere. -/
theorem settle_step {parent : Node Job} {below : List (Node Job)}
    (h : ∀ n ∈ below, ∃ t, n.task = .step t ∧ t.isUnderWay = false ∧ t.source ≠ p) :
    (settle parent below (some (.stepFrom p d))).Meets w F fun below' w' _ =>
      below' = [Node.fresh (.stepFrom p d)] ∧ w' = w := by
  cases below with
  | nil => exact Act.meets_pure ⟨rfl, rfl⟩
  | cons n rest =>
      obtain ⟨t, ht, -, hsource⟩ := h n List.mem_cons_self
      have hequal : Task.isEqual (Job.stepFrom p d) n.task = false := by
        rw [ht]
        show (decide (p = t.source) && decide (d = t.direction)) = false
        simp [Ne.symm hsource]
      have hover : ∀ m ∈ n :: rest, ∃ u, m.task = .step u ∧ u.isUnderWay = false := by
        intro m hm
        obtain ⟨u, hu, hover, -⟩ := h m hm
        exact ⟨u, hu, hover⟩
      simp only [settle, hequal, Bool.false_eq_true, if_false]
      apply Act.Meets.get_bind
      rw [if_neg (by simp [vetoed_over hover])]
      apply (stopAndDrop_walk (isEat_over hover) _).bind
      intro _ w' t hw
      exact Act.meets_pure ⟨rfl, hw⟩

/-- What holds a step under way is kept, whatever is asked for. -/
theorem settle_vetoed {parent : Node Job} {below : List (Node Job)}
    (h : ∃ n ∈ below, ∃ t, n.task = .step t ∧ t.isUnderWay = true) (candidate : Option Job) :
    (settle parent below candidate).Meets w F fun below' w' _ => below' = below ∧ w' = w := by
  obtain ⟨n, hn, t, ht, hway⟩ := h
  have hveto : vetoed w below candidate = true :=
    List.any_eq_true.mpr ⟨n, hn, by rw [Node.refuses_step ht, hway]⟩
  cases below with
  | nil => cases hn
  | cons m rest =>
      cases candidate with
      | none =>
          rw [settle]
          apply Act.Meets.get_bind
          rw [if_pos hveto]
          exact Act.meets_pure ⟨rfl, rfl⟩
      | some c =>
          rw [settle]
          split
          · exact Act.meets_pure ⟨rfl, rfl⟩
          · apply Act.Meets.get_bind
            rw [if_pos hveto]
            exact Act.Meets.note_bind (Act.meets_pure ⟨rfl, rfl⟩)

theorem settle_underWay {parent n : Node Job} {t : Step} (ht : n.task = .step t)
    (hway : t.isUnderWay = true) (candidate : Option Job) :
    (settle parent [n] candidate).Meets w F fun below w' _ => below = [n] ∧ w' = w :=
  settle_vetoed ⟨n, List.mem_cons_self, t, ht, hway⟩ candidate

theorem settle_drops {parent : Node Job} {below : List (Node Job)}
    (hveto : vetoed w below none = false) (heat : ∀ n ∈ below, n.task.isEat = false) :
    (settle parent below none).Meets w F fun below' w' _ => below' = [] ∧ w' = w := by
  cases below with
  | nil => exact Act.meets_pure ⟨rfl, rfl⟩
  | cons n rest =>
      rw [settle]
      apply Act.Meets.get_bind
      rw [if_neg (by simp [hveto])]
      apply (stopAndDrop_walk heat none).bind
      intro _ w' t hw
      exact Act.meets_pure ⟨rfl, hw⟩

/-- A tick of a job that delegates: it deals with the failure that it faces, what it asks for is
settled, and if that leaves anything it is ticked. If that fails the job faces it. -/
theorem tickWithin_delegating {depth : Nat} {j j' : Job} {f : Option Failure}
    {candidate : Option Job} {R : Option Failure → List (Node Job) → World → Prop}
    (hready : s.ready.Meets w F fun s' w' _ => s'.root.Faces j f ∧ s'.below = s.below ∧ w' = w)
    (hasks : j.Asks w f candidate j')
    (hsettle : ∀ n, (settle n s.below candidate).Meets w F fun below w₁ _ =>
      below = [] ∧ R none [] w₁ ∨ ∃ sub : Spine Job, below = sub.nodes ∧ ∀ trace,
        (tickWithin depth sub trace).Meets w₁ F fun r w₂ _ =>
          R r.1.root.failureReport (if r.1.root.failure.isSome then [] else r.1.nodes) w₂) :
    (tickWithin (depth + 1) s trace).Meets w F fun r w' _ =>
      ∃ f', r.1.root.Faces j' f' ∧ R f' r.1.below w' := by
  refine tickWithin_meets (R := fun s' w' => ∃ f', s'.root.Faces j' f' ∧ R f' s'.below w')
    (hready.imp ?_)
  intro s₁ w₁ t₁ h₁
  obtain ⟨hwork, hbelow, rfl⟩ := h₁
  refine ⟨hwork.unstopped, ?_⟩
  have htask := hwork.task
  rw [htask]
  refine (hasks s₁.root.control hwork.childFailure).mono (fun _ => False.elim) ?_
  intro turn w₂ t₂ h₂
  obtain ⟨hfail, htook, hcand, rfl, rfl⟩ := h₂
  refine ⟨hfail, ?_⟩
  intro n hn
  have hn' := hwork.turned htook hn
  rw [hcand, hbelow]
  apply (hsettle n).imp
  intro below w₃ t₃ h₃
  rcases h₃ with ⟨rfl, hR⟩ | ⟨sub, rfl, hsub⟩
  · refine ⟨fun _ => ⟨none, hn', hR⟩, ?_⟩
    intro m rest hm
    cases hm
  · refine ⟨by simp [nodes], ?_⟩
    intro m rest hm trace'
    obtain ⟨rfl, rfl⟩ := List.cons.inj hm
    apply (hsub trace').imp
    intro r w₄ t₄ hR
    rw [rejoin]
    cases hreason : r.1.root.failure with
    | none =>
        have hreport : r.1.root.failureReport = none := by simp [Node.failureReport, hreason]
        rw [hreport, hreason] at hR
        simp only [hreport]
        exact Act.meets_pure ⟨none, hn', hR⟩
    | some reason =>
        have hreport : r.1.root.failureReport =
            some { task := Task.label r.1.root.task, reason } := by
          simp [Node.failureReport, hreason]
        rw [hreport, hreason] at hR
        simp only [hreport]
        apply (dropAll_meets _ w₄).bind
        intro _ w₅ t₅ h₅
        obtain ⟨rfl, -⟩ := h₅
        exact Act.meets_pure ⟨_, hn'.faced _, hR⟩

/-- A tick of a job that delegates ticks the spine that the settlement leaves. -/
theorem tickWithin_holding {depth : Nat} {j j' : Job} {f : Option Failure}
    {candidate : Option Job} (sub : Spine Job) {R : Spine Job → World → Prop}
    (hready : s.ready.Meets w F fun s' w' _ => s'.root.Faces j f ∧ s'.below = s.below ∧ w' = w)
    (hasks : j.Asks w f candidate j')
    (hsettle : ∀ n, (settle n s.below candidate).Meets w F fun below w' _ =>
      below = sub.nodes ∧ w' = w)
    (hsub : ∀ trace, (tickWithin depth sub trace).Meets w F fun r w' _ =>
      r.1.root.failure = none ∧ R r.1 w') :
    (tickWithin (depth + 1) s trace).Meets w F fun r w' _ =>
      r.1.root.Working j' ∧ ∃ sub' : Spine Job, r.1.below = sub'.nodes ∧ R sub' w' := by
  refine (tickWithin_delegating (R := fun f' below w' => f' = none ∧
    ∃ sub' : Spine Job, below = sub'.nodes ∧ R sub' w') hready hasks ?_).imp ?_
  · intro n
    apply (hsettle n).imp
    intro below w₁ t₁ h₁
    obtain ⟨rfl, rfl⟩ := h₁
    refine Or.inr ⟨sub, rfl, ?_⟩
    intro trace'
    apply (hsub trace').imp
    intro r w₂ t₂ h₂
    obtain ⟨hfail, hR⟩ := h₂
    exact ⟨by simp [Node.failureReport, hfail], r.1, by simp [hfail], hR⟩
  · intro r w' t h'
    obtain ⟨f', hroot, rfl, hbelow⟩ := h'
    exact ⟨hroot, hbelow⟩

theorem tickWithin_begins {depth : Nat} {j j' : Job} {f : Option Failure}
    (hready : s.ready.Meets w F fun s' w' _ => s'.root.Faces j f ∧ s'.below = s.below ∧ w' = w)
    (hasks : j.Asks w f (some (.stepFrom p d)) j')
    (hbelow : ∀ n ∈ s.below, ∃ t, n.task = .step t ∧ t.isUnderWay = false ∧ t.source ≠ p) :
    (tickWithin (depth + 2) s trace).Meets w F fun r w' _ =>
      r.1.root.Working j' ∧ (∃ n, r.1.below = [n] ∧
        n.Working (.step { source := p, direction := d, progress := 1 })) ∧ w' = w := by
  refine (tickWithin_holding (ofTask (.stepFrom p d)) (R := fun sub w' => sub.below = [] ∧
    sub.root.Working (.step { source := p, direction := d, progress := 1 }) ∧ w' = w)
    hready hasks (fun n => settle_step hbelow) ?_).imp ?_
  · intro trace'
    refine (tick_alone (R := fun i w' => i = .step
      { source := p, direction := d, progress := 1 } ∧ w' = w)
      ((ready_walk (j := .stepFrom p d) (Or.inl ⟨rfl, fun _ => rfl⟩)).imp ?_)).imp ?_
    · intro s₁ w₁ t₁ h₁
      obtain ⟨hwork, hnil, rfl⟩ := h₁
      exact ⟨_, hwork, hnil, fun c => Step.turn_begins p d c⟩
    · intro r w' t h'
      obtain ⟨hnil, i, hi, rfl, rfl⟩ := h'
      exact ⟨hi.unfailed, hnil, hi, rfl⟩
  · intro r w' t h'
    obtain ⟨hroot, sub, hbelow, hnil, hi, rfl⟩ := h'
    exact ⟨hroot, ⟨sub.root, by rw [hbelow, nodes, hnil], hi⟩, rfl⟩

/-- A step under way lands next to the tile on which the agent stands, whatever its job asks for. -/
theorem tickWithin_lands {depth : Nat} {j j' : Job} {f : Option Failure} {candidate : Option Job}
    {n : Node Job} {q : Position}
    (hready : s.ready.Meets w (fun e => e = .overflow ∧ 1 <<< 64 ≤ w.deedCount + 1)
      fun s' w' _ => s'.root.Faces j f ∧ s'.below = s.below ∧ w' = w)
    (hasks : j.Asks w f candidate j') (hbelow : s.below = [n])
    (hn : n.Working (.step { source := p, direction := d, progress := 1 }))
    (hq : w.position.step d = .ok q) (hfree : w.isBlocked q = false) :
    (tickWithin (depth + 2) s trace).Meets w (fun e => e = .overflow ∧ 1 <<< 64 ≤ w.deedCount + 1)
      fun r w' _ => r.1.root.Working j' ∧ w' = w.moved q ∧ ∃ m, r.1.below = [m] ∧
        m.Working (.step { source := p, direction := d, progress := 2, landed := true }) := by
  refine (tickWithin_holding { root := n } (R := fun sub w' => sub.below = [] ∧
    sub.root.Working (.step { source := p, direction := d, progress := 2, landed := true }) ∧
      w' = w.moved q) hready hasks ?_ ?_).imp ?_
  · intro parent
    rw [hbelow]
    exact settle_underWay hn.task rfl candidate
  · intro trace'
    refine (tick_alone (R := fun i w' => i = .step
      { source := p, direction := d, progress := 2, landed := true } ∧ w' = w.moved q)
      ((ready_walk (Or.inr hn)).imp ?_)).imp ?_
    · intro s₁ w₁ t₁ h₁
      obtain ⟨hwork, hnil, rfl⟩ := h₁
      exact ⟨_, hwork, hnil, fun c => Step.turn_lands hq hfree _ c⟩
    · intro r w' t h'
      obtain ⟨hnil, i, hi, rfl, hw⟩ := h'
      exact ⟨hi.unfailed, hnil, hi, hw⟩
  · intro r w' t h'
    obtain ⟨hroot, sub, hbelow, hnil, hi, hw⟩ := h'
    exact ⟨hroot, hw, sub.root, by rw [hbelow, nodes, hnil], hi⟩

theorem Poised.tickWithin {depth : Nat} (h : Poised target range w.position s)
    (hcount : w.position.gap target < 1 <<< 32) (hfar : range < w.position.gap target)
    (hd : w.position.towards? target = some d) :
    (Spine.tickWithin (depth + 2) s trace).Meets w F fun r w' _ =>
      Crossing target range w.position d r.1 ∧ w' = w := by
  apply (tickWithin_begins (ready_of_walks h.root) (Goto.asks_towards hcount hfar hd) h.below).imp
  intro r w' t h'
  obtain ⟨hroot, hbelow, rfl⟩ := h'
  exact ⟨⟨hroot, hbelow⟩, rfl⟩

theorem Poised.tick (h : Poised target range w.position s)
    (hcount : w.position.gap target < 1 <<< 32) (hfar : range < w.position.gap target)
    (hd : w.position.towards? target = some d) :
    (s.tick trace).Meets w F fun r w' _ => Crossing target range w.position d r.1 ∧ w' = w :=
  tick_within fun _ => h.tickWithin hcount hfar hd

/-- The second tick of a step lands it on the next tile, where the walk is poised again. -/
theorem Crossing.tickWithin {depth : Nat} {q : Position} (h : Crossing target range w.position d s)
    (hcount : w.position.gap target < 1 <<< 32) (hfar : range < w.position.gap target)
    (hd : w.position.towards? target = some d) (hq : w.position.step d = .ok q)
    (hfree : w.isBlocked q = false) :
    (Spine.tickWithin (depth + 2) s trace).Meets w
      (fun e => e = .overflow ∧ 1 <<< 64 ≤ w.deedCount + 1) fun r w' _ =>
        Poised target range q r.1 ∧ w' = w.moved q := by
  obtain ⟨n, hn, hstep⟩ := h.below
  apply (tickWithin_lands (ready_of_walks (Or.inr h.root)) (Goto.asks_towards hcount hfar hd) hn
    hstep hq hfree).imp
  intro r w' t h'
  obtain ⟨hroot, hw, m, hbelow, hm⟩ := h'
  refine ⟨⟨Or.inr hroot, ?_⟩, hw⟩
  intro m' hm'
  rw [hbelow, List.mem_singleton] at hm'
  subst hm'
  refine ⟨_, hm.task, rfl, ?_⟩
  intro hpq
  have hgap := Position.gap_of_step hq
  have hself := Position.gap_self q
  rw [show w.position = q from hpq] at hgap
  omega

theorem Crossing.tick {q : Position} (h : Crossing target range w.position d s)
    (hcount : w.position.gap target < 1 <<< 32) (hfar : range < w.position.gap target)
    (hd : w.position.towards? target = some d) (hq : w.position.step d = .ok q)
    (hfree : w.isBlocked q = false) :
    (s.tick trace).Meets w (fun e => e = .overflow ∧ 1 <<< 64 ≤ w.deedCount + 1) fun r w' _ =>
      Poised target range q r.1 ∧ w' = w.moved q :=
  tick_within fun _ => h.tickWithin hcount hfar hd hq hfree

end Walk

end Spine

end Arbiter
