import Mathlib.Data.List.Chain
import Arbiter.Agent.Reactive
import Arbiter.Proofs.Job.Turns
import Arbiter.Proofs.Spine.Sound

/-! Rules of conduct: what the hooks of the jobs at work pass on to each other through the world. A
spine at work keeps every rule of conduct that its single jobs keep, however it is torn down or
ticked. -/

namespace Arbiter

/-! ## Rules of conduct -/

/-- A rule that jobs keep. `W r js w` says that the jobs `js` are at work in the world `w`, where
there is room for one more turn of every job of a rank below `r`. A job that is held, at work or
not, is `fit`; a fault satisfies `F`, and what is written to the log satisfies `T`. -/
structure Conduct (F : Fault → Prop) (T : Record → Prop) (fit : Job → Prop)
    (W : Nat → List Job → World → Prop) : Prop where
  routine : ∀ r : Record, r.IsRoutine → T r
  spend : ∀ {r js w}, W (r + 1) js w → W r js w
  begins : ∀ {r a b j w}, fit j → W r (a ++ b) w →
    fit j.restarted ∧ W r (a ++ j.restarted :: b) { w with frames := j.frames ++ w.frames }
  quits : ∀ {r a b j w}, W r (a ++ j :: b) w →
    W r (a ++ b) { w with frames := w.frames.drop j.frames.length }
  /-- The frames that a job closes are there, unless a warning is allowed. -/
  closes : ∀ {r a b j w}, W r (a ++ j :: b) w → j.frames ≠ [] → w.frames = [] → ∀ r, T r
  turns : ∀ {a b j w turn w'}, fit j → W (j.kind.rank + 1) (a ++ j :: b) w → j.Turned w turn w' →
    fit turn.task ∧ (∀ s ∈ turn.candidate, fit s) ∧ W j.kind.rank (a ++ turn.task :: b) w'
  room : ∀ {a b j w}, fit j → W (j.kind.rank + 1) (a ++ j :: b) w → F .overflow ∨ j.HasRoom w
  target : ∀ {r js j w}, fit j → W r js w →
    F .overflow ∨ ∀ p ∈ j.target?, w.position.gap p < 1 <<< 32
  idle : fit .idle
  holds : ∀ {r js w} (t : Trigger), W r js w → Yields (t.holds w) F fun _ => True
  answer : ∀ {r js w} (t : Trigger), W r js w →
    Yields (t.answer? w) F fun job => ∀ j ∈ job, fit j

namespace Conduct

variable {F : Fault → Prop} {T : Record → Prop} {fit : Job → Prop}
  {W : Nat → List Job → World → Prop} {r : Nat} {a b js : List Job} {j : Job} {c : Control}
  {w : World}

theorem spend_le (hC : Conduct F T fit W) {m n : Nat} (hmn : m ≤ n) (h : W n js w) : W m js w := by
  induction hmn with
  | refl => exact h
  | step _ ih => exact ih (hC.spend h)

/-- Other jobs may be at work before and behind those that are looked at. -/
theorem frame (hC : Conduct F T fit W) (above behind : List Job) :
    Conduct F T fit fun r js w => W r (above ++ js ++ behind) w := by
  have hfocus : ∀ (a b : List Job) (j : Job),
      above ++ (a ++ j :: b) ++ behind = (above ++ a) ++ j :: (b ++ behind) := by simp
  have hgap : ∀ a b : List Job, above ++ (a ++ b) ++ behind = (above ++ a) ++ (b ++ behind) := by
    simp
  refine ⟨hC.routine, hC.spend, ?_, ?_, ?_, ?_, ?_, hC.target, hC.idle, hC.holds,
    hC.answer⟩
  · intro r a b j w hj h
    rw [hgap] at h
    rw [hfocus]
    exact hC.begins hj h
  · intro r a b j w h
    rw [hfocus] at h
    rw [hgap]
    exact hC.quits h
  · intro r a b j w h
    rw [hfocus] at h
    exact hC.closes h
  · intro a b j w turn w' hj h ht
    rw [hfocus] at h
    rw [hfocus]
    exact hC.turns hj h ht
  · intro a b j w hj h
    rw [hfocus] at h
    exact hC.room hj h

/-- A rule for all jobs, by which any fault may end a run. -/
theorem lenient (routine : ∀ r : Record, r.IsRoutine → T r)
    (spend : ∀ {r js w}, W (r + 1) js w → W r js w)
    (begins : ∀ {r a b} {j : Job} {w : World}, W r (a ++ b) w →
      W r (a ++ j.restarted :: b) { w with frames := j.frames ++ w.frames })
    (quits : ∀ {r a b} {j : Job} {w : World}, W r (a ++ j :: b) w →
      W r (a ++ b) { w with frames := w.frames.drop j.frames.length })
    (closes : ∀ {r a b} {j : Job} {w : World}, W r (a ++ j :: b) w → j.frames ≠ [] →
      w.frames = [] → ∀ r, T r)
    (turns : ∀ {a b j w turn w'}, W (j.kind.rank + 1) (a ++ j :: b) w → j.Turned w turn w' →
      W j.kind.rank (a ++ turn.task :: b) w') :
    Conduct (fun _ => True) T (fun _ => True) W where
  routine := routine
  spend := spend
  begins _ h := ⟨trivial, begins h⟩
  quits := quits
  closes := closes
  turns _ h ht := ⟨trivial, fun _ _ => trivial, turns h ht⟩
  room _ _ := Or.inl trivial
  target _ _ := Or.inl trivial
  idle := trivial
  holds _ _ := yields_iff.mpr ⟨fun _ _ => trivial, fun _ _ => trivial⟩
  answer _ _ := yields_iff.mpr ⟨fun _ _ => trivial, fun _ _ _ _ => trivial⟩

/-! ### Hooks -/

theorem begin (hC : Conduct F T fit W) (hj : fit j) (h : W r (a ++ b) w) :
    (j.begin c).Keeps w F T fun p w' =>
      p.2.failure = none ∧ fit p.1 ∧ p.1.kind = j.kind ∧ W r (a ++ p.1 :: b) w' := by
  refine j.begin_keeps.mono (fun _ hf => hf) hC.routine ?_
  rintro p w' ⟨rfl, rfl⟩
  obtain ⟨hfit, hW⟩ := hC.begins hj h
  exact ⟨rfl, hfit, j.kind_restarted, hW⟩

theorem quit (hC : Conduct F T fit W) (h : W r (a ++ j :: b) w) :
    j.quit.Keeps w F T fun j' w' => j' = j ∧ W r (a ++ b) w' := by
  refine j.quit_keeps.mono (fun _ hf => hf) ?_ ?_
  · rintro record (hr | ⟨hframes, hnil⟩)
    · exact hC.routine record hr
    · exact hC.closes h hframes hnil record
  · rintro j' w' ⟨rfl, rfl⟩
    exact ⟨rfl, hC.quits h⟩

theorem turn (hC : Conduct F T fit W) (hj : fit j) (h : W (j.kind.rank + 1) (a ++ j :: b) w) :
    (j.turn c).Keeps w F T fun turn w' =>
      fit turn.task ∧ turn.task.kind = j.kind ∧
        (∀ s ∈ turn.candidate, fit s ∧ j.kind.Delegates s.kind) ∧
          W j.kind.rank (a ++ turn.task :: b) w' := by
  refine j.turn_keeps.mono ?_ hC.routine ?_
  · rintro e ⟨rfl, hroom⟩
    exact (hC.room hj h).resolve_right hroom
  · intro turn w' ht
    obtain ⟨hfit, hcandidate, hW⟩ := hC.turns hj h ht
    exact ⟨hfit, ht.kind, fun s hs => ⟨hcandidate s hs, (ht.candidate s hs).1⟩, hW⟩

theorem isFinished (hC : Conduct F T fit W) (hj : fit j) (h : W r js w) :
    Yields (j.isFinished w) F fun _ => True := by
  refine (j.yields_isFinished w).mono ?_ fun _ _ => trivial
  rintro e ⟨rfl, p, hp, hfar⟩
  rcases hC.target hj h with hF | hnear
  · exact hF
  · exact absurd (hnear p hp) (Nat.not_lt.mpr hfar)

end Conduct

/-! ## Spines of jobs -/

namespace Spine

/-- A spine of fit jobs, each delegated by the one before, that rests or is at work as a whole. -/
structure Tidy (fit : Job → Prop) (s : Spine Job) : Prop where
  state : s.Resting ∨ ∀ n ∈ s.nodes, n.Started
  fit : ∀ n ∈ s.nodes, fit n.task
  lined : s.nodes.IsChain fun m n => m.task.kind.Delegates n.task.kind

/-- The jobs of a spine that is at work, root first. -/
def atWork (s : Spine Job) : List Job := if s.root.active then s.nodes.map Node.task else []

theorem Resting.atWork {s : Spine Job} (h : s.Resting) : s.atWork = [] := by
  simp [Spine.atWork, h.inactive]

theorem atWork_of_started {s : Spine Job} (h : ∀ n ∈ s.nodes, n.Started) :
    s.atWork = s.nodes.map Node.task := by
  simp [atWork, (h s.root List.mem_cons_self).active]

variable {F : Fault → Prop} {T : Record → Prop} {fit : Job → Prop}
  {W : Nat → List Job → World → Prop} {r : Nat} {w : World} {s : Spine Job}

theorem Resting.tidy (h : s.Resting) (hfit : fit s.root.task) : s.Tidy fit := by
  have hnodes : s.nodes = [s.root] := by rw [nodes, h.alone]
  exact ⟨Or.inl h, by simpa [hnodes] using hfit, by simp [hnodes]⟩

theorem tidy_ofTask {j : Job} (hj : fit j) : (ofTask j).Tidy fit := (resting_ofTask j).tidy hj

/-- A spine that does not rest is at work as a whole. -/
theorem Tidy.started (hs : s.Tidy fit) (h : ¬ s.Resting) : ∀ n ∈ s.nodes, n.Started :=
  hs.state.resolve_left h

theorem Tidy.tail {n m : Node Job} {rest : List (Node Job)}
    (hs : ({ root := n, below := m :: rest } : Spine Job).Tidy fit) (hn : n.Started) :
    ({ root := m, below := rest } : Spine Job).Tidy fit := by
  have hstarted := hs.started fun h => absurd h.pending (by simp [hn.started])
  exact ⟨Or.inr fun b hb => hstarted b (List.mem_cons_of_mem _ hb),
    fun b hb => hs.fit b (List.mem_cons_of_mem _ hb), hs.lined.tail⟩

/-- A spine at work whose root has taken a turn. -/
theorem Tidy.withRoot {n : Node Job} (hs : s.Tidy fit) (hstarted : ∀ m ∈ s.nodes, m.Started)
    (hn : n.Started) (hfit : fit n.task) (hkind : n.task.kind = s.root.task.kind) :
    ({ s with root := n } : Spine Job).Tidy fit := by
  refine ⟨Or.inr ?_, ?_, ?_⟩
  · intro m hm
    rcases List.mem_cons.mp hm with rfl | hm
    · exact hn
    · exact hstarted m (List.mem_cons_of_mem _ hm)
  · intro m hm
    rcases List.mem_cons.mp hm with rfl | hm
    · exact hfit
    · exact hs.fit m (List.mem_cons_of_mem _ hm)
  · have hlined := hs.lined
    rw [nodes] at hlined ⊢
    cases hbelow : s.below with
    | nil => simp
    | cons m rest =>
        rw [hbelow] at hlined
        rw [List.isChain_cons_cons] at hlined ⊢
        rw [hkind]
        exact hlined

/-! ## Teardown -/

theorem halt_started (hC : Conduct F T fit W) {n : Node Job} {js : List Job} (hn : n.Started)
    (h : W r (n.task :: js) w) (taker : Option Job) :
    (halt taker n).Keeps w F (Happening.Notes T) fun m w' => m = n ∧ W r js w' := by
  unfold halt leave
  rw [if_neg (by simp [hn.started])]
  refine Act.Keeps.note_bind (hC.routine _ (by simp [Record.IsRoutine])) ?_
  refine (Act.Keeps.called (by trivial) (hC.quit (a := []) (b := js) h)).bind ?_
  rintro j w' ⟨rfl, hW⟩
  exact Act.keeps_pure ⟨rfl, hW⟩

theorem dropAll_routine {R : World → Prop} (nodes : List (Node Job)) (h : R w) :
    (dropAll nodes).Keeps w F (Happening.Notes T) fun _ w' => R w' := by
  refine Act.keeps_tellAll ?_ h
  intro x hx
  obtain ⟨n, -, rfl⟩ := List.mem_map.mp hx
  trivial

theorem haltAll_started (hC : Conduct F T fit W) {above nodes : List (Node Job)}
    (hn : ∀ n ∈ nodes, n.Started) (h : W r (nodes.map Node.task) w) (taker : Option Job) :
    (haltAll taker above nodes).Keeps w F (Happening.Notes T) fun _ w' => W r [] w' := by
  induction nodes generalizing above w with
  | nil => exact Act.keeps_pure h
  | cons n nodes ih =>
      have hhead := hn n List.mem_cons_self
      rw [haltAll, if_pos hhead.active]
      refine (halt_started hC hhead h taker).bind ?_
      rintro m w' ⟨-, hW⟩
      exact ih (fun b hb => hn b (List.mem_cons_of_mem _ hb)) hW

theorem stopAndDrop_started (hC : Conduct F T fit W) {nodes : List (Node Job)}
    (hn : ∀ n ∈ nodes, n.Started) (h : W r (nodes.map Node.task) w) (taker : Option Job) :
    (stopAndDrop taker nodes).Keeps w F (Happening.Notes T) fun _ w' => W r [] w' := by
  rw [stopAndDrop]
  refine (haltAll_started hC hn h taker).bind ?_
  intro halted w' hW
  exact dropAll_routine halted hW

theorem Tidy.stopAndDrop_keeps (hC : Conduct F T fit W) (hs : s.Tidy fit) (h : W r s.atWork w)
    (taker : Option Job) :
    (stopAndDrop taker s.nodes).Keeps w F (Happening.Notes T) fun _ w' => W r [] w' := by
  rcases hs.state with hrest | hstarted
  · rw [hrest.atWork] at h
    have hinactive := hrest.inactive
    rw [stopAndDrop, nodes, haltAll, if_neg (by simp [hinactive])]
    refine Act.Keeps.bind (P := fun _ w' => W r [] w') ?_
      fun halted w' hW => dropAll_routine halted hW
    refine (dropAll_routine _ h).bind ?_
    intro _ w' hW
    exact Act.keeps_pure hW
  · rw [atWork_of_started hstarted] at h
    exact stopAndDrop_started hC hstarted h taker

/-- After a stop the spine rests, and none of its jobs is at work. -/
theorem Tidy.stop_keeps (hC : Conduct F T fit W) (hs : s.Tidy fit) (h : W r s.atWork w)
    (taker : Option Job) :
    (s.stop taker).Keeps w F (Happening.Notes T) fun s' w' =>
      (s'.Resting ∧ s'.root.task = s.root.task ∧ s'.root.failure = s.root.failure) ∧
        W r [] w' := by
  rw [stop]
  rcases hs.state with hrest | hstarted
  · rw [hrest.atWork] at h
    rw [if_neg (by simp [hrest.inactive])]
    exact Act.keeps_pure ⟨⟨hrest, rfl, rfl⟩, h⟩
  · have hroot := hstarted s.root List.mem_cons_self
    rw [atWork_of_started hstarted] at h
    rw [if_pos hroot.active]
    refine (halt_started hC hroot h taker).bind ?_
    rintro n w' ⟨rfl, hW⟩
    refine (stopAndDrop_started hC (fun n hn => hstarted n (List.mem_cons_of_mem _ hn)) hW
      taker).bind ?_
    intro _ w'' hW'
    exact Act.keeps_pure ⟨⟨⟨rfl, rfl, rfl⟩, rfl, rfl⟩, hW'⟩

theorem Tidy.fail_keeps (hC : Conduct F T fit W) (hs : s.Tidy fit) (h : W r s.atWork w)
    (reason : String) :
    (s.fail reason).Keeps w F (Happening.Notes T) fun s' w' =>
      (s'.Resting ∧ s'.root.task = s.root.task ∧ s'.root.failure = some reason) ∧ W r [] w' := by
  rw [fail]
  refine (hs.stop_keeps hC h none).bind ?_
  rintro s' w' ⟨⟨hrest, htask, -⟩, hW⟩
  refine Act.Keeps.note_bind (hC.routine _ (by simp [Record.IsRoutine])) ?_
  exact Act.keeps_pure ⟨⟨⟨hrest.pending, hrest.inactive, hrest.alone⟩, htask, rfl⟩, hW⟩

/-! ## Ticks -/

theorem Tidy.ready_keeps (hC : Conduct F T fit W) (hs : s.Tidy fit) (h : W r s.atWork w) :
    s.ready.Keeps w F (Happening.Notes T) fun s' w' =>
      ((∀ n ∈ s'.nodes, n.Started) ∧ s'.Tidy fit ∧ s'.root.task.kind = s.root.task.kind) ∧
        W r (s'.nodes.map Node.task) w' := by
  rw [ready]
  rcases hs.state with hrest | hstarted
  · rw [hrest.atWork] at h
    have hnodes : s.nodes = [s.root] := by rw [nodes, hrest.alone]
    rw [if_pos hrest.pending, start]
    refine Act.Keeps.note_bind (hC.routine _ (by simp [Record.IsRoutine])) ?_
    refine (Act.Keeps.called (by trivial)
      (hC.begin (a := []) (b := []) (hs.fit s.root List.mem_cons_self) h)).bind ?_
    rintro ⟨task, reply⟩ w' ⟨hreply, hfit, hkind, hW⟩
    dsimp only at hreply hfit hkind hW ⊢
    rw [hreply]
    have halone := hrest.alone
    refine Act.keeps_pure ⟨⟨?_, ⟨Or.inr ?_, ?_, ?_⟩, hkind⟩, ?_⟩ <;>
      simp only [nodes, halone, List.mem_singleton, forall_eq, List.isChain_singleton]
    · exact ⟨⟨rfl, rfl, rfl⟩, rfl⟩
    · exact ⟨⟨rfl, rfl, rfl⟩, rfl⟩
    · exact hfit
    · exact hW
  · rw [atWork_of_started hstarted] at h
    rw [if_neg (by simp [(hstarted s.root List.mem_cons_self).started])]
    exact Act.keeps_pure ⟨⟨hstarted, hs, rfl⟩, h⟩

/-- What is held after a settlement: a tidy spine of jobs of a lower rank, if anything. -/
theorem settle_started (hC : Conduct F T fit W) {n : Node Job} {below : List (Node Job)}
    {candidate : Option Job} (hn : n.Started)
    (hs : ({ root := n, below } : Spine Job).Tidy fit)
    (hcandidate : ∀ c ∈ candidate, fit c ∧ n.task.kind.Delegates c.kind)
    (h : W r (below.map Node.task) w) :
    (settle n below candidate).Keeps w F (Happening.Notes T) fun ns w' =>
      (ns = [] → W r [] w') ∧ ∀ m rest, ns = m :: rest →
        ({ root := m, below := rest } : Spine Job).Tidy fit ∧
          n.task.kind.Delegates m.task.kind ∧
            W r ({ root := m, below := rest } : Spine Job).atWork w' := by
  have hstarted : ∀ m ∈ below, m.Started := fun m hm =>
    hs.started (fun hr => absurd hr.pending (by simp [hn.started])) m (List.mem_cons_of_mem _ hm)
  have hkept : (below = [] → W r [] w) ∧ ∀ m rest, below = m :: rest →
      ({ root := m, below := rest } : Spine Job).Tidy fit ∧ n.task.kind.Delegates m.task.kind ∧
        W r ({ root := m, below := rest } : Spine Job).atWork w := by
    refine ⟨fun hnil => by simpa [hnil] using h, ?_⟩
    rintro m rest rfl
    refine ⟨hs.tail hn, (List.isChain_cons_cons.mp hs.lined).1, ?_⟩
    rw [atWork_of_started (s := { root := m, below := rest }) hstarted]
    exact h
  have hfresh : ∀ c ∈ candidate, ∀ w', W r [] w' →
      ([Node.fresh c] = [] → W r [] w') ∧ ∀ m rest, [Node.fresh c] = m :: rest →
        ({ root := m, below := rest } : Spine Job).Tidy fit ∧ n.task.kind.Delegates m.task.kind ∧
          W r ({ root := m, below := rest } : Spine Job).atWork w' := by
    refine fun c hc w' hW => ⟨nofun, ?_⟩
    rintro m rest hm
    obtain ⟨rfl, rfl⟩ := List.cons.inj hm
    exact ⟨tidy_ofTask (hcandidate c hc).1, (hcandidate c hc).2, hW⟩
  unfold settle
  split
  · exact Act.keeps_pure hkept
  · exact Act.keeps_pure (hfresh _ rfl w h)
  · split
    · exact Act.keeps_pure hkept
    · refine Act.Keeps.get_bind ?_
      split
      · exact Act.Keeps.note_bind (hC.routine _ (by simp [Record.IsRoutine]))
          (Act.keeps_pure hkept)
      · refine (stopAndDrop_started hC hstarted h _).bind ?_
        intro _ w' hW
        exact Act.keeps_pure (hfresh _ rfl w' hW)
  · refine Act.Keeps.get_bind ?_
    split
    · exact Act.keeps_pure hkept
    · refine (stopAndDrop_started hC hstarted h _).bind ?_
      intro _ w' hW
      refine Act.keeps_pure ⟨fun _ => hW, ?_⟩
      intro m rest hm
      cases hm

theorem reportState_routine (hC : Conduct F T fit W) (n : Node Job) (trace : Trace) :
    (reportState n trace).Keeps w F (Happening.Notes T) fun p w' =>
      (∃ state, p.1 = { n with reportedState := state }) ∧ w' = w := by
  rw [reportState]
  split
  · exact Act.keeps_pure ⟨⟨_, rfl⟩, rfl⟩
  · exact Act.Keeps.note_bind (hC.routine _ (by simp [Record.IsRoutine]))
      (Act.keeps_pure ⟨⟨_, rfl⟩, rfl⟩)

/-- A spine after a tick in which its root may have failed. -/
structure Worked (fit : Job → Prop) (s s' : Spine Job) : Prop where
  tidy : s'.Tidy fit
  kind : s'.root.task.kind = s.root.task.kind
  started : s'.root.failure = none → s'.root.Started

theorem Worked.resting {s s' : Spine Job} (h : Worked fit s s') (hf : s'.root.failure ≠ none) :
    s'.Resting := by
  rcases h.tidy.state with hrest | hstarted
  · exact hrest
  · exact absurd (hstarted s'.root List.mem_cons_self).unfailed hf

theorem rejoin_worked {n : Node Job} {held sub : Spine Job}
    (hn : n.Started) (hfit : fit n.task) (hsub : Worked fit held sub)
    (hdelegates : n.task.kind.Delegates held.root.task.kind) (h : W r (n.task :: sub.atWork) w) :
    (rejoin n sub).Keeps w F (Happening.Notes T) fun s w' =>
      (s.Tidy fit ∧ s.root.task = n.task ∧ s.root.Started) ∧ W r s.atWork w' := by
  rw [rejoin]
  split
  case h_1 hreport =>
    have hroot := hsub.started (Option.map_eq_none_iff.mp hreport)
    have hstarted := hsub.tidy.started fun hr => absurd hr.pending (by simp [hroot.started])
    have hall : ∀ m ∈ ({ root := n, below := sub.nodes } : Spine Job).nodes, m.Started := by
      intro m hm
      rcases List.mem_cons.mp hm with rfl | hm
      · exact hn
      · exact hstarted m hm
    refine Act.keeps_pure ⟨⟨⟨Or.inr hall, ?_, ?_⟩, rfl, hn⟩, ?_⟩
    · intro m hm
      rcases List.mem_cons.mp hm with rfl | hm
      · exact hfit
      · exact hsub.tidy.fit m hm
    · have hlined := hsub.tidy.lined
      rw [nodes] at hlined
      rw [nodes, nodes, List.isChain_cons_cons, hsub.kind]
      exact ⟨hdelegates, hlined⟩
    · rw [atWork_of_started hstarted] at h
      rw [atWork_of_started hall]
      exact h
  case h_2 failure hreport =>
    have hrest := hsub.resting fun hf => by simp [Node.failureReport, hf] at hreport
    rw [hrest.atWork] at h
    refine (dropAll_routine sub.nodes h).bind ?_
    intro _ w' hW
    have hn' : ({ n with control := { n.control with childFailure := some failure } } :
        Node Job).Started := ⟨⟨hn.active, hn.unstopped, hn.unfailed⟩, hn.started⟩
    have hall : ∀ m ∈ ({ root := { n with control :=
        { n.control with childFailure := some failure } } } : Spine Job).nodes, m.Started := by
      intro m hm
      obtain rfl := List.mem_singleton.mp hm
      exact hn'
    refine Act.keeps_pure ⟨⟨⟨Or.inr hall, ?_, List.isChain_singleton _⟩, rfl, hn'⟩, ?_⟩
    · intro m hm
      obtain rfl := List.mem_singleton.mp hm
      exact hfit
    · rw [atWork_of_started hall]
      exact hW

/-- A tick takes turns of jobs of ever lower ranks, from the root down. -/
theorem Tidy.tickWithin_keeps (hC : Conduct F T fit W) {depth : Nat} (hs : s.Tidy fit)
    (hdepth : s.root.task.kind.rank < depth) (h : W (s.root.task.kind.rank + 1) s.atWork w)
    (trace : Trace) :
    (tickWithin depth s trace).Keeps w F (Happening.Notes T) fun p w' =>
      Worked fit s p.1 ∧ W 0 p.1.atWork w' := by
  induction depth generalizing s w trace W with
  | zero => omega
  | succ depth ih =>
      rw [tickWithin]
      refine (hs.ready_keeps hC h).bind ?_
      rintro s₁ w₁ ⟨⟨hstarted, hs₁, hkind₁⟩, hW₁⟩
      have hroot := hstarted s₁.root List.mem_cons_self
      rw [if_neg (by simp [hroot.unstopped])]
      have hfit₁ := hs₁.fit s₁.root List.mem_cons_self
      rw [← hkind₁] at hW₁ hdepth
      refine (Act.Keeps.called (by trivial) (hC.turn (a := []) hfit₁ hW₁)).bind ?_
      rintro turn w₂ ⟨hfit, hkind, hcandidate, hW₂⟩
      have hn := turned_started hroot turn
      have hs₂ := hs₁.withRoot hstarted hn hfit hkind
      dsimp only
      split
      case h_1 reason _ =>
        have hwork : W s₁.root.task.kind.rank
            ({ s₁ with root := turned s₁.root turn } : Spine Job).atWork w₂ := by
          rw [atWork_of_started (hs₂.started fun hr => absurd hr.pending (by simp [hn.started]))]
          exact hW₂
        refine (hs₂.fail_keeps hC hwork reason).bind ?_
        rintro s₃ w₃ ⟨⟨hrest, htask, hfailure⟩, hW₃⟩
        refine Act.keeps_pure ⟨⟨hrest.tidy (by rw [htask]; exact hfit), ?_, ?_⟩, ?_⟩
        · rw [htask, ← hkind₁]
          exact hkind
        · intro hf
          simp [hfailure] at hf
        · rw [hrest.atWork]
          exact hC.spend_le (Nat.zero_le _) hW₃
      case h_2 =>
        refine (reportState_routine hC _ _).bind ?_
        rintro ⟨n, trace'⟩ w₃ ⟨⟨state, hreported⟩, rfl⟩
        have htask : n.task = turn.task := by rw [show n = _ from hreported, turned]
        have hn₃ : n.Started := by
          rw [show n = _ from hreported]
          exact ⟨⟨hn.active, hn.unstopped, hn.unfailed⟩, hn.started⟩
        rw [← htask] at hW₂ hfit hkind
        rw [← hkind] at hcandidate
        -- The task of the root stays at work while what is held below it is settled and ticked.
        have hC' := hC.frame [n.task] []
        refine (settle_started hC' hn₃ (hs₁.withRoot hstarted hn₃ hfit hkind) hcandidate
          (by simpa using hW₂)).bind ?_
        rintro below w₄ ⟨hnil, hcons⟩
        cases below with
        | nil =>
            have hwork : ({ root := n } : Spine Job).atWork = [n.task] := by
              simp [atWork, nodes, hn₃.active]
            refine Act.keeps_pure
              ⟨⟨⟨Or.inr ?_, ?_, List.isChain_singleton _⟩, ?_, fun _ => hn₃⟩, ?_⟩
            · simpa [nodes] using hn₃
            · simpa [nodes] using hfit
            · exact hkind.trans hkind₁
            · rw [hwork]
              exact hC.spend_le (Nat.zero_le _) (hnil rfl)
        | cons m rest =>
            obtain ⟨hsub, hdelegates, hW₄⟩ := hcons m rest rfl
            have hrank := hdelegates.rank_lt
            rw [hkind] at hrank
            refine (ih hC' hsub (by dsimp only; omega) (hC'.spend_le hrank hW₄) _).bind ?_
            rintro ⟨sub, trace''⟩ w₅ ⟨hworked, hW₅⟩
            refine (rejoin_worked hn₃ hfit hworked hdelegates (by simpa using hW₅)).bind ?_
            rintro s₆ w₆ ⟨⟨htidy, htask₆, hstarted₆⟩, hW₆⟩
            exact Act.keeps_pure
              ⟨⟨htidy, (congrArg Job.kind htask₆).trans (hkind.trans hkind₁), fun _ => hstarted₆⟩,
                hW₆⟩

/-- A tick of a root in which every job takes one turn at the most. -/
theorem Tidy.tick_keeps (hC : Conduct F T fit W) (hs : s.Tidy fit) (h : W 3 s.atWork w)
    (trace : Trace) :
    (s.tick trace).Keeps w F (Happening.Notes T) fun p w' =>
      Worked fit s p.1 ∧ W 0 p.1.atWork w' := by
  have hrank := s.root.task.kind.rank_le
  have hdepth : 2 < depthLimit := by decide
  rw [tick]
  exact hs.tickWithin_keeps hC (by omega) (hC.spend_le (by omega) h) trace

end Spine

end Arbiter
