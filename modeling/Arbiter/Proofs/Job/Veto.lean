import Arbiter.World.Host
import Arbiter.Proofs.Conduct.Spine
import Arbiter.Proofs.Job.Detour
import Arbiter.Proofs.Spine.Refusal

/-! A step that has begun is taken to its end in the next tick, whatever the walk and the fight
above it ask for. So a veto overrules the tasks above it for one tick, and not for two in a row. -/

namespace Arbiter

variable {w : World} {c : Control}

/-! ## Turns -/

/-- A step under way tries its move in its next turn. It lands or fails. -/
theorem Step.turn_tries {t : Step} (hway : t.isUnderWay = true) :
    (t.turn c).Meets w (fun e => e = .overflow ∧ ¬ (Job.step t).HasRoom w) fun turn w' _ =>
      (∃ moved notes, World.tryMove t.direction w = .ok ⟨moved, w', notes⟩) ∧
        turn.candidate = none ∧ ∃ landed : Bool,
          turn.task = .step { t with progress := t.progress + 1, landed } ∧
            (turn.reply.failure = none → landed = true) := by
  have hbegun : 0 < t.progress ∧ t.landed = false := by simpa [isUnderWay] using hway
  rw [turn]
  rw [if_neg (by simp [hbegun.2])]
  refine Act.Meets.ofExcept_bind ?_ ?_
  · intro e he
    have hcount := count32_error he
    exact ⟨hcount.1, fun h => absurd h.counter (Nat.not_lt.mpr hcount.2)⟩
  intro progress hprogress
  obtain ⟨-, rfl⟩ := count32_eq_ok_iff.mp hprogress
  have hlast : ticks ≤ t.progress + 1 := Nat.succ_le_succ hbegun.1
  rw [if_pos hlast]
  have htry := Act.Meets.ran (World.tryMove_keeps w t.direction)
  refine (htry.mono (fun e he => ⟨he.1, fun h => he.2 h.toRoams⟩) fun _ _ _ h => h).bind ?_
  intro moved w' notes h
  cases moved with
  | true => exact Act.meets_pure ⟨⟨true, notes, h.1⟩, rfl, true, rfl, fun _ => rfl⟩
  | false => exact Act.meets_pure ⟨⟨false, notes, h.1⟩, rfl, t.landed, rfl, by simp⟩

namespace Goto

theorem yields_next_reply (g : Goto) (p : Position) (state : String) (took : Bool) :
    Yields (g.next p state took) (fun _ => True) fun turn =>
      turn.reply.tookChildFailure = took ∧ turn.reply.failure = none := by
  have hdirect : ∀ g : Goto, Yields (g.direct p state took) (fun _ => True) fun turn =>
      turn.reply.tookChildFailure = took ∧ turn.reply.failure = none := by
    intro g
    unfold direct
    split
    · exact yields_pure ⟨rfl, rfl⟩
    · refine (p.yields_distance g.target).mono (fun _ _ => trivial) (fun _ h => h) |>.bind ?_
      intro left _
      exact yields_pure ⟨rfl, rfl⟩
  rw [next]
  refine (g.yields_arrived p).mono (fun _ _ => trivial) (fun _ h => h) |>.bind ?_
  intro arrived _
  split
  · exact yields_pure ⟨rfl, rfl⟩
  · split
    · exact hdirect g
    · split
      · exact yields_pure ⟨rfl, rfl⟩
      · exact hdirect { g with detour := none }

/-- A walk leaves the world alone and takes the failure that it faces. It fails only by one. -/
theorem turn_reply (g : Goto) :
    (g.turn c).Keeps w (fun _ => True) (fun _ => True) fun turn w' => w' = w ∧
      (c.childFailure = none ∨ turn.reply.tookChildFailure = true) ∧
        (c.childFailure = none → turn.reply.failure = none) := by
  rw [turn]
  refine Act.Keeps.get_bind ?_
  dsimp only
  split
  · next hnone =>
    refine Act.keeps_ofExcept (fun _ _ => trivial) ?_
    intro turn hturn
    have hreply := (g.yields_next_reply w.position c.state false).ok hturn
    exact ⟨rfl, Or.inl hnone, fun _ => hreply.2⟩
  · next failure hsome =>
    have hfaced : c.childFailure ≠ none := by simp [hsome]
    refine Act.Keeps.ofExcept_bind (fun _ _ => trivial) ?_
    intro blocked _
    split
    · exact Act.keeps_pure ⟨rfl, Or.inr rfl, fun h => absurd h hfaced⟩
    · split
      · exact Act.keeps_pure ⟨rfl, Or.inr rfl, fun h => absurd h hfaced⟩
      · refine Act.Keeps.tell_bind trivial (Act.keeps_ofExcept (fun _ _ => trivial) ?_)
        intro turn hturn
        have hreply := (yields_next_reply _ _ _ _).ok hturn
        exact ⟨rfl, Or.inr hreply.1, fun h => absurd h hfaced⟩

end Goto

namespace Job

theorem Kind.Delegates.of_goto {k : Kind} (h : Kind.goto.Delegates k) : k = .step := by
  cases h
  rfl

theorem Kind.Delegates.of_kill {k : Kind} (h : Kind.kill.Delegates k) : k = .goto := by
  cases h
  rfl

theorem exists_goto {j : Job} (h : j.kind = .goto) : ∃ g, j = .goto g := by
  cases j with
  | goto g => exact ⟨g, rfl⟩
  | _ => cases h

theorem exists_kill {j : Job} (h : j.kind = .kill) : ∃ mob, j = .kill mob := by
  cases j with
  | kill mob => exact ⟨mob, rfl⟩
  | _ => cases h

theorem fight_reply (mob : Nat) :
    (fight mob c).Keeps w (fun _ => True) (fun _ => True) fun turn _ =>
      turn.reply.failure = none := by
  rw [fight]
  refine Act.Keeps.get_bind ?_
  split
  · exact Act.keeps_pure rfl
  · refine Act.Keeps.ofExcept_bind (fun _ _ => trivial) ?_
    intro d _
    split
    · refine ((World.attack_keeps w mob).mono (fun _ _ => trivial) (fun _ _ => trivial)
        fun _ _ h => h).bind ?_
      intro _ w' _
      exact Act.keeps_pure rfl
    · exact Act.keeps_pure rfl

theorem turn_faces (j : Job) :
    (j.turn c).Ensures w fun turn _ _ =>
      turn.task.kind = .goto → (c.apply turn.reply).childFailure = none := by
  cases j with
  | goto g =>
      apply Act.Meets.imp (Goto.turn_reply g)
      intro turn w' t h _
      obtain ⟨-, -, htook, -⟩ := h
      rcases htook with hnone | htook
      · simp [Control.apply, hnone]
      · simp [Control.apply, htook]
  | _ =>
      apply Act.Meets.mono (turn_keeps _) (fun _ _ => trivial)
      intro turn w' t h hgoto
      rw [h.2.kind] at hgoto
      cases hgoto

/-- An attack spends one deed and frees no counter. -/
theorem HasRoom.attacked {j : Job} {u : World} {mob : Nat} (h : j.HasRoom w)
    (hdid : w.Did (.attack mob) u) (hdeeds : w.deedCount + 2 < 1 <<< 64) : j.HasRoom u := by
  have hmobs := hdid.mobs
  cases hdid with
  | attack =>
      refine ⟨⟨h.inland, h.stuck, hdeeds⟩, h.counter, h.target, ?_⟩
      intro m hm
      obtain ⟨n, hn, hposition⟩ := hmobs m hm
      rw [← hposition]
      exact h.mobs n hn

end Job

/-! ## Vetoes -/

/-- Only a step under way refuses to make room, and it refuses whatever is asked for. -/
theorem Node.refuses_iff {n : Node Job} {candidate : Option Job} :
    n.refuses w candidate = true ↔ ∃ t, n.task = .step t ∧ t.isUnderWay = true := by
  constructor
  · intro h
    rw [Node.refuses] at h
    cases htask : n.task with
    | step t =>
        rw [htask] at h
        exact ⟨t, rfl, h⟩
    | _ =>
        rw [htask] at h
        cases h
  · rintro ⟨t, htask, hway⟩
    rw [Node.refuses_step htask, hway]

namespace Spine

/-- No node on the spine refuses to make room for anything. -/
def MakesRoom (s : Spine Job) : Prop :=
  ∀ n ∈ s.nodes, ∀ w candidate, n.refuses w candidate = false

/-- In the tick of the spine a veto overrules a task: what it asks for is not what is held, and a
node that is held refuses to make room for it. -/
inductive Overruled {κ τ : Type} [Task κ τ] : Spine τ → κ → Prop where
  /-- The task of the root is overruled. -/
  | root {s : Spine τ} {k k' : κ} {root n : Node τ} {turn : Turn τ} {trail : List (Happening τ)}
      (htaken : s.TurnTaken k root turn k' trail) (hreason : turn.reply.failure = none)
      (hother : ∀ m ∈ s.below.head?, ∀ c ∈ turn.candidate, Task.isEqual c m.task = false)
      (hn : n ∈ s.below) (hrefuses : n.refuses k' turn.candidate = true) : Overruled s k
  /-- A task further down is overruled. -/
  | onward {s : Spine τ} {k k₁ k₂ : κ} {root m : Node τ} {rest : List (Node τ)} {turn : Turn τ}
      {t₁ t₂ : List (Happening τ)} {refused : List τ} (htaken : s.TurnTaken k root turn k₁ t₁)
      (hreason : turn.reply.failure = none)
      (hsettled : Settled k₁ s.below turn.candidate (m :: rest) k₂ t₂ refused)
      (hsub : Overruled { root := m, below := rest } k₂) : Overruled s k

theorem Settled.kept_or_fresh {κ τ : Type} [Task κ τ] {k k' : κ} {below rest : List (Node τ)}
    {m : Node τ} {candidate : Option τ} {trail : List (Happening τ)} {refused : List τ}
    (h : Settled k below candidate (m :: rest) k' trail refused) :
    below = m :: rest ∨ rest = [] := by
  have hfresh : ∀ ms : List (Node τ), ms = candidate.toList.map Node.fresh → ms = m :: rest →
      rest = [] := by
    rintro ms rfl hms
    cases candidate with
    | none => cases hms
    | some c => exact (List.cons.inj hms).2.symm
  generalize hms : m :: rest = ms at h
  cases h with
  | free => exact Or.inr (hfresh _ rfl hms.symm)
  | equal => exact Or.inl rfl
  | forced => exact Or.inl rfl
  | exchanged => exact Or.inr (hfresh _ rfl hms.symm)

theorem Overruled.refuses {s : Spine Job} (h : s.Overruled w) :
    ∃ n ∈ s.below, ∃ t, n.task = .step t ∧ t.isUnderWay = true := by
  induction h with
  | root htaken hreason hother hn hrefuses => exact ⟨_, hn, Node.refuses_iff.mp hrefuses⟩
  | @onward s k k₁ k₂ root m rest turn t₁ t₂ refused htaken hreason hsettled hsub ih =>
      obtain ⟨n, hn, hway⟩ := ih
      rcases hsettled.kept_or_fresh with hkept | hfresh
      · exact ⟨n, hkept ▸ List.mem_cons_of_mem m hn, hway⟩
      · exact absurd hn (by simp [hfresh])

theorem MakesRoom.not_overruled {s : Spine Job} (h : s.MakesRoom) (w : World) :
    ¬ s.Overruled w := by
  intro hover
  obtain ⟨n, hn, hway⟩ := hover.refuses
  have hrefuses : n.refuses w none = true := Node.refuses_iff.mpr hway
  rw [h n (List.mem_cons_of_mem _ hn)] at hrefuses
  cases hrefuses

/-! ## Walks that hold a step -/

/-- A walk that holds a step has no failure to deal with. -/
def Undisturbed (nodes : List (Node Job)) : Prop :=
  nodes.IsChain fun n _ => n.task.kind = .goto → n.control.childFailure = none

theorem undisturbed_alone (n : Node Job) : Undisturbed [n] := List.isChain_singleton n

theorem undisturbed_cons {n : Node Job} {nodes : List (Node Job)}
    (hn : n.task.kind = .goto → n.control.childFailure = none) (h : Undisturbed nodes) :
    Undisturbed (n :: nodes) := by
  cases nodes with
  | nil => exact undisturbed_alone n
  | cons m rest => exact List.isChain_cons_cons.mpr ⟨hn, h⟩

theorem Undisturbed.tail {n : Node Job} {nodes : List (Node Job)} (h : Undisturbed (n :: nodes)) :
    Undisturbed nodes := List.IsChain.tail h

variable {s s' : Spine Job} {w' : World} {trail : List (Happening Job)} {refused : List Job}

theorem stop_undisturbed (h : Undisturbed s.nodes) (taker : Option Job) :
    (s.stop taker).Ensures w fun s' _ _ => Undisturbed s'.nodes := by
  rw [stop]
  split
  · apply (Act.ensures_true _ w).bind
    intro n w₁ _ _
    apply (Act.ensures_true _ w₁).bind
    intro _ _ _ _
    exact Act.meets_pure (undisturbed_alone _)
  · exact Act.meets_pure h

theorem fail_undisturbed (h : Undisturbed s.nodes) (reason : String) :
    (s.fail reason).Ensures w fun s' _ _ => Undisturbed s'.nodes := by
  rw [fail]
  apply (stop_undisturbed h none).bind
  intro s' w' t h'
  apply Act.Meets.note_bind
  apply Act.meets_pure
  rw [nodes] at h'
  rw [nodes]
  cases hbelow : s'.below with
  | nil => exact undisturbed_alone _
  | cons m rest =>
      rw [hbelow] at h'
      exact undisturbed_cons (List.isChain_cons_cons.mp h').1 h'.tail

theorem ready_undisturbed (h : Undisturbed s.nodes) :
    s.ready.Ensures w fun s' _ _ => Undisturbed s'.nodes := by
  rw [ready]
  split
  · rw [start]
    apply Act.Meets.note_bind
    refine (Act.Meets.called ((Act.ensures_true _ w).imp fun _ _ _ _ => trivial)).bind ?_
    intro r w₁ t _
    have hstarted : ∀ n : Node Job, n.control.childFailure = none →
        Undisturbed ({ s with root := n } : Spine Job).nodes :=
      fun n hn => undisturbed_cons (fun _ => hn) h.tail
    dsimp only
    split
    · exact Act.meets_pure (hstarted _ (by simp [Control.apply]))
    · exact fail_undisturbed (hstarted _ (by simp [Control.apply])) _
  · exact Act.meets_pure h

theorem TurnTaken.faces {root : Node Job} {turn : Turn Job}
    (h : s.TurnTaken w root turn w' trail) :
    root.task.kind = .goto → root.control.childFailure = none := by
  obtain ⟨s₁, w₁, t₁, records, -, -, -, hturn, rfl, -⟩ := h
  exact (Job.turn_faces s₁.root.task).of_ok hturn

/-- By induction on the levels of the tick. -/
theorem Ticked.undisturbed (h : Ticked s w s' w' trail refused) (hs : Undisturbed s.nodes) :
    Undisturbed s'.nodes := by
  induction h with
  | gaveUp hready hstopped => exact (ready_undisturbed hs).of_ok hready
  | @failed s s' w w₁ w' root turn t₁ t₂ reason htaken hreason hfail =>
      have hturned : Undisturbed ({ s with root } : Spine Job).nodes :=
        undisturbed_cons htaken.faces hs.tail
      exact (fail_undisturbed hturned reason).of_ok hfail
  | alone => exact undisturbed_alone _
  | @onward s sub s' w w₁ w₂ w₃ w' root m rest turn t₁ notes t₂ t₃ t₄ state refused refused'
      htaken hreason hnotes hsettled hsub hopening hrejoin ih =>
      have hheld : Undisturbed (m :: rest) := by
        rcases hsettled.kept_or_fresh with hkept | hfresh
        · exact hkept ▸ hs.tail
        · rw [hfresh]
          exact undisturbed_alone m
      have hrejoined : (rejoin { root with reportedState := state } sub : Act World _ _).Ensures w₃
          fun s' _ _ => Undisturbed s'.nodes := by
        rw [rejoin]
        split
        · exact Act.meets_pure (undisturbed_cons htaken.faces (ih hheld))
        · apply (Act.ensures_true _ w₃).bind
          intro _ _ _ _
          exact Act.meets_pure (undisturbed_alone _)
      exact hrejoined.of_ok hrejoin

/-! ## Steady spines -/

/-- A spine at rest or at work as a whole, each job delegated by the one before, in which no walk
that holds a step has a failure to deal with. -/
structure Steady (s : Spine Job) : Prop extends s.Tidy fun _ => True where
  undisturbed : Undisturbed s.nodes

theorem steady_ofTask (j : Job) : (ofTask j).Steady :=
  ⟨tidy_ofTask trivial, undisturbed_alone _⟩

theorem Tidy.sound {fit : Job → Prop} (h : s.Tidy fit) : s.Sound := by
  rcases h.state with hrest | hstarted
  · exact hrest.sound
  · have hroot := hstarted s.root List.mem_cons_self
    refine ⟨hroot.toHeld.sound, fun ha => by simp [hroot.active] at ha, ?_, ?_⟩
    · exact fun n hn => (hstarted n (List.mem_cons_of_mem _ hn)).toHeld
    · refine List.pairwise_of_forall_mem_list fun n hn _ _ hp => ?_
      simp [(hstarted n hn).started] at hp

theorem conduct_true :
    Conduct (fun _ => True) (fun _ => True) (fun _ => True) fun _ _ _ => True :=
  .lenient (fun _ _ => trivial) id (fun _ => trivial) (fun _ => trivial)
    (fun _ _ _ _ => trivial) fun _ _ => trivial

theorem Steady.tick (h : s.Steady) (trace : Trace) (w : World) :
    (s.tick trace).Ensures w fun r _ _ =>
      r.1.Steady ∧ r.1.root.task.kind = s.root.task.kind := by
  have htidy := h.tick_keeps conduct_true (w := w) trivial trace
  rw [Spine.tick] at htidy ⊢
  refine ((tickWithin_ticked depthLimit h.sound.kempt trace w).and htidy).imp ?_
  intro r w' t h'
  obtain ⟨⟨-, -, -, refused, hticked⟩, -, hworked, -⟩ := h'
  exact ⟨⟨hworked.tidy, hticked.undisturbed h.undisturbed⟩, hworked.kind⟩

/-- The holder of a root does nothing but tick it. Others may change the context as they like. -/
def Operation.SparesRoot {κ τ : Type} : Operation κ τ → Prop
  | tick _ | change _ => True
  | _ => False

theorem Steady.performAll {ops : List (Operation World Job)} (h : s.Steady)
    (hops : ∀ op ∈ ops, op.SparesRoot) (w : World) :
    (s.performAll ops).Ensures w fun s' _ _ =>
      s'.Steady ∧ s'.root.task.kind = s.root.task.kind := by
  induction ops generalizing s w with
  | nil => exact Act.meets_pure ⟨h, rfl⟩
  | cons op ops ih =>
      have hop := hops op List.mem_cons_self
      have hrest : ∀ op' ∈ ops, op'.SparesRoot :=
        fun op' hop' => hops op' (List.mem_cons_of_mem op hop')
      have hperform : (s.perform op).Ensures w fun s' _ _ =>
          s'.Steady ∧ s'.root.task.kind = s.root.task.kind := by
        cases op with
        | tick trace =>
            apply (h.tick trace w).bind
            exact fun r w' t h' => Act.meets_pure h'
        | change f =>
            apply (Act.ensures_true _ w).bind
            exact fun _ _ _ _ => Act.meets_pure ⟨h, rfl⟩
        | _ => exact hop.elim
      rw [Spine.performAll]
      apply hperform.bind
      intro s' w' t h'
      apply (ih h'.1 hrest w').imp
      exact fun s'' w'' u h'' => ⟨h''.1, h''.2.trans h'.2⟩

/-! ## Steps that have begun -/

/-- Room for a tick in which every node that is held takes its turn and two deeds are done. -/
structure HasRoom (s : Spine Job) (w : World) : Prop where
  jobs : ∀ n ∈ s.nodes, n.task.HasRoom w
  deeds : w.deedCount + 2 < 1 <<< 64

/-- A move in the direction was tried once, and nothing else was done. -/
def Tried (w : World) (d : Direction) (w' : World) : Prop :=
  ∃ moved notes, World.tryMove d w = .ok ⟨moved, w', notes⟩

theorem tick_step {n : Node Job} {t : Step} {depth : Nat} {trace : Trace} (hn : n.Started)
    (ht : n.task = .step t) (hway : t.isUnderWay = true) :
    (tickWithin (depth + 1) { root := n } trace).Meets w
      (fun e => e = .overflow ∧ ¬ (Job.step t).HasRoom w) fun r w' _ =>
        Tried w t.direction w' ∧ (r.1.root.failure = none → r.1.MakesRoom) := by
  refine tickWithin_turn (R := fun s' w' => Tried w t.direction w' ∧
    (s'.root.failure = none → s'.MakesRoom)) ?_
  rw [ready]
  rw [if_neg (by simp [hn.started])]
  refine Act.meets_pure ⟨hn.unstopped, ?_⟩
  dsimp only
  rw [ht]
  apply (Step.turn_tries hway).imp
  intro turn w₁ notes h₁
  obtain ⟨htried, hcandidate, landed, htask, hlanded⟩ := h₁
  refine ⟨?_, ?_⟩
  · intro reason _
    have hnodes : ∀ m ∈ ({ root := turned n turn } : Spine Job).nodes, m.task.isEat = false := by
      intro m hm
      obtain rfl := List.mem_singleton.mp hm
      rw [turned, htask]
      rfl
    apply (fail_walk hnodes reason).imp
    intro s' w₂ t₂ h₂
    obtain ⟨hfailure, rfl⟩ := h₂
    exact ⟨htried, fun hnone => by simp [hfailure] at hnone⟩
  · intro hnone m hm
    rw [hcandidate]
    have hnil : (settle m [] none).Meets w₁
        (fun e => e = .overflow ∧ ¬ (Job.step t).HasRoom w) fun below w₂ _ =>
          below = [] ∧ w₂ = w₁ := Act.meets_pure ⟨rfl, rfl⟩
    apply hnil.imp
    intro below w₂ t₂ h₂
    obtain ⟨rfl, rfl⟩ := h₂
    refine ⟨fun _ => ⟨htried, fun _ => ?_⟩, fun m' rest hcons => by cases hcons⟩
    intro m' hm' w candidate
    obtain rfl := List.mem_singleton.mp hm'
    have htask' : m'.task = .step { t with progress := t.progress + 1, landed } := by
      rw [hm, turned]
      exact htask
    rw [Node.refuses_step htask', hlanded hnone]
    simp [Step.isUnderWay]

theorem tick_vetoed {F : Fault → Prop} {depth : Nat} {trace : Trace} {m : Node Job}
    {rest : List (Node Job)} {Q : World → Prop} (hn : s.root.Started)
    (hstep : s.root.task.kind ≠ .step) (hbelow : s.below = m :: rest)
    (hway : ∃ n ∈ s.below, ∃ t, n.task = .step t ∧ t.isUnderWay = true)
    (hturn : (s.root.task.turn s.root.control).Meets w F fun turn w₁ _ =>
      turn.reply.failure = none ∧ turn.task.kind = s.root.task.kind ∧ ∀ trace,
        (tickWithin depth { root := m, below := rest } trace).Meets w₁ F fun r w₂ _ =>
          Q w₂ ∧ (r.1.root.failure = none → r.1.MakesRoom)) :
    (tickWithin (depth + 1) s trace).Meets w F fun r w' _ => Q w' ∧ r.1.MakesRoom := by
  refine tickWithin_meets (R := fun s' w' => Q w' ∧ s'.MakesRoom) ?_
  rw [ready]
  rw [if_neg (by simp [hn.started])]
  refine Act.meets_pure ⟨hn.unstopped, ?_⟩
  apply hturn.imp
  intro turn w₁ t₁ h₁
  obtain ⟨hnone, hkind, hsub⟩ := h₁
  refine ⟨hnone, ?_⟩
  intro n hn'
  apply (settle_vetoed hway turn.candidate).imp
  intro below w₂ t₂ h₂
  obtain ⟨rfl, rfl⟩ := h₂
  refine ⟨fun hnil => by simp [hnil] at hbelow, ?_⟩
  intro m' rest' hm' trace'
  obtain ⟨rfl, rfl⟩ := List.cons.inj (hm'.symm.trans hbelow)
  have hroot : ∀ n' : Node Job, n'.task = n.task → ∀ w candidate,
      n'.refuses w candidate = false := by
    intro n' htask w candidate
    rw [Bool.eq_false_iff]
    intro hrefuses
    obtain ⟨t, ht, -⟩ := Node.refuses_iff.mp hrefuses
    rw [htask, hn', turned] at ht
    dsimp only at ht
    rw [ht] at hkind
    exact hstep hkind.symm
  apply (hsub trace').imp
  intro r w₃ t₃ h₃
  obtain ⟨hQ, hroom⟩ := h₃
  rw [rejoin]
  cases hfailure : r.1.root.failure with
  | none =>
      have hreport : r.1.root.failureReport = none := by simp [Node.failureReport, hfailure]
      simp only [hreport]
      refine Act.meets_pure ⟨hQ, ?_⟩
      intro n' hn'
      rcases List.mem_cons.mp hn' with rfl | hn'
      · exact hroot _ rfl
      · exact hroom hfailure n' hn'
  | some reason =>
      have hreport : r.1.root.failureReport =
          some { task := Task.label r.1.root.task, reason } := by
        simp [Node.failureReport, hfailure]
      simp only [hreport]
      apply (dropAll_meets _ w₃).bind
      intro _ w₄ t₄ h₄
      obtain ⟨rfl, -⟩ := h₄
      refine Act.meets_pure ⟨hQ, ?_⟩
      intro n' hn'
      obtain rfl := List.mem_singleton.mp hn'
      exact hroot _ rfl

variable {n m : Node Job} {g : Goto} {t : Step} {mob : Nat} {depth : Nat} {trace : Trace}

/-- A walk without a failure to deal with lets the step under way that it holds try its move. -/
theorem tick_goto_step (hn : n.Started) (hg : n.task = .goto g)
    (hface : n.control.childFailure = none) (hm : m.Started) (ht : m.task = .step t)
    (hway : t.isUnderWay = true) :
    (tickWithin (depth + 2) { root := n, below := [m] } trace).Meets w
      (fun e => e = .overflow ∧ ¬ ((Job.goto g).HasRoom w ∧ (Job.step t).HasRoom w))
      fun r w' _ => Tried w t.direction w' ∧ r.1.MakesRoom := by
  refine tick_vetoed hn (by simp [hg, Job.kind]) rfl ⟨m, List.mem_singleton_self m, t, ht, hway⟩ ?_
  dsimp only
  rw [hg]
  refine (Act.Meets.ran (Goto.turn_keeps g)).mono (fun e he => ⟨he.1, fun h => he.2 h.1⟩) ?_
  intro turn w₁ notes h₁
  obtain ⟨hrun, -, hturned⟩ := h₁
  obtain ⟨-, rfl, -, hreply⟩ := (Goto.turn_reply g).of_ok hrun
  refine ⟨hreply hface, hturned.kind, ?_⟩
  intro trace'
  exact (tick_step hm ht hway).mono (fun e he => ⟨he.1, fun h => he.2 h.2⟩) fun _ _ _ h => h

/-- A fight hits its mob at the most and lets the step under way that its walk holds try its
move. -/
theorem tick_kill_goto (hs : s.root.Started) (hkill : s.root.task = .kill mob)
    (hbelow : s.below = [n, m]) (hn : n.Started) (hg : n.task = .goto g)
    (hface : n.control.childFailure = none) (hm : m.Started) (ht : m.task = .step t)
    (hway : t.isUnderWay = true) :
    (tickWithin (depth + 3) s trace).Meets w (fun e => e = .overflow ∧ ¬ s.HasRoom w)
      fun r w' _ => (∃ u, (u = w ∨ ∃ mob, w.Did (.attack mob) u) ∧ Tried u t.direction w') ∧
        r.1.MakesRoom := by
  have hheld : ∃ m ∈ s.below, ∃ t, m.task = .step t ∧ t.isUnderWay = true :=
    ⟨m, by simp [hbelow], t, ht, hway⟩
  refine tick_vetoed (Q := fun w' => ∃ u, (u = w ∨ ∃ mob, w.Did (.attack mob) u) ∧
    Tried u t.direction w') hs (by simp [hkill, Job.kind]) hbelow hheld ?_
  have hroot : s.HasRoom w → (Job.kill mob).HasRoom w :=
    fun h => hkill ▸ h.jobs s.root List.mem_cons_self
  rw [hkill]
  refine (Act.Meets.ran (Job.fight_keeps mob)).mono
    (fun e he => ⟨he.1, fun h => he.2 (hroot h)⟩) ?_
  intro turn w₁ notes h₁
  obtain ⟨hrun, -, hturned⟩ := h₁
  have hstill := hturned.still (show 0 < Job.Kind.kill.rank by decide)
  have hkept : ∀ j : Job, s.HasRoom w → j.HasRoom w → j.HasRoom w₁ := by
    intro j hroom hj
    rcases hstill with rfl | ⟨mob', hdid⟩
    · exact hj
    · exact hj.attacked hdid hroom.deeds
  refine ⟨((Job.fight_reply mob).of_ok hrun).2, hturned.kind, ?_⟩
  intro trace'
  refine (tick_goto_step hn hg hface hm ht hway).mono ?_ ?_
  · intro e he
    refine ⟨he.1, fun hroom => he.2 ⟨?_, ?_⟩⟩
    · exact hkept _ hroom (hg ▸ hroom.jobs n (by simp [nodes, hbelow]))
    · exact hkept _ hroom (ht ▸ hroom.jobs m (by simp [nodes, hbelow]))
  · intro r w₂ t₂ h₂
    exact ⟨⟨w₁, hstill, h₂.1⟩, fun _ => h₂.2⟩

theorem lined_goto {rest : List (Node Job)}
    (h : (n :: rest).IsChain fun a b => a.task.kind.Delegates b.task.kind)
    (hn : n.task.kind = .goto) : rest = [] ∨ ∃ m, rest = [m] ∧ m.task.kind = .step := by
  cases rest with
  | nil => exact Or.inl rfl
  | cons m rest =>
      obtain ⟨hm, hrest⟩ := List.isChain_cons_cons.mp h
      have hstep : m.task.kind = .step := by
        rw [hn] at hm
        exact hm.of_goto
      cases rest with
      | nil => exact Or.inr ⟨m, rfl, hstep⟩
      | cons b rest =>
          have hb := (List.isChain_cons_cons.mp hrest).1
          rw [hstep] at hb
          cases hb

/-- A walk or a fight with a step on its spine: a walk holds the step, and it is the root or held
by the root. -/
theorem Steady.shape (h : s.Steady) (hroot : s.root.task.kind = .goto ∨ s.root.task.kind = .kill)
    (hm : m ∈ s.nodes) (ht : m.task.kind = .step) :
    s.root.task.kind = .goto ∧ s.below = [m] ∨
      s.root.task.kind = .kill ∧ ∃ n, n.task.kind = .goto ∧ s.below = [n, m] := by
  have hlined := h.lined
  have hm : m ∈ s.below := by
    rcases List.mem_cons.mp hm with rfl | hm
    · simp [ht] at hroot
    · exact hm
  rw [nodes] at hlined
  rcases hroot with hgoto | hkill
  · rcases lined_goto hlined hgoto with hnil | ⟨m', hbelow, -⟩
    · simp [hnil] at hm
    · rw [hbelow, List.mem_singleton] at hm
      exact Or.inl ⟨hgoto, by rw [hbelow, hm]⟩
  · cases hbelow : s.below with
    | nil => simp [hbelow] at hm
    | cons n rest =>
        rw [hbelow] at hlined hm
        obtain ⟨hn, hrest⟩ := List.isChain_cons_cons.mp hlined
        have hgoto : n.task.kind = .goto := by
          rw [hkill] at hn
          exact hn.of_kill
        have hne : m ≠ n := by
          rintro rfl
          simp [ht] at hgoto
        have hm := (List.mem_cons.mp hm).resolve_left hne
        rcases lined_goto hrest hgoto with hnil | ⟨m', hrest, -⟩
        · simp [hnil] at hm
        · rw [hrest, List.mem_singleton] at hm
          exact Or.inr ⟨hkill, n, hgoto, by rw [hrest, hm]⟩

theorem Steady.tick_underWay (h : s.Steady)
    (hroot : s.root.task.kind = .goto ∨ s.root.task.kind = .kill) (hm : m ∈ s.nodes)
    (ht : m.task = .step t) (hway : t.isUnderWay = true) (trace : Trace) (w : World) :
    (s.tick trace).Meets w (fun e => e = .overflow ∧ ¬ s.HasRoom w) fun r w' _ =>
      (∃ u, (u = w ∨ ∃ mob, w.Did (.attack mob) u) ∧ Tried u t.direction w') ∧
        r.1.MakesRoom := by
  have hstep : m.task.kind = .step := by
    rw [ht]
    rfl
  obtain ⟨depth, htick⟩ := exists_depth s trace
  rw [htick]
  have hundisturbed := h.undisturbed
  have hstarted := h.started
  rcases h.shape hroot hm hstep with ⟨hgoto, hbelow⟩ | ⟨hkill, n, hgoto, hbelow⟩
  · have hstarted := hstarted fun hrest => by simp [hrest.alone] at hbelow
    obtain ⟨g, hg⟩ := Job.exists_goto hgoto
    rw [nodes, hbelow] at hundisturbed hstarted
    have hspine : s = { root := s.root, below := [m] } := by rw [← hbelow]
    rw [hspine]
    refine (tick_goto_step (hstarted _ (by simp)) hg
      ((List.isChain_cons_cons.mp hundisturbed).1 hgoto) (hstarted m (by simp)) ht hway).mono ?_ ?_
    · intro e he
      refine ⟨he.1, fun hroom => he.2 ⟨?_, ?_⟩⟩
      · exact hg ▸ hroom.jobs _ (by simp [nodes])
      · exact ht ▸ hroom.jobs m (by simp [nodes])
    · intro r w' _ h'
      exact ⟨⟨w, Or.inl rfl, h'.1⟩, h'.2⟩
  · have hstarted := hstarted fun hrest => by simp [hrest.alone] at hbelow
    obtain ⟨mob, hkill⟩ := Job.exists_kill hkill
    obtain ⟨g, hg⟩ := Job.exists_goto hgoto
    rw [nodes, hbelow] at hundisturbed hstarted
    exact tick_kill_goto (hstarted _ (by simp)) hkill hbelow (hstarted n (by simp)) hg
      ((List.isChain_cons_cons.mp hundisturbed.tail).1 hgoto) (hstarted m (by simp)) ht hway

/-- Take a walk or a fight that nobody stops, interrupts or fails, while others change the world as
they like between its ticks. If its spine ends with a step under way, the next tick tries the move
of that step, once, whatever the tasks above ask for; beside that it can only hit a mob. After it
no node refuses to make room. So a veto never overrules a task in two ticks in a row. A tick for
which the world has room goes through. -/
theorem begun_step_lands (j : Job) (hj : j.isGoto = true ∨ j.isKill = true)
    (ops : List (Operation World Job)) (hops : ∀ op ∈ ops, op.SparesRoot) (w : World) :
    ((ofTask j).performAll ops).Ensures w fun s _ _ =>
      (∀ n t, s.nodes.getLast? = some n → n.task = .step t → t.isUnderWay = true →
        ∀ v trace, (s.tick trace).Meets v (fun e => e = .overflow ∧ ¬ s.HasRoom v) fun r v' _ =>
          (∃ u, (u = v ∨ ∃ mob, v.Did (.attack mob) u) ∧ Tried u t.direction v') ∧
            r.1.MakesRoom) ∧
      ∀ v trace, (s.tick trace).Ensures v fun r _ _ =>
        s.Overruled v → ∀ v', ¬ r.1.Overruled v' := by
  have hkind : j.kind = .goto ∨ j.kind = .kill := by
    cases j with
    | goto g => exact Or.inl rfl
    | kill mob => exact Or.inr rfl
    | _ => simp [Job.isGoto, Job.isKill] at hj
  apply ((steady_ofTask j).performAll hops w).imp
  intro s w' t h
  obtain ⟨hsteady, hroot⟩ := h
  have hroot : s.root.task.kind = .goto ∨ s.root.task.kind = .kill := by
    rw [hroot]
    exact hkind
  refine ⟨?_, ?_⟩
  · intro n t hlast ht hway v trace
    exact hsteady.tick_underWay hroot (List.mem_of_getLast? hlast) ht hway trace v
  · intro v trace
    refine (Act.ensures_run _ v).imp ?_
    intro r v' t hrun hover
    obtain ⟨n, hn, t, ht, hway⟩ := hover.refuses
    have hmem : n ∈ s.nodes := List.mem_cons_of_mem _ hn
    have hlands := (hsteady.tick_underWay hroot hmem ht hway trace v).of_ok hrun
    exact fun v' => hlands.2.not_overruled v'

def hunt : World := { mobs := [⟨1, ⟨3, 0⟩, 8⟩] }

def runaway : List (Operation World Job) := [.tick {}, .change (World.moveMob 1 ⟨0, 5⟩)]

def hunting : Node Job :=
  { task := .step { source := ⟨0, 0⟩, direction := .east, progress := 1 }
    control := { state := "1/2" }, reportedState := "1/2", pending := false, active := true }

def hunter : Spine Job where
  root :=
    { task := .kill 1, control := { state := "approaching" }, reportedState := "approaching"
      pending := false, active := true }
  below :=
    [{ task := .gotoWithin ⟨3, 0⟩ 1, control := { state := "3 left" }, reportedState := "3 left"
       pending := false, active := true },
     hunting]

def chase : Turn Job :=
  { task := .kill 1, reply := { state := "approaching" }, candidate := some (.gotoWithin ⟨0, 5⟩ 1) }

theorem hunter_overruled : hunter.Overruled (World.moveMob 1 ⟨0, 5⟩ hunt) := by
  have htaken : hunter.TurnTaken (World.moveMob 1 ⟨0, 5⟩ hunt) hunter.root chase
      (World.moveMob 1 ⟨0, 5⟩ hunt) [.ticked (.kill 1)] :=
    ⟨hunter, _, [], [], rfl, rfl, rfl, rfl, rfl, rfl⟩
  exact .root (n := hunting) htaken rfl (by decide) (by decide) rfl

theorem begun_step_lands_runaway :
    ∃ d, (ofTask (.kill 1)).performAll runaway hunt = .ok d ∧ d.value.Overruled d.context ∧
      ∃ r, d.value.tick {} d.context = .ok r ∧
        (∃ u, (u = d.context ∨ ∃ mob, d.context.Did (.attack mob) u) ∧
          Tried u .east r.context) ∧
        ¬ r.value.1.Overruled r.context := by
  obtain ⟨d, hd, hp⟩ := Act.exists_ok (m := (ofTask (.kill 1)).performAll runaway) (k := hunt)
    (p := fun d => decide (d.value = hunter ∧ d.context = World.moveMob 1 ⟨0, 5⟩ hunt))
    (by decide +kernel)
  obtain ⟨hvalue, hcontext⟩ := of_decide_eq_true hp
  have hops : ∀ op ∈ runaway, op.SparesRoot := by
    simp [runaway, Operation.SparesRoot]
  have hover : d.value.Overruled d.context := by
    rw [hvalue, hcontext]
    exact hunter_overruled
  have hroom : d.value.HasRoom d.context := by
    rw [hvalue, hcontext]
    refine ⟨?_, by decide⟩
    intro n hn
    refine ⟨⟨⟨by decide, by decide, by decide, by decide⟩, by decide, by decide⟩, ?_, ?_, by decide⟩
    · revert n
      decide
    · revert n
      decide
  -- Nothing may evaluate the run when the theorem is applied to it.
  generalize runaway = ops at hd hops ⊢
  have hrun := (begun_step_lands (.kill 1) (Or.inr rfl) ops hops hunt).of_ok hd
  have hlast : d.value.nodes.getLast? = some hunting := by
    rw [hvalue]
    rfl
  obtain ⟨r, hr, htried, -⟩ := ((hrun.1 hunting _ hlast rfl rfl d.context {}).mono
    (G := fun _ => False) (fun e he => he.2 hroom) fun _ _ _ h => h).ok
  exact ⟨d, hd, hover, r, hr, htried, (hrun.2 d.context {}).of_ok hr hover r.context⟩

end Spine

end Arbiter
