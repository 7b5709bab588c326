import Arbiter.Proofs.Conduct.Agent

/-! Meals and their frames. One frame is open while the agent eats and none otherwise, so no frame
is ever missing when a meal ends. -/

namespace Arbiter

/-! ## Meals on a spine -/

namespace Spine

variable {fit : Job → Prop} {s : Spine Job}

theorem Tidy.isEat_below (hs : s.Tidy fit) : ∀ n ∈ s.below, n.task.isEat = false := by
  have hlined := hs.lined
  rw [nodes] at hlined
  generalize s.root = root, s.below = below at hlined
  induction below generalizing root with
  | nil => simp
  | cons m below ih =>
      obtain ⟨hdelegates, hlined⟩ := List.isChain_cons_cons.mp hlined
      intro n hn
      rcases List.mem_cons.mp hn with rfl | hn
      · rw [Bool.eq_false_iff, Ne, Job.isEat_iff]
        exact hdelegates.ne_eat
      · exact ih m hlined n hn

theorem Tidy.countP_isEat (hs : s.Tidy fit) :
    s.atWork.countP Job.isEat = if s.root.active && s.anyTask Job.isEat then 1 else 0 := by
  have hbelow := hs.isEat_below
  have hcount : (s.below.map Node.task).countP Job.isEat = 0 := by
    simpa [List.countP_eq_zero] using hbelow
  have hany : s.anyTask Job.isEat = s.root.task.isEat := by
    have hnone : (s.below.any fun n => n.task.isEat) = false := by simpa using hbelow
    rw [anyTask, nodes, List.any_cons, hnone, Bool.or_false]
  rw [atWork, hany]
  by_cases hactive : s.root.active
  · simp [hactive, nodes, List.countP_cons, hcount]
  · simp [hactive]

end Spine

/-- A meal is at work exactly while the agent eats. -/
theorem Agent.countP_isEat {a : Agent} {fit : Job → Prop} (ha : a.runner.Tidy True fit) :
    a.runner.atWork.countP Job.isEat = if a.isEating then 1 else 0 := by
  unfold isEating activeTreeContains currentSpine
  cases hcurrent : a.runner.currentChain with
  | none => simp [Runner.atWork_of_resting (ha.resting trivial hcurrent)]
  | some c =>
      obtain ⟨i, hi, hc⟩ := Option.bind_eq_some_iff.mp hcurrent
      rw [ha.atWork_holder trivial hi hc, SingleChain.atWork]
      cases hspine : c.inner.spine with
      | none => simp [hspine]
      | some s =>
          simp only [Option.bind_some, hspine]
          exact (ha.tidy c (List.mem_of_getElem? hc) s hspine).countP_isEat

/-! ## Frames -/

namespace World

/-- The record of a frame that is closed without being open. -/
def missingFrame : Record := ⟨.warn, "behaviour stack popped while empty", []⟩

/-- A frame for every meal at work, and no other. -/
def Served (js : List Job) (w : World) : Prop :=
  w.frames = List.replicate (js.countP Job.isEat) Job.mealFrame

theorem served_conduct :
    Conduct (fun _ => True) (· ≠ missingFrame) (fun _ => True) fun _ js w => w.Served js := by
  refine Conduct.lenient ?_ id ?_ ?_ ?_ ?_
  · rintro record hroutine rfl
    simp [Record.IsRoutine, missingFrame] at hroutine
  · intro r a b j w h
    have hrestarted := Job.isEat_of_kind j.kind_restarted
    unfold Served at h ⊢
    rw [h, Job.frames, List.countP_append, List.countP_append, List.countP_cons, hrestarted]
    cases j.isEat with
    | true => rw [if_pos rfl, if_pos rfl, List.singleton_append, ← List.replicate_succ]; rfl
    | false => rfl
  · intro r a b j w h
    unfold Served at h ⊢
    dsimp only
    rw [h, Job.frames, List.countP_append, List.countP_append, List.countP_cons]
    cases j.isEat with
    | true => rw [if_pos rfl, if_pos rfl, List.length_singleton, ← Nat.add_assoc]; rfl
    | false => rfl
  · intro r a b j w h hframes hnil
    unfold Served at h
    have heat : j.isEat = true := by
      by_contra hne
      exact hframes (by simp [Job.frames, hne])
    rw [hnil, List.countP_append, List.countP_cons, if_pos heat, ← Nat.add_assoc,
      List.replicate_succ] at h
    cases h
  · intro a b j w turn w' h ht
    have hframes : w'.frames = w.frames := by
      rcases ht.deed with rfl | ⟨d, hd⟩
      · rfl
      · exact hd.frames
    have heat := Job.isEat_of_kind ht.kind
    unfold Served at h ⊢
    rw [hframes, h, List.countP_append, List.countP_append, List.countP_cons, List.countP_cons,
      heat]

theorem advance_served {js : List Job} {w : World} (h : w.Served js) :
    advance.Keeps w (fun _ => True) (· ≠ missingFrame) fun _ w' => w'.Served js := by
  refine (advance_keeps w).mono (fun _ _ => trivial) served_conduct.routine ?_
  rintro _ w' ⟨hunger, -, rfl⟩
  exact h

theorem protects_mealFrame (i : Item) : Frames.protects [Job.mealFrame] i = i.isFood := by
  cases i <;> decide

end World

/-! ## Runs -/

namespace Agent

/-- However an agent is run, a single frame is open while it eats, which protects exactly the food,
and no frame is open otherwise. No frame is ever missing when one is to be closed. -/
theorem meals_balanced {p : AgentPlan} {a : Agent} {k k' : World} {trail : List (Happening Job)}
    (ops : List Operation) (hbuild : p.build k = .ok ⟨.ok a, k', trail⟩)
    (hextra : ∀ c ∈ p.extra, ∃ chain, c = .single chain ∧ Chain.Resting chain)
    (hempty : (p.world.getD {}).frames = [])
    (hchange : ∀ f, .change f ∈ ops → ∀ w : World, (f w).frames = w.frames) :
    (performAll ops).Ensures a fun _ b t =>
      (if b.isEating then
        b.world.frames.length = 1 ∧ ∀ i, b.world.frames.protects i = i.isFood
      else b.world.frames.length = 0 ∧ ∀ i, b.world.frames.protects i = false) ∧
        World.missingFrame ∉ records t := by
  have htidy : ∀ c ∈ p.extra, c.inner.Tidy (fun _ => True) ∧ (True → Chain.Resting c) := by
    intro c hc
    obtain ⟨chain, rfl, hrest⟩ := hextra c hc
    exact ⟨fun s hs => (hrest s hs).tidy trivial, fun _ => hrest⟩
  obtain ⟨hrunner, hnobody, hworld⟩ := AgentPlan.build_tidy hbuild htidy
  have hserved : a.world.Served a.runner.atWork := by
    rw [hnobody trivial, hworld]
    exact hempty
  have hops : ∀ op ∈ ops, op.Fits (fun _ => True) fun _ js w => w.Served js := by
    intro op hop
    cases op with
    | change f =>
        intro n js w h
        exact (hchange f hop w).trans h
    | _ => trivial
  have hrun := Follows.performAll_keeps (V := fun _ _ js w => w.Served js) (n := 0)
    (fun _ => World.served_conduct) (fun _ _ _ _ h => World.advance_served h) hops (Nat.le_refl _)
    ⟨hrunner, hserved⟩
  refine Act.Meets.imp hrun ?_
  rintro _ b t ⟨hrecords, hb⟩
  constructor
  · have hframes : b.world.frames = List.replicate _ Job.mealFrame := hb.work
    rw [countP_isEat hb.runner] at hframes
    rw [hframes]
    cases b.isEating with
    | true => exact ⟨rfl, World.protects_mealFrame⟩
    | false => exact ⟨rfl, fun _ => rfl⟩
  · intro hmissing
    obtain ⟨x, hx, hrecord⟩ := List.mem_filterMap.mp hmissing
    cases x with
    | noted record =>
        obtain rfl := Option.some.inj hrecord
        exact hrecords _ hx rfl
    | _ => cases hrecord

def dinner : AgentPlan where
  world := some { inventory := { bread := 2 } }
  extra := [.single
    { name := "Snack", priority := fun _ => .ofInt 40, spine := some (.ofTask .eatFood) }]

theorem meals_balanced_dinner :
    ∃ a trail d, AgentPlan.build dinner {} = .ok ⟨.ok a, {}, trail⟩ ∧
      performAll [.change fun w => { w with hunger := 9 }, .request .eatFood none, .tick] a =
        .ok d ∧
      d.context.isEating = true ∧ d.context.world.frames.length = 1 ∧
      d.context.world.frames.protects .bread = true ∧ World.missingFrame ∉ records d.trail := by
  obtain ⟨⟨value, context, trail⟩, hbuild, hp⟩ := Act.exists_ok (m := AgentPlan.build dinner)
    (k := {})
    (p := fun e => decide (e.context = {}) && match e.value with
      | .ok a => (performAll
          [.change fun w => { w with hunger := 9 }, .request .eatFood none, .tick]).passes a
            fun d => d.context.isEating
      | .error _ => false)
    (by decide +kernel)
  simp only [Bool.and_eq_true, decide_eq_true_eq] at hp
  obtain ⟨rfl, hp⟩ := hp
  cases value with
  | error e => cases hp
  | ok a =>
      obtain ⟨d, hd, heating⟩ := Act.exists_ok hp
      have hrun := meals_balanced
        [.change fun w => { w with hunger := 9 }, .request .eatFood none, .tick] hbuild
        (fun c hc => ⟨_, List.mem_singleton.mp hc, by
          intro s hs
          cases hs
          exact Spine.resting_ofTask _⟩)
        rfl
        (fun f hf w => by
          have hf : f = fun w => { w with hunger := 9 } := by simpa using hf
          rw [hf])
      obtain ⟨hbalance, hrecords⟩ := hrun.of_ok hd
      rw [if_pos heating] at hbalance
      exact ⟨a, trail, d, hbuild, hd, heating, hbalance.1, hbalance.2 .bread, hrecords⟩

end Agent

end Arbiter
