import Arbiter.Agent.Basic
import Arbiter.Proofs.Ticks

/-! How an agent is built, how it takes requests before its first tick, and how a tick of it goes
when one chain is selected. -/

namespace Arbiter

variable {F : Fault → Prop}

/-! ## User chains that wait -/

theorem Spine.Resting.stopAndDrop_meets {κ τ : Type} [Task κ τ] {s : Spine τ} (h : s.Resting)
    (taker : Option τ) (k : κ) :
    (Spine.stopAndDrop taker s.nodes).Meets k F fun _ k' _ => k' = k := by
  rw [Spine.stopAndDrop]
  refine Act.Meets.bind (P := fun _ k' _ => k' = k) ?_ ?_
  · have hinactive := h.inactive
    rw [Spine.nodes, h.alone, Spine.haltAll, if_neg (by simp [hinactive])]
    apply (Spine.dropAll_meets _ k).bind
    intro _ k' t hk
    exact Act.meets_pure hk.1
  · intro halted k' t hk
    apply (Spine.dropAll_meets halted k').imp
    intro _ k'' u hu
    exact hu.1.trans hk

namespace UserChain

/-- A user chain whose root, if there is one, has not been ticked yet. -/
structure Waiting (u : UserChain Job) : Prop where
  priority : u.inner.priority = fun _ => UserChain.priority
  resting : ∀ s, u.inner.spine = some s → s.Resting

variable {u : UserChain Job} {w : World}

theorem waiting_ofIdle (idle : Bool) : (ofIdle idle : UserChain Job).Waiting :=
  ⟨by unfold ofIdle SingleChain.ofPriority; rfl, by simp [ofIdle, SingleChain.ofPriority]⟩

theorem Waiting.vacate (h : u.Waiting) (taker : Option Job) :
    (u.inner.vacate taker).Meets w F fun _ w' _ => w' = w := by
  rw [SingleChain.vacate]
  split
  · exact Act.meets_pure rfl
  · next s hs => exact (h.resting s hs).stopAndDrop_meets taker w

theorem answer_meets (o : Outcome) :
    (u.answer o).Meets w F fun v w' _ => v.inner = u.inner ∧ w' = w := by
  rw [answer]
  split
  · exact Act.meets_pure ⟨rfl, rfl⟩
  · apply Act.Meets.bind (P := fun _ w' _ => w' = w) (Act.meets_tellAll rfl)
    intro _ w' t hw
    exact Act.meets_pure ⟨rfl, hw⟩

theorem Waiting.run (h : u.Waiting) (job : Job) (callback : Option Callback) :
    (u.run job callback).Meets w F fun r w' _ => r.2.Waiting ∧ w' = w := by
  have hinner : (u.inner.run job).Meets w F fun r w' _ =>
      (r.2.priority = (fun _ => UserChain.priority) ∧ ∀ s, r.2.spine = some s → s.Resting) ∧
        w' = w := by
    rw [SingleChain.run]
    split
    · exact Act.meets_pure ⟨⟨h.priority, h.resting⟩, rfl⟩
    · apply (h.vacate (some job)).bind
      intro _ w' t hw
      refine Act.Meets.note_bind (Act.meets_pure ⟨⟨h.priority, ?_⟩, hw⟩)
      intro s hs
      cases hs
      exact Spine.resting_ofTask job
  rw [UserChain.run]
  apply hinner.bind
  intro r w' t hr
  obtain ⟨accepted, inner⟩ := r
  obtain ⟨⟨hpriority, hresting⟩, rfl⟩ := hr
  cases accepted with
  | false => exact Act.meets_pure ⟨⟨hpriority, hresting⟩, rfl⟩
  | true =>
      apply (answer_meets .cancelled).bind
      intro v w'' t' hv
      obtain ⟨hv, rfl⟩ := hv
      have hwaiting : ∀ v' : UserChain Job, v'.inner = v.inner → v'.Waiting := by
        intro v' hv'
        rw [hv] at hv'
        exact ⟨by rw [hv']; exact hpriority, by rw [hv']; exact hresting⟩
      apply Act.Meets.get_bind
      split
      · exact Act.Meets.note_bind (Act.meets_pure ⟨hwaiting _ rfl, rfl⟩)
      · exact Act.meets_pure ⟨hwaiting _ rfl, rfl⟩

end UserChain

/-! ## New agents -/

namespace AgentPlan

/-- The built-in chains below the one that leaves hazards, with a user chain. -/
def followers (c : Config) (u : UserChain Job) : List AgentChain :=
  [.reactive (.ofTrigger (.mob c.defenseRadius)),
   .reactive (.ofTrigger (.stuck c.stuckTicks)),
   .reactive (.ofTrigger (.hunger c.hungerThreshold)),
   .user u]

end AgentPlan

namespace Agent

/-- An agent with the built-in chains only, none of which has been ticked. -/
structure New (c : Config) (w : World) (a : Agent) : Prop where
  chains : ∃ u : UserChain Job, u.Waiting ∧
    a.runner.chains = .reactive (.ofTrigger .hazard) :: AgentPlan.followers c u
  current : a.runner.current = none
  enabled : a.runner.enabled = true
  userPlace : a.userPlace = some AgentPlan.userPlace
  world : a.world = w

end Agent

namespace Runner

variable {κ τ χ : Type} [Chain κ τ χ]

theorem registerAll_meets (r : Runner χ) (cs : List χ) (k : κ) :
    (r.registerAll cs : Act κ (Happening τ) (Runner χ)).Meets k F fun r' k' _ =>
      r' = { r with chains := r.chains ++ cs } ∧ k' = k := by
  induction cs generalizing r with
  | nil => exact Act.meets_pure ⟨by simp, rfl⟩
  | cons c cs ih =>
      rw [registerAll]
      refine Act.Meets.bind (P := fun p k' _ =>
        p.2 = { r with chains := r.chains ++ [c] } ∧ k' = k) ?_ ?_
      · rw [register]
        exact Act.Meets.note_bind (Act.meets_pure ⟨rfl, rfl⟩)
      · intro p k' t hp
        obtain ⟨place, r'⟩ := p
        obtain ⟨rfl, rfl⟩ := hp
        apply (ih _).imp
        intro r'' k'' t' h
        simpa using h

end Runner

theorem AgentPlan.build_meets {p : AgentPlan} (hbuiltin : p.builtin = true) (hextra : p.extra = [])
    (hvalid : p.config.validate = .ok ()) (k : World) :
    p.build.Meets k F fun r k' _ => (∃ a : Agent, r = .ok a ∧
      a.runner.chains = builtinChains p.config ∧
      a.New p.config { p.world.getD {} with rules := p.config.world }) ∧ k' = k := by
  rw [build]
  simp only [hvalid, hbuiltin, hextra, if_true, List.append_nil]
  apply (Runner.registerAll_meets _ _ k).bind
  intro r k' t hr
  obtain ⟨rfl, rfl⟩ := hr
  refine Act.Meets.note_bind (Act.meets_pure ⟨⟨_, rfl, rfl, ?_⟩, rfl⟩)
  exact ⟨⟨_, UserChain.waiting_ofIdle p.config.idleWhenInactive, rfl⟩, rfl, rfl, rfl, rfl⟩

theorem AgentPlan.build_ok {p : AgentPlan} (hbuiltin : p.builtin = true) (hextra : p.extra = [])
    (hvalid : p.config.validate = .ok ()) (k : World) :
    ∃ a trail, p.build k = .ok ⟨.ok a, k, trail⟩ ∧
      a.New p.config { p.world.getD {} with rules := p.config.world } := by
  obtain ⟨e, he, ⟨a, hvalue, -, hnew⟩, hk⟩ :=
    (build_meets (F := fun _ => False) hbuiltin hextra hvalid k).ok
  obtain ⟨value, context, trail⟩ := e
  obtain rfl : value = .ok a := hvalue
  obtain rfl : context = k := hk
  exact ⟨a, trail, he, hnew⟩

/-- How the first tick of an agent fails can be computed. -/
theorem AgentPlan.first_tick_error {p : AgentPlan} {k : World} {a : Agent}
    {trail : List (Happening Job)} {f : Fault} (hbuild : p.build k = .ok ⟨.ok a, k, trail⟩)
    (h : p.build.passes k (fun e => e.value.toOption.any fun a => Agent.tick.fails a f) = true) :
    Agent.tick a = .error f := by
  obtain ⟨e, he, hp⟩ := Act.exists_ok h
  obtain rfl := Except.ok.inj (hbuild.symm.trans he)
  exact Act.error_of_fails hp

theorem AgentPlan.exists_built {p : AgentPlan} {k : World} {q : Agent → Bool}
    (h : p.build.passes k (fun e => e.value.toOption.any q) = true) :
    ∃ a k' trail, p.build k = .ok ⟨.ok a, k', trail⟩ ∧ q a = true := by
  obtain ⟨⟨value, k', trail⟩, hbuild, hp⟩ := Act.exists_ok h
  cases value with
  | error e => cases hp
  | ok a => exact ⟨a, k', trail, hbuild, hp⟩

/-! ## Requests -/

namespace Agent

def requestAll : List (Job × Option Callback) → Act Agent (Happening Job) Unit
  | [] => pure ()
  | (job, callback) :: rest => do
    let _ ← runUserJob job callback
    requestAll rest

variable {c : Config} {w : World} {a : Agent}

theorem New.builtinUser? (h : a.New c w) :
    ∃ u : UserChain Job, a.builtinUser? = some (AgentPlan.userPlace, u) ∧ u.Waiting ∧
      a.runner.chains = .reactive (.ofTrigger .hazard) :: AgentPlan.followers c u := by
  obtain ⟨u, hu, hchains⟩ := h.chains
  refine ⟨u, ?_, hu, hchains⟩
  rw [Agent.builtinUser?]
  rw [h.userPlace, hchains]
  rfl

theorem New.onUser_run (h : a.New c w) (job : Job) (callback : Option Callback) :
    (onUser fun u => u.run job callback).Meets a F fun r b _ =>
      (∃ installed, r = .ok installed) ∧ b.New c w := by
  obtain ⟨u, huser, hu, hchains⟩ := h.builtinUser?
  rw [onUser]
  apply Act.Meets.get_bind
  simp only [huser]
  refine Act.Meets.bind (P := fun r b _ => r.2.Waiting ∧ b = a) ?_ ?_
  · refine Act.Meets.within ((hu.run job callback).imp ?_)
    intro r w' t hr
    obtain ⟨hr, rfl⟩ := hr
    exact ⟨hr, rfl⟩
  · intro r b t hr
    obtain ⟨installed, v⟩ := r
    obtain ⟨hv, rfl⟩ := hr
    apply Act.Meets.bind (P := fun _ b' _ =>
      b' = { b with runner := b.runner.setChain AgentPlan.userPlace (.user v) })
      (Act.meets_modify rfl)
    intro _ b' t' hb
    subst hb
    refine Act.meets_pure ⟨⟨installed, rfl⟩, ⟨v, hv, ?_⟩, h.current, h.enabled, h.userPlace,
      h.world⟩
    simp [Runner.setChain, hchains, AgentPlan.followers, AgentPlan.userPlace]

/-- An enabled runner stays as it is when it is enabled. -/
theorem enable_enabled (he : a.runner.enabled = true) :
    (onRunner Runner.enable).Meets a F fun _ b _ => b = a := by
  unfold onRunner Runner.enable
  apply Act.Meets.get_bind
  simp only [he, if_true]
  apply Act.Meets.bind (P := fun r b _ => r = a.runner ∧ b = a)
    (Act.Meets.within (Act.meets_pure ⟨rfl, rfl⟩))
  intro r b t hr
  obtain ⟨rfl, rfl⟩ := hr
  exact Act.meets_modify rfl

theorem New.runUserJob (h : a.New c w) (job : Job) (callback : Option Callback) :
    (Agent.runUserJob job callback).Meets a F fun _ b _ => b.New c w := by
  rw [Agent.runUserJob]
  apply (h.onUser_run job callback).bind
  intro r b t hr
  obtain ⟨⟨installed, rfl⟩, hb⟩ := hr
  apply (enable_enabled hb.enabled).bind
  intro _ b' t' hb'
  subst hb'
  exact Act.meets_pure hb

theorem New.requestAll (h : a.New c w) (requests : List (Job × Option Callback)) :
    (Agent.requestAll requests).Meets a F fun _ b _ => b.New c w := by
  induction requests generalizing a with
  | nil => exact Act.meets_pure h
  | cons request requests ih =>
      obtain ⟨job, callback⟩ := request
      apply (h.runUserJob job callback).bind
      intro _ b t hb
      exact ih hb

/-! ## Ticks -/

/-- A tick in which a chain is selected that has control already or takes it from one without a
root. The chain is ticked in the world as the passing of time leaves it. -/
theorem tick_selected {i : Nat} {chain : AgentChain} {R : AgentChain → World → Prop}
    (he : a.runner.enabled = true) (hfree : a.runner.Free i)
    (hchain : a.runner.chains[i]? = some chain)
    (h : World.advance.Meets a.world F fun _ w' _ =>
      (∀ e, select a.runner.chains w' = .error e → F e) ∧
        (∀ selected, select a.runner.chains w' = .ok selected → selected = some i) ∧
        (Chain.tick chain {}).Meets w' F fun p w'' _ => R p.1 w'') :
    tick.Meets a F fun _ b _ =>
      ∃ chain', R chain' b.world ∧ b.runner.chains = a.runner.chains.set i chain' ∧
        b.runner.current = some i ∧ b.runner.enabled = true := by
  rw [tick]
  refine Act.Meets.bind (P := fun _ b _ => b = { a with world := b.world } ∧
    (∀ e, select a.runner.chains b.world = .error e → F e) ∧
    (∀ selected, select a.runner.chains b.world = .ok selected → selected = some i) ∧
    (Chain.tick chain {}).Meets b.world F fun p w'' _ => R p.1 w'') ?_ ?_
  · rw [onWorld]
    refine Act.Meets.within (Act.Meets.mapTrail (h.imp ?_))
    intro _ w' t h'
    exact ⟨rfl, h'⟩
  · intro _ b t hb
    obtain ⟨hb, hfault, hselect, htick⟩ := hb
    have hrunner : b.runner = a.runner := by rw [hb]
    rw [onRunner]
    apply Act.Meets.get_bind
    refine Act.Meets.bind (P := fun r b' _ => ∃ chain', R chain' b'.world ∧
      r.chains = a.runner.chains.set i chain' ∧ r.current = some i ∧ r.enabled = true) ?_ ?_
    · rw [hrunner]
      refine Act.Meets.within ((Runner.tick_selected he hfault hselect hfree hchain htick).imp ?_)
      intro r w' t' hr
      exact hr
    · intro r b' t' hr
      exact Act.meets_modify hr

end Agent

end Arbiter
