import Arbiter.Agent.Basic
import Arbiter.Proofs.Agent.Basic
import Arbiter.Proofs.Conduct.Runner
import Arbiter.Proofs.Descent.Chain

/-! Rules of conduct on agents. A host ticks an agent, asks for user jobs, cancels them, stops it
and changes its world, in any order; a rule that its jobs keep holds after every such operation. -/

namespace Arbiter

namespace Agent

/-! ## Operations -/

inductive Operation where
  | tick
  | request (job : Job) (callback : Option Callback)
  | cancel
  | stop
  /-- The host changes the world. -/
  | change (f : World → World)

def Operation.isTick : Operation → Bool
  | tick => true
  | _ => false

def Operation.isChange : Operation → Bool
  | change _ => true
  | _ => false

def perform : Operation → Act Agent (Happening Job) Unit
  | .tick => tick
  | .request job callback => do
    let _ ← runUserJob job callback
    pure ()
  | .cancel => do
    let _ ← cancelUserJob
    pure ()
  | .stop => stop
  | .change f => Act.modify fun a => { a with world := f a.world }

def performAll : List Operation → Act Agent (Happening Job) Unit
  | [] => pure ()
  | op :: rest => do
    perform op
    performAll rest

/-! ## Agents that keep a rule -/

variable {F : Fault → Prop} {T : Record → Prop} {fit : Job → Prop}
  {W : Nat → List Job → World → Prop} {m : Nat} {a : Agent} {exclusive : Prop}

/-- The runner is tidy, and the world is as its jobs at work have it. -/
structure Follows (exclusive : Prop) (fit : Job → Prop) (W : List Job → World → Prop) (a : Agent) :
    Prop where
  runner : a.runner.Tidy exclusive fit
  work : W a.runner.atWork a.world

theorem onRunner_keeps {R : Runner AgentChain → World → Prop}
    {act : Runner AgentChain → Act World (Happening Job) (Runner AgentChain)}
    (h : (act a.runner).Keeps a.world F (Happening.Notes T) R) :
    (onRunner act).Keeps a F (Happening.Notes T) fun _ b => R b.runner b.world := by
  rw [onRunner]
  refine Act.Keeps.get_bind ?_
  refine Act.Keeps.bind (P := fun r b => R r b.world) (Act.Keeps.within h) ?_
  intro r b hR
  exact Act.keeps_modify hR

theorem builtinUser?_chain {i : Nat} {u : UserChain Job} (h : a.builtinUser? = some (i, u)) :
    a.runner.chains[i]? = some (.user u) := by
  unfold builtinUser? at h
  cases hplace : a.userPlace with
  | none => rw [hplace] at h; cases h
  | some j =>
      rw [hplace] at h
      cases hc : a.runner.chains[j]? with
      | none => simp [hc] at h
      | some c =>
          cases c with
          | user v =>
              simp only [hc, Option.bind_eq_bind, Option.bind_some, AgentChain.user?] at h
              obtain ⟨rfl, rfl⟩ := Prod.mk.inj (Option.some.inj h)
              exact hc
          | _ => simp [hc, AgentChain.user?] at h

/-- The jobs at work on the other chains are not touched by a request to the user chain. -/
theorem Follows.onUser_keeps {α : Type} (hC : Conduct F T fit W)
    (ha : a.Follows exclusive fit (W m))
    {act : UserChain Job → Act World (Happening Job) (α × UserChain Job)}
    (h : ∀ {V : Nat → List Job → World → Prop} {u : UserChain Job} {w}, Conduct F T fit V →
      u.inner.Tidy fit → V m u.inner.atWork w →
        (act u).Keeps w F (Happening.Notes T) fun p w' =>
          SingleChain.Kept fit u.inner p.2.inner ∧ V m p.2.inner.atWork w') :
    (onUser act).Keeps a F (Happening.Notes T) fun _ b => b.Follows exclusive fit (W m) := by
  rw [onUser]
  refine Act.Keeps.get_bind ?_
  cases huser : a.builtinUser? with
  | none => exact Act.keeps_pure ha
  | some p =>
      obtain ⟨i, u⟩ := p
      have hchain := builtinUser?_chain huser
      have hi := (List.getElem?_eq_some_iff.mp hchain).1
      have hW := ha.work
      rw [Runner.atWork, AgentChain.allAtWork_split hchain] at hW
      have hC' := hC.frame (AgentChain.allAtWork (a.runner.chains.take i))
        (AgentChain.allAtWork (a.runner.chains.drop (i + 1)))
      have hact := h (u := u) (w := a.world) hC'
        (ha.runner.tidy _ (List.mem_of_getElem? hchain)) hW
      dsimp only
      refine Act.Keeps.bind (P := fun p b => b.runner = a.runner ∧
        SingleChain.Kept fit u.inner p.2.inner ∧
        W m (AgentChain.allAtWork (a.runner.chains.take i) ++ p.2.inner.atWork ++
          AgentChain.allAtWork (a.runner.chains.drop (i + 1))) b.world)
        (Act.Keeps.within (hact.imp fun p w' hp => ⟨rfl, hp⟩)) ?_
      rintro ⟨value, v⟩ b ⟨hrunner, hkept, hW'⟩
      refine Act.Keeps.bind (P := fun _ b' => b'.Follows exclusive fit (W m))
        (Act.keeps_modify ⟨?_, ?_⟩)
        fun _ b' hb' => Act.keeps_pure hb'
      · rw [hrunner]
        refine ha.runner.setChain hkept.tidy ?_
        by_cases hcur : a.runner.current = some i
        · exact Or.inl hcur
        · exact Or.inr fun he => hkept.resting (ha.runner.others he i _ hchain hcur)
      · show W m (AgentChain.allAtWork (b.runner.chains.set i (.user v))) b.world
        rw [hrunner, AgentChain.allAtWork_set hi]
        exact hW'

theorem Follows.onRunner_keeps {act : Runner AgentChain → Act World (Happening Job) _}
    (ha : a.Follows exclusive fit (W m))
    (h : a.runner.Tidy exclusive fit → W m a.runner.atWork a.world →
      (act a.runner).Keeps a.world F (Happening.Notes T) fun r w' =>
        r.Tidy exclusive fit ∧ W m r.atWork w') :
    (onRunner act).Keeps a F (Happening.Notes T) fun _ b => b.Follows exclusive fit (W m) :=
  (Agent.onRunner_keeps (h ha.runner ha.work)).imp fun _ _ hb => ⟨hb.1, hb.2⟩

theorem Follows.cancelUserJob_keeps (hC : Conduct F T fit W) (ha : a.Follows exclusive fit (W m)) :
    cancelUserJob.Keeps a F (Happening.Notes T) fun _ b => b.Follows exclusive fit (W m) :=
  ha.onUser_keeps hC fun hV hu h => UserChain.cancel_keeps hV hu h

theorem Follows.runUserJob_keeps (hC : Conduct F T fit W) (ha : a.Follows exclusive fit (W m))
    {job : Job}
    (hjob : fit job) (callback : Option Callback) :
    (runUserJob job callback).Keeps a F (Happening.Notes T) fun _ b =>
      b.Follows exclusive fit (W m) := by
  rw [runUserJob]
  refine (ha.onUser_keeps hC fun hV hu h => UserChain.run_keeps hV hu hjob h callback).bind ?_
  intro result b hb
  cases result with
  | error e => exact Act.keeps_pure hb
  | ok installed =>
      refine (hb.onRunner_keeps fun hr h => hr.enable_keeps hC h).bind ?_
      intro _ b' hb'
      exact Act.keeps_pure hb'

theorem Follows.stop_keeps (hC : Conduct F T fit W) (ha : a.Follows exclusive fit (W m)) :
    Agent.stop.Keeps a F (Happening.Notes T) fun _ b => b.Follows exclusive fit (W m) := by
  rw [Agent.stop]
  refine (ha.cancelUserJob_keeps hC).bind ?_
  intro _ b hb
  refine (hb.onRunner_keeps fun hr h => hr.stopCurrent_keeps hC h).bind ?_
  intro _ b₁ hb₁
  refine (hb₁.onRunner_keeps fun hr h => hr.disable_keeps hC h).bind ?_
  intro _ b₂ hb₂
  exact Act.Keeps.get_bind
    (Act.keeps_tell (hC.routine _ (by simp [Record.IsRoutine])) hb₂)

theorem tick_keeps (hC : Conduct F T fit W) (hr : a.runner.Tidy exclusive fit)
    (hpass : World.advance.Keeps a.world F T fun _ w' => W 3 a.runner.atWork w') :
    tick.Keeps a F (Happening.Notes T) fun _ b => b.Follows exclusive fit (W 0) := by
  rw [tick]
  refine Act.Keeps.bind (P := fun _ b => b.runner = a.runner ∧ W 3 a.runner.atWork b.world)
    (Act.Keeps.within (Act.Keeps.mapTrail (hpass.imp fun _ w' hW => ⟨rfl, hW⟩))) ?_
  rintro _ b ⟨hrunner, hW⟩
  rw [← hrunner] at hr hW
  exact (onRunner_keeps (hr.tick_keeps hC hW)).imp fun _ _ hb => ⟨hb.1, hb.2⟩

/-! ## Runs -/

/-- A request for a fit job, or a change of the world that the rule allows, or no such operation. -/
def Operation.Fits (fit : Job → Prop) (V : Nat → List Job → World → Prop) : Operation → Prop
  | request job _ => fit job
  | change f => ∀ n js w, V n js w → V n js (f w)
  | _ => True

theorem Follows.perform_keeps (hC : Conduct F T fit W) (ha : a.Follows exclusive fit (W m))
    {op : Operation}
    (htick : op.isTick = false) (hop : op.Fits fit fun _ => W m) :
    (perform op).Keeps a F (Happening.Notes T) fun _ b => b.Follows exclusive fit (W m) := by
  cases op with
  | tick => cases htick
  | request job callback =>
      exact (ha.runUserJob_keeps hC hop callback).bind fun _ _ hb => Act.keeps_pure hb
  | cancel => exact (ha.cancelUserJob_keeps hC).bind fun _ _ hb => Act.keeps_pure hb
  | stop => exact ha.stop_keeps hC
  | change f => exact Act.keeps_modify ⟨ha.runner, hop 0 _ _ ha.work⟩

/-- A rule that may depend on the number of ticks holds after every operation, if the passing of
time leads from one number to the next. -/
theorem Follows.performAll_keeps {V : Nat → Nat → List Job → World → Prop} {limit : Nat}
    (hC : ∀ n, Conduct F T fit (V n))
    (hpass : ∀ n < limit, ∀ js w, V n 0 js w →
      World.advance.Keeps w F T fun _ w' => V (n + 1) 3 js w')
    {ops : List Operation} (hops : ∀ op ∈ ops, op.Fits fit fun n => V n 0) {n : Nat}
    (hn : n + ops.countP Operation.isTick ≤ limit) (ha : a.Follows exclusive fit (V n 0)) :
    (performAll ops).Keeps a F (Happening.Notes T) fun _ b =>
      b.Follows exclusive fit (V (n + ops.countP Operation.isTick) 0) := by
  induction ops generalizing a n with
  | nil => exact Act.keeps_pure ha
  | cons op ops ih =>
      rw [List.countP_cons] at hn ⊢
      have hstep : (perform op).Keeps a F (Happening.Notes T) fun _ b =>
          b.Follows exclusive fit (V (n + if op.isTick then 1 else 0) 0) := by
        have hop := hops op List.mem_cons_self
        cases htick : op.isTick with
        | true =>
            have hlt : n < limit := by
              rw [htick] at hn
              simp only [if_true] at hn
              omega
            cases op with
            | tick => exact tick_keeps (hC (n + 1)) ha.runner (hpass n hlt _ _ ha.work)
            | _ => cases htick
        | false =>
            refine ha.perform_keeps (hC n) htick ?_
            cases op with
            | change f => exact fun _ => hop n
            | _ => exact hop
      refine hstep.bind ?_
      intro _ b hb
      refine (ih (fun op' hop' => hops op' (List.mem_cons_of_mem _ hop')) (by omega) hb).imp ?_
      intro _ b' hb'
      rw [Nat.add_comm (ops.countP Operation.isTick), ← Nat.add_assoc]
      exact hb'

/-- However an agent is run, its runner stays tidy. -/
theorem performAll_tidy (ops : List Operation) (ha : a.runner.Tidy exclusive fun _ => True) :
    (performAll ops).Ensures a fun _ b _ => b.runner.Tidy exclusive fun _ => True := by
  have hC : Conduct (fun _ => True) (fun _ => True) (fun _ => True)
      (fun _ _ _ => True : Nat → List Job → World → Prop) :=
    .lenient (fun _ _ => trivial) id (fun _ => trivial) (fun _ => trivial)
      (fun _ _ _ _ => trivial) fun _ _ => trivial
  have hops : ∀ op ∈ ops, op.Fits (fun _ => True) fun _ _ _ => True := by
    intro op _
    cases op with
    | change f => exact fun _ _ _ => id
    | _ => trivial
  have hpass : ∀ w, World.advance.Keeps w (fun _ => True) (fun _ => True) fun _ _ => True := by
    intro w
    exact (World.advance_keeps w).mono (fun _ _ => trivial) (fun _ _ => trivial)
      fun _ _ _ => trivial
  have hrun := Follows.performAll_keeps (V := fun _ _ _ _ => True) (n := 0) (fun _ => hC)
    (fun _ _ _ w _ => hpass w) hops (Nat.le_refl _) ⟨ha, trivial⟩
  exact Act.Meets.imp hrun fun _ _ _ hb => hb.2.runner

end Agent

/-! ## New agents -/

/-- A new agent is tidy if the chains of the host are. If these rest, nobody is at work in it. -/
theorem AgentPlan.build_tidy {p : AgentPlan} {a : Agent} {k k' : World} {fit : Job → Prop}
    {exclusive : Prop} {trail : List (Happening Job)}
    (hbuild : p.build k = .ok ⟨.ok a, k', trail⟩)
    (hextra : ∀ c ∈ p.extra, c.inner.Tidy fit ∧ (exclusive → Chain.Resting c)) :
    a.runner.Tidy exclusive fit ∧ (exclusive → a.runner.atWork = []) ∧
      a.world = { p.world.getD {} with rules := p.config.world } := by
  have hchains : ∀ c ∈ (if p.builtin then builtinChains p.config else []) ++ p.extra,
      c.inner.Tidy fit ∧ (exclusive → Chain.Resting c) := by
    intro c hc
    rcases List.mem_append.mp hc with hc | hc
    · have hnone : c.inner.spine = none := by
        split at hc
        · simp only [builtinChains, List.mem_cons, List.not_mem_nil, or_false] at hc
          rcases hc with rfl | rfl | rfl | rfl | rfl <;> rfl
        · cases hc
      exact ⟨SingleChain.tidy_of_none hnone, fun _ => SingleChain.resting_of_none hnone⟩
    · exact hextra c hc
  have hnew : p.build.Ensures k fun result _ _ => ∀ b, result = .ok b →
      b.runner.Tidy exclusive fit ∧ (exclusive → b.runner.atWork = []) ∧
        b.world = { p.world.getD {} with rules := p.config.world } := by
    rw [build]
    split
    · refine Act.meets_pure ?_
      intro b hb
      cases hb
    · refine (Runner.registerAll_meets _ _ k).bind ?_
      rintro r k₁ t ⟨rfl, -⟩
      refine Act.Meets.note_bind (Act.meets_pure ?_)
      intro b hb
      obtain rfl := Except.ok.inj hb
      exact ⟨Runner.tidy_of_resting hchains,
        fun he => Runner.atWork_of_resting fun c hc => (hchains c hc).2 he, rfl⟩
  exact hnew.of_ok hbuild a rfl

/-- Nothing is asked of the chains of the host but that they were dealt with as chains are. -/
theorem AgentPlan.build_used {p : AgentPlan} {a : Agent} {k k' : World}
    {trail : List (Happening Job)} (hbuild : p.build k = .ok ⟨.ok a, k', trail⟩)
    (hextra : ∀ c ∈ p.extra, ∃ past, c.inner.Used past) :
    a.runner.Tidy False (fun _ => True) ∧
      a.world = { p.world.getD {} with rules := p.config.world } := by
  have htidy : ∀ c ∈ p.extra,
      c.inner.Tidy (fun _ => True) ∧ (False → Chain.Resting c) := by
    intro c hc
    obtain ⟨past, hused⟩ := hextra c hc
    exact ⟨hused.tidy, False.elim⟩
  obtain ⟨hrunner, -, hworld⟩ := build_tidy hbuild htidy
  exact ⟨hrunner, hworld⟩

end Arbiter
