import Arbiter.Proofs.Conduct.Agent
import Arbiter.Proofs.Runner.Halt

/-! Which chain user jobs go to. Requests find the built-in user chain by its place, and observers
the first user chain; the kinds of the chains of an agent never change, whatever is done with it. -/

namespace Arbiter

theorem Job.releases : Releases Job fun _ => False := fun j _ _ =>
  Act.Meets.imp j.quit_keeps fun _ _ _ _ => trivial

/-! ## Requests to user chains -/

namespace UserChain

variable {F : Fault → Prop} {w : World}

/-- A request goes through, and the chain keeps its name. -/
theorem run_meets (hF : Releases Job F) (u : UserChain Job) (job : Job)
    (callback : Option Callback) :
    (u.run job callback).Meets w F fun r _ _ => r.2.inner.name = u.inner.name := by
  rw [run]
  refine Act.Meets.bind (u.inner.run_quiet hF job) ?_
  rintro ⟨accepted, inner⟩ w₁ t₁ ⟨-, hname⟩
  cases accepted with
  | false => exact Act.meets_pure hname
  | true =>
      refine (answer_meets .cancelled).bind ?_
      rintro v w₂ t₂ ⟨hv, -⟩
      have hname : v.inner.name = u.inner.name := by
        rw [hv]
        exact hname
      refine Act.Meets.get_bind ?_
      split
      · exact Act.Meets.note_bind (Act.meets_pure hname)
      · exact Act.meets_pure hname

/-- After a cancellation no idle task follows. -/
theorem complete_cancelled_meets (u : UserChain Job) :
    (u.complete .cancelled).Meets w F fun v _ _ => v.inner = u.inner := by
  have hconclude : (u.conclude .cancelled).Meets w F fun v _ _ => v.inner = u.inner := by
    rw [conclude]
    refine (answer_meets .cancelled).bind ?_
    rintro v w' t ⟨hv, -⟩
    rw [if_neg (by simp)]
    exact Act.meets_pure hv
  rw [complete]
  refine Act.Meets.get_bind ?_
  split
  · exact Act.Meets.note_bind hconclude
  · exact hconclude

/-- A user chain that was told to cancel holds no root. -/
theorem cancel_meets (hF : Releases Job F) (u : UserChain Job) :
    u.cancel.Meets w F fun p _ _ => p.2.inner.spine = none := by
  rw [cancel]
  refine Act.Meets.bind (u.inner.cancel_quiet hF) ?_
  rintro p w₁ t₁ ⟨-, ⟨hnone, rfl⟩ | rfl⟩
  · exact Act.meets_pure hnone
  · refine (complete_cancelled_meets _).bind fun v w₂ t₂ hv => Act.meets_pure ?_
    rw [hv]

end UserChain

/-! ## Kinds of chains -/

namespace AgentChain

def isUser (c : AgentChain) : Bool := c.user?.isSome

instance : SteadyChain World Job AgentChain where
  spine?_mapSpine c f := by cases c <;> rfl
  name_mapSpine c f := by cases c <;> rfl
  mapSpine_self c s hs := by
    show c.setInner (Chain.mapSpine c.inner fun _ => s) = c
    rw [SteadyChain.mapSpine_self c.inner s hs]
    cases c <;> rfl

theorem rigid_isUser : Chain.Rigid isUser := fun c _ => by cases c <;> rfl

theorem tick_isUser (c : AgentChain) (trace : Trace) (w : World) :
    (Chain.tick c trace).Ensures w fun p _ _ => p.1.isUser = c.isUser := by
  show (c.tick trace).Ensures w _
  cases c with
  | reactive c => exact (Act.ensures_true _ w).bind fun _ _ _ _ => Act.meets_pure rfl
  | user c => exact (Act.ensures_true _ w).bind fun _ _ _ _ => Act.meets_pure rfl
  | single c => exact (Act.ensures_true _ w).bind fun _ _ _ _ => Act.meets_pure rfl

end AgentChain

namespace Runner

/-- Which chains are user chains, in their order. -/
def kinds (r : Runner AgentChain) : List Bool := r.chains.map AgentChain.isUser

variable {r : Runner AgentChain} {i : Nat} {c c' : AgentChain}

theorem kinds_setChain (hc : r.chains[i]? = some c) (h : c'.isUser = c.isUser) :
    (r.setChain i c').kinds = r.kinds := Chain.map_set_of_eq hc h

theorem setChain_self (hc : r.chains[i]? = some c) : r.setChain i c = r := by
  obtain ⟨hi, rfl⟩ := List.getElem?_eq_some_iff.mp hc
  rw [setChain, List.set_getElem_self]

theorem tickChain_kinds (r : Runner AgentChain) (selected : Option Nat) (w : World) :
    (r.tickChain selected).Ensures w fun r' _ _ => r'.kinds = r.kinds := by
  unfold tickChain
  split
  · exact Act.meets_pure rfl
  · split
    · exact Act.meets_pure rfl
    · next c hc =>
      refine (c.tick_isUser {} w).bind ?_
      rintro ⟨c', trace⟩ w' t h
      exact Act.meets_pure (kinds_setChain hc h)

theorem tick_kinds (r : Runner AgentChain) (w : World) :
    r.tick.Ensures w fun r' _ _ => r'.kinds = r.kinds := by
  by_cases he : r.enabled = true
  · refine (tick_ensures he w).imp ?_
    rintro r' w' t ⟨selected, granted, ticked, reports, h⟩
    have hgrant := ((grant_granted releases_true r selected).of_ok h.grant).chains
    have htick := (granted.value.tickChain_kinds selected _).of_ok h.tick
    rw [h.value]
    exact htick.trans (hgrant.view AgentChain.rigid_isUser)
  · rw [Runner.tick, if_neg he]
    exact Act.meets_pure rfl

end Runner

/-! ## Operations -/

namespace Agent

variable {F : Fault → Prop} {a : Agent}

theorem onRunner_meets {act : Runner AgentChain → Act World (Happening Job) (Runner AgentChain)}
    {Q : Runner AgentChain → World → List (Happening Job) → Prop}
    (h : (act a.runner).Meets a.world F Q) :
    (onRunner act).Meets a F fun _ b t =>
      b = { a with world := b.world, runner := b.runner } ∧ Q b.runner b.world t := by
  rw [onRunner]
  refine Act.Meets.get_bind ?_
  refine Act.Meets.bind (P := fun r b t => b = { a with world := b.world } ∧ Q r b.world t)
    (Act.Meets.within (h.imp fun _ _ _ hQ => ⟨rfl, hQ⟩)) ?_
  rintro r b t ⟨hb, hQ⟩
  refine Act.meets_modify ⟨?_, by simpa using hQ⟩
  rw [hb]

theorem onUser_of_none {α : Type}
    {m : UserChain Job → Act World (Happening Job) (α × UserChain Job)}
    (h : a.builtinUser? = none) : onUser m a = .ok ⟨.error notRegistered, a, []⟩ := by
  rw [onUser, Act.bind_apply]
  simp only [Act.get_apply, h]
  rfl

/-- What a request does is done to the built-in user chain and to the world. -/
theorem onUser_meets {α : Type} {i : Nat} {u : UserChain Job}
    {m : UserChain Job → Act World (Happening Job) (α × UserChain Job)}
    (huser : a.builtinUser? = some (i, u)) (hm : (m u).Meets a.world F fun _ _ _ => True) :
    (onUser m).Meets a F fun r b t => ∃ x v, m u a.world = .ok ⟨(x, v), b.world, t⟩ ∧
      r = .ok x ∧ b = { a with world := b.world, runner := a.runner.setChain i (.user v) } := by
  rw [onUser]
  refine Act.Meets.get_bind ?_
  simp only [huser]
  refine Act.Meets.bind (P := fun p b t => m u a.world = .ok ⟨p, b.world, t⟩ ∧
    b = { a with world := b.world }) (Act.Meets.within (hm.ran.imp fun _ _ _ h => ⟨h.1, rfl⟩)) ?_
  rintro ⟨x, v⟩ b t ⟨hrun, hb⟩
  refine Act.Meets.bind (P := fun _ c t =>
    c = { b with runner := b.runner.setChain i (.user v) } ∧ t = [])
    (Act.meets_modify ⟨rfl, rfl⟩) ?_
  rintro _ c _ ⟨rfl, rfl⟩
  exact Act.meets_pure ⟨x, v, by simpa using hrun, rfl, by rw [hb]⟩

/-- The same kinds of chains, with the built-in user chain in the same place. -/
structure Kindred (a b : Agent) : Prop where
  userPlace : b.userPlace = a.userPlace
  kinds : b.runner.kinds = a.runner.kinds

theorem Kindred.refl (a : Agent) : Kindred a a := ⟨rfl, rfl⟩

theorem Kindred.trans {a b c : Agent} (h : Kindred a b) (h' : Kindred b c) : Kindred a c :=
  ⟨h'.userPlace.trans h.userPlace, h'.kinds.trans h.kinds⟩

theorem onRunner_kindred {act : Runner AgentChain → Act World (Happening Job) (Runner AgentChain)}
    (h : (act a.runner).Ensures a.world fun r _ _ => r.kinds = a.runner.kinds) :
    (onRunner act).Ensures a fun _ b _ => Kindred a b := by
  refine (onRunner_meets h).imp ?_
  rintro _ b _ ⟨hb, hkinds⟩
  exact ⟨by rw [hb], hkinds⟩

theorem onUser_kindred {α : Type}
    (m : UserChain Job → Act World (Happening Job) (α × UserChain Job)) :
    (onUser m).Ensures a fun _ b _ => Kindred a b := by
  cases huser : a.builtinUser? with
  | none =>
      rw [Act.Ensures, Act.Meets, onUser_of_none huser]
      exact .refl a
  | some p =>
      obtain ⟨i, u⟩ := p
      refine (onUser_meets huser (Act.ensures_true (m u) a.world)).imp ?_
      rintro _ b _ ⟨x, v, -, -, hb⟩
      rw [hb]
      exact ⟨rfl, Runner.kinds_setChain (builtinUser?_chain huser) rfl⟩

theorem runUserJob_kindred (job : Job) (callback : Option Callback) :
    (runUserJob job callback).Ensures a fun _ b _ => Kindred a b := by
  rw [runUserJob]
  refine (onUser_kindred _).bind ?_
  intro result b _ hb
  cases result with
  | error e => exact Act.meets_pure hb
  | ok installed =>
      refine (onRunner_kindred (a := b) ?_).bind fun _ c _ hc => Act.meets_pure (hb.trans hc)
      rw [Runner.enable]
      split
      · exact Act.meets_pure rfl
      · exact Act.Meets.note_bind (Act.meets_pure rfl)

theorem stop_kindred : stop.Ensures a fun _ b _ => Kindred a b := by
  rw [stop]
  refine (onUser_kindred _).bind fun _ b _ hb => ?_
  refine (onRunner_kindred (a := b) ?_).bind fun _ c _ hc => ?_
  · refine (Runner.stopCurrent_meets releases_true b.runner).imp ?_
    rintro r' w' t (⟨-, rfl, -⟩ | ⟨-, -, -, h, -⟩)
    · rfl
    · exact h.view AgentChain.rigid_isUser
  · refine (onRunner_kindred (a := c) ?_).bind fun _ d _ hd => ?_
    · refine (Runner.disable_halts releases_true c.runner).imp ?_
      rintro r' w' t ⟨-, h, -⟩
      exact h.view AgentChain.rigid_isUser
    · exact Act.Meets.get_bind (Act.meets_note ((hb.trans hc).trans hd))

theorem perform_kindred (op : Operation) : (perform op).Ensures a fun _ b _ => Kindred a b := by
  cases op with
  | tick =>
      refine Act.Meets.bind (P := fun _ b _ => Kindred a b)
        (Act.Meets.within ((Act.ensures_true _ _).imp fun _ _ _ _ => ⟨rfl, rfl⟩)) ?_
      intro _ b _ hb
      exact (onRunner_kindred (b.runner.tick_kinds b.world)).imp fun _ _ _ hc => hb.trans hc
  | request job callback =>
      exact (runUserJob_kindred job callback).bind fun _ _ _ hb => Act.meets_pure hb
  | cancel => exact (onUser_kindred _).bind fun _ _ _ hb => Act.meets_pure hb
  | stop => exact stop_kindred
  | change f => exact Act.meets_modify ⟨rfl, rfl⟩

theorem performAll_kindred (ops : List Operation) :
    (performAll ops).Ensures a fun _ b _ => Kindred a b := by
  induction ops generalizing a with
  | nil => exact Act.meets_pure (.refl a)
  | cons op ops ih =>
      refine (perform_kindred op).bind fun _ b _ hb => ?_
      exact ih.imp fun _ c _ hc => hb.trans hc

/-! ## Lookups -/

theorem userChain?_isSome (a : Agent) : a.userChain?.isSome = a.runner.kinds.any id := by
  rw [userChain?, List.isSome_findSome?, Runner.kinds, List.any_map]
  rfl

/-- If the built-in chains come first, requests and observers find the same user chain. -/
theorem exists_builtinUser {rest : List Bool} (hplace : a.userPlace = some AgentPlan.userPlace)
    (hkinds : a.runner.kinds = [false, false, false, false, true] ++ rest) :
    ∃ u, a.builtinUser? = some (AgentPlan.userPlace, u) ∧ a.userChain? = some u := by
  have hbefore : ∀ c ∈ a.runner.chains.take AgentPlan.userPlace, c.user? = none := by
    intro c hc
    have hmem := List.mem_map_of_mem (f := AgentChain.isUser) hc
    rw [List.map_take, ← Runner.kinds, hkinds] at hmem
    simpa [AgentPlan.userPlace, AgentChain.isUser] using hmem
  have hkind : (a.runner.chains[AgentPlan.userPlace]?).map AgentChain.isUser = some true := by
    rw [← List.getElem?_map, ← Runner.kinds, hkinds]
    rfl
  obtain ⟨c, hc, hisUser⟩ := Option.map_eq_some_iff.mp hkind
  obtain ⟨u, huser⟩ := Option.isSome_iff_exists.mp hisUser
  refine ⟨u, by simp [builtinUser?, hplace, hc, huser], ?_⟩
  obtain ⟨hlt, rfl⟩ := List.getElem?_eq_some_iff.mp hc
  rw [userChain?, ← List.take_append_drop AgentPlan.userPlace a.runner.chains,
    List.findSome?_append, List.findSome?_eq_none_iff.mpr hbefore, Option.none_or,
    List.drop_eq_getElem_cons hlt, List.findSome?_cons_of_isSome]
  · exact huser
  · exact hisUser

/-- The user chain that takes the place of the built-in one is found instead. -/
theorem userChain?_setChain {rest : List Bool} {b : Agent} {u v : UserChain Job}
    (hplace : a.userPlace = some AgentPlan.userPlace)
    (hkinds : a.runner.kinds = [false, false, false, false, true] ++ rest)
    (huser : a.builtinUser? = some (AgentPlan.userPlace, u)) (hb : b.userPlace = a.userPlace)
    (hchains : b.runner.chains = a.runner.chains.set AgentPlan.userPlace (.user v)) :
    b.userChain? = some v := by
  have hchain := builtinUser?_chain huser
  have hsame : b.runner.kinds = a.runner.kinds := by
    rw [Runner.kinds, hchains]
    exact Chain.map_set_of_eq hchain rfl
  obtain ⟨v', huser', hfound⟩ := exists_builtinUser (hb.trans hplace) (hsame.trans hkinds)
  have hchain' := builtinUser?_chain huser'
  rw [hchains, List.getElem?_set_self (List.getElem?_eq_some_iff.mp hchain).1] at hchain'
  cases hchain'
  exact hfound

end Agent

/-! ## Plans -/

/-- The kinds of the chains that an agent of the plan has. -/
def AgentPlan.kinds (p : AgentPlan) : List Bool :=
  (if p.builtin then [false, false, false, false, true] else []) ++ p.extra.map AgentChain.isUser

theorem AgentPlan.build_kinds {p : AgentPlan} {a : Agent} {k k' : World}
    {trail : List (Happening Job)} (hbuild : p.build k = .ok ⟨.ok a, k', trail⟩) :
    a.userPlace = (if p.builtin then some userPlace else none) ∧ a.runner.kinds = p.kinds := by
  have hnew : p.build.Ensures k fun result _ _ => ∀ b, result = .ok b →
      b.userPlace = (if p.builtin then some userPlace else none) ∧ b.runner.kinds = p.kinds := by
    rw [build]
    split
    · refine Act.meets_pure ?_
      intro b hb
      cases hb
    · refine (Runner.registerAll_meets _ _ k).bind ?_
      rintro r k₁ t ⟨rfl, -⟩
      refine Act.Meets.note_bind (Act.meets_pure ?_)
      intro b hb
      obtain rfl := Except.ok.inj hb
      refine ⟨rfl, ?_⟩
      simp only [Runner.kinds, kinds, Runner.withSink, List.nil_append, List.map_append]
      split <;> rfl
  exact hnew.of_ok hbuild a rfl

namespace Agent

variable {p : AgentPlan} {a : Agent} {k k' : World} {trail : List (Happening Job)}

/-- However an agent was run, its user chain stands where its plan put it. -/
theorem performAll_kinds (ops : List Operation) (hbuild : p.build k = .ok ⟨.ok a, k', trail⟩) :
    (performAll ops).Ensures a fun _ b _ =>
      b.userPlace = (if p.builtin then some AgentPlan.userPlace else none) ∧
        b.runner.kinds = p.kinds := by
  obtain ⟨hplace, hkinds⟩ := AgentPlan.build_kinds hbuild
  exact (performAll_kindred ops).imp fun _ b _ hb =>
    ⟨hb.userPlace.trans hplace, hb.kinds.trans hkinds⟩

theorem builtinUser?_of_none (hplace : a.userPlace = none) : a.builtinUser? = none := by
  rw [builtinUser?, hplace]
  rfl

theorem runUserJob_of_none (h : a.builtinUser? = none) (job : Job) (callback : Option Callback) :
    runUserJob job callback a = .ok ⟨.error notRegistered, a, []⟩ := by
  rw [runUserJob, Act.bind_apply, onUser_of_none h]
  rfl

/-- A request goes through: the built-in user chain takes it, and the runner is enabled. -/
theorem runUserJob_meets {i : Nat} {u : UserChain Job} (huser : a.builtinUser? = some (i, u))
    (job : Job) (callback : Option Callback) :
    (runUserJob job callback).Meets a (fun _ => False) fun r b _ => ∃ installed v t,
      u.run job callback a.world = .ok ⟨(installed, v), b.world, t⟩ ∧ r = .ok installed ∧
        b = { a with
          world := b.world
          runner := { a.runner.setChain i (.user v) with enabled := true } } := by
  rw [runUserJob]
  have hanswer : (u.run job callback).Meets a.world (fun _ => False) fun _ _ _ => True :=
    (u.run_meets Job.releases job callback).imp fun _ _ _ _ => trivial
  refine (onUser_meets huser hanswer).bind ?_
  rintro r b t ⟨installed, v, hrun, rfl, hb⟩
  have henable : (Runner.enable b.runner : Act World (Happening Job) _).Meets b.world
      (fun _ => False) fun r' w' _ => r' = { b.runner with enabled := true } ∧ w' = b.world := by
    rw [Runner.enable]
    split
    · next he => exact Act.meets_pure ⟨by rw [← he], rfl⟩
    · exact Act.Meets.note_bind (Act.meets_pure ⟨rfl, rfl⟩)
  refine (onRunner_meets henable).bind ?_
  rintro _ c t' ⟨hc, hrunner, hworld⟩
  refine Act.meets_pure ⟨installed, v, t, hworld ▸ hrun, rfl, ?_⟩
  rw [hc, hrunner, hworld, hb]

/-- Exactly the agents with the built-in chains take requests: each goes to the user chain that is
found, and nothing else changes but the world. All others refuse them, which changes nothing, even
if a user chain that was added is found. -/
theorem requests_find_builtin (ops : List Operation)
    (hbuild : p.build k = .ok ⟨.ok a, k', trail⟩) :
    (performAll ops).Ensures a fun _ b _ =>
      b.userChain?.isSome = (p.builtin || p.extra.any AgentChain.isUser) ∧
        (p.builtin = true → ∃ u, b.userChain? = some u ∧
          (∀ job callback, (runUserJob job callback).Meets b (fun _ => False) fun r c _ =>
            ∃ installed v t, u.run job callback b.world = .ok ⟨(installed, v), c.world, t⟩ ∧
              r = .ok installed ∧ c.userChain? = some v ∧
                c = { b with
                  world := c.world
                  runner :=
                    { b.runner.setChain AgentPlan.userPlace (.user v) with enabled := true } }) ∧
            cancelUserJob.Meets b (fun _ => False) fun r c t =>
              ∃ cancelled v, u.cancel b.world = .ok ⟨(cancelled, v), c.world, t⟩ ∧
                r = .ok cancelled ∧ c.userChain? = some v ∧
                  c = { b with
                    world := c.world
                    runner := b.runner.setChain AgentPlan.userPlace (.user v) }) ∧
          (p.builtin = false →
            (∀ job callback, runUserJob job callback b = .ok ⟨.error notRegistered, b, []⟩) ∧
              cancelUserJob b = .ok ⟨.error notRegistered, b, []⟩) := by
  refine (performAll_kinds ops hbuild).imp ?_
  rintro _ b _ ⟨hplace, hkinds⟩
  refine ⟨?_, ?_, ?_⟩
  · rw [userChain?_isSome, hkinds, AgentPlan.kinds, List.any_append, List.any_map]
    cases p.builtin <;> rfl
  · intro hbuiltin
    rw [hbuiltin, if_pos rfl] at hplace
    rw [AgentPlan.kinds, hbuiltin, if_pos rfl] at hkinds
    obtain ⟨u, huser, hfound⟩ := exists_builtinUser hplace hkinds
    have hagain : ∀ {c : Agent} {v}, c.userPlace = b.userPlace →
        c.runner.chains = b.runner.chains.set AgentPlan.userPlace (.user v) →
          c.userChain? = some v := userChain?_setChain hplace hkinds huser
    refine ⟨u, hfound, fun job callback => ?_, ?_⟩
    · refine (runUserJob_meets huser job callback).imp ?_
      rintro r c _ ⟨installed, v, t, hrun, hr, hc⟩
      exact ⟨installed, v, t, hrun, hr, hagain (by rw [hc]) (by rw [hc]; rfl), hc⟩
    · refine (onUser_meets huser (Act.Meets.imp (u.cancel_meets Job.releases) ?_)).imp ?_
      · exact fun _ _ _ _ => trivial
      · rintro r c t ⟨cancelled, v, hrun, hr, hc⟩
        exact ⟨cancelled, v, hrun, hr, hagain (by rw [hc]) (by rw [hc]; rfl), hc⟩
  · intro hbuiltin
    rw [hbuiltin] at hplace
    have hnone := builtinUser?_of_none hplace
    exact ⟨runUserJob_of_none hnone, onUser_of_none hnone⟩

/-- A plan without the built-in chains to which a user chain is added. -/
def adopting : AgentPlan where
  builtin := false
  extra := [.user (.ofIdle true)]

/-- The user chain that was added is found, but requests do not reach it. -/
theorem requests_find_builtin_adopting :
    ∃ a trail, AgentPlan.build adopting {} = .ok ⟨.ok a, {}, trail⟩ ∧
      a.userChain?.isSome = true ∧ runUserJob .idle none a = .ok ⟨.error notRegistered, a, []⟩ ∧
        cancelUserJob a = .ok ⟨.error notRegistered, a, []⟩ := by
  obtain ⟨⟨value, context, trail⟩, hbuild, hp⟩ := Act.exists_ok (m := AgentPlan.build adopting)
    (k := {})
    (p := fun e => decide (e.context = {}) && match e.value with
      | .ok a => a.userChain?.isSome && decide (a.userPlace = none)
      | .error _ => false)
    (by decide +kernel)
  simp only [Bool.and_eq_true, decide_eq_true_eq] at hp
  obtain ⟨rfl, hp⟩ := hp
  cases value with
  | error e => cases hp
  | ok a =>
      simp only [Bool.and_eq_true, decide_eq_true_eq] at hp
      have hnone := builtinUser?_of_none hp.2
      exact ⟨a, trail, hbuild, hp.1, runUserJob_of_none hnone .idle none, onUser_of_none hnone⟩

/-- The user chain that is found takes the request of a walk. -/
theorem requests_find_builtin_walk :
    ∃ a trail d u, AgentPlan.build {} {} = .ok ⟨.ok a, {}, trail⟩ ∧
      performAll [.tick, .stop] a = .ok d ∧ d.context.userChain? = some u ∧
      ∃ e, runUserJob (.gotoTarget ⟨3, 0⟩) none d.context = .ok e ∧
        ∃ installed v t, u.run (.gotoTarget ⟨3, 0⟩) none d.context.world =
            .ok ⟨(installed, v), e.context.world, t⟩ ∧
          e.value = .ok installed ∧ e.context.userChain? = some v ∧
            e.context.runner.enabled = true := by
  obtain ⟨⟨value, context, trail⟩, hbuild, hp⟩ := Act.exists_ok (m := AgentPlan.build {}) (k := {})
    (p := fun e => decide (e.context = {}) && match e.value with
      | .ok a => (performAll [.tick, .stop]).passes a fun _ => true
      | .error _ => false)
    (by decide +kernel)
  simp only [Bool.and_eq_true, decide_eq_true_eq] at hp
  obtain ⟨rfl, hp⟩ := hp
  cases value with
  | error e => cases hp
  | ok a =>
      obtain ⟨d, hd, -⟩ := Act.exists_ok hp
      obtain ⟨-, hbuiltin, -⟩ := (requests_find_builtin [.tick, .stop] hbuild).of_ok hd
      obtain ⟨u, hfound, hrequest, -⟩ := hbuiltin rfl
      obtain ⟨e, he, installed, v, t, hrun, hr, hagain, hc⟩ :=
        (hrequest (.gotoTarget ⟨3, 0⟩) none).ok
      refine ⟨a, trail, d, u, hbuild, hd, hfound, e, he, installed, v, t, hrun, hr, hagain, ?_⟩
      rw [hc]

end Agent

end Arbiter
