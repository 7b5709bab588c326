import Arbiter.Proofs.Agent.Lookup

/-! Halts of an agent. A stop takes the user job and control from every chain; afterwards only time
passes, whatever is done with the agent, until it takes the next request for a user job. -/

namespace Arbiter

/-! ## The passing of time -/

/-- However much time passes, it moves the clock, the hunger and the health only. -/
theorem World.times_advance (n : Nat) (w : World) :
    (Act.times n World.advance).Ensures w fun _ w' _ =>
      ∃ hunger health, w' = { w with tick := w.tick + n, hunger, health } := by
  refine Act.Meets.times (I := fun i w' =>
    ∃ hunger health, w' = { w with tick := w.tick + i, hunger, health }) ?_
    ⟨w.hunger, w.health, rfl⟩
  rintro i - _ ⟨hunger, health, rfl⟩
  refine (World.advance_meets _).mono (fun _ _ => trivial) ?_
  rintro _ w' _ ⟨hunger', -, rfl⟩
  exact ⟨hunger', _, rfl⟩

/-! ## User chains without a job -/

namespace UserChain

theorem cancel_of_none {u : UserChain Job} (h : u.inner.spine = none) :
    u.cancel = pure (false, u) := by
  rw [cancel, SingleChain.cancel, h]
  rfl

end UserChain

namespace AgentChain

def holdsUserJob (c : AgentChain) : Bool := c.user?.any UserChain.hasTask

theorem rigid_holdsUserJob : Chain.Rigid holdsUserJob := by
  intro c f
  cases c with
  | user u =>
      show (u.inner.spine.map f).isSome = u.inner.spine.isSome
      exact Option.isSome_map
  | _ => rfl

end AgentChain

namespace Agent

/-! ## Stops -/

/-- The runner is halted, and no user chain holds a root. -/
structure Halted (a : Agent) : Prop where
  runner : a.runner.Halted
  idle : ∀ c ∈ a.runner.chains, c.holdsUserJob = false

variable {F : Fault → Prop} {a : Agent}

def OnlyBuiltin (a : Agent) : Prop :=
  ∀ i c, a.runner.chains[i]? = some c → c.isUser = true → a.userPlace = some i

/-- A cancellation takes the root from the built-in user chain, and so from all of them. -/
theorem cancelUserJob_idle (ha : a.OnlyBuiltin) :
    cancelUserJob.Meets a (fun _ => False) fun _ b _ =>
      ∀ c ∈ b.runner.chains, c.holdsUserJob = false := by
  have hother : ∀ c : AgentChain, c.isUser = false → c.holdsUserJob = false := by
    rintro (c | u | c) hc
    · rfl
    · cases hc
    · rfl
  cases huser : a.builtinUser? with
  | none =>
      rw [cancelUserJob, Act.Meets, onUser_of_none huser]
      intro c hc
      refine hother c (Bool.eq_false_iff.mpr fun hisUser => ?_)
      obtain ⟨i, hi⟩ := List.mem_iff_getElem?.mp hc
      obtain ⟨u, hu⟩ := Option.isSome_iff_exists.mp hisUser
      simp [builtinUser?, ha i c hi hisUser, hi, hu] at huser
  | some p =>
      obtain ⟨i, u⟩ := p
      have hplace : a.userPlace = some i := ha i _ (builtinUser?_chain huser) rfl
      have hcancel := u.cancel_meets (w := a.world) Job.releases
      refine (onUser_meets huser (hcancel.imp fun _ _ _ _ => trivial)).imp ?_
      rintro _ b _ ⟨cancelled, v, hrun, -, hb⟩
      have hv : v.inner.spine = none := hcancel.of_ok hrun
      intro c hc
      rw [hb] at hc
      obtain ⟨j, hj⟩ := List.mem_iff_getElem?.mp hc
      by_cases hij : i = j
      · subst hij
        have hlt := (List.getElem?_eq_some_iff.mp (builtinUser?_chain huser)).1
        rw [Runner.setChain, List.getElem?_set_self hlt] at hj
        cases hj
        show v.inner.spine.isSome = false
        rw [hv]
        rfl
      · rw [Runner.setChain, List.getElem?_set_ne hij] at hj
        refine hother c (Bool.eq_false_iff.mpr fun hisUser => hij ?_)
        exact Option.some.inj (hplace.symm.trans (ha j c hj hisUser))

theorem stop_halted (ha : a.OnlyBuiltin) :
    stop.Meets a (fun _ => False) fun _ b _ => b.Halted := by
  have hview : ∀ {r r' : Runner AgentChain}, Chain.Calmed r.chains r'.chains →
      (∀ c ∈ r.chains, c.holdsUserJob = false) → ∀ c ∈ r'.chains, c.holdsUserJob = false := by
    intro r r' h hidle c hc
    have hmem := List.mem_map_of_mem (f := AgentChain.holdsUserJob) hc
    rw [h.view AgentChain.rigid_holdsUserJob] at hmem
    obtain ⟨d, hd, hsame⟩ := List.mem_map.mp hmem
    exact hsame ▸ hidle d hd
  rw [stop]
  refine (cancelUserJob_idle ha).bind fun _ b _ hb => ?_
  refine (onRunner_meets (Runner.stopCurrent_meets Job.releases b.runner)).bind ?_
  rintro _ c _ ⟨-, hc⟩
  have hidle : ∀ d ∈ c.runner.chains, d.holdsUserJob = false := by
    rcases hc with ⟨-, hsame, -⟩ | ⟨-, -, -, hcalmed, -⟩
    · rwa [hsame]
    · exact hview hcalmed hb
  refine (onRunner_meets (Runner.disable_halts Job.releases c.runner)).bind ?_
  rintro _ d _ ⟨-, hhalted, hcalmed, -⟩
  exact Act.Meets.get_bind (Act.meets_note ⟨hhalted, hview hcalmed hidle⟩)

/-! ## Halted agents -/

/-- An operation that leaves a halted agent at rest: a request does if it is refused. -/
def Operation.Rests (a : Agent) : Operation → Prop
  | request _ _ => a.builtinUser? = none
  | change _ => False
  | _ => True

theorem onRunner_of_pure {act : Runner AgentChain → Act World (Happening Job) (Runner AgentChain)}
    (h : act a.runner = pure a.runner) : (onRunner act).Meets a F fun _ b t => b = a ∧ t = [] := by
  have hact : (act a.runner).Meets a.world F fun r w t => r = a.runner ∧ w = a.world ∧ t = [] := by
    rw [h]
    exact Act.meets_pure ⟨rfl, rfl, rfl⟩
  refine (onRunner_meets hact).imp ?_
  rintro _ b t ⟨hb, hrunner, hworld, rfl⟩
  exact ⟨by rw [hb, hrunner, hworld], rfl⟩

namespace Halted

theorem tick (ha : a.Halted) :
    Agent.tick.Meets a (fun e => World.advance a.world = .error e) fun _ b t =>
      (∃ d, World.advance a.world = .ok d ∧ b = { a with world := d.context }) ∧
        hooks t = [] ∧ events t = [] := by
  rw [Agent.tick]
  refine Act.Meets.bind (P := fun _ b t =>
    (∃ d, World.advance a.world = .ok d ∧ b = { a with world := d.context }) ∧
      hooks t = [] ∧ events t = []) ?_ ?_
  · refine Act.Meets.within (Act.Meets.mapTrail ((Act.meets_run _ _).imp ?_))
    intro _ w' t hrun
    exact ⟨⟨_, hrun, rfl⟩, hooks_map_noted t, events_map_noted t⟩
  · rintro _ b t ⟨⟨d, hd, rfl⟩, hhooks, hevents⟩
    refine (onRunner_of_pure (a := { a with world := d.context }) ha.runner.tick).imp ?_
    rintro _ c _ ⟨rfl, rfl⟩
    exact ⟨⟨d, hd, rfl⟩, by simp [hhooks], by simp [hevents]⟩

theorem cancelUserJob (ha : a.Halted) :
    Agent.cancelUserJob.Meets a F fun _ b t => b = a ∧ t = [] := by
  cases huser : a.builtinUser? with
  | none =>
      rw [Agent.cancelUserJob, Act.Meets, onUser_of_none huser]
      exact ⟨rfl, rfl⟩
  | some p =>
      obtain ⟨i, u⟩ := p
      have hchain := builtinUser?_chain huser
      have hheld : u.inner.spine.isSome = false := ha.idle _ (List.mem_of_getElem? hchain)
      have hcancel := UserChain.cancel_of_none (by simpa using hheld)
      have hrun : u.cancel.Meets a.world F fun _ _ _ => True := by
        rw [hcancel]
        exact Act.meets_pure trivial
      refine (onUser_meets huser hrun).imp ?_
      rintro _ b t ⟨cancelled, v, hrun, -, hb⟩
      rw [hcancel, Act.pure_apply] at hrun
      simp only [Except.ok.injEq, Done.mk.injEq, Prod.mk.injEq] at hrun
      obtain ⟨⟨-, rfl⟩, hworld, rfl⟩ := hrun
      rw [← hworld, Runner.setChain_self hchain] at hb
      exact ⟨hb, rfl⟩

theorem stop (ha : a.Halted) :
    Agent.stop.Meets a F fun _ b t => b = a ∧ hooks t = [] ∧ events t = [] := by
  rw [Agent.stop]
  refine ha.cancelUserJob.bind ?_
  rintro _ b _ ⟨rfl, rfl⟩
  refine (onRunner_of_pure ha.runner.stopCurrent).bind ?_
  rintro _ b _ ⟨rfl, rfl⟩
  refine (onRunner_of_pure ha.runner.disable).bind ?_
  rintro _ b _ ⟨rfl, rfl⟩
  exact Act.Meets.get_bind (Act.meets_note ⟨rfl, rfl, rfl⟩)

theorem perform (ha : a.Halted) {op : Operation} (hop : op.Rests a) (htick : op.isTick = false) :
    (Agent.perform op).Meets a F fun _ b t => b = a ∧ hooks t = [] ∧ events t = [] := by
  cases op with
  | tick => cases htick
  | request job callback =>
      have hrefused : (runUserJob job callback).Meets a F fun _ b t => b = a ∧ t = [] := by
        rw [Act.Meets, runUserJob_of_none hop job callback]
        exact ⟨rfl, rfl⟩
      refine hrefused.bind ?_
      rintro _ b _ ⟨rfl, rfl⟩
      exact Act.meets_pure ⟨rfl, rfl, rfl⟩
  | cancel =>
      refine ha.cancelUserJob.bind ?_
      rintro _ b _ ⟨rfl, rfl⟩
      exact Act.meets_pure ⟨rfl, rfl, rfl⟩
  | stop => exact ha.stop
  | change f => exact hop.elim

theorem performAll (ha : a.Halted) {later : List Operation} (hlater : ∀ op ∈ later, op.Rests a) :
    (Agent.performAll later).Meets a
      (fun e => Act.times (later.countP Operation.isTick) World.advance a.world = .error e)
      fun _ b t =>
        (∃ d, Act.times (later.countP Operation.isTick) World.advance a.world = .ok d ∧
          b = { a with world := d.context }) ∧ hooks t = [] ∧ events t = [] := by
  induction later generalizing a with
  | nil => exact Act.meets_pure ⟨⟨⟨(), a.world, []⟩, rfl, rfl⟩, rfl, rfl⟩
  | cons op later ih =>
      have hop := hlater op List.mem_cons_self
      have hrest := fun op' hop' => hlater op' (List.mem_cons_of_mem op hop')
      rw [List.countP_cons]
      cases htick : op.isTick with
      | false =>
          refine (ha.perform hop htick).bind ?_
          rintro _ b t ⟨rfl, hhooks, hevents⟩
          refine (ih ha hrest).imp ?_
          rintro _ c t' ⟨hc, hhooks', hevents'⟩
          exact ⟨hc, by simp [hhooks, hhooks'], by simp [hevents, hevents']⟩
      | true =>
          obtain rfl : op = .tick := by cases op <;> first | rfl | cases htick
          rw [if_pos rfl, Act.times_succ]
          have hfault : ∀ e, World.advance a.world = .error e →
              (World.advance >>= fun _ => Act.times (later.countP Operation.isTick) World.advance)
                a.world = .error e := by
            intro e he
            rw [Act.bind_apply, he]
          refine (ha.tick.mono hfault fun _ _ _ h => h).bind ?_
          rintro _ b t ⟨⟨d, hd, rfl⟩, hhooks, hevents⟩
          refine (ih (a := { a with world := d.context }) ⟨ha.runner, ha.idle⟩ hrest).mono ?_ ?_
          · intro e he
            rw [Act.bind_apply, hd]
            simp only [he]
          · rintro _ c t' ⟨⟨d', hd', hc⟩, hhooks', hevents'⟩
            refine ⟨⟨⟨d'.value, d'.context, d.trail ++ d'.trail⟩, ?_, hc⟩,
              by simp [hhooks, hhooks'], by simp [hevents, hevents']⟩
            rw [Act.bind_apply, hd]
            simp only [hd']

theorem shown (ha : a.Halted) :
    (∀ u, a.userChain? = some u → u.hasTask = false) ∧
      (∀ c ∈ a.runner.chains, Chain.isActive c = false) ∧ a.runner.current = none ∧
        a.report.spine = [] ∧ a.statusLine = "(disabled)" := by
  refine ⟨?_, ha.runner.inactive, ha.runner.current, ?_, ?_⟩
  · intro u hu
    obtain ⟨c, hc, huser⟩ := List.exists_of_findSome?_eq_some hu
    simpa [AgentChain.holdsUserJob, huser] using ha.idle c hc
  · show a.runner.trace.spine = []
    rw [ha.runner.trace]
    rfl
  · have henabled : a.report.enabled = false := ha.runner.disabled
    rw [statusLine, Report.text, henabled]
    rfl

end Halted

/-! ## Runs -/

/-- If no user chain is added, an agent has no other than the built-in one. -/
theorem onlyBuiltin_of_kinds {p : AgentPlan} (hextra : ∀ c ∈ p.extra, c.isUser = false)
    (hplace : a.userPlace = if p.builtin then some AgentPlan.userPlace else none)
    (hkinds : a.runner.kinds = p.kinds) : a.OnlyBuiltin := by
  intro i c hc hisUser
  have hkind : p.kinds[i]? = some true := by
    rw [← hkinds, Runner.kinds, List.getElem?_map, hc, Option.map_some, hisUser]
  have hadded : ∀ j : Nat, (p.extra.map AgentChain.isUser)[j]? ≠ some true := by
    intro j hj
    obtain ⟨d, hd, hd'⟩ := List.mem_map.mp (List.mem_of_getElem? hj)
    rw [hextra d hd] at hd'
    cases hd'
  rw [AgentPlan.kinds] at hkind
  cases hbuiltin : p.builtin with
  | false =>
      rw [hbuiltin] at hkind
      exact absurd hkind (hadded i)
  | true =>
      rw [hbuiltin, if_pos rfl] at hkind hplace
      rw [hplace]
      rw [List.getElem?_append] at hkind
      split at hkind
      · next hi =>
        have hlast : ∀ i < 5, [false, false, false, false, true][i]? = some true → i = 4 := by
          decide
        rw [hlast i hi hkind, AgentPlan.userPlace]
      · exact absurd hkind (hadded _)

/-- A stop goes through, whatever the agent is doing, and leaves it halted. From then on ticks,
cancellations, stops and refused requests call no hook, tell the sink nothing and change nothing
but what the passing of time does. The next request that is not refused enables the runner. -/
theorem stop_halts {p : AgentPlan} {k k' : World} {trail : List (Happening Job)}
    (ops : List Operation) (hbuild : p.build k = .ok ⟨.ok a, k', trail⟩)
    (hextra : ∀ c ∈ p.extra, c.isUser = false) :
    (performAll ops).Ensures a fun _ b _ => stop.Meets b (fun _ => False) fun _ c _ =>
      ((∀ u, c.userChain? = some u → u.hasTask = false) ∧
        (∀ d ∈ c.runner.chains, Chain.isActive d = false) ∧ c.runner.current = none ∧
          c.report.spine = [] ∧ c.statusLine = "(disabled)") ∧
        ∀ later : List Operation, (∀ op ∈ later, op.Rests c) →
          (performAll later).Meets c
            (fun e => Act.times (later.countP Operation.isTick) World.advance c.world = .error e)
            fun _ d t => hooks t = [] ∧ events t = [] ∧
              (∃ e, Act.times (later.countP Operation.isTick) World.advance c.world = .ok e ∧
                d = { c with world := e.context }) ∧
              (∃ hunger health, d.world = { c.world with
                tick := c.world.tick + later.countP Operation.isTick, hunger, health }) ∧
              ∀ job callback, (runUserJob job callback).Meets d (fun _ => False) fun r e _ =>
                r = .error notRegistered ∧ e = d ∨
                  (∃ installed, r = .ok installed) ∧ e.runner.enabled = true := by
  refine (performAll_kinds ops hbuild).imp ?_
  rintro _ b _ ⟨hplace, hkinds⟩
  refine (stop_halted (onlyBuiltin_of_kinds hextra hplace hkinds)).imp ?_
  rintro _ c _ hc
  refine ⟨hc.shown, fun later hlater => (hc.performAll hlater).imp ?_⟩
  rintro _ d t ⟨⟨e, he, hd⟩, hhooks, hevents⟩
  refine ⟨hhooks, hevents, ⟨e, he, hd⟩, ?_, fun job callback => ?_⟩
  · rw [hd]
    exact (World.times_advance _ c.world).of_ok he
  · cases huser : d.builtinUser? with
    | none =>
        rw [Act.Meets, runUserJob_of_none huser]
        exact Or.inl ⟨rfl, rfl⟩
    | some p =>
        obtain ⟨i, u⟩ := p
        refine (runUserJob_meets huser job callback).imp ?_
        rintro r e _ ⟨installed, v, t, -, hr, he⟩
        exact Or.inr ⟨⟨installed, hr⟩, by rw [he]⟩

def hosting : AgentPlan where
  extra :=
    [.single
      { name := "Errands", priority := fun _ => .ofInt 40
        spine := some (.ofTask (.gotoTarget ⟨0, 2⟩)) }]

/-- The agent is stopped in the middle of a walk and stays where it is. -/
theorem stop_halts_hosting :
    ∃ a trail d e f, AgentPlan.build hosting {} = .ok ⟨.ok a, {}, trail⟩ ∧
      performAll [.tick, .request (.gotoTarget ⟨3, 0⟩) none, .tick, .tick] a = .ok d ∧
      stop d.context = .ok e ∧
      performAll [.tick, .cancel, .stop, .tick] e.context = .ok f ∧
      d.context.report.spine ≠ [] ∧ e.context.statusLine = "(disabled)" ∧ hooks f.trail = [] ∧
      f.context.world.position = e.context.world.position := by
  obtain ⟨⟨value, context, trail⟩, hbuild, hp⟩ := Act.exists_ok (m := AgentPlan.build hosting)
    (k := {})
    (p := fun e => decide (e.context = {}) && match e.value with
      | .ok a =>
        (performAll [.tick, .request (.gotoTarget ⟨3, 0⟩) none, .tick, .tick]).passes a fun d =>
          (!d.context.report.spine.isEmpty) && stop.passes d.context fun e =>
            (performAll [.tick, .cancel, .stop, .tick]).passes e.context fun _ => true
      | .error _ => false)
    (by decide +kernel)
  simp only [Bool.and_eq_true, decide_eq_true_eq] at hp
  obtain ⟨rfl, hp⟩ := hp
  cases value with
  | error e => cases hp
  | ok a =>
      obtain ⟨d, hd, hp⟩ := Act.exists_ok hp
      simp only [Bool.and_eq_true] at hp
      obtain ⟨hspine, hp⟩ := hp
      obtain ⟨e, he, hp⟩ := Act.exists_ok hp
      obtain ⟨f, hf, -⟩ := Act.exists_ok hp
      have hextra : ∀ c ∈ hosting.extra, c.isUser = false := by
        intro c hc
        obtain rfl := List.mem_singleton.mp hc
        rfl
      obtain ⟨⟨-, -, -, -, hline⟩, hlater⟩ :=
        ((stop_halts [.tick, .request (.gotoTarget ⟨3, 0⟩) none, .tick, .tick] hbuild hextra).of_ok
          hd).of_ok he
      have hrests : ∀ op ∈ [Operation.tick, .cancel, .stop, .tick], op.Rests e.context := by
        simp [Operation.Rests]
      obtain ⟨hhooks, -, -, ⟨hunger, health, hworld⟩, -⟩ := (hlater _ hrests).of_ok hf
      refine ⟨a, trail, d, e, f, hbuild, hd, he, hf, by simpa using hspine, hline, hhooks, ?_⟩
      rw [hworld]

end Agent

end Arbiter
