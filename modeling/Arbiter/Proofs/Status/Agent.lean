import Arbiter.Proofs.Agent.Lookup
import Arbiter.Proofs.Status.Runner

/-! What an agent with the built-in chains shows of itself. Its reports can be read back from their
texts after every operation, so a status line, which compares texts, is written after a tick exactly
if the report is not the one that it showed last. -/

namespace Arbiter

/-- The passing of time writes nothing but traces. -/
theorem World.advance_traces (w : World) :
    World.advance.Keeps w (fun _ => True) (fun r => r.severity = .trace) fun _ _ => True := by
  rw [advance]
  refine Act.Keeps.get_bind (Act.Keeps.ofExcept_bind (fun _ _ => trivial) fun tick _ => ?_)
  refine Act.Keeps.ofExcept_bind (fun _ _ => trivial) fun hunger _ => ?_
  split
  · exact Act.Keeps.set_bind (Act.keeps_tell rfl trivial)
  · exact Act.keeps_set trivial

/-- The record by which a status line shows a report. -/
def Report.record (r : Report) : Record := ⟨.info, "task chain", [("status", r.text)]⟩

namespace Agent

variable {a : Agent}

/-! ## Operations -/

/-- What an operation leaves when it is no tick: the report can be read back, and the sink is as
it was. -/
structure Presents (a b : Agent) : Prop where
  legible : b.runner.Legible
  sink : b.runner.sink = a.runner.sink

theorem Presents.trans {a b c : Agent} (h : Presents a b) (h' : Presents b c) : Presents a c :=
  ⟨h'.legible, h'.sink.trans h.sink⟩

theorem presents_onUser {α : Type}
    {m : UserChain Job → Act World (Happening Job) (α × UserChain Job)} (ha : a.runner.Legible)
    (hm : ∀ {u : UserChain Job}, u.inner.Legible →
      (m u).Ensures a.world fun p _ _ => p.2.inner.Legible) :
    (onUser m).Ensures a fun _ b _ => Presents a b := by
  cases huser : a.builtinUser? with
  | none =>
      rw [Act.Ensures, Act.Meets, onUser_of_none huser]
      exact ⟨ha, rfl⟩
  | some p =>
      obtain ⟨i, u⟩ := p
      have hu : u.inner.Legible :=
        ha.chains (.user u) (List.mem_of_getElem? (builtinUser?_chain huser))
      refine (onUser_meets huser (Act.ensures_true (m u) a.world)).imp ?_
      rintro _ b _ ⟨x, v, hrun, -, hb⟩
      have hv : AgentChain.Legible (.user v) := (hm hu).of_ok hrun
      rw [hb]
      exact ⟨ha.setChain hv, rfl⟩

theorem presents_onRunner
    {act : Runner AgentChain → Act World (Happening Job) (Runner AgentChain)}
    (h : (act a.runner).Ensures a.world fun r _ _ => r.Legible ∧ r.sink = a.runner.sink) :
    (onRunner act).Ensures a fun _ b _ => Presents a b :=
  (onRunner_meets h).imp fun _ _ _ hb => ⟨hb.2.1, hb.2.2⟩

theorem presents_runUserJob (ha : a.runner.Legible) (job : Job) (callback : Option Callback) :
    (runUserJob job callback).Ensures a fun _ b _ => Presents a b := by
  rw [runUserJob]
  refine (presents_onUser ha fun hu => UserChain.run_legible hu job callback).bind ?_
  intro result b _ hb
  cases result with
  | error e => exact Act.meets_pure hb
  | ok installed =>
      refine (presents_onRunner hb.legible.enable).bind fun _ c _ hc => ?_
      exact Act.meets_pure (hb.trans hc)

theorem presents_stop (ha : a.runner.Legible) : stop.Ensures a fun _ b _ => Presents a b := by
  rw [stop]
  refine (presents_onUser ha UserChain.cancel_legible).bind fun _ b _ hb => ?_
  refine (presents_onRunner hb.legible.stopCurrent).bind fun _ c _ hc => ?_
  refine (presents_onRunner hc.legible.disable).bind fun _ d _ hd => ?_
  exact Act.Meets.get_bind (Act.meets_note ((hb.trans hc).trans hd))

theorem presents_perform (ha : a.runner.Legible) {op : Operation} (hop : op.isTick = false) :
    (perform op).Ensures a fun _ b _ => Presents a b := by
  cases op with
  | tick => cases hop
  | request job callback =>
      exact (presents_runUserJob ha job callback).bind fun _ _ _ hb => Act.meets_pure hb
  | cancel =>
      exact (presents_onUser ha UserChain.cancel_legible).bind fun _ _ _ hb => Act.meets_pure hb
  | stop => exact presents_stop ha
  | change f => exact Act.meets_modify ⟨ha, rfl⟩

/-! ## Ticks -/

/-- The tick ends with the status line of its report. -/
def Prints (d : Done Agent (Happening Job) Unit) : Prop :=
  d.trail.getLast? = some (.noted d.context.report.record)

instance (d : Done Agent (Happening Job) Unit) : Decidable (Prints d) :=
  inferInstanceAs (Decidable (_ = _))

/-- After a tick that the runner takes part in, the sink has been told of the report last. A tick of
a stopped agent leaves no more than the traces of the passing of time. -/
theorem tick_reports (ha : a.runner.Legible) :
    tick.Ensures a fun _ b t => b.runner.Legible ∧
      (a.isStopped = false ∧ Runner.Reported a.runner b.runner t ∨
        a.isStopped = true ∧ b.runner = a.runner ∧
          ∀ x ∈ t, ∃ r : Record, x = .noted r ∧ r.severity = .trace) := by
  rw [tick]
  refine Act.Meets.bind (P := fun _ b t => b.runner = a.runner ∧
    ∀ x ∈ t, ∃ r : Record, x = .noted r ∧ r.severity = .trace) ?_ ?_
  · refine Act.Meets.within (Act.Meets.mapTrail (Act.Meets.imp (World.advance_traces a.world) ?_))
    rintro _ w t ⟨ht, -⟩
    refine ⟨rfl, fun x hx => ?_⟩
    obtain ⟨r, hr, rfl⟩ := List.mem_map.mp hx
    exact ⟨r, rfl, ht r hr⟩
  · rintro _ b t ⟨hb, ht⟩
    refine (onRunner_meets (hb ▸ ha).tick).imp ?_
    rintro _ c u ⟨-, hlegible, -, ⟨he, hreported⟩ | ⟨he, hsame, rfl⟩⟩
    · obtain ⟨before, hu⟩ := hreported.trail
      rw [hb] at he hreported hu
      exact ⟨hlegible, Or.inl ⟨by simp [isStopped, he], hreported.sink, t ++ before, by simp [hu]⟩⟩
    · rw [hb] at he hsame
      exact ⟨hlegible, Or.inr ⟨by simp [isStopped, he], hsame, by simpa using ht⟩⟩

end Agent

namespace Runner

variable {r r' : Runner AgentChain} {t : List (Happening Job)} {wanted : Bool} {last : String}

/-- A status line shows a report whose text is not the one that it has shown last. -/
theorem Reported.shows (h : Reported r r' t) (hsink : r.sink = .statusLine wanted last)
    (hwanted : wanted = true) (hnew : r'.report.text ≠ last) :
    t.getLast? = some (.noted r'.report.record) ∧
      r'.sink = .statusLine wanted r'.report.text := by
  obtain ⟨hsink', before, ht⟩ := h
  rw [hsink, Sink.receive, if_pos (by simp [hwanted, hnew])] at hsink' ht
  exact ⟨by simp [ht, Report.record], hsink'⟩

theorem Reported.omits (h : Reported r r' t) (hsink : r.sink = .statusLine wanted last)
    (hold : wanted = true → r'.report.text = last) :
    t.getLast? = some (.reported (.tickFinished r'.report)) ∧
      r'.sink = .statusLine wanted last := by
  obtain ⟨hsink', before, ht⟩ := h
  have hquiet : ¬ (wanted && r'.report.text != last) = true := by simpa using hold
  rw [hsink, Sink.receive, if_neg hquiet] at hsink' ht
  exact ⟨by simp [ht], hsink'⟩

end Runner

/-! ## New agents -/

theorem SingleChain.legible_ofPriority {name : String} (h : Report.Heading name)
    (priority : Number.Binary32) : (ofPriority name priority : SingleChain World Job).Legible := by
  refine ⟨h, fun s hs => ?_⟩
  have hnone : (none : Option (Spine Job)) = some s := hs
  cases hnone

theorem Trigger.heading_name (t : Trigger) : Report.Heading t.name := by
  cases t <;> simp only [name] <;> decide

theorem AgentChain.legible_reactive (t : Trigger) :
    (AgentChain.reactive (.ofTrigger t)).Legible :=
  SingleChain.legible_ofPriority t.heading_name t.priority

theorem AgentChain.legible_user (idleWhenInactive : Bool) :
    (AgentChain.user (.ofIdle idleWhenInactive)).Legible :=
  SingleChain.legible_ofPriority (by decide) UserChain.priority

/-- The names of the built-in chains can begin a line, and there are no spines yet. -/
theorem AgentPlan.builtinChains_legible (c : Config) : Runner.AllLegible (builtinChains c) := by
  intro chain hchain
  simp only [builtinChains, List.mem_cons, List.not_mem_nil, or_false] at hchain
  rcases hchain with rfl | rfl | rfl | rfl | rfl
  · exact AgentChain.legible_reactive _
  · exact AgentChain.legible_reactive _
  · exact AgentChain.legible_reactive _
  · exact AgentChain.legible_reactive _
  · exact AgentChain.legible_user _

theorem AgentPlan.build_legible {p : AgentPlan} (hbuiltin : p.builtin = true)
    (hextra : p.extra = []) (k : World) :
    p.build.Ensures k fun r _ _ => ∀ a, r = .ok a → a.runner.Legible ∧
      a.runner.sink = p.sink.getD (.line p.config.showTaskChain) := by
  rw [build]
  split
  · exact Act.meets_pure fun _ h => by cases h
  · simp only [hbuiltin, hextra, if_true, List.append_nil]
    refine (Runner.registerAll_meets _ _ k).bind ?_
    rintro r _ _ ⟨rfl, -⟩
    refine Act.Meets.note_bind (Act.meets_pure ?_)
    intro a h
    rw [← Except.ok.inj h]
    exact ⟨Runner.AllLegible.idle (builtinChains_legible p.config) rfl rfl, rfl⟩

namespace Agent

/-! ## Runs -/

/-- An agent with the built-in chains only, after any operations since it was built, and the report
that its ticks have printed last. -/
inductive Reached (p : AgentPlan) : Agent → Option Report → Prop
  | built {a : Agent} {k k' : World} {trail : List (Happening Job)} (hbuiltin : p.builtin = true)
      (hextra : p.extra = []) (hbuild : p.build k = .ok ⟨.ok a, k', trail⟩) : Reached p a none
  | printed {a : Agent} {last : Option Report} {d : Done Agent (Happening Job) Unit}
      (h : Reached p a last) (hd : tick a = .ok d) (hprints : Prints d) :
      Reached p d.context (some d.context.report)
  | unprinted {a : Agent} {last : Option Report} {d : Done Agent (Happening Job) Unit}
      (h : Reached p a last) (hd : tick a = .ok d) (hprints : ¬ Prints d) :
      Reached p d.context last
  | performed {a : Agent} {last : Option Report} {op : Operation}
      {d : Done Agent (Happening Job) Unit} (h : Reached p a last) (hop : op.isTick = false)
      (hd : perform op a = .ok d) : Reached p d.context last

variable {p : AgentPlan} {last : Option Report}

/-- What every run keeps: the report can be read back, as could be the one that was printed last,
and a status line knows the text of that. -/
structure Presented (p : AgentPlan) (a : Agent) (last : Option Report) : Prop where
  legible : a.runner.Legible
  printed : ∀ r ∈ last, r.Legible
  sink : ∀ wanted, p.sink.getD (.line p.config.showTaskChain) = .line wanted →
    a.runner.sink = .statusLine wanted (Report.shownText last)

/-- When a status line shows the report of a tick. -/
def Due (wanted : Bool) (a : Agent) (last : Option Report) (report : Report) : Prop :=
  wanted = true ∧ a.isStopped = false ∧ last ≠ some report

/-- A tick prints its report exactly if that is due, and then the status line knows its text. -/
theorem Presented.tick (h : Presented p a last) {d : Done Agent (Happening Job) Unit}
    (hd : Agent.tick a = .ok d) {wanted : Bool}
    (hsink : p.sink.getD (.line p.config.showTaskChain) = .line wanted) :
    Prints d ∧ Due wanted a last d.context.report ∧
        d.context.runner.sink = .statusLine wanted d.context.report.text ∨
      ¬ Prints d ∧ ¬ Due wanted a last d.context.report ∧
        d.context.runner.sink = .statusLine wanted (Report.shownText last) := by
  have hknown := h.sink wanted hsink
  obtain ⟨hlegible, ⟨hrunning, hreported⟩ | ⟨hstopped, hsame, htraces⟩⟩ :=
    (tick_reports h.legible).of_ok hd
  · have hiff := hlegible.report.text_eq_shownText_iff h.printed
    by_cases hdue : wanted = true ∧ d.context.report.text ≠ Report.shownText last
    · obtain ⟨hprints, hsink'⟩ := hreported.shows hknown hdue.1 hdue.2
      exact Or.inl ⟨hprints, ⟨hdue.1, hrunning, fun hl => hdue.2 (hiff.mpr hl)⟩, hsink'⟩
    · have hold : wanted = true → d.context.report.text = Report.shownText last := by
        simpa using hdue
      obtain ⟨hend, hsink'⟩ := hreported.omits hknown hold
      refine Or.inr ⟨?_, fun hdue => hdue.2.2 (hiff.mp (hold hdue.1)), hsink'⟩
      rw [Prints, hend]
      simp
  · refine Or.inr ⟨fun hprints => ?_, fun hdue => ?_, hsame ▸ hknown⟩
    · obtain ⟨r, hr, htrace⟩ := htraces _ (List.mem_of_getLast? hprints)
      rw [← Happening.noted.inj hr] at htrace
      cases htrace
    · exact absurd (hstopped.symm.trans hdue.2.1) (by decide)

theorem Reached.presented (h : Reached p a last) : Presented p a last := by
  induction h with
  | built hbuiltin hextra hbuild =>
      obtain ⟨hlegible, hsink'⟩ := (AgentPlan.build_legible hbuiltin hextra _).of_ok hbuild _ rfl
      exact ⟨hlegible, nofun, fun wanted hsink => hsink'.trans hsink⟩
  | printed _ hd hprints ih =>
      have hlegible := ((tick_reports ih.legible).of_ok hd).1
      refine ⟨hlegible, ?_, fun wanted hsink => ?_⟩
      · rintro _ ⟨⟩
        exact hlegible.report
      · rcases ih.tick hd hsink with ⟨-, -, hsink'⟩ | ⟨hnot, -⟩
        · exact hsink'
        · exact absurd hprints hnot
  | unprinted _ hd hprints ih =>
      refine ⟨((tick_reports ih.legible).of_ok hd).1, ih.printed, fun wanted hsink => ?_⟩
      rcases ih.tick hd hsink with ⟨hnot, -⟩ | ⟨-, -, hsink'⟩
      · exact absurd hnot hprints
      · exact hsink'
  | performed _ hop hd ih =>
      have hkept := (presents_perform ih.legible hop).of_ok hd
      exact ⟨hkept.legible, ih.printed, fun wanted hsink => hkept.sink.trans (ih.sink wanted hsink)⟩

end Agent

end Arbiter
