import Arbiter.Simulation.Session
import Arbiter.Proofs.Status.Agent

/-! Status never hides a change. Whoever compares the texts of reports, as status lines and
simulations do, shows a report exactly if it is not the one that was shown last. -/

namespace Arbiter

/-! ## Scenarios -/

variable {a : Agent}

theorem Agent.presents_onWorld (ha : a.runner.Legible) (m : Act World Record Unit) :
    (onWorld m).Ensures a fun _ b _ => Presents a b :=
  Act.Meets.within ((Act.ensures_true _ a.world).imp fun _ _ _ _ => ⟨ha, rfl⟩)

theorem Cue.presents_fire (ha : a.runner.Legible) (c : Cue) :
    c.fire.Ensures a fun _ b _ => a.Presents b := by
  cases c with
  | errand target =>
      exact Act.Meets.get_bind ((Agent.presents_runUserJob ha _ _).bind fun _ _ _ hb =>
        Act.meets_pure hb)
  | ambush id dx dy health =>
      exact (Agent.presents_onWorld ha _).bind fun _ _ _ hb => Act.meets_pure hb
  | hazard => exact (Agent.presents_onWorld ha _).bind fun _ _ _ hb => Act.meets_pure hb
  | hunger level => exact (Agent.presents_onWorld ha _).bind fun _ _ _ hb => Act.meets_pure hb
  | wall tiles => exact (Agent.presents_onWorld ha _).bind fun _ _ _ hb => Act.meets_pure hb

theorem Scenario.presents_applyFrom (ha : a.runner.Legible) (fired pending : List TimedCue) :
    (applyFrom fired pending).Ensures a fun _ b _ => a.Presents b := by
  induction pending generalizing a fired with
  | nil => exact Act.meets_pure ⟨ha, rfl⟩
  | cons c rest ih =>
      rw [applyFrom]
      refine Act.Meets.get_bind ?_
      split
      · exact Act.meets_pure ⟨ha, rfl⟩
      · refine Act.Meets.note_bind ((c.cue.presents_fire ha).bind fun r b _ hb => ?_)
        cases r with
        | error e => exact Act.meets_pure hb
        | ok => exact (ih hb.legible (fired ++ [c])).imp fun _ _ _ hd => hb.trans hd

/-! ## Simulations -/

namespace Session

/-- A simulation after any number of ticks, and the report that it has printed last. -/
inductive Reached (c : Config) : Session → Option Report → Prop
  | opened {part : Part Session} (hpart : ofConfig c = .ok part) : Reached c part.value none
  | printed {s : Session} {last : Option Report} {part : Part Session} (h : Reached c s last)
      (hpart : s.advance = .ok part) (hprinted : part.printed.isSome = true) :
      Reached c part.value (some part.value.agent.report)
  | unprinted {s : Session} {last : Option Report} {part : Part Session} (h : Reached c s last)
      (hpart : s.advance = .ok part) (hprinted : part.printed.isSome = false) :
      Reached c part.value last

variable {c : Config} {s : Session} {last : Option Report} {part : Part Session}

theorem scene_legible (ha : a.runner.Legible) (scenario : Scenario) :
    (scene scenario).Ensures a fun r b _ => ∀ after, r = (after, .ok ()) → b.runner.Legible := by
  rw [scene]
  refine (Scenario.presents_applyFrom ha _ _).bind ?_
  rintro ⟨after, r⟩ b _ hb
  cases r with
  | error e => exact Act.meets_pure fun _ h => by cases h
  | ok =>
      refine (Agent.tick_reports hb.legible).bind ?_
      rintro _ b' _ ⟨hb', -⟩
      exact Act.meets_pure fun _ _ => hb'

theorem advance_spec (hs : s.agent.runner.Legible) (hpart : s.advance = .ok part) :
    part.value.agent.runner.Legible ∧
      (part.value.agent.report.text = s.lastText ∧ part.printed.isSome = false ∧
          part.value.lastText = s.lastText ∨
        part.value.agent.report.text ≠ s.lastText ∧ part.printed.isSome = true ∧
          part.value.lastText = part.value.agent.report.text) := by
  rw [advance] at hpart
  split at hpart
  · cases hpart
  · next d hd =>
    have hlegible := (scene_legible hs s.scenario).of_ok hd
    split at hpart
    · cases hpart
    · next scenario hvalue =>
      have hlegible := hlegible scenario hvalue
      dsimp only at hpart
      split at hpart
      · next hsame =>
        cases hpart
        exact ⟨hlegible, Or.inl ⟨hsame, rfl, rfl⟩⟩
      · next hnew =>
        cases hpart
        exact ⟨hlegible, Or.inr ⟨hnew, rfl, rfl⟩⟩

/-- What every simulation keeps: the report can be read back, as could be the one that was printed
last, and the text of that is known. -/
structure Presented (s : Session) (last : Option Report) : Prop where
  legible : s.agent.runner.Legible
  printed : ∀ r ∈ last, r.Legible
  text : s.lastText = Report.shownText last

theorem Presented.advance (h : Presented s last) (hpart : s.advance = .ok part) :
    last = some part.value.agent.report ∧ part.printed.isSome = false ∧
        Presented part.value last ∨
      last ≠ some part.value.agent.report ∧ part.printed.isSome = true ∧
        Presented part.value (some part.value.agent.report) := by
  obtain ⟨hlegible, hcase⟩ := advance_spec h.legible hpart
  have hiff := hlegible.report.text_eq_shownText_iff h.printed
  rw [h.text] at hcase
  rcases hcase with ⟨hsame, hprinted, htext⟩ | ⟨hnew, hprinted, htext⟩
  · exact Or.inl ⟨hiff.mp hsame, hprinted, hlegible, h.printed, htext⟩
  · refine Or.inr ⟨fun hl => hnew (hiff.mpr hl), hprinted, hlegible, ?_, htext⟩
    rintro _ ⟨⟩
    exact hlegible.report

theorem ofConfig_presented (hpart : ofConfig c = .ok part) : Presented part.value none := by
  rw [ofConfig] at hpart
  split at hpart
  · cases hpart
  · next d hd =>
    split at hpart
    · cases hpart
    · next a hvalue =>
      cases hpart
      have hlegible := ((AgentPlan.build_legible rfl rfl _).of_ok hd a hvalue).1
      exact ⟨hlegible, nofun, rfl⟩

theorem Reached.presented (h : Reached c s last) : Presented s last := by
  induction h with
  | opened hpart => exact ofConfig_presented hpart
  | printed _ hpart hprinted ih =>
      rcases ih.advance hpart with ⟨-, hnot, -⟩ | ⟨-, -, h⟩
      · rw [hprinted] at hnot
        cases hnot
      · exact h
  | unprinted _ hpart hprinted ih =>
      rcases ih.advance hpart with ⟨-, -, h⟩ | ⟨-, hnot, -⟩
      · exact h
      · rw [hprinted] at hnot
        cases hnot

end Session

/-! ## Changes -/

/-- Status never hides a change. Reports of agents with the built-in chains that read alike are
alike. So a status line shows the report of a tick exactly if it is wanted, the agent is not stopped
and the report is not the one that was shown last; and a simulation prints exactly such reports. -/
theorem status_hides_no_change :
    (∀ {p q : AgentPlan} {a b : Agent} {last last' : Option Report},
      Agent.Reached p a last → Agent.Reached q b last' →
        a.report.text = b.report.text → a.report = b.report) ∧
    (∀ {p : AgentPlan} {a : Agent} {last : Option Report} {d : Done Agent (Happening Job) Unit}
      {wanted : Bool}, Agent.Reached p a last →
        p.sink.getD (.line p.config.showTaskChain) = .line wanted → Agent.tick a = .ok d →
          (Agent.Prints d ↔
            wanted = true ∧ a.isStopped = false ∧ last ≠ some d.context.report)) ∧
    (∀ {c : Config} {s : Session} {last : Option Report} {part : Session.Part Session},
      Session.Reached c s last → s.advance = .ok part →
        (part.printed.isSome = true ↔ last ≠ some part.value.agent.report)) := by
  refine ⟨fun ha hb htext => ?_, fun ha hsink hd => ?_, fun hs hpart => ?_⟩
  · exact ha.presented.legible.report.text_inj hb.presented.legible.report htext
  · rcases ha.presented.tick hd hsink with ⟨hprints, hdue, -⟩ | ⟨hnot, hdue, -⟩
    · exact iff_of_true hprints hdue
    · exact iff_of_false hnot hdue
  · rcases hs.presented.advance hpart with ⟨hsame, hprinted, -⟩ | ⟨hnew, hprinted, -⟩
    · exact iff_of_false (by simp [hprinted]) (fun h => h hsame)
    · exact iff_of_true hprinted hnew

def playedDemo : Scenario where
  pending :=
    [⟨0, .errand ⟨12, 0⟩⟩,
     ⟨8, .ambush 1 0 3 8⟩,
     ⟨45, .hazard⟩,
     ⟨70, .hunger 16⟩,
     ⟨90, .wall [⟨16, 1⟩, ⟨16, 2⟩, ⟨16, 3⟩]⟩,
     ⟨95, .errand ⟨20, 0⟩⟩]

theorem Session.first_tick :
    ∃ part next, ofConfig {} = .ok part ∧ part.value.advance = .ok next := by
  have hdemo : Scenario.demo = playedDemo := by
    simp [Scenario.demo, playedDemo, Scenario.ofList, List.mergeSort,
      List.MergeSort.Internal.splitInTwo]
  obtain ⟨a, _, trail, hbuild, hp⟩ := AgentPlan.exists_built
    (p := { config := {}, world := some Scenario.initialWorld }) (k := {})
    (q := fun a => (scene playedDemo).passes a fun d => d.value.2.isOk) (by decide +kernel)
  obtain ⟨⟨⟨scenario, result⟩, b, u⟩, hscene, hok⟩ := Act.exists_ok hp
  cases result with
  | error e => cases hok
  | ok =>
      refine ⟨{ value := { agent := a }, notes := records trail }, ?_⟩
      have hadvance : ∃ next, advance { agent := a } = .ok next := by
        simp only [advance, hdemo, hscene]
        split
        · exact ⟨_, rfl⟩
        · exact ⟨_, rfl⟩
      obtain ⟨next, hnext⟩ := hadvance
      exact ⟨next, by simp only [ofConfig, hbuild], hnext⟩

/-- The first report is shown, by a status line as by a simulation. When it does not change it is
not shown again. -/
theorem status_hides_no_change_idle :
    (∃ a d e, Agent.Reached {} a none ∧ Agent.tick a = .ok d ∧ Agent.tick d.context = .ok e ∧
      d.context.report = e.context.report ∧ Agent.Prints d ∧ ¬ Agent.Prints e) ∧
    ∃ part next, Session.ofConfig {} = .ok part ∧ part.value.advance = .ok next ∧
      next.printed.isSome = true := by
  obtain ⟨hsame, hline, hsession⟩ := status_hides_no_change
  constructor
  · obtain ⟨a, _, trail, hbuild, hp⟩ := AgentPlan.exists_built (p := {}) (k := {})
      (q := fun a => (Agent.perform (.request .idle none)).passes a fun d₁ =>
        !d₁.context.isStopped && Agent.tick.passes d₁.context fun d₂ =>
          !d₂.context.isStopped && Agent.tick.passes d₂.context fun d₃ =>
            decide (d₂.context.report.text = d₃.context.report.text))
      (by decide +kernel)
    obtain ⟨d₁, hd₁, hp⟩ := Act.exists_ok hp
    obtain ⟨hrunning₁, hp⟩ := Bool.and_eq_true_iff.mp hp
    obtain ⟨d₂, hd₂, hp⟩ := Act.exists_ok hp
    obtain ⟨hrunning₂, hp⟩ := Bool.and_eq_true_iff.mp hp
    obtain ⟨d₃, hd₃, htext⟩ := Act.exists_ok hp
    have hnew : Agent.Reached {} d₁.context none :=
      (Agent.Reached.built rfl rfl hbuild).performed rfl hd₁
    have hprints : Agent.Prints d₂ :=
      (hline hnew rfl hd₂).mpr ⟨rfl, by simpa using hrunning₁, nofun⟩
    have hshown := hnew.printed hd₂ hprints
    -- Whether the second tick prints is not needed to know its report.
    have hreport : d₂.context.report = d₃.context.report := by
      by_cases h : Agent.Prints d₃
      · exact hsame hshown (hshown.printed hd₃ h) (of_decide_eq_true htext)
      · exact hsame hshown (hshown.unprinted hd₃ h) (of_decide_eq_true htext)
    exact ⟨d₁.context, d₂, d₃, hnew, hd₂, hd₃, hreport, hprints, fun h =>
      ((hline hshown rfl hd₃).mp h).2.2 (congrArg some hreport)⟩
  · obtain ⟨part, next, hpart, hnext⟩ := Session.first_tick
    exact ⟨part, next, hpart, hnext, (hsession (.opened hpart) hnext).mpr nofun⟩

def waiting : Report :=
  { chain := some UserChain.name, spine := ["<Idle> waiting"], enabled := true }

/-- A tick of an agent that was stopped does not reach the status line, though the report has
changed. -/
theorem stop_shows_nothing :
    ∃ a d, Agent.Reached {} a (some waiting) ∧ Agent.tick a = .ok d ∧
      d.context.report = { enabled := false } ∧
        ¬ (Agent.Prints d ↔ some waiting ≠ some d.context.report) := by
  obtain ⟨a, _, trail, hbuild, hp⟩ := AgentPlan.exists_built (p := {}) (k := {})
    (q := fun a => (Agent.perform (.request .idle none)).passes a fun d₁ =>
      Agent.tick.passes d₁.context fun d₂ =>
        decide (Agent.Prints d₂ ∧ d₂.context.report = waiting) &&
          (Agent.perform .stop).passes d₂.context fun d₃ =>
            Agent.tick.passes d₃.context fun d₄ =>
              decide (¬ Agent.Prints d₄ ∧ d₄.context.report = { enabled := false }))
    (by decide +kernel)
  obtain ⟨d₁, hd₁, hp⟩ := Act.exists_ok hp
  obtain ⟨d₂, hd₂, hp⟩ := Act.exists_ok hp
  obtain ⟨hd₂', hp⟩ := Bool.and_eq_true_iff.mp hp
  obtain ⟨hprints, hwaiting⟩ := of_decide_eq_true hd₂'
  obtain ⟨d₃, hd₃, hp⟩ := Act.exists_ok hp
  obtain ⟨d₄, hd₄, hp⟩ := Act.exists_ok hp
  obtain ⟨hquiet, hstopped⟩ := of_decide_eq_true hp
  have hreached := (((Agent.Reached.built rfl rfl hbuild).performed rfl hd₁).printed hd₂
    hprints).performed rfl hd₃
  rw [hwaiting] at hreached
  refine ⟨d₃.context, d₄, hreached, hd₄, hstopped, fun h => hquiet (h.mpr ?_)⟩
  rw [hstopped]
  decide

end Arbiter
