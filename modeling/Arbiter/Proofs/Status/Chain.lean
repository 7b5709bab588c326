import Arbiter.Proofs.Conduct.Chain
import Arbiter.Proofs.Agent.Basic
import Arbiter.Proofs.Status.Job
import Arbiter.Proofs.Status.Spine

/-! Chains of jobs whose status can be read back: the name can begin a line, and so can be shown
every state text of the spine. Requests, ticks and stops keep them so. -/

namespace Arbiter

variable {w : World} {trace : Trace}

/-- All jobs word their state texts so that their labels can be read back. -/
theorem Job.wording : Wording Job Label.Plain Label.Legible where
  empty := Label.plain_empty
  starts j c w hc := Act.Meets.imp (j.begin_keeps (w := w) (F := fun _ => True)) fun p _ _ hp => by
    rw [hp.2.1]
    exact hc
  turns j _ _ hc := j.turn_plain hc
  label n hn := .ofTask n.task.unmarked_label hn

/-! ## Single chains -/

namespace SingleChain

/-- The name of the chain can begin a line, and labels can show the state texts of its spine. -/
structure Legible (c : SingleChain World Job) : Prop where
  name : Report.Heading c.name
  spine : ∀ s, c.spine = some s → Spine.Worded Label.Plain s.nodes

variable {c c' : SingleChain World Job}

theorem Legible.of_none (hc : c.Legible) (hname : c'.name = c.name) (hspine : c'.spine = none) :
    c'.Legible :=
  ⟨hname ▸ hc.name, fun s hs => by rw [hspine] at hs; cases hs⟩

theorem Legible.run (hc : c.Legible) (j : Job) :
    (c.run j).Ensures w fun p _ _ => p.2.Legible := by
  rw [SingleChain.run]
  split
  · exact Act.meets_pure hc
  · refine (Act.ensures_true _ w).bind fun _ _ _ _ => Act.Meets.note_bind (Act.meets_pure ?_)
    refine ⟨hc.name, ?_⟩
    rintro s ⟨⟩
    exact Spine.worded_singleton.mpr Label.plain_empty

theorem Legible.cancel (hc : c.Legible) : c.cancel.Ensures w fun p _ _ => p.2.Legible := by
  refine Act.Meets.imp (cancel_quiet releases_true c) ?_
  rintro p _ _ ⟨-, ⟨-, rfl⟩ | rfl⟩
  · exact hc
  · exact hc.of_none rfl rfl

theorem Legible.tick (hc : c.Legible) (ht : trace.Shows Label.Legible) :
    (c.tick trace).Ensures w fun p _ _ => p.1.Legible ∧ p.2.Shows Label.Legible := by
  have hfinish : ∀ (s : Spine Job) (o : Outcome) {trace : Trace} {w : World},
      trace.Shows Label.Legible →
      (c.finish s o >>= fun c => pure (c, trace)).Ensures w fun p _ _ =>
        p.1.Legible ∧ p.2.Shows Label.Legible := by
    intro s o trace w ht
    refine (finish_meets c s o w).bind ?_
    rintro c' _ _ ⟨rfl, -⟩
    exact Act.meets_pure ⟨hc.of_none rfl rfl, ht⟩
  rw [SingleChain.tick]
  split
  · exact Act.meets_pure ⟨hc, ht⟩
  · next s hs =>
    split
    · exact hfinish s _ ht
    · refine Act.Meets.get_bind (Act.Meets.ofExcept_bind (fun _ _ => trivial) fun done _ => ?_)
      split
      · exact (Act.ensures_true _ w).bind fun s' _ _ _ => hfinish s' _ ht
      · refine ((hc.spine s hs).tick Job.wording ht).bind ?_
        rintro ⟨s', trace'⟩ w' _ ⟨hs', ht'⟩
        dsimp only
        split
        · exact hfinish s' _ ht'
        · refine Act.meets_pure ⟨⟨hc.name, ?_⟩, ht'⟩
          rintro _ ⟨⟩
          exact hs'

end SingleChain

/-! ## The chains of an agent -/

theorem ReactiveChain.tick_legible {c : ReactiveChain} (hc : c.inner.Legible)
    (ht : trace.Shows Label.Legible) :
    (c.tick trace).Ensures w fun p _ _ => p.1.inner.Legible ∧ p.2.Shows Label.Legible := by
  have htick : ∀ {inner : SingleChain World Job} {w : World}, inner.Legible →
      (inner.tick trace >>= fun p => pure ({ c with inner := p.1 }, p.2)).Ensures w fun p _ _ =>
        p.1.inner.Legible ∧ p.2.Shows Label.Legible := fun hinner =>
    (hinner.tick ht).bind fun _ _ _ hp => Act.meets_pure hp
  rw [tick]
  refine Act.Meets.get_bind (Act.Meets.ofExcept_bind (fun _ _ => trivial) fun job _ => ?_)
  cases job with
  | none =>
      simp only [pure_bind]
      exact htick hc
  | some j =>
      refine (hc.run j).bind fun p _ _ hp => ?_
      simp only [pure_bind]
      exact htick hp

namespace UserChain

variable {u : UserChain Job}

theorem run_legible (hu : u.inner.Legible) (j : Job) (callback : Option Callback) :
    (u.run j callback).Ensures w fun p _ _ => p.2.inner.Legible := by
  rw [run]
  refine (hu.run j).bind ?_
  rintro ⟨accepted, inner⟩ w' _ hinner
  cases accepted with
  | false => exact Act.meets_pure hinner
  | true =>
      refine (answer_meets .cancelled).bind ?_
      rintro v _ _ ⟨hv, rfl⟩
      have hv : v.inner.Legible := hv ▸ ⟨hinner.name, hinner.spine⟩
      refine Act.Meets.get_bind ?_
      split
      · exact Act.Meets.note_bind (Act.meets_pure hv)
      · exact Act.meets_pure hv

theorem complete_legible (hu : u.inner.Legible) (o : Outcome) :
    (u.complete o).Ensures w fun v _ _ => v.inner.Legible := by
  have hconclude : (u.conclude o).Ensures w fun v _ _ => v.inner.Legible := by
    rw [conclude]
    refine (answer_meets o).bind ?_
    rintro v w' _ ⟨hv, rfl⟩
    have hv : v.inner.Legible := hv ▸ hu
    dsimp only
    split
    · refine (run_legible (u := ({ v with runningIdle := false } : UserChain Job).signalIdle) hv _
        none).bind fun p _ _ hp => ?_
      exact Act.meets_pure hp
    · exact Act.meets_pure hv
  rw [complete]
  refine Act.Meets.get_bind ?_
  split
  · exact Act.Meets.note_bind hconclude
  · exact hconclude

theorem cancel_legible (hu : u.inner.Legible) :
    u.cancel.Ensures w fun p _ _ => p.2.inner.Legible := by
  rw [cancel]
  refine hu.cancel.bind ?_
  rintro ⟨cancelled, inner⟩ w' _ hinner
  cases cancelled with
  | false => exact Act.meets_pure hinner
  | true =>
      refine (complete_legible (u := { u with inner := inner.takeOutcome.2 })
        ⟨hinner.name, hinner.spine⟩ _).bind fun v _ _ hv => ?_
      exact Act.meets_pure hv

theorem tick_legible (hu : u.inner.Legible) (ht : trace.Shows Label.Legible) :
    (u.tick trace).Ensures w fun p _ _ => p.1.inner.Legible ∧ p.2.Shows Label.Legible := by
  rw [tick]
  refine (hu.tick ht).bind ?_
  rintro ⟨inner, trace'⟩ w' _ ⟨hinner, ht'⟩
  dsimp only
  split
  · exact Act.meets_pure ⟨hinner, ht'⟩
  · refine (complete_legible (u := { u with inner := { inner with outcome := none } })
      ⟨hinner.name, hinner.spine⟩ _).bind fun v _ _ hv => ?_
    exact Act.meets_pure ⟨hv, ht'⟩

end UserChain

namespace AgentChain

/-- The status of the chain can be read back. -/
def Legible (c : AgentChain) : Prop := c.inner.Legible

variable {c : AgentChain}

theorem Legible.tick (hc : c.Legible) (ht : trace.Shows Label.Legible) :
    (Chain.tick c trace).Ensures w fun p _ _ => p.1.Legible ∧ p.2.Shows Label.Legible := by
  show (AgentChain.tick c trace).Ensures w _
  cases c with
  | reactive c => exact (c.tick_legible hc ht).bind fun _ _ _ hp => Act.meets_pure hp
  | user u => exact (u.tick_legible hc ht).bind fun _ _ _ hp => Act.meets_pure hp
  | single c => exact (SingleChain.Legible.tick hc ht).bind fun _ _ _ hp => Act.meets_pure hp

theorem Legible.stop (hc : c.Legible) : (Chain.stop c).Ensures w fun c' _ _ => c'.Legible := by
  unfold Chain.stop Chain.onSpine
  split
  · exact Act.meets_pure hc
  · next s hs =>
    refine ((hc.spine s hs).stop none).bind fun s' _ _ hs' => Act.meets_pure ?_
    show (c.setInner _).inner.Legible
    rw [inner_setInner]
    refine ⟨hc.name, fun s'' hs'' => ?_⟩
    have hspine : (c.inner.spine.map fun _ => s') = some s'' := hs''
    rw [show c.inner.spine = some s from hs] at hspine
    obtain rfl := Option.some.inj hspine
    exact hs'

end AgentChain

end Arbiter
