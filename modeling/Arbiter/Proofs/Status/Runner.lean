import Arbiter.Proofs.Status.Chain

/-! Runners whose status can be read back. Without a chain in control there is nothing to show of a
spine, and a runner that is disabled has none in control. The sink is told of a report at the end of
a tick and changes at no other time. -/

namespace Arbiter

/-! ## Events -/

section Events

variable {κ τ χ : Type} {k : κ}

/-- Only the end of a tick changes a sink. -/
theorem Sink.receive_fst {e : SinkEvent} (h : ∀ report, e ≠ .tickFinished report) (sink : Sink) :
    (sink.receive e).1 = sink := by
  unfold receive
  split
  · rfl
  · rfl
  · exact absurd rfl (h _)
  · rfl

namespace Runner

/-- What the sink writes of an event is on the trail behind the event. -/
theorem emit_tells (r : Runner χ) (e : SinkEvent) :
    (r.emit e : Act κ (Happening τ) _).Ensures k fun r' k' t =>
      r' = { r with sink := (r.sink.receive e).1 } ∧ k' = k ∧
        t = .reported e :: (r.sink.receive e).2.map .noted := by
  rw [emit]
  refine Act.Meets.bind (P := fun _ k' t => k' = k ∧ t = [.reported e])
    (Act.meets_tell ⟨rfl, rfl⟩) ?_
  rintro _ _ _ ⟨rfl, rfl⟩
  refine Act.Meets.bind (P := fun _ k'' t => k'' = _ ∧ t = (r.sink.receive e).2.map .noted)
    (Act.meets_tellAll ⟨rfl, rfl⟩) ?_
  rintro _ _ _ ⟨rfl, rfl⟩
  exact Act.meets_pure ⟨rfl, rfl, by simp⟩

theorem emit_same (r : Runner χ) {e : SinkEvent} (h : ∀ report, e ≠ .tickFinished report) :
    (r.emit e : Act κ (Happening τ) _).Ensures k fun r' k' _ => r' = r ∧ k' = k := by
  refine Act.Meets.imp (emit_tells r e) ?_
  rintro _ _ _ ⟨rfl, rfl, -⟩
  rw [r.sink.receive_fst h]
  exact ⟨rfl, rfl⟩

theorem emitAll_same (r : Runner χ) (changes : List StateChange) :
    (r.emitAll (changes.map .stateChanged) : Act κ (Happening τ) _).Ensures k fun r' k' _ =>
      r' = r ∧ k' = k := by
  induction changes generalizing k with
  | nil => exact Act.meets_pure ⟨rfl, rfl⟩
  | cons c changes ih =>
      rw [List.map_cons, emitAll]
      refine (emit_same r (by simp)).bind ?_
      rintro _ _ _ ⟨rfl, rfl⟩
      exact ih

end Runner

end Events

namespace Runner

variable {w : World}

/-! ## Control -/

/-- The status of every chain can be read back. -/
def AllLegible (chains : List AgentChain) : Prop := ∀ c ∈ chains, c.Legible

theorem AllLegible.set {chains : List AgentChain} (h : AllLegible chains) {i : Nat}
    {c : AgentChain} (hc : c.Legible) : AllLegible (chains.set i c) := by
  intro b hb
  rcases List.mem_or_eq_of_mem_set hb with hb | rfl
  · exact h b hb
  · exact hc

variable {r : Runner AgentChain}

theorem AllLegible.interruptHolder (h : AllLegible r.chains) (next : Option String) :
    (r.interruptHolder next).Ensures w fun r' _ _ =>
      AllLegible r'.chains ∧ r' = { r with chains := r'.chains } := by
  rw [Runner.interruptHolder]
  split
  · exact Act.meets_pure ⟨h, rfl⟩
  · split
    · exact Act.meets_pure ⟨h, rfl⟩
    · next c hc =>
      have hstop : (Chain.interrupt c next).Ensures w fun c' _ _ => c'.Legible :=
        Act.Meets.note_bind (h c (List.mem_of_getElem? hc)).stop
      exact hstop.bind fun c' _ _ hc' => Act.meets_pure ⟨h.set hc', rfl⟩

/-- A hand-over changes no more than the chains and who is in control. -/
theorem AllLegible.handOver (h : AllLegible r.chains) (selected : Option Nat) :
    (r.handOver selected).Ensures w fun r' _ _ =>
      AllLegible r'.chains ∧ r' = { r with chains := r'.chains, current := selected } := by
  rw [Runner.handOver]
  refine (h.interruptHolder _).bind ?_
  rintro r₁ w₁ _ ⟨h₁, hr₁⟩
  refine (emit_same r₁ (by simp)).bind ?_
  rintro _ _ _ ⟨rfl, rfl⟩
  refine Act.meets_pure ⟨h₁, ?_⟩
  rw [hr₁]

theorem AllLegible.grant (h : AllLegible r.chains) (selected : Option Nat) :
    (r.grant selected).Ensures w fun r' _ _ =>
      AllLegible r'.chains ∧ r' = { r with chains := r'.chains, current := selected } := by
  rw [Runner.grant]
  split
  · next hcur => exact Act.meets_pure ⟨h, by rw [hcur]⟩
  · exact h.handOver selected

theorem AllLegible.release (h : AllLegible r.chains) :
    r.release.Ensures w fun r' _ _ =>
      AllLegible r'.chains ∧ r' = { r with chains := r'.chains, current := none } := by
  rw [Runner.release]
  split
  · exact h.handOver none
  · next hcur =>
    have hcur : r.current = none := by simpa using hcur
    exact Act.meets_pure ⟨h, by rw [← hcur]⟩

theorem AllLegible.stopAll {chains : List AgentChain} (h : AllLegible chains) :
    (stopAll chains).Ensures w fun chains' _ _ => AllLegible chains' := by
  induction chains generalizing w with
  | nil => exact Act.meets_pure h
  | cons c rest ih =>
      obtain ⟨hc, hrest⟩ := List.forall_mem_cons.mp h
      rw [Runner.stopAll]
      refine hc.stop.bind fun c' _ _ hc' => ?_
      refine (ih hrest).bind fun rest' _ _ hrest' => Act.meets_pure ?_
      exact List.forall_mem_cons.mpr ⟨hc', hrest'⟩

/-! ## Operations -/

/-- A runner whose report can be read back. -/
structure Legible (r : Runner AgentChain) : Prop where
  chains : AllLegible r.chains
  trace : r.trace.Shows Label.Legible
  idle : r.currentChain = none → r.trace = {}
  disabled : r.enabled = false → r.current = none

theorem Legible.report (hr : r.Legible) : r.report.Legible where
  chain name hname := by
    obtain ⟨c, hc, rfl⟩ := Option.map_eq_some_iff.mp hname
    obtain ⟨i, -, hi⟩ := Option.bind_eq_some_iff.mp hc
    exact (hr.chains c (List.mem_of_getElem? hi)).name
  spine l hl := hr.trace l (List.mem_reverse.mp hl)
  idle h := by
    have hnone : r.currentChain = none := Option.map_eq_none_iff.mp h
    rw [Runner.report, hr.idle hnone]
    rfl
  disabled h := by
    have hcur : r.current = none := hr.disabled h
    simp [Runner.report, currentName, currentChain, hcur]

/-- Nothing is shown when no chain is in control. -/
theorem AllLegible.idle (h : AllLegible r.chains) (hcur : r.current = none)
    (htrace : r.trace = {}) : r.Legible :=
  ⟨h, htrace ▸ Trace.shows_empty, fun _ => htrace, fun _ => hcur⟩

theorem Legible.setChain (hr : r.Legible) {i : Nat} {c : AgentChain} (hc : c.Legible) :
    (r.setChain i c).Legible := by
  refine ⟨hr.chains.set hc, hr.trace, fun h => hr.idle ?_, hr.disabled⟩
  unfold currentChain Runner.setChain at *
  cases hcur : r.current with
  | none => rfl
  | some j => simpa [hcur, List.getElem?_eq_none_iff] using h

theorem Legible.enable (hr : r.Legible) :
    (r.enable : Act World (Happening Job) _).Ensures w fun r' _ _ =>
      r'.Legible ∧ r'.sink = r.sink := by
  rw [Runner.enable]
  split
  · exact Act.meets_pure ⟨hr, rfl⟩
  · exact Act.Meets.note_bind
      (Act.meets_pure ⟨⟨hr.chains, hr.trace, hr.idle, nofun⟩, rfl⟩)

theorem Legible.disable (hr : r.Legible) :
    r.disable.Ensures w fun r' _ _ => r'.Legible ∧ r'.sink = r.sink := by
  rw [Runner.disable]
  refine hr.chains.stopAll.bind fun chains _ _ hchains => ?_
  refine (AllLegible.release (r := { r with chains }) hchains).bind ?_
  rintro r₁ _ _ ⟨h₁, hr₁⟩
  have hend : ({ r₁ with enabled := false, trace := {} } : Runner AgentChain).Legible ∧
      r₁.sink = r.sink :=
    ⟨AllLegible.idle h₁ (by rw [hr₁]) rfl, by rw [hr₁]⟩
  split
  · exact Act.Meets.note_bind (Act.meets_pure hend)
  · exact Act.meets_pure hend

theorem Legible.stopCurrent (hr : r.Legible) :
    r.stopCurrent.Ensures w fun r' _ _ => r'.Legible ∧ r'.sink = r.sink := by
  rw [Runner.stopCurrent]
  split
  · exact Act.meets_pure ⟨hr, rfl⟩
  · next i _ =>
    split
    · exact Act.meets_pure ⟨hr, rfl⟩
    · next c hc =>
      refine (hr.chains c (List.mem_of_getElem? hc)).stop.bind fun c' _ _ hc' => ?_
      refine (AllLegible.handOver (r := r.setChain i c') (hr.chains.set hc') none).bind ?_
      rintro r₁ _ _ ⟨h₁, hr₁⟩
      exact Act.meets_pure ⟨AllLegible.idle h₁ (by rw [hr₁]) rfl, by rw [hr₁]; rfl⟩

/-! ## Ticks -/

/-- The chain that is ticked is in control, so its labels are shown under its name. -/
theorem AllLegible.tickChain (h : AllLegible r.chains) (he : r.enabled = true) :
    (r.tickChain r.current).Ensures w fun r' _ _ =>
      r'.Legible ∧ r'.enabled = true ∧ r'.sink = r.sink := by
  have hnone : r.currentChain = none →
      ({ r with trace := {} } : Runner AgentChain).Legible := fun hcur =>
    ⟨h, Trace.shows_empty, fun _ => rfl, fun hd => absurd (he.symm.trans hd) (by decide)⟩
  unfold Runner.tickChain
  split
  · next hcur => exact Act.meets_pure ⟨hnone (by simp [currentChain, hcur]), he, rfl⟩
  · next i hcur =>
    split
    · next hc => exact Act.meets_pure ⟨hnone (by simp [currentChain, hcur, hc]), he, rfl⟩
    · next c hc =>
      refine ((h c (List.mem_of_getElem? hc)).tick Trace.shows_empty).bind ?_
      rintro ⟨c', trace⟩ _ _ ⟨hc', ht⟩
      refine Act.meets_pure ⟨⟨h.set hc', ht, fun hidle => ?_, fun hd => ?_⟩, he, rfl⟩
      · have hi := (List.getElem?_eq_some_iff.mp hc).1
        simp [currentChain, Runner.setChain, hcur, hi] at hidle
      · exact absurd (he.symm.trans hd) (by decide)

/-- The end of a tick: the sink is told of the report and what it writes of that comes last. -/
structure Reported (r r' : Runner AgentChain) (trail : List (Happening Job)) : Prop where
  sink : r'.sink = (r.sink.receive (.tickFinished r'.report)).1
  trail : ∃ before, trail = before ++ .reported (.tickFinished r'.report) ::
    (r.sink.receive (.tickFinished r'.report)).2.map .noted

theorem Legible.tick (hr : r.Legible) :
    r.tick.Ensures w fun r' _ t => r'.Legible ∧ r'.enabled = r.enabled ∧
      (r.enabled = true ∧ Reported r r' t ∨ r.enabled = false ∧ r' = r ∧ t = []) := by
  rw [Runner.tick]
  cases he : r.enabled with
  | false => exact Act.meets_pure ⟨hr, he, Or.inr ⟨rfl, rfl, rfl⟩⟩
  | true =>
      refine Act.Meets.get_bind (Act.Meets.ofExcept_bind (fun _ _ => trivial) fun selected _ => ?_)
      refine (hr.chains.grant selected).bind ?_
      rintro r₁ w₁ _ ⟨h₁, hr₁⟩
      have hcur : selected = r₁.current := by rw [hr₁]
      have he₁ : r₁.enabled = true := by rw [hr₁]; exact he
      have hsink₁ : r₁.sink = r.sink := by rw [hr₁]
      subst hcur
      refine (h₁.tickChain he₁).bind ?_
      rintro r₂ w₂ _ ⟨h₂, he₂, hsink₂⟩
      refine (emitAll_same r₂ _).bind ?_
      rintro r₂ w₂ _ ⟨rfl, rfl⟩
      refine (emit_tells r₂ _).imp ?_
      rintro r₃ _ t ⟨hr₃, -, rfl⟩
      have hreport : r₃.report = r₂.report := by rw [hr₃]; rfl
      have hsink₃ : r₃.sink = (r₂.sink.receive (.tickFinished r₂.report)).1 := by rw [hr₃]
      rw [hsink₂, hsink₁] at hsink₃
      rw [hsink₂, hsink₁]
      refine ⟨?_, by rw [hr₃]; exact he₂, Or.inl ⟨rfl, ⟨hreport ▸ hsink₃, ?_⟩⟩⟩
      · rw [hr₃]
        exact ⟨h₂.chains, h₂.trace, h₂.idle, h₂.disabled⟩
      · rw [hreport]
        exact ⟨_, by rw [← List.append_assoc, ← List.append_assoc]⟩

end Runner

end Arbiter
