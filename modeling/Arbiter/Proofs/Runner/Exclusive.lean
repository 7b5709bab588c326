import Arbiter.Proofs.Runner.Operation

/-! Exclusive control over whole runs: at most one lane is active at any time, and what a tick does
to the lanes and tells the sink is settled by who held control before and who is selected. -/

namespace Arbiter.Runner

variable {κ τ : Type} [Task κ τ]

section Ticks

variable {χ : Type} [Chain κ τ χ]

/-- The trail of a tick that moves control: first the stop hooks of the started nodes of the holder,
root first, then the only event of a change, then the hooks of the selected chain. -/
def MovesControl (r : Runner χ) (selected : Option Nat) (trail : List (Happening τ)) : Prop :=
  ∃ before after,
    trail = before ++ .reported (.chainChanged r.currentName (r.nameAt selected)) :: after ∧
    hooks before = Spine.stops none r.heldNodes ∧
    (∀ previous next, SinkEvent.chainChanged previous next ∉ events before ++ events after) ∧
    (selected = none → hooks after = []) ∧
    ∀ i c, selected = some i → r.chains[i]? = some c →
      ∃ k e, Chain.tick c {} k = .ok e ∧ hooks after = hooks e.trail

omit [Task κ τ] in
theorem tickChain_trail (r : Runner χ) (selected : Option Nat) (k : κ) :
    (r.tickChain selected).Ensures k fun _ _ t =>
      (selected = none → t = []) ∧
        ∀ i c, selected = some i → r.chains[i]? = some c →
          ∃ e, Chain.tick c {} k = .ok e ∧ t = e.trail := by
  unfold tickChain
  split
  case h_1 => exact Act.meets_pure ⟨fun _ => rfl, nofun⟩
  case h_2 i =>
    split
    case h_1 hc =>
      refine Act.meets_pure ⟨nofun, ?_⟩
      intro j c hj hc'
      cases hj
      simp [hc] at hc'
    case h_2 c hc =>
      apply (Act.ensures_run (Chain.tick c {}) k).bind
      intro p k' t h
      refine Act.meets_pure ⟨nofun, ?_⟩
      intro j c' hj hc'
      cases hj
      cases hc.symm.trans hc'
      exact ⟨_, h, by simp⟩

theorem chainChanged_notMem_reports {r r' : Runner χ} {k k' : κ} {trail : List (Happening τ)}
    {selected : Option Nat} {granted ticked : Done κ (Happening τ) (Runner χ)}
    {reports : List (Happening τ)} (h : Ticked r r' k k' trail selected granted ticked reports)
    (previous next : Option String) : SinkEvent.chainChanged previous next ∉ events reports := by
  simp [h.events]

variable [OrderlyChain κ τ χ]

/-- What a tick of an enabled runner does, by the holder of control before it and the selected
chain. -/
theorem Orderly.tick_control {r : Runner χ} (hr : r.Orderly) (he : r.enabled = true) (k : κ) :
    r.tick.Ensures k fun r' _ t =>
      ∃ selected, select r.chains k = .ok selected ∧
        (selected ≠ r.current → r.MovesControl selected t) ∧
        (selected = r.current → ∀ previous next,
          SinkEvent.chainChanged previous next ∉ events t) ∧
        r'.chains.length = r.chains.length ∧
        ∀ j, r.current ≠ some j → selected ≠ some j → r'.chains[j]? = r.chains[j]? := by
  apply (tick_ensures he k).imp
  intro r' k' t h
  obtain ⟨selected, granted, ticked, reports, h⟩ := h
  have hreports := chainChanged_notMem_reports h
  have hchains : r'.chains = ticked.value.chains := by rw [h.value]
  refine ⟨selected, h.select, ?_⟩
  rcases (grant_ensures hr selected k).of_ok h.grant with ⟨hs, hr', hk, ht⟩ | ⟨hs, hand⟩
  · have htick := h.tick
    rw [hr', hk, hs] at htick
    obtain ⟨-, -, -, hlen, hothers, hevents⟩ := (tickChain_ensures hr k).of_ok htick
    refine ⟨fun h' => absurd hs h', fun _ => ?_, by rw [hchains, hlen], ?_⟩
    · intro previous next
      rw [h.trail_eq, ht, events_append, events_append, hevents]
      exact hreports previous next
    · intro j hj _
      rw [hchains, hothers j hj]
  · obtain ⟨before, after, htrail, hbefore, hebefore, hafter, heafter⟩ := hand.trail_eq
    have hg := ((grant_orderly hr he h.select).of_ok h.grant).1
    have htick := h.tick
    rw [← hand.current] at htick
    obtain ⟨-, -, -, hlen, hothers, hevents⟩ := (tickChain_ensures hg _).of_ok htick
    obtain ⟨hnone, hsome⟩ := (tickChain_trail granted.value selected _).of_ok h.tick
    refine ⟨fun _ => ⟨before, after ++ (ticked.trail ++ reports), ?_, hbefore, ?_, ?_, ?_⟩,
      fun h' => absurd h' hs, by rw [hchains, hlen, hand.length], ?_⟩
    · simp [h.trail_eq, htrail]
    · intro previous next
      rw [hebefore, events_append, events_append, heafter, hevents]
      exact hreports previous next
    · intro hnil
      simp [hafter, hnone hnil, h.hooks]
    · intro i c hi hc
      have hi' : r.current ≠ some i := fun h' => hs (hi.trans h'.symm)
      obtain ⟨e, he', htrail'⟩ := hsome i c hi ((hand.others i hi').trans hc)
      exact ⟨_, e, he', by simp [hafter, htrail', h.hooks]⟩
    · intro j hj hj'
      rw [hchains, hothers j (by rwa [hand.current]), hand.others j hj]

end Ticks

/-- At every moment of every run only the lane in control can be active. A tick that moves control
stops the holder from the root down, tells of the change and only then runs the selected lane; one
that does not tells of no change; all other lanes stay as they are. While the runner is disabled a
tick does nothing. -/
theorem exclusive_control (sink : Sink) (ops : List (Operation κ τ)) (k : κ)
    (d : Done κ (Happening τ) (Runner (Lane κ τ)))
    (h : (withSink sink : Runner (Lane κ τ)).performAll ops k = .ok d) :
    (∀ i l, d.value.chains[i]? = some l → Chain.isActive l = true → d.value.current = some i) ∧
      (d.value.enabled = true → ∀ e, d.value.tick d.context = .ok e →
        ∃ selected, select d.value.chains d.context = .ok selected ∧
          (selected ≠ d.value.current → d.value.MovesControl selected e.trail) ∧
          (selected = d.value.current → ∀ previous next,
            SinkEvent.chainChanged previous next ∉ events e.trail) ∧
          e.value.chains.length = d.value.chains.length ∧
          ∀ j, d.value.current ≠ some j → selected ≠ some j →
            e.value.chains[j]? = d.value.chains[j]?) ∧
      (d.value.enabled = false → d.value.tick d.context = .ok ⟨d.value, d.context, []⟩) := by
  have hd := (performAll_ensures (orderly_withSink sink) ops k).of_ok h
  refine ⟨hd.holder, ?_, ?_⟩
  · intro he e htick
    exact (hd.tick_control he d.context).of_ok htick
  · intro he
    rw [tick]
    rw [he]
    rfl

theorem exclusive_control_handOver :
    ∃ d e, (withSink .silent : Runner (Lane World Job)).performAll
        [.register (.ofJob "rest" 5 .idle), .tick, .register (.ofJob "walk" 10 (.wanderFor 2))]
        {} = .ok d ∧
      d.value.tick d.context = .ok e ∧ d.value.MovesControl (some 1) e.trail := by
  obtain ⟨d, hd, hp⟩ := Act.exists_ok (m := (withSink .silent : Runner (Lane World Job)).performAll
      [.register (.ofJob "rest" 5 .idle), .tick, .register (.ofJob "walk" 10 (.wanderFor 2))])
    (k := {})
    (p := fun d => d.value.enabled && d.value.current == some 0 &&
      (select d.value.chains d.context).toOption == some (some 1) &&
      d.value.tick.passes d.context fun _ => true)
    (by decide +kernel)
  simp only [Bool.and_eq_true, beq_iff_eq] at hp
  obtain ⟨⟨⟨he, hcur⟩, hsel⟩, htick⟩ := hp
  obtain ⟨e, hrun, -⟩ := Act.exists_ok htick
  obtain ⟨-, hticks, -⟩ := exclusive_control _ _ _ d hd
  obtain ⟨selected, hselected, hmoves, -⟩ := hticks he e hrun
  obtain rfl : selected = some 1 := by simpa [hselected, Except.toOption] using hsel
  exact ⟨d, e, hd, hrun, hmoves (by simp [hcur])⟩

end Arbiter.Runner
