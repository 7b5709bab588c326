import Arbiter.Proofs.Chain.Outcome
import Arbiter.Proofs.Conduct.Chain
import Arbiter.Proofs.Descent.Spine

/-! Chains in the history of their spines. What a request does not leave alone rests afterwards, and
a tick passes the descent on. So a single chain descends from its history whatever its host has done
with it. -/

namespace Arbiter

variable {w : World} {calls told told' : List (Happening Job)} {trace : Trace}

/-! ## Single chains -/

namespace SingleChain

variable {c c' c'' : SingleChain World Job}

/-- The spine of the chain descends from the history, if there is one. -/
def Descends (c : SingleChain World Job) (calls : List (Happening Job)) : Prop :=
  ∀ s, c.spine = some s → s.Descends calls

theorem Descends.tidy (hc : c.Descends calls) : c.Tidy fun _ => True :=
  fun s hs => (hc s hs).tidy

theorem Descends.sound (hc : c.Descends calls) : Chain.Sound c :=
  fun s hs => (hc s hs).tidy.sound

theorem descends_of_resting (h : Chain.Resting c) : c.Descends calls :=
  fun s hs => (h s hs).descends

theorem descends_of_none (h : c.spine = none) : c.Descends calls :=
  descends_of_resting (resting_of_none h)

/-- What a request leaves of a chain: the spine as it was, without a call of a hook, or a chain that
rests. On a chain that rests it calls no hook. -/
structure Asked (c c' : SingleChain World Job) (told : List (Happening Job)) : Prop where
  left : told = [] ∧ c'.spine = c.spine ∨ Chain.Resting c'
  quiet : Chain.Resting c → told = []

theorem asked_of_spine (h : c'.spine = c.spine) : Asked c c' [] :=
  ⟨Or.inl ⟨rfl, h⟩, fun _ => rfl⟩

theorem Asked.resting (h : Asked c c' told) (hc : Chain.Resting c) : Chain.Resting c' := by
  rcases h.left with ⟨-, hspine⟩ | hrest
  · exact fun s hs => hc s (hspine.symm.trans hs)
  · exact hrest

theorem Asked.descends (h : Asked c c' told) (hc : c.Descends calls) :
    c'.Descends (calls ++ told) := by
  rcases h.left with ⟨rfl, hspine⟩ | hrest
  · rw [List.append_nil]
    exact fun s hs => hc s (hspine.symm.trans hs)
  · exact descends_of_resting hrest

theorem Asked.trans (h : Asked c c' told) (h' : Asked c' c'' told') :
    Asked c c'' (told ++ told') := by
  refine ⟨?_, fun hc => by rw [h.quiet hc, h'.quiet (h.resting hc), List.append_nil]⟩
  rcases h'.left with ⟨rfl, hspine'⟩ | hrest
  · rcases h.left with ⟨rfl, hspine⟩ | hrest
    · exact Or.inl ⟨rfl, hspine'.trans hspine⟩
    · exact Or.inr (h'.resting hrest)
  · exact Or.inr hrest

/-- The stop hooks of a chain that rests are not due. -/
theorem stops_of_resting (h : Chain.Resting c) (taker : Option Job) :
    Spine.stops taker (Chain.nodes c) = [] := by
  rw [Chain.nodes]
  split
  · rfl
  · next s hs => exact (h s hs).stops_nodes taker

/-- A request that is refused changes nothing, and any other one leaves a root that rests. -/
theorem run_asks (hc : Chain.Sound c) (j : Job) :
    (c.run j).Ensures w fun p _ t => Asked c p.2 (hooks t) := by
  rw [run]
  split
  · exact Act.meets_pure (asked_of_spine rfl)
  · refine (vacate_ensures hc (some j) w).bind ?_
    rintro _ _ t ⟨ht, -⟩
    refine Act.Meets.note_bind (Act.meets_pure ⟨Or.inr ?_, fun hrest => ?_⟩)
    · rintro s ⟨⟩
      exact Spine.resting_ofTask j
    · rw [hooks_append, ht, stops_of_resting hrest]
      rfl

theorem cancel_asks (hc : Chain.Sound c) :
    c.cancel.Ensures w fun p _ t => Asked c p.2 (hooks t) := by
  rw [cancel]
  split
  · exact Act.meets_pure (asked_of_spine rfl)
  · next s hs =>
    refine (Spine.stop_ensures none (hc s hs) w).bind fun s' w' t ht => ?_
    refine Act.Meets.note_bind ((Spine.dropAll_meets s'.nodes w').bind ?_)
    rintro _ _ u ⟨-, hu, -⟩
    refine Act.meets_pure ⟨Or.inr (resting_of_none rfl), fun hrest => ?_⟩
    have hstops : Spine.stops none s.nodes = [] := (hrest s hs).stops_nodes none
    simp [ht.hooks, hu, hstops]

/-- A tick passes the descent on and visits three nodes at the most. -/
theorem Descends.tick (hc : c.Descends calls) (trace : Trace) :
    (c.tick trace).Ensures w fun p _ t => p.1.Descends (calls ++ hooks t) ∧
      p.2.spine.length ≤ trace.spine.length + 3 := by
  -- A root that ends leaves nothing to account for, whatever has been told until then.
  have hfinish : ∀ (s : Spine Job) (o : Outcome) {trace' : Trace} {w : World},
      trace'.spine.length ≤ trace.spine.length + 3 → ∀ told : List (Happening Job),
      (c.finish s o >>= fun c => pure (c, trace')).Ensures w fun p _ t =>
        p.1.Descends (calls ++ hooks (told ++ t)) ∧
          p.2.spine.length ≤ trace.spine.length + 3 := by
    intro s o trace' w hlength told
    refine (finish_meets c s o w).bind ?_
    rintro c' _ _ ⟨rfl, -⟩
    exact Act.meets_pure ⟨descends_of_none rfl, hlength⟩
  rw [SingleChain.tick]
  split
  · next hs => exact Act.meets_pure ⟨descends_of_none hs, Nat.le_add_right ..⟩
  · next s hs =>
    split
    · exact hfinish s _ (Nat.le_add_right ..) []
    · refine Act.Meets.get_bind (Act.Meets.ofExcept_bind (fun _ _ => trivial) fun done _ => ?_)
      split
      · exact (Act.ensures_true _ w).bind fun s' _ t _ => hfinish s' _ (Nat.le_add_right ..) t
      · have htick := ((hc s hs).tick trace (w := w)).mono (G := fun _ => True)
          (fun _ _ => trivial) fun _ _ _ h => h
        refine htick.bind ?_
        rintro ⟨s', trace'⟩ w' t ⟨hs', visits, hvisited, hlength⟩
        have hlength' : trace'.spine.length ≤ trace.spine.length + 3 := by
          rw [hvisited.spine, List.length_append, List.length_map]
          exact Nat.add_le_add_left hlength _
        dsimp only
        split
        · exact hfinish s' _ hlength' t
        · refine Act.meets_pure ⟨?_, hlength'⟩
          rintro _ ⟨⟩
          rwa [List.append_nil]

/-! ## What a host does with a chain -/

/-- A root rests after a step that needs one and is no tick. -/
theorem Stepped.rests {step : Step World Job} {answer : Answer} (h : Stepped c w step answer c')
    (hroot : step.NeedsRoot) (htick : ∀ trace, step ≠ .tick trace) : Chain.Resting c' := by
  cases h with
  | cancelled => exact resting_of_none rfl
  | idle hs => exact resting_of_none hs
  | stopped _ _ hrest | failed _ hrest =>
      rintro s ⟨⟩
      exact hrest
  | ended | worked => exact absurd rfl (htick _)
  | refused | installed | replaced | told | changed => exact hroot.elim

/-- Any step of a host passes the descent on. -/
theorem Descends.perform (hc : c.Descends calls) (step : Step World Job) :
    (c.perform step).Ensures w fun p _ t => p.2.Descends (calls ++ hooks t) := by
  cases step with
  | request j =>
      refine (run_asks hc.sound j).bind fun p _ t hp => Act.meets_pure ?_
      rw [List.append_nil]
      exact hp.descends hc
  | tick trace =>
      refine (hc.tick trace).bind fun p _ t hp => Act.meets_pure ?_
      rw [List.append_nil]
      exact hp.1
  | takeOutcome =>
      have hsame : Asked c c.takeOutcome.2 [] := asked_of_spine rfl
      exact Act.meets_pure (hsame.descends hc)
  | change f =>
      refine Act.Meets.bind (Act.meets_modify (Q := fun _ _ t => t = []) rfl) ?_
      rintro _ _ _ rfl
      exact Act.meets_pure ((asked_of_spine rfl).descends hc)
  | cancel | stop | interrupt next | failRoot reason =>
      refine (perform_stepped hc.sound _).imp fun _ _ _ h => ?_
      exact descends_of_resting (h.rests trivial nofun)

/-- A chain as its host may hand it over, and the trail of all that was done with it. It was made
without a root, or with one that had not been ticked, and the world may have changed between the
steps. -/
inductive Used : SingleChain World Job → List (Happening Job) → Prop
  | made {c : SingleChain World Job} (hc : Chain.Resting c) : Used c []
  | performed {c : SingleChain World Job} {past : List (Happening Job)} {step : Step World Job}
      {w : World} {d} (h : Used c past) (hrun : c.perform step w = .ok d) :
      Used d.value.2 (past ++ d.trail)

theorem Used.descends {past : List (Happening Job)} (h : c.Used past) :
    c.Descends (hooks past) := by
  induction h with
  | made hc => exact descends_of_resting hc
  | performed h hrun ih =>
      rw [hooks_append]
      exact (ih.perform _).of_ok hrun

theorem Used.tidy {past : List (Happening Job)} (h : c.Used past) : c.Tidy fun _ => True :=
  fun s hs => (h.descends s hs).tidy

end SingleChain

/-! ## The chains of an agent -/

theorem ReactiveChain.tick_descends {c : ReactiveChain} (hc : c.inner.Descends calls)
    (trace : Trace) :
    (c.tick trace).Ensures w fun p _ t => p.1.inner.Descends (calls ++ hooks t) ∧
      p.2.spine.length ≤ trace.spine.length + 3 := by
  have htick : ∀ {inner : SingleChain World Job} {w : World} (told : List (Happening Job)),
      inner.Descends (calls ++ hooks told) →
      (inner.tick trace >>= fun p => pure ({ c with inner := p.1 }, p.2)).Ensures w fun p _ t =>
        p.1.inner.Descends (calls ++ hooks (told ++ t)) ∧
          p.2.spine.length ≤ trace.spine.length + 3 := by
    intro inner w told hinner
    refine (hinner.tick trace).bind fun p _ t hp => Act.meets_pure ?_
    rw [List.append_nil, hooks_append, ← List.append_assoc]
    exact hp
  rw [tick]
  refine Act.Meets.get_bind (Act.Meets.ofExcept_bind (fun _ _ => trivial) fun job _ => ?_)
  cases job with
  | none =>
      simp only [pure_bind]
      exact htick [] (by simpa using hc)
  | some j =>
      refine (SingleChain.run_asks hc.sound j).bind fun p _ t hp => ?_
      simp only [pure_bind]
      exact htick t (hp.descends hc)

namespace UserChain

variable {u : UserChain Job}

/-- An answer calls no hook. -/
theorem answer_asks (o : Outcome) :
    (u.answer o).Ensures w fun v _ t => v.inner = u.inner ∧ hooks t = [] := by
  rw [answer]
  split
  · exact Act.meets_pure ⟨rfl, rfl⟩
  · next callback _ =>
    refine Act.Meets.bind (P := fun _ _ t => hooks t = [])
      (Act.meets_tellAll (hooks_map_noted _)) fun _ _ t ht => Act.meets_pure ⟨rfl, ?_⟩
    simpa using ht

theorem run_asks (hu : Chain.Sound u.inner) (j : Job) (callback : Option Callback) :
    (u.run j callback).Ensures w fun p _ t =>
      SingleChain.Asked u.inner p.2.inner (hooks t) := by
  rw [run]
  refine (SingleChain.run_asks hu j).bind ?_
  rintro ⟨accepted, inner⟩ w' t hinner
  cases accepted with
  | false => exact Act.meets_pure (by simpa using hinner)
  | true =>
      refine (answer_asks .cancelled).bind ?_
      rintro v _ t' ⟨hv, ht'⟩
      have hasked : SingleChain.Asked u.inner v.inner (hooks t) := by
        rw [hv]
        exact ⟨hinner.left, hinner.quiet⟩
      refine Act.Meets.get_bind ?_
      split
      · exact Act.Meets.note_bind (Act.meets_pure (by simpa [ht'] using hasked))
      · exact Act.meets_pure (by simpa [ht'] using hasked)

theorem complete_asks (hu : Chain.Sound u.inner) (o : Outcome) :
    (u.complete o).Ensures w fun v _ t => SingleChain.Asked u.inner v.inner (hooks t) := by
  have hconclude : (u.conclude o).Ensures w fun v _ t =>
      SingleChain.Asked u.inner v.inner (hooks t) := by
    rw [conclude]
    refine (answer_asks o).bind ?_
    rintro v w' t ⟨hv, ht⟩
    rw [← hv] at hu ⊢
    dsimp only
    split
    · refine (run_asks (u := ({ v with runningIdle := false } : UserChain Job).signalIdle) hu _
        none).bind fun p _ t' hp => Act.meets_pure ?_
      rw [List.append_nil, hooks_append, ht, List.nil_append]
      exact hp
    · refine Act.meets_pure ?_
      rw [List.append_nil, ht]
      exact SingleChain.asked_of_spine rfl
  rw [complete]
  refine Act.Meets.get_bind ?_
  split
  · exact Act.Meets.note_bind hconclude
  · exact hconclude

theorem cancel_asks (hu : u.inner.Descends calls) :
    u.cancel.Ensures w fun p _ t => SingleChain.Asked u.inner p.2.inner (hooks t) := by
  rw [cancel]
  refine (SingleChain.cancel_asks hu.sound).bind ?_
  rintro ⟨cancelled, inner⟩ w' t hinner
  have hsound := (hinner.descends hu).sound
  cases cancelled with
  | false => exact Act.meets_pure (by simpa using hinner)
  | true =>
      refine (complete_asks (u := { u with inner := inner.takeOutcome.2 }) hsound _).bind ?_
      intro v _ t' hv
      refine Act.meets_pure ?_
      rw [List.append_nil, hooks_append]
      exact hinner.trans ⟨hv.left, hv.quiet⟩

theorem tick_descends (hu : u.inner.Descends calls) (trace : Trace) :
    (u.tick trace).Ensures w fun p _ t => p.1.inner.Descends (calls ++ hooks t) ∧
      p.2.spine.length ≤ trace.spine.length + 3 := by
  rw [tick]
  refine (hu.tick trace).bind ?_
  rintro ⟨inner, trace'⟩ w' t ⟨hinner, hlength⟩
  dsimp only
  split
  · refine Act.meets_pure ⟨?_, hlength⟩
    rw [List.append_nil]
    exact hinner
  · refine (complete_asks (u := { u with inner := { inner with outcome := none } }) hinner.sound
      _).bind fun v _ t' hv => Act.meets_pure ⟨?_, hlength⟩
    rw [List.append_nil, hooks_append, ← List.append_assoc]
    exact hv.descends hinner

end UserChain

namespace AgentChain

variable {c : AgentChain}

/-- A tick ends in no fault but a sum that is too large. -/
theorem tick_descends (hc : c.inner.Descends calls) (trace : Trace) :
    (Chain.tick c trace).Meets w (· = .overflow) fun p _ t =>
      p.1.inner.Descends (calls ++ hooks t) ∧ p.2.spine.length ≤ trace.spine.length + 3 := by
  have htick : (Chain.tick c trace).Ensures w fun p _ t =>
      p.1.inner.Descends (calls ++ hooks t) ∧ p.2.spine.length ≤ trace.spine.length + 3 := by
    show (AgentChain.tick c trace).Ensures w _
    cases c with
    | reactive c =>
        refine (ReactiveChain.tick_descends hc trace).bind fun _ _ _ hp => Act.meets_pure ?_
        rwa [List.append_nil]
    | user u =>
        refine (UserChain.tick_descends hc trace).bind fun _ _ _ hp => Act.meets_pure ?_
        rwa [List.append_nil]
    | single c =>
        refine (SingleChain.Descends.tick hc trace).bind fun _ _ _ hp => Act.meets_pure ?_
        rwa [List.append_nil]
  refine Act.Meets.imp (Act.Meets.ran (tick_keeps conduct_overflow hc.tidy trivial trace)) ?_
  exact fun _ _ _ h => htick.of_ok h.1

theorem stop_rests (hc : c.inner.Descends calls) :
    (Chain.stop c).Meets w (· = .overflow) fun c' _ _ => Chain.Resting c' :=
  Act.Meets.imp (stop_keeps conduct_overflow (r := 0) hc.tidy trivial) fun _ _ _ h => h.2.1.2

end AgentChain

end Arbiter
