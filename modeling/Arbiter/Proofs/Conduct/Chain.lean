import Arbiter.Agent.Chains
import Arbiter.Proofs.Chain.Sound
import Arbiter.Proofs.Conduct.Spine

/-! Rules of conduct on the chains of an agent. Requests, ticks and stops of every kind of chain
keep what the jobs of its spine keep. -/

namespace Arbiter

variable {F : Fault → Prop} {T : Record → Prop} {fit : Job → Prop}
  {W : Nat → List Job → World → Prop} {r : Nat} {w : World} {j : Job}

/-! ## Single chains -/

namespace SingleChain

/-- The spine of the chain is tidy, if there is one. -/
def Tidy (fit : Job → Prop) (c : SingleChain World Job) : Prop :=
  ∀ s, c.spine = some s → s.Tidy fit

/-- The jobs of the chain that are at work, root first. -/
def atWork (c : SingleChain World Job) : List Job :=
  match c.spine with
  | none => []
  | some s => s.atWork

variable {c c' : SingleChain World Job}

theorem atWork_of_spine {s : Spine Job} (h : c.spine = some s) : c.atWork = s.atWork := by
  rw [atWork, h]

theorem atWork_of_resting (h : Chain.Resting c) : c.atWork = [] := by
  rw [atWork]
  split
  · rfl
  · next s hs => exact (h s hs).atWork

/-- What requests leave of a chain: it is tidy, and it rests if it did before. -/
structure Kept (fit : Job → Prop) (c c' : SingleChain World Job) : Prop where
  tidy : c'.Tidy fit
  resting : Chain.Resting c → Chain.Resting c'

theorem tidy_of_none (h : c.spine = none) : c.Tidy fit := by
  intro s hs
  rw [h] at hs
  cases hs

theorem resting_of_none (h : c.spine = none) : Chain.Resting c := by
  intro s hs
  rw [show Chain.spine? c = none from h] at hs
  cases hs

theorem kept_of_none (h : c'.spine = none) : Kept fit c c' :=
  ⟨tidy_of_none h, fun _ => resting_of_none h⟩

theorem Tidy.kept (h : c.Tidy fit) : Kept fit c c := ⟨h, id⟩

theorem kept_ofTask (hj : fit j) (h : c'.spine = some (.ofTask j)) : Kept fit c c' := by
  refine ⟨fun s hs => ?_, fun _ s hs => ?_⟩
  · rw [h] at hs
    cases hs
    exact Spine.tidy_ofTask hj
  · rw [show Chain.spine? c' = some (.ofTask j) from h] at hs
    cases hs
    exact Spine.resting_ofTask j

theorem Tidy.run_keeps (hC : Conduct F T fit W) (hc : c.Tidy fit) (hj : fit j)
    (h : W r c.atWork w) :
    (c.run j).Keeps w F (Happening.Notes T) fun p w' => Kept fit c p.2 ∧ W r p.2.atWork w' := by
  rw [run]
  split
  · exact Act.keeps_pure ⟨hc.kept, h⟩
  · have hvacate : (c.vacate (some j)).Keeps w F (Happening.Notes T) fun _ w' => W r [] w' := by
      rw [vacate]
      split
      · next hs => exact Act.keeps_pure (by simpa only [atWork, hs] using h)
      · next s hs =>
        rw [atWork_of_spine hs] at h
        exact (hc s hs).stopAndDrop_keeps hC h (some j)
    refine hvacate.bind ?_
    intro _ w' hW
    refine Act.Keeps.note_bind (hC.routine _ (by simp [Record.IsRoutine])) ?_
    exact Act.keeps_pure ⟨kept_ofTask hj rfl, hW⟩

theorem finish_routine (hC : Conduct F T fit W) {R : World → Prop} (s : Spine Job)
    (outcome : Outcome) (h : R w) :
    (c.finish s outcome).Keeps w F (Happening.Notes T) fun c' w' =>
      c' = { c with spine := none, outcome := some outcome } ∧ R w' := by
  rw [finish]
  refine Act.Keeps.note_bind (hC.routine _ (by simp [Record.IsRoutine])) ?_
  refine (Spine.dropAll_routine s.nodes h).bind ?_
  intro _ w' hR
  exact Act.keeps_pure ⟨rfl, hR⟩

theorem Tidy.cancel_keeps (hC : Conduct F T fit W) (hc : c.Tidy fit) (h : W r c.atWork w) :
    c.cancel.Keeps w F (Happening.Notes T) fun p w' => Kept fit c p.2 ∧ W r p.2.atWork w' := by
  rw [cancel]
  split
  · exact Act.keeps_pure ⟨hc.kept, h⟩
  · next s hs =>
    rw [atWork_of_spine hs] at h
    refine ((hc s hs).stop_keeps hC h none).bind ?_
    rintro s' w' ⟨-, hW⟩
    refine Act.Keeps.note_bind (hC.routine _ (by simp [Record.IsRoutine])) ?_
    refine (Spine.dropAll_routine s'.nodes hW).bind ?_
    intro _ w'' hW'
    exact Act.keeps_pure ⟨kept_of_none rfl, hW'⟩

theorem Tidy.tick_keeps (hC : Conduct F T fit W) (hc : c.Tidy fit) (h : W 3 c.atWork w)
    (trace : Trace) :
    (c.tick trace).Keeps w F (Happening.Notes T) fun p w' =>
      p.1.Tidy fit ∧ W 0 p.1.atWork w' := by
  rw [tick]
  split
  case h_1 => exact Act.keeps_pure ⟨hc, hC.spend_le (Nat.zero_le _) h⟩
  case h_2 s hs =>
    have hgone : ∀ o, ({ c with spine := none, outcome := some o } : SingleChain World Job).Tidy
        fit := fun _ => tidy_of_none rfl
    have hs' := hc s hs
    rw [atWork_of_spine hs] at h
    split
    case h_1 failure hreport =>
      have hrest : s.Resting := by
        rcases hs'.state with hrest | hstarted
        · exact hrest
        · have hunfailed := (hstarted s.root List.mem_cons_self).unfailed
          simp [Node.failureReport, hunfailed] at hreport
      rw [hrest.atWork] at h
      refine (finish_routine hC s (.failed failure) (hC.spend_le (Nat.zero_le 3) h)).bind ?_
      rintro c' w' ⟨rfl, hW⟩
      exact Act.keeps_pure ⟨hgone _, hW⟩
    case h_2 =>
      refine Act.Keeps.get_bind ?_
      refine ((hC.isFinished (hs'.fit s.root List.mem_cons_self) h).keeps).bind ?_
      rintro finished w' ⟨-, rfl⟩
      split
      · refine (hs'.stop_keeps hC h none).bind ?_
        rintro s₁ w₁ ⟨-, hW⟩
        refine (finish_routine hC s₁ .finished (hC.spend_le (Nat.zero_le 3) hW)).bind ?_
        rintro c' w₂ ⟨rfl, hW'⟩
        exact Act.keeps_pure ⟨hgone _, hW'⟩
      · refine (hs'.tick_keeps hC h trace).bind ?_
        rintro ⟨s₁, trace₁⟩ w₁ ⟨hworked, hW⟩
        dsimp only at hworked hW ⊢
        split
        · next failure hreport =>
          have hrest := hworked.resting fun hf => by simp [Node.failureReport, hf] at hreport
          rw [hrest.atWork] at hW
          refine (finish_routine hC s₁ (.failed failure) hW).bind ?_
          rintro c' w₂ ⟨rfl, hW'⟩
          exact Act.keeps_pure ⟨hgone _, hW'⟩
        · refine Act.keeps_pure ⟨?_, hW⟩
          intro s₂ hs₂
          cases hs₂
          exact hworked.tidy

end SingleChain

/-! ## Reactive chains -/

namespace ReactiveChain

variable {c : ReactiveChain}

theorem yields_isRelevant (hC : Conduct F T fit W) {js : List Job} (h : W r js w) :
    Yields (c.isRelevant w) F fun _ => True := by
  rw [isRelevant]
  split
  · exact yields_pure trivial
  · exact hC.holds c.trigger h

theorem yields_request? (hC : Conduct F T fit W) {js : List Job} (h : W r js w) :
    Yields (c.request? w) F fun job => ∀ j ∈ job, fit j := by
  rw [request?]
  split
  · exact yields_pure nofun
  · exact hC.answer c.trigger h

theorem tick_keeps (hC : Conduct F T fit W) (hc : c.inner.Tidy fit) (h : W 3 c.inner.atWork w)
    (trace : Trace) :
    (c.tick trace).Keeps w F (Happening.Notes T) fun p w' =>
      p.1.inner.Tidy fit ∧ W 0 p.1.inner.atWork w' := by
  rw [tick]
  refine Act.Keeps.get_bind ?_
  refine ((yields_request? hC h).keeps).bind ?_
  rintro job w' ⟨hjob, rfl⟩
  have hend : ∀ (inner : SingleChain World Job) w', inner.Tidy fit → W 3 inner.atWork w' →
      (inner.tick trace >>= fun p => pure ({ c with inner := p.1 }, p.2)).Keeps w' F
        (Happening.Notes T) fun p w'' => p.1.inner.Tidy fit ∧ W 0 p.1.inner.atWork w'' := by
    intro inner w' htidy hW
    refine (htidy.tick_keeps hC hW trace).bind ?_
    intro p w'' hp
    exact Act.keeps_pure hp
  cases job with
  | none =>
      simp only [pure_bind]
      exact hend c.inner w' hc h
  | some j =>
      refine (hc.run_keeps hC (hjob j rfl) h).bind ?_
      rintro ⟨accepted, inner⟩ w'' ⟨hkept, hW⟩
      simp only [pure_bind]
      exact hend inner w'' hkept.tidy hW

end ReactiveChain

/-! ## User chains -/

namespace UserChain

variable {u : UserChain Job}

theorem answer_keeps (hC : Conduct F T fit W) {R : World → Prop} (o : Outcome) (h : R w) :
    (u.answer o).Keeps w F (Happening.Notes T) fun v w' => v.inner = u.inner ∧ R w' := by
  rw [answer]
  split
  · exact Act.keeps_pure ⟨rfl, h⟩
  · next callback _ =>
    refine Act.Keeps.tellAll_bind ?_ (Act.keeps_pure ⟨rfl, h⟩)
    intro x hx
    obtain ⟨record, hrecord, rfl⟩ := List.mem_map.mp hx
    refine hC.routine record ?_
    cases callback with
    | tagged tag => cases hrecord
    | errand target started =>
        obtain rfl := List.mem_singleton.mp hrecord
        simp [Record.IsRoutine]

theorem run_keeps (hC : Conduct F T fit W) (hu : u.inner.Tidy fit) (hj : fit j)
    (h : W r u.inner.atWork w) (callback : Option Callback) :
    (u.run j callback).Keeps w F (Happening.Notes T) fun p w' =>
      SingleChain.Kept fit u.inner p.2.inner ∧ W r p.2.inner.atWork w' := by
  rw [run]
  refine (hu.run_keeps hC hj h).bind ?_
  rintro ⟨accepted, inner⟩ w' ⟨hkept, hW⟩
  cases accepted with
  | false => exact Act.keeps_pure ⟨hkept, hW⟩
  | true =>
      refine (answer_keeps hC .cancelled hW).bind ?_
      rintro v w'' ⟨hv, hW'⟩
      have hend : ∀ v' : UserChain Job, v'.inner = v.inner →
          SingleChain.Kept fit u.inner v'.inner ∧ W r v'.inner.atWork w'' := by
        intro v' hv'
        rw [hv', hv]
        exact ⟨⟨hkept.tidy, hkept.resting⟩, hW'⟩
      refine Act.Keeps.get_bind ?_
      split
      · exact Act.Keeps.note_bind (hC.routine _ (by simp [Record.IsRoutine]))
          (Act.keeps_pure (hend _ rfl))
      · exact Act.keeps_pure (hend _ rfl)

theorem complete_keeps (hC : Conduct F T fit W) (hu : u.inner.Tidy fit)
    (h : W r u.inner.atWork w) (o : Outcome) :
    (u.complete o).Keeps w F (Happening.Notes T) fun v w' =>
      SingleChain.Kept fit u.inner v.inner ∧ W r v.inner.atWork w' := by
  have hconclude : (u.conclude o).Keeps w F (Happening.Notes T) fun v w' =>
      SingleChain.Kept fit u.inner v.inner ∧ W r v.inner.atWork w' := by
    rw [conclude]
    refine (answer_keeps hC o h).bind ?_
    rintro v w' ⟨hv, hW⟩
    rw [← hv] at hu hW ⊢
    dsimp only
    split
    · refine (run_keeps hC (u := ({ v with runningIdle := false } : UserChain Job).signalIdle) hu
        hC.idle hW none).bind ?_
      rintro p w'' hp
      exact Act.keeps_pure hp
    · exact Act.keeps_pure ⟨hu.kept, hW⟩
  rw [complete]
  refine Act.Keeps.get_bind ?_
  split
  · exact Act.Keeps.note_bind (hC.routine _ (by simp [Record.IsRoutine])) hconclude
  · exact hconclude

theorem cancel_keeps (hC : Conduct F T fit W) (hu : u.inner.Tidy fit) (h : W r u.inner.atWork w) :
    u.cancel.Keeps w F (Happening.Notes T) fun p w' =>
      SingleChain.Kept fit u.inner p.2.inner ∧ W r p.2.inner.atWork w' := by
  rw [cancel]
  refine (hu.cancel_keeps hC h).bind ?_
  rintro ⟨cancelled, inner⟩ w' ⟨hkept, hW⟩
  cases cancelled with
  | false => exact Act.keeps_pure ⟨hkept, hW⟩
  | true =>
      refine (complete_keeps hC (u := { u with inner := inner.takeOutcome.2 }) hkept.tidy hW
        _).bind ?_
      rintro v w'' ⟨hkept', hW'⟩
      exact Act.keeps_pure ⟨⟨hkept'.tidy, fun hr => hkept'.resting (hkept.resting hr)⟩, hW'⟩

theorem tick_keeps (hC : Conduct F T fit W) (hu : u.inner.Tidy fit) (h : W 3 u.inner.atWork w)
    (trace : Trace) :
    (u.tick trace).Keeps w F (Happening.Notes T) fun p w' =>
      p.1.inner.Tidy fit ∧ W 0 p.1.inner.atWork w' := by
  rw [tick]
  refine (hu.tick_keeps hC h trace).bind ?_
  rintro ⟨inner, trace'⟩ w' ⟨htidy, hW⟩
  dsimp only
  split
  · exact Act.keeps_pure ⟨htidy, hW⟩
  · next outcome _ =>
    refine (complete_keeps hC (u := { u with inner := { inner with outcome := none } }) htidy hW
      outcome).bind ?_
    rintro v w'' ⟨hkept, hW'⟩
    exact Act.keeps_pure ⟨hkept.tidy, hW'⟩

end UserChain

/-! ## The chains of an agent -/

namespace AgentChain

variable {c : AgentChain}

theorem yields_isRelevant (hC : Conduct F T fit W) {js : List Job} (h : W r js w) :
    Yields (Chain.isRelevant c w) F fun _ => True := by
  cases c with
  | reactive c => exact c.yields_isRelevant hC h
  | user c => exact yields_pure trivial
  | single c => exact yields_pure trivial

theorem tick_keeps (hC : Conduct F T fit W) (hc : c.inner.Tidy fit) (h : W 3 c.inner.atWork w)
    (trace : Trace) :
    (Chain.tick c trace).Keeps w F (Happening.Notes T) fun p w' =>
      p.1.inner.Tidy fit ∧ W 0 p.1.inner.atWork w' := by
  show (AgentChain.tick c trace).Keeps w F _ _
  cases c with
  | reactive c =>
      exact (ReactiveChain.tick_keeps hC hc h trace).bind fun p w' hp => Act.keeps_pure hp
  | user c => exact (UserChain.tick_keeps hC hc h trace).bind fun p w' hp => Act.keeps_pure hp
  | single c =>
      exact (SingleChain.Tidy.tick_keeps hC hc h trace).bind fun p w' hp => Act.keeps_pure hp

theorem inner_setInner (c : AgentChain) (inner : SingleChain World Job) :
    (c.setInner inner).inner = inner := by
  cases c <;> rfl

theorem stop_keeps (hC : Conduct F T fit W) (hc : c.inner.Tidy fit) (h : W r c.inner.atWork w) :
    (Chain.stop c).Keeps w F (Happening.Notes T) fun c' w' =>
      (c'.inner.Tidy fit ∧ Chain.Resting c') ∧ W r [] w' := by
  unfold Chain.stop Chain.onSpine
  split
  · next hnone =>
    have hnone : c.inner.spine = none := hnone
    rw [SingleChain.atWork_of_resting (SingleChain.resting_of_none hnone)] at h
    exact Act.keeps_pure ⟨⟨hc, SingleChain.resting_of_none hnone⟩, h⟩
  · next s hs =>
    have hs : c.inner.spine = some s := hs
    rw [SingleChain.atWork_of_spine hs] at h
    refine ((hc s hs).stop_keeps hC h none).bind ?_
    rintro s' w' ⟨⟨hrest, htask, -⟩, hW⟩
    have hinner : (Chain.mapSpine c fun _ => s').inner.spine = some s' := by
      show (c.setInner _).inner.spine = some s'
      rw [inner_setInner]
      show c.inner.spine.map _ = some s'
      rw [hs]
      rfl
    refine Act.keeps_pure ⟨⟨?_, ?_⟩, hW⟩
    · intro s'' hs''
      obtain rfl := Option.some.inj (hinner.symm.trans hs'')
      refine hrest.tidy ?_
      rw [htask]
      exact (hc s hs).fit s.root List.mem_cons_self
    · intro s'' hs''
      obtain rfl := Option.some.inj (hinner.symm.trans hs'')
      exact hrest

end AgentChain

end Arbiter
