import Arbiter.Proofs.Chain.Outcome
import Arbiter.Proofs.Spine.Continuity

/-! Requests that a chain refuses, since its root is for the same unit of work. The next tick works
on that root, unless somebody has failed it since its last tick: then the tick only tells of that
failure. -/

namespace Arbiter

variable {κ τ : Type} [Task κ τ]

/-! ## The turn of a root -/

namespace Spine

variable {s : Spine τ} {k : κ}

/-- The start of the root is pending, and its start hook asks to fail. -/
def GivesUp (s : Spine τ) (k : κ) : Prop :=
  s.root.pending = true ∧ ∃ d reason,
    Task.onStart s.root.task { s.root.control with childFailure := none } k = .ok d ∧
      d.value.2.failure = some reason

/-- The tick hook of the root is called as soon as the root is ready. -/
def TakesTurn (s : Spine τ) (k : κ) (trail : List (Happening τ)) : Prop :=
  ∃ d rest, s.ready k = .ok d ∧ trail = d.trail ++ .ticked d.value.root.task :: rest

theorem ready_givesUp (hs : s.Sound) (k : κ) :
    s.ready.Ensures k fun s' _ _ => s'.root.stopped = true → s.GivesUp k := by
  rw [ready]
  split
  case isFalse hp =>
    have hunstopped := (hs.root.started (by simpa using hp)).unstopped
    exact Act.meets_pure fun hstopped => by simp [hunstopped] at hstopped
  case isTrue hp =>
    rw [start]
    refine Act.Meets.note_bind ((Act.ensures_call _ _ k).bind ?_)
    intro r k' t hrun
    obtain ⟨records, hrun, -⟩ := hrun
    dsimp only
    split
    · next reason? hnone => exact Act.meets_pure fun hstopped => by simp at hstopped
    · next reason hreason =>
      exact (Act.ensures_true _ k').imp fun _ _ _ _ _ => ⟨hp, _, reason, hrun, hreason⟩

theorem tick_takesTurn (hs : s.Sound) (trace : Trace) (k : κ) :
    (s.tick trace).Ensures k fun _ _ trail => s.GivesUp k ∨ s.TakesTurn k trail := by
  apply (tickWithin_ticked depthLimit hs.kempt trace k).imp
  intro r k' trail h
  obtain ⟨s', trace'⟩ := r
  obtain ⟨-, -, -, refused, hticked⟩ := h
  dsimp only at hticked
  have hturn : ∀ {root turn k₁ t₁}, s.TurnTaken k root turn k₁ t₁ → ∀ rest,
      s.TakesTurn k (t₁ ++ rest) := by
    intro root turn k₁ t₁ htaken rest
    obtain ⟨s₁, k₁, t₁, records, hready, -, -, -, -, rfl⟩ := htaken
    exact ⟨_, records.map .noted ++ rest, hready, by simp⟩
  cases hticked with
  | gaveUp hready hstopped => exact Or.inl ((ready_givesUp hs k).of_ok hready hstopped)
  | failed htaken => exact Or.inr (hturn htaken _)
  | alone htaken => exact Or.inr (hturn htaken _)
  | onward htaken => exact Or.inr (hturn htaken _)

end Spine

namespace SingleChain

variable {c : SingleChain κ τ} {s : Spine τ} {k : κ}

/-! ## The next tick of a chain -/

theorem tick_serves (hs : c.spine = some s) (hsound : s.Sound) (hf : s.root.failure = none)
    (hd : s.root.isFinished k = .ok false) (trace : Trace) :
    (c.tick trace).Ensures k fun _ _ trail => s.GivesUp k ∨ s.TakesTurn k trail := by
  have hreport : s.root.failureReport = none := by simp [Node.failureReport, hf]
  have hmore : ∀ {t : List (Happening τ)}, s.GivesUp k ∨ s.TakesTurn k t → ∀ u,
      s.GivesUp k ∨ s.TakesTurn k (t ++ u) := by
    rintro t (h | ⟨d, rest, hready, rfl⟩) u
    · exact Or.inl h
    · exact Or.inr ⟨d, rest ++ u, hready, by simp⟩
  rw [tick]
  simp only [hs, hreport]
  refine Act.Meets.get_bind (Act.Meets.ofExcept_bind (fun _ _ => trivial) ?_)
  intro finished hfinished
  obtain rfl : false = finished := Except.ok.inj (hd.symm.trans hfinished)
  apply (Spine.tick_takesTurn hsound trace k).bind
  intro r k' t h
  exact (Act.ensures_true _ k').imp fun _ _ u _ => hmore h u

/-- A tick of a root that was failed before calls no hook: it ends the root with that failure. -/
theorem tick_latched (hs : c.spine = some s) {reason : String}
    (hf : s.root.failure = some reason) (trace : Trace) (k : κ) :
    (c.tick trace).Meets k (fun _ => False) fun r k' trail =>
      r.1 = c.leaving (.failed { task := Task.label s.root.task, reason }) ∧ k' = k ∧
        hooks trail = [] := by
  have hreport : s.root.failureReport = some { task := Task.label s.root.task, reason } := by
    simp [Node.failureReport, hf]
  rw [tick]
  simp only [hs, hreport]
  apply (finish_meets c s _ k).bind
  intro c' k' t h
  obtain ⟨hc, hk, hhooks, -⟩ := h
  exact Act.meets_pure ⟨hc, hk, by simp [hhooks]⟩

/-! ## Failures from outside -/

def FailedSince (steps : List (Step κ τ)) (reason : String) : Prop :=
  ∃ before after, steps = before ++ .failRoot reason :: after ∧
    ∀ step ∈ after, ∀ trace, step ≠ .tick trace

/-- After these steps only a failure from outside is latched on the root. -/
def Blamed (c : SingleChain κ τ) (steps : List (Step κ τ)) : Prop :=
  ∀ s reason, c.spine = some s → s.root.failure = some reason → FailedSince steps reason

omit [Task κ τ] in
theorem FailedSince.snoc {steps : List (Step κ τ)} {reason : String}
    (h : FailedSince steps reason) {step : Step κ τ} (hstep : ∀ trace, step ≠ .tick trace) :
    FailedSince (steps ++ [step]) reason := by
  obtain ⟨before, after, rfl, hafter⟩ := h
  refine ⟨before, after ++ [step], by simp, ?_⟩
  intro other hother
  rcases List.mem_append.mp hother with hother | hother
  · exact hafter other hother
  · rw [List.mem_singleton.mp hother]
    exact hstep

theorem Blamed.step {steps : List (Step κ τ)} (h : c.Blamed steps) {step : Step κ τ}
    {answer : Answer} {c' : SingleChain κ τ} (hstep : Stepped c k step answer c') :
    c'.Blamed (steps ++ [step]) := by
  have hsame : ∀ {c'' : SingleChain κ τ}, c''.spine = c.spine → (∀ trace, step ≠ .tick trace) →
      c''.Blamed (steps ++ [step]) := by
    intro c'' hspine htick s reason hs hf
    exact (h s reason (hspine ▸ hs) hf).snoc htick
  have hfresh : ∀ {t}, (c.installing t).Blamed (steps ++ [step]) := by
    intro t s reason hs hf
    cases hs
    cases hf
  cases hstep with
  | refused => exact hsame rfl (by simp)
  | installed | replaced => exact hfresh
  | cancelled | ended => exact nofun
  | worked hs hroot =>
      intro s reason hs' hf
      cases hs'
      cases hroot with
      | working _ _ _ hf' => simp [Node.failureReport, hf] at hf'
  | stopped hs hkind _ hfailure =>
      intro s reason hs' hf
      cases hs'
      refine (h _ reason hs (hfailure ▸ hf)).snoc ?_
      rcases hkind with rfl | ⟨next, rfl⟩ <;> simp
  | failed hs _ hfailure =>
      intro s reason hs' hf
      cases hs'
      obtain rfl := Option.some.inj (hfailure.symm.trans hf)
      exact ⟨steps, [], rfl, by simp⟩
  | idle hs =>
      intro s reason hs' hf
      cases hs.symm.trans hs'
  | told => exact hsame rfl (by simp)
  | changed => exact hsame rfl (by simp)

theorem performAll_blamed {v : Register τ} {past : List (Step κ τ)} (hc : Chain.Sound c)
    (h : c.Blamed past) (steps : List (Step κ τ)) (k : κ) :
    (c.performAll v steps).Ensures k fun r _ _ =>
      Chain.Sound r.1 ∧ r.1.Blamed (past ++ steps) := by
  induction steps generalizing c v past k with
  | nil =>
      rw [List.append_nil]
      exact Act.meets_pure ⟨hc, h⟩
  | cons step steps ih =>
      rw [performAll]
      apply (perform_stepped hc step).bind
      intro r k' t hstep
      have hrest := ih (v := v.observe c step r.1 r.2) (hstep.sound hc) (h.step hstep) k'
      rwa [List.append_assoc] at hrest

/-! ## Requests that are refused -/

/-- Take any steps on a new chain, whatever its tasks do. A request that is then refused changes
nothing, and the next tick, whenever it comes, works on the root that is held: it calls the tick
hook of a root that is not finished, unless the root gives up at its start. It does not if somebody
has failed the root since its last tick. Then the tick ends the root with that failure, which is
older than the request, and calls no hook. -/
theorem refused_served (name : String) (priority : κ → Number.Binary32) (relevance : κ → Bool)
    (steps : List (Step κ τ)) (k : κ) :
    (performAll { name, priority, relevance } {} steps).Ensures k fun r k₁ _ =>
      ∀ t, (r.1.run t).Ensures k₁ fun a _ _ => a.1 = false →
        a.2 = r.1 ∧ ∃ s, r.1.spine = some s ∧ ∀ trace k₂,
          (s.root.failure = none → s.root.isFinished k₂ = .ok false →
            (r.1.tick trace).Ensures k₂ fun _ _ trail => s.GivesUp k₂ ∨ s.TakesTurn k₂ trail) ∧
          ∀ reason, s.root.failure = some reason → FailedSince steps reason ∧
            (r.1.tick trace).Meets k₂ (fun _ => False) fun p k₃ trail =>
              p.1 = r.1.leaving (.failed { task := Task.label s.root.task, reason }) ∧ k₃ = k₂ ∧
                hooks trail = [] := by
  have hnone : ∀ s, ({ name, priority, relevance } : SingleChain κ τ).spine ≠ some s := by simp
  have hblamed : ({ name, priority, relevance } : SingleChain κ τ).Blamed [] :=
    fun s _ hs => absurd hs (hnone s)
  apply (performAll_blamed (fun s hs => absurd hs (hnone s)) hblamed steps k).imp
  intro r k₁ _ h t
  obtain ⟨hsound, hblamed⟩ := h
  apply (run_ensures hsound t k₁).imp
  intro a k₂ _ ha hrefused
  obtain ⟨-, ⟨rfl, hserving⟩ | ⟨rfl, -⟩⟩ := ha
  · obtain ⟨s, hs, -⟩ := isServing_iff.mp hserving
    refine ⟨rfl, s, hs, fun trace k₂ => ⟨fun hf hd => ?_, fun reason hf => ⟨?_, ?_⟩⟩⟩
    · exact tick_serves hs (hsound s hs) hf hd trace
    · exact hblamed s reason hs hf
    · exact tick_latched hs hf trace k₂
  · cases hrefused

/-- A job that was called off is asked for again. The request is refused, and the next tick tells of
the failure from before it. -/
theorem refused_served_stale :
    ∃ d a e, performAll (ofPriority "Chores" (.ofInt 1)) {}
        [.request Job.idle, .failRoot "called off"] {} = .ok d ∧
      d.value.1.run .idle d.context = .ok a ∧ a.value.1 = false ∧
      (∃ s, d.value.1.spine = some s ∧ s.root.isFinished a.context = .ok false) ∧
      a.value.2.tick {} a.context = .ok e ∧ hooks e.trail = [] ∧
      e.value.1.outcome = some (.failed { task := "Idle", reason := "called off" }) := by
  obtain ⟨d, hd, hp⟩ := Act.exists_ok
    (m := performAll (ofPriority "Chores" (.ofInt 1)) {}
      [.request Job.idle, .failRoot "called off"])
    (k := ({} : World))
    (p := fun d => (d.value.1.spine.any fun s => decide (s.root.task = Job.idle)) &&
      (d.value.1.run .idle).passes d.context fun a => !a.value.1 &&
        (a.value.2.tick {}).passes a.context fun e => decide (hooks e.trail = [] ∧
          e.value.1.outcome = some (.failed { task := "Idle", reason := "called off" })))
    (by decide +kernel)
  rw [Bool.and_eq_true, Option.any_eq_true] at hp
  obtain ⟨⟨s, hs, htask⟩, hp⟩ := hp
  obtain ⟨a, ha, hp⟩ := Act.exists_ok hp
  rw [Bool.and_eq_true, Bool.not_eq_true'] at hp
  obtain ⟨hrefused, hp⟩ := hp
  obtain ⟨e, he, hp⟩ := Act.exists_ok hp
  obtain ⟨hhooks, houtcome⟩ := of_decide_eq_true hp
  refine ⟨d, a, e, hd, ha, hrefused, ⟨s, hs, ?_⟩, he, hhooks, houtcome⟩
  rw [Node.isFinished, of_decide_eq_true htask]
  rfl

end SingleChain

end Arbiter
