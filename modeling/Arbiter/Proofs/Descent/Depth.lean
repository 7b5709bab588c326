import Arbiter.Proofs.Job.Veto
import Arbiter.Proofs.Spine.Trace
import Arbiter.Proofs.Grid.Refuge

/-! How deep a tick goes. Every level of delegation visits one node, and levels beyond those that a
tick comes to change nothing. A tick of jobs comes to three levels at the most, and only a sum that
is too large can end it. -/

namespace Arbiter

/-! ## Levels -/

namespace Act

variable {κ ω α β : Type} {k : κ} {e : Fault}

theorem bind_left {m m' : Act κ ω α} (f : α → Act κ ω β) (h : m k = .error e ∨ m' k = m k) :
    (m >>= f) k = .error e ∨ (m' >>= f) k = (m >>= f) k := by
  rw [bind_apply, bind_apply]
  rcases h with h | h
  · exact Or.inl (by rw [h])
  · exact Or.inr (by rw [h])

theorem bind_right (m : Act κ ω α) {f f' : α → Act κ ω β}
    (h : ∀ a k', f a k' = .error e ∨ f' a k' = f a k') :
    (m >>= f) k = .error e ∨ (m >>= f') k = (m >>= f) k := by
  rw [bind_apply, bind_apply]
  cases m k with
  | error e' => exact Or.inr rfl
  | ok a =>
      rcases h a.value a.context with h | h
      · exact Or.inl (by simp [h])
      · exact Or.inr (by simp [h])

end Act

namespace Spine

section Levels

variable {κ τ : Type} [Task κ τ] {k : κ}

/-- One more level changes a tick only if it ran out of levels. -/
theorem tickWithin_succ (depth : Nat) (s : Spine τ) (trace : Trace) (k : κ) :
    tickWithin depth s trace k = .error .tooDeep ∨
      tickWithin (depth + 1) s trace k = tickWithin depth s trace k := by
  induction depth generalizing s trace k with
  | zero => exact Or.inl rfl
  | succ depth ih =>
      rw [tickWithin, tickWithin]
      refine Act.bind_right _ fun s₁ k₁ => ?_
      split
      · exact Or.inr rfl
      · refine Act.bind_right _ fun turn k₂ => ?_
        cases turn.reply.failure with
        | some reason => exact Or.inr rfl
        | none =>
            refine Act.bind_right _ fun reported k₃ => ?_
            refine Act.bind_right _ fun below k₄ => ?_
            cases below with
            | nil => exact Or.inr rfl
            | cons m rest => exact Act.bind_left _ (ih _ _ k₄)

/-- A tick that does not run out of levels is the same with more of them. -/
theorem tickWithin_of_le {depth depth' : Nat} {s : Spine τ} {trace : Trace}
    (h : tickWithin depth s trace k ≠ .error .tooDeep) (hle : depth ≤ depth') :
    tickWithin depth' s trace k = tickWithin depth s trace k := by
  induction hle with
  | refl => rfl
  | step _ ih =>
      rcases tickWithin_succ _ s trace k with hdeep | hsame
      · exact absurd (ih.symm.trans hdeep) h
      · exact hsame.trans ih

/-- Every level visits one node at the most. -/
theorem tickWithin_labels (depth : Nat) (s : Spine τ) (trace : Trace) :
    (tickWithin depth s trace).Ensures k fun p _ _ =>
      p.2.labels.length ≤ trace.labels.length + depth := by
  induction depth generalizing s trace k with
  | zero => exact Act.meets_abort trivial
  | succ depth ih =>
      have henter : ∀ label : String, (trace.enter label).labels.length ≤
          trace.labels.length + (depth + 1) := fun label => by
        show trace.labels.length + 1 ≤ _
        omega
      rw [tickWithin]
      refine (Act.ensures_true _ k).bind fun s₁ k₁ _ _ => ?_
      split
      · exact Act.meets_pure (henter _)
      · refine (Act.ensures_true _ k₁).bind fun turn k₂ _ _ => ?_
        dsimp only
        split
        · refine (Act.ensures_true _ k₂).bind fun s₂ k₃ _ _ => Act.meets_pure ?_
          exact henter s₂.root.label
        · refine Act.Meets.bind (reportState_quiet _ _) ?_
          rintro ⟨n, trace₁⟩ k₃ _ ⟨-, -, hlabels, -⟩
          have hone : (trace₁.relabel n.label).labels.length = trace.labels.length + 1 := by
            rw [Trace.relabel, hlabels]
            rfl
          refine (Act.ensures_true _ k₃).bind fun below k₄ _ _ => ?_
          cases below with
          | nil => exact Act.meets_pure (by dsimp only at hone ⊢; omega)
          | cons m rest =>
              refine (ih _ _).bind fun p k₅ _ hp => ?_
              refine (Act.ensures_true _ k₅).bind fun s₂ k₆ _ _ => Act.meets_pure ?_
              dsimp only at hp hone ⊢
              omega

end Levels

end Spine

/-! ## Faults -/

theorem Position.yields_step (p : Position) (d : Direction) :
    Yields (p.step d) (· = .overflow) fun _ => True :=
  yields_iff.mpr ⟨fun _ h => (World.step_error h).1, fun _ _ => trivial⟩

/-- A search comes to no fault but the end of the grid. -/
theorem Position.yields_refuge (safe : Position → Bool) (start : Position) :
    Yields (start.refuge safe) (· = .overflow) fun _ => True := by
  have hsurvey : ∀ (p : Position) (ds : List Direction),
      Yields (ds.forM fun d => do let _ ← p.step d) (· = .overflow) fun _ => True := by
    intro p ds
    induction ds with
    | nil => exact yields_pure trivial
    | cons d ds ih =>
        have hlook : Yields (do let _ ← p.step d) (· = .overflow) fun _ => True :=
          (p.yields_step d).bind fun _ _ => yields_pure trivial
        exact hlook.bind fun _ _ => ih
  have hring : ∀ ring, Yields (searchRing safe start ring) (· = .overflow) fun _ => True := by
    intro ring
    induction ring with
    | nil => exact yields_pure trivial
    | cons offset rest ih =>
        rw [searchRing]
        split
        · exact yields_pure trivial
        · exact (hsurvey _ Direction.all).bind fun _ _ => ih
  have hrings : ∀ rings, Yields (searchRings safe start rings) (· = .overflow) fun _ => True := by
    intro rings
    induction rings with
    | nil => exact yields_pure trivial
    | cons ring rest ih =>
        cases rest with
        | nil => exact yields_pure trivial
        | cons next rest =>
            unfold searchRings
            refine (hring ring).bind fun found _ => ?_
            cases found with
            | none => exact ih
            | some p => exact yields_pure trivial
  rw [refuge_eq]
  exact (hrings rings).bind fun _ _ => yields_pure trivial

namespace World

theorem yields_nearestMob? (w : World) (radius : Nat) :
    Yields (w.nearestMob? radius) (· = .overflow) fun _ => True := by
  have hwithin : ∀ mobs, Yields (w.mobsWithin radius mobs) (· = .overflow) fun _ => True := by
    intro mobs
    induction mobs with
    | nil => exact yields_pure trivial
    | cons m mobs ih =>
        rw [mobsWithin]
        refine ((w.position.yields_distance m.position).mono (fun _ h => h.1)
          fun _ _ => trivial).bind fun _ _ => ?_
        exact ih.bind fun _ _ => yields_pure trivial
  rw [nearestMob?]
  exact (hwithin w.mobs).bind fun _ _ => yields_pure trivial

end World

theorem Inventory.yields_foodCount (v : Inventory) :
    Yields v.foodCount (· = .overflow) fun _ => True :=
  yields_iff.mpr ⟨fun _ h => (Inventory.foodCount_error h).1, fun _ _ => trivial⟩

namespace Trigger

variable {w : World}

theorem yields_holds (t : Trigger) : Yields (t.holds w) (· = .overflow) fun _ => True := by
  cases t with
  | hazard => exact yields_pure trivial
  | mob radius => exact (w.yields_nearestMob? radius).bind fun _ _ => yields_pure trivial
  | stuck threshold => exact yields_pure trivial
  | hunger threshold =>
      rw [holds]
      split
      · exact (w.inventory.yields_foodCount).bind fun _ _ => yields_pure trivial
      · exact yields_pure trivial

theorem yields_answer? (t : Trigger) :
    Yields (t.answer? w) (· = .overflow) fun job => ∀ j ∈ job, True := by
  have hany : ∀ {x : Except Fault (Option Job)}, Yields x (· = .overflow) (fun _ => True) →
      Yields x (· = .overflow) fun job => ∀ j ∈ job, True :=
    fun hx => hx.mono (fun _ h => h) fun _ _ _ _ => trivial
  apply hany
  cases t with
  | hazard =>
      rw [answer?]
      split
      · exact (w.position.yields_refuge w.isSafe).bind fun _ _ => yields_pure trivial
      · exact yields_pure trivial
  | mob radius => exact (w.yields_nearestMob? radius).bind fun _ _ => yields_pure trivial
  | stuck threshold => exact (yields_holds _).bind fun _ _ => yields_pure trivial
  | hunger threshold => exact (yields_holds _).bind fun _ _ => yields_pure trivial

end Trigger

/-- The rule for all jobs by which only a sum that is too large may end a run. -/
theorem conduct_overflow :
    Conduct (· = .overflow) (fun _ => True) (fun _ => True) fun _ _ _ => True where
  routine _ _ := trivial
  spend _ := trivial
  begins _ _ := ⟨trivial, trivial⟩
  quits _ := trivial
  closes _ _ _ _ := trivial
  turns _ _ _ := ⟨trivial, fun _ _ => trivial, trivial⟩
  room _ _ := Or.inl rfl
  target _ _ := Or.inl rfl
  idle := trivial
  holds t _ := t.yields_holds
  answer t _ := t.yields_answer?

/-! ## Ticks of jobs -/

namespace Spine

variable {s : Spine Job} {w : World}

theorem Tidy.tickWithin_eq (hs : s.Tidy fun _ => True) (trace : Trace) {depth : Nat}
    (hdepth : 3 ≤ depth) : tickWithin depth s trace w = tickWithin 3 s trace w := by
  refine tickWithin_of_le (fun hdeep => ?_) hdepth
  have hrank : s.root.task.kind.rank < 3 := Nat.lt_succ_of_le s.root.task.kind.rank_le
  have hkeeps := hs.tickWithin_keeps conduct_overflow (w := w) hrank trivial trace
  rw [Act.Keeps, Act.Meets, hdeep] at hkeeps
  cases hkeeps

theorem Tidy.tick_visits (hs : s.Tidy fun _ => True) (trace : Trace) :
    (s.tick trace).Meets w (· = .overflow) fun p _ _ => Worked (fun _ => True) s p.1 ∧
      ∃ visits, trace.Visited visits p.2 ∧ visits.length ≤ 3 := by
  have hrun : s.tick trace w = tickWithin 3 s trace w := hs.tickWithin_eq trace (by decide)
  have hvisits := (tickWithin_labels (k := w) 3 s trace).and
    (tickWithin_visits (k := w) 3 s trace)
  refine (Act.Meets.ran (hs.tick_keeps conduct_overflow trivial trace)).imp ?_
  rintro p w' t ⟨hp, -, hworked, -⟩
  obtain ⟨hlabels, -, visits, hvisited, -⟩ := hvisits.of_ok (hrun.symm.trans hp)
  refine ⟨hworked, visits, hvisited, ?_⟩
  have hlength := congrArg List.length hvisited.spine
  simp only [Trace.spine, List.length_append, List.length_reverse, List.length_map] at hlength
  dsimp only at hlabels
  omega

/-- Every tick of the spine ends within three levels, so that no higher limit makes a difference. -/
structure Shallow (s : Spine Job) : Prop where
  levels : ∀ {depth : Nat}, 3 ≤ depth → ∀ (trace : Trace) (w : World),
    tickWithin depth s trace w = s.tick trace w
  visits : ∀ (trace : Trace) (w : World), (s.tick trace).Meets w (· = .overflow) fun p _ _ =>
    ∃ visits, trace.Visited visits p.2 ∧ visits.length ≤ 3

theorem Tidy.shallow (hs : s.Tidy fun _ => True) : s.Shallow where
  levels hdepth trace _ :=
    (hs.tickWithin_eq trace hdepth).trans (hs.tickWithin_eq trace (by decide)).symm
  visits trace _ := (hs.tick_visits trace).imp fun _ _ _ h => h.2

end Spine

end Arbiter
