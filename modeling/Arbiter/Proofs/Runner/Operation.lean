import Arbiter.Job.Hooks
import Arbiter.Proofs.Runner.Control

/-! Operations on a runner of lanes in any order: those of its host, requests to single chains, and
interventions at the root of a lane. The runner stays orderly under all of them. -/

namespace Arbiter

variable {κ τ : Type} [Task κ τ]

/-- A lane that can be registered: its root, if it holds one, has not started. -/
structure Newcomer (κ τ : Type) [Task κ τ] where
  lane : Lane κ τ
  resting : Chain.Resting lane

/-- A single chain of fixed priority that holds a job. -/
def Newcomer.ofJob (name : String) (priority : Int) (job : Job) : Newcomer World Job where
  lane := .single
    { name, priority := fun _ => .ofInt priority, spine := some (.ofTask job) }
  resting := by
    intro s hs
    cases hs
    exact Spine.resting_ofTask job

inductive Operation (κ τ : Type) [Task κ τ] where
  | register (newcomer : Newcomer κ τ)
  | tick
  | enable
  | disable
  | stopCurrent
  /-- Asks the single chain at a place for a task. -/
  | run (place : Nat) (task : τ)
  | cancel (place : Nat)
  /-- The root of a lane is stopped, suspended or failed from outside. -/
  | stopRoot (place : Nat) (taker : Option τ)
  | suspendRoot (place : Nat) (taker : Option τ)
  | failRoot (place : Nat) (reason : String)
  /-- The context changes by itself. -/
  | change (f : κ → κ)

/-! ## What operations do -/

namespace Lane

def run (t : τ) : Lane κ τ → Act κ (Happening τ) (Lane κ τ)
  | single c => do
    let (_, c) ← c.run t
    pure (single c)
  | plain c => pure (plain c)

def cancel : Lane κ τ → Act κ (Happening τ) (Lane κ τ)
  | single c => do
    let (_, c) ← c.cancel
    pure (single c)
  | plain c => pure (plain c)

end Lane

namespace Runner

/-- Runs an action on the lane at a place, if there is one. -/
def onLane (r : Runner (Lane κ τ)) (place : Nat)
    (act : Lane κ τ → Act κ (Happening τ) (Lane κ τ)) :
    Act κ (Happening τ) (Runner (Lane κ τ)) :=
  match r.chains[place]? with
  | none => pure r
  | some l => do
    let l ← act l
    pure (r.setChain place l)

def perform (r : Runner (Lane κ τ)) : Operation κ τ → Act κ (Happening τ) (Runner (Lane κ τ))
  | .register c => do
    let (_, r) ← r.register c.lane
    pure r
  | .tick => r.tick
  | .enable => r.enable
  | .disable => r.disable
  | .stopCurrent => r.stopCurrent
  | .run place t => r.onLane place (Lane.run t)
  | .cancel place => r.onLane place Lane.cancel
  | .stopRoot place taker => r.onLane place fun l => Chain.onSpine l (Spine.stop taker)
  | .suspendRoot place taker => r.onLane place fun l => Chain.onSpine l (Spine.suspend taker)
  | .failRoot place reason => r.onLane place fun l => Chain.onSpine l (Spine.fail reason)
  | .change f => do
    Act.modify f
    pure r

def performAll (r : Runner (Lane κ τ)) :
    List (Operation κ τ) → Act κ (Happening τ) (Runner (Lane κ τ))
  | [] => pure r
  | op :: rest => do
    let r ← r.perform op
    r.performAll rest

end Runner

/-! ## Lanes -/

namespace Lane

/-- What an action leaves of a lane: it is sound, and active only if it was active before. -/
def Calm (l l' : Lane κ τ) : Prop :=
  Chain.Sound l' ∧ (Chain.isActive l' = true → Chain.isActive l = true)

theorem Calm.of_resting {l l' : Lane κ τ} (h : Chain.Resting l') : l.Calm l' :=
  ⟨h.sound, fun ha => by simp [h.inactive] at ha⟩

theorem run_ensures {l : Lane κ τ} (hl : Chain.Sound l) (t : τ) (k : κ) :
    (l.run t).Ensures k fun l' _ _ => l.Calm l' := by
  cases l with
  | plain c => exact Act.meets_pure ⟨hl, id⟩
  | single c =>
      apply (SingleChain.run_ensures hl t k).bind
      intro r k' u h
      obtain ⟨-, ⟨hr, -⟩ | ⟨hr, -⟩⟩ := h
      · rw [hr]
        exact Act.meets_pure ⟨hl, id⟩
      · rw [hr]
        refine Act.meets_pure (.of_resting ?_)
        intro s hs
        cases hs
        exact Spine.resting_ofTask t

theorem cancel_ensures {l : Lane κ τ} (hl : Chain.Sound l) (k : κ) :
    l.cancel.Ensures k fun l' _ _ => l.Calm l' := by
  cases l with
  | plain c => exact Act.meets_pure ⟨hl, id⟩
  | single c =>
      apply (SingleChain.cancel_ensures hl k).bind
      intro r k' u h
      obtain ⟨-, ⟨-, hr⟩ | ⟨-, hr⟩⟩ := h
      · rw [hr]
        exact Act.meets_pure ⟨hl, id⟩
      · rw [hr]
        exact Act.meets_pure (.of_resting nofun)

/-- An action on the root of a lane is calm if it is so on every sound spine. -/
theorem onSpine_ensures {l : Lane κ τ} (hl : Chain.Sound l)
    {act : Spine τ → Act κ (Happening τ) (Spine τ)} (k : κ)
    (hact : ∀ s : Spine τ, s.Sound → (act s).Ensures k fun s' _ _ =>
      s'.Sound ∧ (s'.root.active = true → s.root.active = true)) :
    (Chain.onSpine l act).Ensures k fun l' _ _ => l.Calm l' := by
  refine (Chain.onSpine_ensures (Q := fun s? _ _ => ∀ s', s? = some s' →
    s'.Sound ∧ (s'.root.active = true → Chain.isActive l = true)) k ?_ ?_).imp ?_
  · simp
  · intro s hs
    apply (hact s (hl s hs)).imp
    intro s' k' t h s'' hs''
    cases hs''
    refine ⟨h.1, fun ha => ?_⟩
    rw [Chain.isActive, hs]
    exact h.2 ha
  · intro l' k' t h
    refine ⟨fun s' hs' => (h.1 s' hs').1, fun ha => ?_⟩
    cases hs' : Chain.spine? l' with
    | none => simp [Chain.isActive, hs'] at ha
    | some s' =>
        rw [Chain.isActive, hs'] at ha
        exact (h.1 s' hs').2 ha

end Lane

/-! ## Runners -/

namespace Runner

theorem onLane_ensures {r : Runner (Lane κ τ)} (hr : r.Orderly) (place : Nat)
    {act : Lane κ τ → Act κ (Happening τ) (Lane κ τ)} (k : κ)
    (hact : ∀ l, Chain.Sound l → (act l).Ensures k fun l' _ _ => l.Calm l') :
    (r.onLane place act).Ensures k fun r' _ _ => r'.Orderly := by
  rw [onLane]
  split
  case h_1 => exact Act.meets_pure hr
  case h_2 l hl =>
    apply (hact l (hr.sound l (List.mem_of_getElem? hl))).bind
    intro l' k' t h
    refine Act.meets_pure ⟨?_, ?_, ?_, hr.halted⟩
    · intro b hb
      rcases List.mem_or_eq_of_mem_set hb with hb | rfl
      · exact hr.sound b hb
      · exact h.1
    · intro j b hb ha
      by_cases hj : place = j
      · subst hj
        have hlt := (List.getElem?_eq_some_iff.mp hl).1
        rw [setChain, List.getElem?_set_self hlt] at hb
        cases hb
        exact hr.holder place l hl (h.2 ha)
      · rw [setChain, List.getElem?_set_ne hj] at hb
        exact hr.holder j b hb ha
    · intro j hj
      simpa [setChain] using hr.present j hj

variable {χ : Type} [Chain κ τ χ] [OrderlyChain κ τ χ]

omit [Task κ τ] [OrderlyChain κ τ χ] in
theorem register_ensures {r : Runner χ} (hr : r.Orderly) {c : χ} (hc : Chain.Resting c) (k : κ) :
    (r.register c).Ensures k fun p k' _ =>
      p.2 = { r with chains := r.chains ++ [c] } ∧ p.2.Orderly ∧ k' = k := by
  rw [register]
  refine Act.Meets.note_bind (Act.meets_pure ⟨rfl, ⟨?_, ?_, ?_, hr.halted⟩, rfl⟩)
  · intro b hb
    rcases List.mem_append.mp hb with hb | hb
    · exact hr.sound b hb
    · obtain rfl := List.mem_singleton.mp hb
      exact hc.sound
  · intro i b hb ha
    by_cases hi : i < r.chains.length
    · rw [List.getElem?_append_left hi] at hb
      exact hr.holder i b hb ha
    · rw [List.getElem?_append_right (by omega)] at hb
      obtain rfl := List.mem_singleton.mp (List.mem_of_getElem? hb)
      simp [hc.inactive] at ha
  · intro i hi
    have := hr.present i hi
    simp only [List.length_append, List.length_singleton]
    omega

/-- The grant of control and the tick of the selected chain keep a runner orderly. -/
theorem Orderly.tick {r : Runner χ} (hr : r.Orderly) (k : κ) :
    r.tick.Ensures k fun r' _ _ => r'.Orderly := by
  by_cases he : r.enabled = true
  case neg =>
    rw [Runner.tick]
    rw [if_neg he]
    exact Act.meets_pure hr
  case pos =>
    apply (tick_ensures he k).imp
    intro r' k' t h
    obtain ⟨selected, granted, ticked, reports, h⟩ := h
    obtain ⟨hg, rfl⟩ := (grant_orderly hr he h.select).of_ok h.grant
    have ht := ((tickChain_ensures hg granted.context).of_ok h.tick).1
    rw [h.value]
    exact ⟨ht.sound, ht.holder, ht.present, ht.halted⟩

omit [Task κ τ] [OrderlyChain κ τ χ] in
theorem Orderly.enable {r : Runner χ} (hr : r.Orderly) (k : κ) :
    (r.enable : Act κ (Happening τ) (Runner χ)).Ensures k fun r' _ _ => r'.Orderly := by
  rw [Runner.enable]
  split
  case isTrue => exact Act.meets_pure hr
  case isFalse =>
    exact Act.Meets.note_bind (Act.meets_pure ⟨hr.sound, hr.holder, hr.present, nofun⟩)

theorem stopAll_ensures (chains : List χ) (h : ∀ c ∈ chains, Chain.Sound c) (k : κ) :
    (stopAll chains).Ensures k fun chains' _ _ =>
      chains'.length = chains.length ∧ ∀ c ∈ chains', Chain.Resting c := by
  induction chains generalizing k with
  | nil => exact Act.meets_pure ⟨rfl, by simp⟩
  | cons c rest ih =>
      rw [stopAll]
      apply (Chain.stop_ensures (h c (by simp)) k).bind
      intro c' k' t hc
      apply (ih (fun b hb => h b (by simp [hb])) k').bind
      intro rest' k'' u hrest
      refine Act.meets_pure ⟨by simp [hrest.1], ?_⟩
      intro b hb
      rcases List.mem_cons.mp hb with rfl | hb
      · exact hc.1.1
      · exact hrest.2 b hb

theorem stopAll_orderly {r : Runner χ} (hr : r.Orderly) (k : κ) :
    (stopAll r.chains).Ensures k fun chains _ _ => ({ r with chains } : Runner χ).Orderly := by
  apply (stopAll_ensures r.chains hr.sound k).imp
  intro chains k' t h
  obtain ⟨hlen, hrest⟩ := h
  refine ⟨fun c hc => (hrest c hc).sound, ?_, ?_, hr.halted⟩
  · intro i c hc ha
    simp [(hrest c (List.mem_of_getElem? hc)).inactive] at ha
  · intro i hi
    rw [hlen]
    exact hr.present i hi

theorem release_ensures {r : Runner χ} (hr : r.Orderly) (k : κ) :
    r.release.Ensures k fun r' _ _ => r'.Orderly ∧ r'.current = none := by
  rw [release]
  split
  case isTrue =>
    apply (handOver_ensures hr none k).imp
    intro r' k' t h
    exact ⟨h.orderly nofun fun _ => rfl, h.current⟩
  case isFalse hcur => exact Act.meets_pure ⟨hr, by simpa using hcur⟩

theorem Orderly.disable {r : Runner χ} (hr : r.Orderly) (k : κ) :
    r.disable.Ensures k fun r' _ _ => r'.Orderly ∧ r'.enabled = false := by
  rw [Runner.disable]
  apply (stopAll_orderly hr k).bind
  intro chains k₁ t₁ hr₁
  apply (release_ensures hr₁ k₁).bind
  intro r₂ k₂ t₂ h
  obtain ⟨hr₂, hcur⟩ := h
  have hend : ({ r₂ with enabled := false, trace := {} } : Runner χ).Orderly :=
    ⟨hr₂.sound, hr₂.holder, hr₂.present, fun _ => hcur⟩
  split
  · exact Act.Meets.note_bind (Act.meets_pure ⟨hend, rfl⟩)
  · exact Act.meets_pure ⟨hend, rfl⟩

theorem Orderly.stopCurrent {r : Runner χ} (hr : r.Orderly) (k : κ) :
    r.stopCurrent.Ensures k fun r' _ _ => r'.Orderly := by
  rw [Runner.stopCurrent]
  split
  case h_1 => exact Act.meets_pure hr
  case h_2 i hcur =>
    split
    case h_1 => exact Act.meets_pure hr
    case h_2 c hc =>
      apply (Chain.stop_ensures (hr.sound c (List.mem_of_getElem? hc)) k).bind
      intro c' k₁ t₁ h
      have hr₁ := hr.setChain hcur h.1.1.sound
      apply (handOver_ensures hr₁ none k₁).bind
      intro r₂ k₂ t₂ h
      have hr₂ := h.orderly nofun fun _ => rfl
      exact Act.meets_pure ⟨hr₂.sound, hr₂.holder, hr₂.present, hr₂.halted⟩

/-- Every operation keeps a runner orderly. -/
theorem perform_ensures {r : Runner (Lane κ τ)} (hr : r.Orderly) (op : Operation κ τ) (k : κ) :
    (r.perform op).Ensures k fun r' _ _ => r'.Orderly := by
  cases op with
  | register c =>
      apply (register_ensures hr c.resting k).bind
      intro p k' t h
      exact Act.meets_pure h.2.1
  | tick => exact hr.tick k
  | enable => exact hr.enable k
  | disable => exact (hr.disable k).imp fun _ _ _ h => h.1
  | stopCurrent => exact hr.stopCurrent k
  | run place t => exact onLane_ensures hr place k fun l hl => Lane.run_ensures hl t k
  | cancel place => exact onLane_ensures hr place k fun l hl => Lane.cancel_ensures hl k
  | stopRoot place taker =>
      refine onLane_ensures hr place k fun l hl => Lane.onSpine_ensures hl k fun s hs => ?_
      refine (Spine.stop_ensures taker hs k).imp fun s' _ _ h => ⟨h.resting.sound, fun ha => ?_⟩
      simp [h.resting.inactive] at ha
  | suspendRoot place taker =>
      refine onLane_ensures hr place k fun l hl => Lane.onSpine_ensures hl k fun s hs => ?_
      exact (Spine.suspend_ensures taker hs k).imp fun _ _ _ h => ⟨h.1, h.2.1⟩
  | failRoot place reason =>
      refine onLane_ensures hr place k fun l hl => Lane.onSpine_ensures hl k fun s hs => ?_
      refine (Spine.fail_ensures reason hs k).imp fun s' _ _ h => ⟨h.1.sound, fun ha => ?_⟩
      simp [h.1.inactive] at ha
  | change f =>
      apply Act.Meets.bind (Act.meets_modify (Q := fun _ _ _ => True) trivial)
      intro _ k' t _
      exact Act.meets_pure hr

theorem performAll_ensures {r : Runner (Lane κ τ)} (hr : r.Orderly) (ops : List (Operation κ τ))
    (k : κ) : (r.performAll ops).Ensures k fun r' _ _ => r'.Orderly := by
  induction ops generalizing r k with
  | nil => exact Act.meets_pure hr
  | cons op ops ih =>
      apply (perform_ensures hr op k).bind
      intro r' k' t h
      exact ih h k'

end Runner

end Arbiter
