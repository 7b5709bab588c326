import Arbiter.Proofs.Lifecycle.Chain
import Arbiter.Proofs.Runner.Operation

/-! The account of a runner is that of all its lanes. Each operation of a runner follows it, so that
a whole run leads from nothing to the instances that are held at its end. -/

namespace Arbiter

variable {κ τ : Type} [Task κ τ]

/-! ## Requests and interventions -/

namespace Lane

variable {l : Lane (Numbered κ) (Instance τ)}

theorem run_keeps (hl : Chain.Sound l) (t : Instance τ) (k : Numbered κ) :
    (l.run t).Ensures k fun l' k' u =>
      Keeps (Chain.lives l ++ [(t.number, false)]) k.next (Chain.lives l') k'.next u := by
  cases l with
  | plain c =>
      apply Act.meets_pure
      simpa using (Keeps.forget t.number k.next).append_left (Chain.lives (plain c))
  | single c =>
      apply (SingleChain.run_keeps hl t k).bind
      intro r k' u h
      apply Act.meets_pure
      rw [List.append_nil]
      exact h

theorem cancel_keeps (hl : Chain.Sound l) (k : Numbered κ) :
    l.cancel.Ensures k fun l' k' t => Keeps (Chain.lives l) k.next (Chain.lives l') k'.next t := by
  cases l with
  | plain c => exact Act.meets_pure (.refl _ _)
  | single c =>
      apply (SingleChain.cancel_keeps hl k).bind
      intro r k' u h
      apply Act.meets_pure
      rw [List.append_nil]
      exact h

end Lane

namespace Runner

/-- The account of lanes, in their order. -/
def livesOf (lanes : List (Lane (Numbered κ) (Instance τ))) : Lives := lanes.flatMap Chain.lives

def lives (r : Runner (Lane (Numbered κ) (Instance τ))) : Lives := livesOf r.chains

variable {r : Runner (Lane (Numbered κ) (Instance τ))}

/-- What happens on one lane happens on the runner. -/
theorem set_keeps {lanes : List (Lane (Numbered κ) (Instance τ))} {i : Nat}
    {l l' : Lane (Numbered κ) (Instance τ)} {extra : Lives} {n n' : Nat}
    {t : List (Happening (Instance τ))} (hl : lanes[i]? = some l)
    (h : Keeps (Chain.lives l ++ extra) n (Chain.lives l') n' t) :
    Keeps (livesOf lanes ++ extra) n (livesOf (lanes.set i l')) n' t := by
  induction lanes generalizing i with
  | nil => cases hl
  | cons a rest ih =>
      cases i with
      | zero =>
          cases hl
          apply (h.append_right (livesOf rest)).perm_left
          simp only [livesOf, List.flatMap_cons, List.append_assoc]
          exact List.perm_append_comm.append_left _
      | succ i =>
          have h' := (ih (i := i) hl).append_left (Chain.lives a)
          simpa [livesOf] using h'

theorem setChain_keeps {i : Nat} {l l' : Lane (Numbered κ) (Instance τ)} {n n' : Nat}
    {t : List (Happening (Instance τ))} (hl : r.chains[i]? = some l)
    (h : Keeps (Chain.lives l) n (Chain.lives l') n' t) :
    Keeps r.lives n (r.setChain i l').lives n' t := by
  have h' : Keeps (Chain.lives l ++ []) n (Chain.lives l') n' t := by simpa using h
  simpa [lives, setChain] using set_keeps hl h'

theorem onLane_keeps (hr : r.Orderly) (place : Nat)
    {act : Lane (Numbered κ) (Instance τ) →
      Act (Numbered κ) (Happening (Instance τ)) (Lane (Numbered κ) (Instance τ))}
    (extra : Lives) (k : Numbered κ)
    (hforget : Keeps extra k.next [] k.next ([] : List (Happening (Instance τ))))
    (hact : ∀ l, Chain.Sound l → (act l).Ensures k fun l' k' t =>
      Keeps (Chain.lives l ++ extra) k.next (Chain.lives l') k'.next t) :
    (r.onLane place act).Ensures k fun r' k' t =>
      Keeps (r.lives ++ extra) k.next r'.lives k'.next t := by
  rw [onLane]
  split
  case h_1 =>
    apply Act.meets_pure
    simpa using hforget.append_left r.lives
  case h_2 l hl =>
    apply (hact l (hr.sound l (List.mem_of_getElem? hl))).bind
    intro l' k' t h
    apply Act.meets_pure
    rw [List.append_nil]
    exact set_keeps hl h

/-! ## The operations of the host -/

omit [Task κ τ] in
theorem emit_keeps {χ : Type} (r : Runner χ) (e : SinkEvent) (l : Lives) (k : Numbered κ) :
    (r.emit e : Act (Numbered κ) (Happening (Instance τ)) (Runner χ)).Ensures k fun _ k' t =>
      Keeps l k.next l k'.next t := by
  rw [emit]
  refine Act.Meets.bind (Act.meets_tell (Q := fun _ k' t => Keeps l k.next l k'.next t) ?_) ?_
  · refine Keeps.quiet ?_ l k.next
    intro b hb i o
    obtain rfl := List.mem_singleton.mp hb
    rfl
  · intro _ k' t h
    apply Act.Meets.bind (Act.meets_tellAll (Q := fun _ k'' u => Keeps l k'.next l k''.next u)
      (Keeps.quiet_noted _ l k'.next))
    intro _ k'' u h'
    apply Act.meets_pure
    rw [List.append_nil]
    exact h.trans h'

omit [Task κ τ] in
theorem emitAll_keeps {χ : Type} (r : Runner χ) (es : List SinkEvent) (l : Lives)
    (k : Numbered κ) :
    (r.emitAll es : Act (Numbered κ) (Happening (Instance τ)) (Runner χ)).Ensures k fun _ k' t =>
      Keeps l k.next l k'.next t := by
  induction es generalizing r k with
  | nil => exact Act.meets_pure (.refl _ _)
  | cons e es ih =>
      rw [emitAll]
      apply (emit_keeps r e l k).bind
      intro r' k' t h
      exact (ih r' k').imp fun _ _ _ h' => h.trans h'

theorem interruptHolder_keeps (hr : r.Orderly) (next : Option String) (k : Numbered κ) :
    (r.interruptHolder next).Ensures k fun r' k' t =>
      Keeps r.lives k.next r'.lives k'.next t := by
  rw [interruptHolder]
  split
  case h_1 => exact Act.meets_pure (.refl _ _)
  case h_2 i _ =>
    split
    case h_1 => exact Act.meets_pure (.refl _ _)
    case h_2 c hc =>
      apply (Chain.interrupt_keeps (hr.sound c (List.mem_of_getElem? hc)) next k).bind
      intro c' k' t h
      apply Act.meets_pure
      rw [List.append_nil]
      exact setChain_keeps hc h

theorem handOver_keeps (hr : r.Orderly) (selected : Option Nat) (k : Numbered κ) :
    (r.handOver selected).Ensures k fun r' k' t =>
      Keeps r.lives k.next r'.lives k'.next t := by
  rw [handOver]
  apply (interruptHolder_keeps hr _ k).bind
  intro r₁ k₁ t₁ h₁
  apply ((emit_meets r₁ _ k₁).and (emit_keeps r₁ _ r₁.lives k₁)).bind
  intro r₂ k₂ t₂ h
  obtain ⟨⟨hr₂, -⟩, h₂⟩ := h
  apply Act.meets_pure
  have hlives : ({ r₂ with current := selected } : Runner _).lives = r₁.lives := by
    rw [hr₂]
    rfl
  rw [hlives]
  simpa using h₁.trans h₂

theorem tickChain_keeps (hr : r.Orderly) (selected : Option Nat) (k : Numbered κ) :
    (r.tickChain selected).Ensures k fun r' k' t =>
      Keeps r.lives k.next r'.lives k'.next t := by
  unfold tickChain
  split
  case h_1 => exact Act.meets_pure (.refl _ _)
  case h_2 i =>
    split
    case h_1 => exact Act.meets_pure (.refl _ _)
    case h_2 c hc =>
      apply (Lane.tick_keeps (hr.sound c (List.mem_of_getElem? hc)) {} k).bind
      intro p k' t h
      apply Act.meets_pure
      rw [List.append_nil]
      exact setChain_keeps hc h

theorem grant_keeps (hr : r.Orderly) (selected : Option Nat) (k : Numbered κ) :
    (r.grant selected).Ensures k fun r' k' t => Keeps r.lives k.next r'.lives k'.next t := by
  rw [grant]
  split
  case isTrue => exact Act.meets_pure (.refl _ _)
  case isFalse => exact handOver_keeps hr selected k

theorem tick_keeps (hr : r.Orderly) (k : Numbered κ) :
    r.tick.Ensures k fun r' k' t => Keeps r.lives k.next r'.lives k'.next t := by
  rw [tick]
  split
  case isFalse => exact Act.meets_pure (.refl _ _)
  case isTrue he =>
    refine Act.Meets.get_bind (Act.Meets.ofExcept_bind (fun _ _ => trivial) ?_)
    intro selected hsel
    apply ((grant_orderly hr he hsel).and (grant_keeps hr selected k)).bind
    intro r₁ k₁ t₁ h
    obtain ⟨⟨hr₁, -⟩, h₁⟩ := h
    apply (tickChain_keeps hr₁ selected k₁).bind
    intro r₂ k₂ t₂ h₂
    apply ((emitAll_meets r₂ _ k₂).and (emitAll_keeps r₂ _ r₂.lives k₂)).bind
    intro r₃ k₃ t₃ h
    obtain ⟨⟨hr₃, -⟩, h₃⟩ := h
    apply ((emit_meets r₃ _ k₃).and (emit_keeps r₃ _ r₂.lives k₃)).imp
    intro r₄ k₄ t₄ h
    obtain ⟨⟨hr₄, -⟩, h₄⟩ := h
    have hlives : r₄.lives = r₂.lives := by rw [hr₄, hr₃]; rfl
    rw [hlives]
    exact h₁.trans (h₂.trans (h₃.trans h₄))

theorem stopAll_keeps (lanes : List (Lane (Numbered κ) (Instance τ)))
    (h : ∀ l ∈ lanes, Chain.Sound l) (k : Numbered κ) :
    (stopAll lanes).Ensures k fun lanes' k' t =>
      Keeps (livesOf lanes) k.next (livesOf lanes') k'.next t := by
  induction lanes generalizing k with
  | nil => exact Act.meets_pure (.refl _ _)
  | cons l rest ih =>
      rw [stopAll]
      apply (Chain.stop_keeps (h l (by simp)) k).bind
      intro l' k' t hl
      apply (ih (fun b hb => h b (by simp [hb])) k').bind
      intro rest' k'' u hrest
      apply Act.meets_pure
      simpa [livesOf] using
        (hl.append_right (livesOf rest)).trans (hrest.append_left (Chain.lives l'))

theorem release_keeps (hr : r.Orderly) (k : Numbered κ) :
    r.release.Ensures k fun r' k' t => Keeps r.lives k.next r'.lives k'.next t := by
  rw [release]
  split
  case isTrue => exact handOver_keeps hr none k
  case isFalse => exact Act.meets_pure (.refl _ _)

theorem disable_keeps (hr : r.Orderly) (k : Numbered κ) :
    r.disable.Ensures k fun r' k' t => Keeps r.lives k.next r'.lives k'.next t := by
  rw [disable]
  apply ((stopAll_orderly hr k).and (stopAll_keeps r.chains hr.sound k)).bind
  intro lanes k₁ t₁ h
  obtain ⟨hr₁, h₁⟩ := h
  apply (release_keeps hr₁ k₁).bind
  intro r₂ k₂ t₂ h₂
  have hend : Keeps r.lives k.next ({ r₂ with enabled := false, trace := {} } :
      Runner (Lane (Numbered κ) (Instance τ))).lives k₂.next (t₁ ++ t₂) := h₁.trans h₂
  split
  · refine Act.Meets.note_bind (Act.meets_pure ?_)
    have := hend.trans ((Keeps.refl _ _).noted
      ⟨.info, "task runner disabled", []⟩)
    simpa using this
  · apply Act.meets_pure
    simpa using hend

theorem stopCurrent_keeps (hr : r.Orderly) (k : Numbered κ) :
    r.stopCurrent.Ensures k fun r' k' t => Keeps r.lives k.next r'.lives k'.next t := by
  rw [stopCurrent]
  split
  case h_1 => exact Act.meets_pure (.refl _ _)
  case h_2 i hcur =>
    split
    case h_1 => exact Act.meets_pure (.refl _ _)
    case h_2 c hc =>
      have hsound := hr.sound c (List.mem_of_getElem? hc)
      apply ((Chain.stop_ensures hsound k).and (Chain.stop_keeps hsound k)).bind
      intro c' k₁ t₁ h
      obtain ⟨⟨⟨hrest, -⟩, -⟩, h₁⟩ := h
      apply (handOver_keeps (hr.setChain hcur hrest.sound) none k₁).bind
      intro r₂ k₂ t₂ h₂
      apply Act.meets_pure
      simpa [lives] using (setChain_keeps hc h₁).trans h₂

end Runner

end Arbiter
