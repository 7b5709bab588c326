import Arbiter.Proofs.Chain.Sound
import Arbiter.Proofs.Lifecycle.Spine

/-! The account of a chain is that of its spine. A root that leaves its chain has no open activation
by then, whichever way it leaves. -/

namespace Arbiter

variable {κ τ : Type} [Task κ τ]

/-- The account of a chain. -/
def Chain.lives {χ : Type} [Chain (Numbered κ) (Instance τ) χ] (c : χ) : Lives :=
  Spine.lives (Chain.nodes c)

section

variable {χ : Type} [Chain (Numbered κ) (Instance τ) χ]

omit [Task κ τ] in
theorem Chain.lives_of_none {c : χ} (h : Chain.spine? c = none) : Chain.lives c = [] := by
  simp [Chain.lives, Chain.nodes, h, Spine.lives]

omit [Task κ τ] in
theorem Chain.lives_of_some {c : χ} {s : Spine (Instance τ)} (h : Chain.spine? c = some s) :
    Chain.lives c = Spine.lives s.nodes := by
  simp [Chain.lives, Chain.nodes, h]

/-- An action that keeps the account of every sound spine keeps that of every sound chain. -/
theorem Chain.onSpine_keeps [OrderlyChain (Numbered κ) (Instance τ) χ] {c : χ}
    (hc : Chain.Sound c)
    {act : Spine (Instance τ) → Act (Numbered κ) (Happening (Instance τ)) (Spine (Instance τ))}
    (k : Numbered κ)
    (hact : ∀ s : Spine (Instance τ), s.Sound → (act s).Ensures k fun s' k' t =>
      Keeps (Spine.lives s.nodes) k.next (Spine.lives s'.nodes) k'.next t) :
    (Chain.onSpine c act).Ensures k fun c' k' t =>
      Keeps (Chain.lives c) k.next (Chain.lives c') k'.next t := by
  rw [Chain.onSpine]
  split
  case h_1 => exact Act.meets_pure (.refl _ _)
  case h_2 s h =>
    apply (hact s (hc s h)).bind
    intro s' k' t hk
    apply Act.meets_pure
    have h' : Chain.spine? (Chain.mapSpine c fun _ => s') = some s' := by
      rw [OrderlyChain.spine?_mapSpine, h]
      rfl
    rw [Chain.lives_of_some h, Chain.lives_of_some h']
    simpa using hk

theorem Chain.stop_keeps [OrderlyChain (Numbered κ) (Instance τ) χ] {c : χ}
    (hc : Chain.Sound c) (k : Numbered κ) :
    (Chain.stop c).Ensures k fun c' k' t =>
      Keeps (Chain.lives c) k.next (Chain.lives c') k'.next t :=
  Chain.onSpine_keeps hc k fun _ hs => Spine.stop_keeps none hs k

theorem Chain.interrupt_keeps [OrderlyChain (Numbered κ) (Instance τ) χ] {c : χ}
    (hc : Chain.Sound c) (next : Option String) (k : Numbered κ) :
    (Chain.interrupt c next).Ensures k fun c' k' t =>
      Keeps (Chain.lives c) k.next (Chain.lives c') k'.next t := by
  rw [Chain.interrupt]
  exact Act.Meets.note_bind ((Chain.stop_keeps hc k).imp fun _ _ _ h => h.noted _)

end

/-! ## Single chains -/

namespace SingleChain

variable {c : SingleChain (Numbered κ) (Instance τ)}

/-- A root at rest is dropped when it ends. -/
theorem finish_keeps (c : SingleChain (Numbered κ) (Instance τ)) {s : Spine (Instance τ)}
    (hs : s.Resting) (outcome : Outcome) (k : Numbered κ) :
    (c.finish s outcome).Ensures k fun c' k' t =>
      Keeps (Spine.lives s.nodes) k.next (Chain.lives c') k'.next t := by
  rw [finish]
  rw [hs.lives_nodes]
  refine Act.Meets.note_bind ((Spine.dropAll_keeps s.nodes k).bind ?_)
  intro _ k' t h
  apply Act.meets_pure
  simpa [Chain.lives, Chain.nodes, Chain.spine?, Spine.lives] using h.noted _

theorem vacate_keeps (hc : Chain.Sound c) (taker : Option (Instance τ)) (k : Numbered κ) :
    (c.vacate taker).Ensures k fun _ k' t => Keeps (Chain.lives c) k.next [] k'.next t := by
  rw [vacate]
  split
  case h_1 h =>
    rw [Chain.lives_of_none h]
    exact Act.meets_pure (.refl _ _)
  case h_2 s h =>
    rw [Chain.lives_of_some h]
    exact (hc s h).stopAndDrop_keeps taker k

/-- A task that is asked for takes the place of the root, or is forgotten. -/
theorem run_keeps (hc : Chain.Sound c) (t : Instance τ) (k : Numbered κ) :
    (c.run t).Ensures k fun r k' u =>
      Keeps (Chain.lives c ++ [(t.number, false)]) k.next (Chain.lives r.2) k'.next u := by
  rw [run]
  split
  case isTrue =>
    apply Act.meets_pure
    simpa using (Keeps.forget t.number k.next).append_left (Chain.lives c)
  case isFalse =>
    apply (vacate_keeps hc (some t) k).bind
    intro _ k' u h
    refine Act.Meets.note_bind (Act.meets_pure ?_)
    exact (h.append_right [(t.number, false)]).trans ((Keeps.refl _ _).noted _)

theorem cancel_keeps (hc : Chain.Sound c) (k : Numbered κ) :
    c.cancel.Ensures k fun r k' t => Keeps (Chain.lives c) k.next (Chain.lives r.2) k'.next t := by
  rw [cancel]
  split
  case h_1 => exact Act.meets_pure (.refl _ _)
  case h_2 s h =>
    rw [Chain.lives_of_some h]
    apply ((Spine.stop_ensures none (hc s h) k).and (Spine.stop_keeps none (hc s h) k)).bind
    intro s' k' t ht
    obtain ⟨hdown, hstop⟩ := ht
    refine Act.Meets.note_bind ((Spine.dropAll_keeps s'.nodes k').bind ?_)
    intro _ k'' u hdrop
    apply Act.meets_pure
    rw [hdown.resting.lives_nodes] at hstop
    simpa [Chain.lives, Chain.nodes, Chain.spine?, Spine.lives] using
      hstop.trans (hdrop.noted _)

theorem tick_keeps (hc : Chain.Sound c) (trace : Trace) (k : Numbered κ) :
    (c.tick trace).Ensures k fun r k' t =>
      Keeps (Chain.lives c) k.next (Chain.lives r.1) k'.next t := by
  -- A failed root of a sound spine is at rest, so it may be dropped without a stop.
  have hfailed : ∀ {s : Spine (Instance τ)} {f : Failure}, s.Sound →
      s.root.failureReport = some f → s.Resting := by
    intro s f hs hf
    refine hs.resting (hs.root.inactive_of_failed fun h => ?_)
    simp [Node.failureReport, h] at hf
  rw [tick]
  split
  case h_1 => exact Act.meets_pure (.refl _ _)
  case h_2 s h =>
    have hs := hc s h
    rw [Chain.lives_of_some h]
    split
    case h_1 f hf =>
      apply (finish_keeps c (hfailed hs hf) (.failed f) k).bind
      intro c' k' t ht
      exact Act.meets_pure (by simpa using ht)
    case h_2 hf =>
      refine Act.Meets.get_bind (Act.Meets.ofExcept_bind (fun _ _ => trivial) ?_)
      intro done hd
      cases done with
      | true =>
          apply ((Spine.stop_ensures none hs k).and (Spine.stop_keeps none hs k)).bind
          intro s' k' t ht
          obtain ⟨hdown, hstop⟩ := ht
          apply (finish_keeps c hdown.resting .finished k').bind
          intro c' k'' u hu
          exact Act.meets_pure (by simpa using hstop.trans hu)
      | false =>
          apply ((Spine.tick_ensures hs trace k).and (Spine.tick_keeps hs trace k)).bind
          intro r k' t ht
          obtain ⟨s', trace'⟩ := r
          obtain ⟨⟨hs', -⟩, htick⟩ := ht
          dsimp only
          split
          case h_1 f hf' =>
            apply (finish_keeps c (hfailed hs' hf') (.failed f) k').bind
            intro c' k'' u hu
            exact Act.meets_pure (by simpa using htick.trans hu)
          case h_2 =>
            apply Act.meets_pure
            simpa [Chain.lives, Chain.nodes, Chain.spine?] using htick

end SingleChain

/-! ## Plain chains and lanes -/

theorem PlainChain.tick_keeps {c : PlainChain (Numbered κ) (Instance τ)} (hc : Chain.Sound c)
    (trace : Trace) (k : Numbered κ) :
    (c.tick trace).Ensures k fun r k' t =>
      Keeps (Chain.lives c) k.next (Chain.lives r.1) k'.next t := by
  rw [PlainChain.tick]
  split
  case h_1 => exact Act.meets_pure (.refl _ _)
  case h_2 s h =>
    rw [Chain.lives_of_some h]
    apply (Spine.tick_keeps (hc s h) trace k).bind
    intro r k' t ht
    apply Act.meets_pure
    rw [List.append_nil]
    exact ht

theorem Lane.tick_keeps {l : Lane (Numbered κ) (Instance τ)} (hl : Chain.Sound l) (trace : Trace)
    (k : Numbered κ) :
    (Chain.tick l trace).Ensures k fun r k' t =>
      Keeps (Chain.lives l) k.next (Chain.lives r.1) k'.next t := by
  show (l.tick trace).Ensures k _
  cases l with
  | single c =>
      apply (SingleChain.tick_keeps (c := c) hl trace k).bind
      intro r k' t h
      apply Act.meets_pure
      rw [List.append_nil]
      exact h
  | plain c =>
      apply (PlainChain.tick_keeps (c := c) hl trace k).bind
      intro r k' t h
      apply Act.meets_pure
      rw [List.append_nil]
      exact h

end Arbiter
