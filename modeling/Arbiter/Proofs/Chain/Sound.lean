import Arbiter.Chain.Plain
import Arbiter.Proofs.Spine.Sound

/-! Orderly chains keep their spine sound and tell the sink nothing. Single chains and plain ones
are orderly, whatever their tasks do. -/

namespace Arbiter

namespace Chain

variable {κ τ χ : Type} [Chain κ τ χ]

/-- The nodes that a chain holds, root first. -/
def nodes (c : χ) : List (Node τ) :=
  match spine? c with
  | none => []
  | some s => s.nodes

/-- The spine of the chain is sound, if there is one. -/
def Sound (c : χ) : Prop := ∀ s : Spine τ, spine? c = some s → s.Sound

/-- The chain has no started node. -/
def Resting (c : χ) : Prop := ∀ s : Spine τ, spine? c = some s → s.Resting

theorem Resting.sound {c : χ} (h : Resting c) : Sound c := fun s hs => (h s hs).sound

theorem Resting.inactive {c : χ} (h : Resting c) : isActive c = false := by
  rw [isActive]
  cases hs : spine? c with
  | none => rfl
  | some s => exact (h s hs).inactive

theorem Sound.resting {c : χ} (h : Sound c) (ha : isActive c = false) : Resting c := by
  intro s hs
  rw [isActive] at ha
  rw [hs] at ha
  exact (h s hs).resting ha

end Chain

/-- What a runner relies on: a chain gives back the spine that it is given, and its tick keeps the
spine sound, keeps the name and tells the sink nothing. -/
class OrderlyChain (κ τ : outParam Type) (χ : Type) [Task κ τ] [Chain κ τ χ] : Prop where
  spine?_mapSpine : ∀ (c : χ) (f : Spine τ → Spine τ),
    Chain.spine? (Chain.mapSpine c f) = (Chain.spine? c).map f
  name_mapSpine : ∀ (c : χ) (f : Spine τ → Spine τ), Chain.name (Chain.mapSpine c f) = Chain.name c
  tick_ensures : ∀ (c : χ) (trace : Trace) (k : κ), Chain.Sound c →
    (Chain.tick c trace).Ensures k fun r _ t =>
      Chain.Sound r.1 ∧ Chain.name r.1 = Chain.name c ∧ events t = []

namespace Chain

variable {κ τ χ : Type} [Task κ τ] [Chain κ τ χ] [OrderlyChain κ τ χ]

/-- What an action does to the spine of a chain, and that the chain keeps its name. -/
theorem onSpine_ensures {c : χ} {act : Spine τ → Act κ (Happening τ) (Spine τ)}
    {Q : Option (Spine τ) → κ → List (Happening τ) → Prop} (k : κ)
    (hnone : spine? c = none → Q none k [])
    (hsome : ∀ s, spine? c = some s → (act s).Ensures k fun s' => Q (some s')) :
    (onSpine c act).Ensures k fun c' k' t => Q (spine? c') k' t ∧ name c' = name c := by
  rw [onSpine]
  split
  case h_1 h => exact Act.meets_pure ⟨by rw [h]; exact hnone h, rfl⟩
  case h_2 s h =>
    apply (hsome s h).bind
    intro s' k' t hq
    refine Act.meets_pure ⟨?_, OrderlyChain.name_mapSpine c _⟩
    rw [OrderlyChain.spine?_mapSpine, h]
    simpa using hq

/-- A stopped chain rests. The stop calls the stop hooks of the started nodes from the root down. -/
theorem stop_ensures {c : χ} (hc : Sound c) (k : κ) :
    (stop c).Ensures k fun c' _ t =>
      (Resting c' ∧ name c' = name c) ∧ hooks t = Spine.stops none (nodes c) ∧ events t = [] := by
  rw [stop]
  refine (onSpine_ensures (Q := fun s? _ t => (∀ s, s? = some s → s.Resting) ∧
    hooks t = Spine.stops none (nodes c) ∧ events t = []) k ?_ ?_).imp ?_
  · intro h
    simp [nodes, h, Spine.stops]
  · intro s h
    apply (Spine.stop_ensures none (hc s h) k).imp
    intro s' k' t ht
    refine ⟨?_, ?_, ht.events⟩
    · intro s'' h'
      cases h'
      exact ht.resting
    · rw [ht.hooks, nodes, h]
  · intro c' k' t h
    exact ⟨⟨h.1.1, h.2⟩, h.1.2⟩

theorem interrupt_ensures {c : χ} (hc : Sound c) (next : Option String) (k : κ) :
    (interrupt c next).Ensures k fun c' _ t =>
      (Resting c' ∧ name c' = name c) ∧ hooks t = Spine.stops none (nodes c) ∧ events t = [] := by
  rw [interrupt]
  exact Act.Meets.note_bind (stop_ensures hc k)

end Chain

/-! ## Single chains -/

namespace SingleChain

variable {κ τ : Type} [Task κ τ]

theorem vacate_ensures {c : SingleChain κ τ} (hc : Chain.Sound c) (taker : Option τ) (k : κ) :
    (c.vacate taker).Ensures k fun _ _ t =>
      hooks t = Spine.stops taker (Chain.nodes c) ∧ events t = [] := by
  rw [vacate]
  split
  case h_1 h => exact Act.meets_pure (by simp [Chain.nodes, Chain.spine?, h, Spine.stops])
  case h_2 s h =>
    apply ((hc s h).stopAndDrop_ensures taker k).imp
    intro _ k' t ht
    simpa only [Chain.nodes, Chain.spine?, h] using ht

/-- A request leaves the chain as it is, or in the place of the root a task that rests. -/
theorem run_ensures {c : SingleChain κ τ} (hc : Chain.Sound c) (t : τ) (k : κ) :
    (c.run t).Ensures k fun r _ u =>
      events u = [] ∧
        (r = (false, c) ∧ c.isServing t = true ∨
          r = (true, { c with spine := some (Spine.ofTask t), outcome := none }) ∧
            c.isServing t = false) := by
  rw [run]
  split
  case isTrue h => exact Act.meets_pure ⟨rfl, Or.inl ⟨rfl, h⟩⟩
  case isFalse h =>
    apply (vacate_ensures hc (some t) k).bind
    intro _ k' u hu
    exact Act.Meets.note_bind (Act.meets_pure ⟨by simp [hu.2], Or.inr ⟨rfl, by simpa using h⟩⟩)

theorem finish_meets {F : Fault → Prop} (c : SingleChain κ τ) (s : Spine τ) (outcome : Outcome)
    (k : κ) :
    (c.finish s outcome).Meets k F fun c' k' t =>
      c' = { c with spine := none, outcome := some outcome } ∧ k' = k ∧ hooks t = [] ∧
        events t = [] := by
  rw [finish]
  refine Act.Meets.note_bind ((Spine.dropAll_meets s.nodes k).bind ?_)
  intro _ k' t ht
  exact Act.meets_pure ⟨rfl, ht.1, by simp [ht.2.1], by simp [ht.2.2]⟩

theorem cancel_ensures {c : SingleChain κ τ} (hc : Chain.Sound c) (k : κ) :
    c.cancel.Ensures k fun r _ t =>
      events t = [] ∧
        (c.spine = none ∧ r = (false, c) ∨
          c.spine ≠ none ∧ r = (true, { c with spine := none, outcome := some .cancelled })) := by
  rw [cancel]
  split
  case h_1 h => exact Act.meets_pure ⟨rfl, Or.inl ⟨h, rfl⟩⟩
  case h_2 s h =>
    apply (Spine.stop_ensures none (hc s h) k).bind
    intro s' k' t ht
    refine Act.Meets.note_bind ((Spine.dropAll_meets s'.nodes k').bind ?_)
    intro _ k'' u hu
    exact Act.meets_pure ⟨by simp [ht.events, hu.2.2], Or.inr ⟨by simp [h], rfl⟩⟩

/-- How a tick of a chain goes with the root that it holds: what it holds afterwards, and how the
root ended if it did. -/
inductive RootTick (s : Spine τ) (trace : Trace) (k : κ) :
    Option (Spine τ) → Option Outcome → Prop
  /-- A failure that is latched ends the root without another tick. -/
  | latched {f} (hf : s.root.failureReport = some f) : RootTick s trace k none (some (.failed f))
  | finished (hf : s.root.failureReport = none) (hd : s.root.isFinished k = .ok true) :
      RootTick s trace k none (some .finished)
  /-- The root is ticked and fails. -/
  | failing {d f} (hf : s.root.failureReport = none) (hd : s.root.isFinished k = .ok false)
      (ht : s.tick trace k = .ok d) (hf' : d.value.1.root.failureReport = some f) :
      RootTick s trace k none (some (.failed f))
  /-- The root is ticked and stays. -/
  | working {d} (hf : s.root.failureReport = none) (hd : s.root.isFinished k = .ok false)
      (ht : s.tick trace k = .ok d) (hf' : d.value.1.root.failureReport = none) :
      RootTick s trace k (some d.value.1) none

/-- What stays after a tick of a sound spine is sound and works. -/
theorem RootTick.started {s s' : Spine τ} {trace : Trace} {k : κ} {o : Option Outcome}
    (h : RootTick s trace k (some s') o) (hs : s.Sound) : s'.Sound ∧ s'.root.Started := by
  cases h with
  | working hf hd ht hf' =>
      obtain ⟨hsound, hroot, -⟩ := (Spine.tick_ensures hs trace k).of_ok ht
      exact ⟨hsound, hroot (Option.map_eq_none_iff.mp hf')⟩

/-- A tick of a chain without a root does nothing. Otherwise the root stays, or it is no longer
held and its end is kept. -/
theorem tick_ensures {c : SingleChain κ τ} (hc : Chain.Sound c) (trace : Trace) (k : κ) :
    (c.tick trace).Ensures k fun r _ t =>
      events t = [] ∧
        (c.spine = none ∧ r.1 = c ∨
          ∃ s, c.spine = some s ∧ ∃ s? o?, RootTick s trace k s? o? ∧
            r.1 = { c with spine := s?, outcome := o? <|> c.outcome }) := by
  rw [tick]
  split
  case h_1 h => exact Act.meets_pure ⟨rfl, Or.inl ⟨h, rfl⟩⟩
  case h_2 s h =>
    have hs := hc s h
    split
    case h_1 f hf =>
      apply (finish_meets c s (.failed f) k).bind
      intro c' k' t ht
      exact Act.meets_pure
        ⟨by simp [ht.2.2], Or.inr ⟨s, h, none, some (.failed f), .latched hf, ht.1⟩⟩
    case h_2 hf =>
      refine Act.Meets.get_bind (Act.Meets.ofExcept_bind (fun _ _ => trivial) ?_)
      intro done hd
      cases done with
      | true =>
          apply (Spine.stop_ensures none hs k).bind
          intro s' k' t ht
          apply (finish_meets c s' .finished k').bind
          intro c' k'' u hu
          exact Act.meets_pure ⟨by simp [ht.events, hu.2.2],
            Or.inr ⟨s, h, none, some .finished, .finished hf hd, hu.1⟩⟩
      | false =>
          apply ((Spine.tick_ensures hs trace k).and (Act.ensures_run _ k)).bind
          intro r k' t ht
          obtain ⟨s', trace'⟩ := r
          obtain ⟨⟨hsound, hroot, he⟩, hrun⟩ := ht
          dsimp only
          split
          case h_1 f hf' =>
            apply (finish_meets c s' (.failed f) k').bind
            intro c' k'' u hu
            exact Act.meets_pure ⟨by simp [he, hu.2.2],
              Or.inr ⟨s, h, none, some (.failed f), .failing hf hd hrun hf', hu.1⟩⟩
          case h_2 hf' =>
            exact Act.meets_pure ⟨by simpa using he,
              Or.inr ⟨s, h, some s', none, .working hf hd hrun hf', rfl⟩⟩

instance : OrderlyChain κ τ (SingleChain κ τ) where
  spine?_mapSpine _ _ := rfl
  name_mapSpine _ _ := rfl
  tick_ensures c trace k hc := by
    apply (tick_ensures hc trace k).imp
    intro r k' t h
    obtain ⟨he, ⟨hn, hr⟩ | ⟨s, hs, s?, o?, hroot, hr⟩⟩ := h
    · rw [hr]
      exact ⟨hc, rfl, he⟩
    · rw [hr]
      refine ⟨?_, rfl, he⟩
      intro s' hs'
      obtain rfl : s? = some s' := hs'
      exact (hroot.started (hc s hs)).1

end SingleChain

/-! ## Plain chains and lanes -/

namespace PlainChain

variable {κ τ : Type} [Task κ τ]

instance : OrderlyChain κ τ (PlainChain κ τ) where
  spine?_mapSpine _ _ := rfl
  name_mapSpine _ _ := rfl
  tick_ensures c trace k hc := by
    show (c.tick trace).Ensures k _
    rw [tick]
    split
    · exact Act.meets_pure ⟨hc, rfl, rfl⟩
    · next s h =>
      apply (Spine.tick_ensures (hc s h) trace k).bind
      intro r k' t ht
      refine Act.meets_pure ⟨?_, rfl, by simpa using ht.2.2⟩
      intro s' hs'
      cases hs'
      exact ht.1

end PlainChain

namespace Lane

variable {κ τ : Type} [Task κ τ]

instance : OrderlyChain κ τ (Lane κ τ) where
  spine?_mapSpine l f := by cases l <;> rfl
  name_mapSpine l f := by cases l <;> rfl
  tick_ensures l trace k hl := by
    show (l.tick trace).Ensures k _
    cases l with
    | single c =>
        apply (OrderlyChain.tick_ensures c trace k hl).bind
        intro r k' t h
        exact Act.meets_pure ⟨h.1, h.2.1, by simpa using h.2.2⟩
    | plain c =>
        apply (OrderlyChain.tick_ensures c trace k hl).bind
        intro r k' t h
        exact Act.meets_pure ⟨h.1, h.2.1, by simpa using h.2.2⟩

end Lane

end Arbiter
