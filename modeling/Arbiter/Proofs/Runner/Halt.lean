import Arbiter.Proofs.Runner.Control
import Arbiter.Proofs.Spine.Halt

/-! Hand-overs and halts of a runner, whatever its chains hold. Of a chain they change nothing but
the spine, and a runner that was halted stays as it is when it is halted again. -/

namespace Arbiter

/-! ## Single chains -/

namespace SingleChain

variable {κ τ : Type} [Task κ τ] {F : Fault → Prop} {k : κ}

theorem run_quiet (hF : Releases τ F) (c : SingleChain κ τ) (t : τ) :
    (c.run t).Keeps k F Happening.Quiet fun p _ => p.2.name = c.name := by
  rw [run]
  split
  · exact Act.keeps_pure rfl
  · have hvacate : (c.vacate (some t)).Keeps k F Happening.Quiet fun _ _ => True := by
      rw [vacate]
      split
      · exact Act.keeps_pure trivial
      · next s _ => exact Spine.stopAndDrop_quiet hF (some t) s.nodes
    exact hvacate.bind fun _ _ _ => Act.Keeps.tell_bind rfl (Act.keeps_pure rfl)

/-- A cancellation leaves no root. -/
theorem cancel_quiet (hF : Releases τ F) (c : SingleChain κ τ) :
    c.cancel.Keeps k F Happening.Quiet fun p _ =>
      c.spine = none ∧ p = (false, c) ∨
        p = (true, { c with spine := none, outcome := some .cancelled }) := by
  rw [cancel]
  split
  · next h => exact Act.keeps_pure (Or.inl ⟨h, rfl⟩)
  · next s _ =>
    refine (Spine.stop_quiet hF none s).bind fun s' _ _ => Act.Keeps.tell_bind rfl ?_
    exact (Spine.dropAll_quiet s'.nodes).bind fun _ _ _ => Act.keeps_pure (Or.inr rfl)

theorem finish_quiet (c : SingleChain κ τ) (s : Spine τ) (outcome : Outcome) :
    (c.finish s outcome).Keeps k F Happening.Quiet fun c' _ =>
      c'.name = c.name ∧ c'.spine = none := by
  rw [finish]
  refine Act.Keeps.tell_bind rfl ?_
  exact (Spine.dropAll_quiet s.nodes).bind fun _ _ _ => Act.keeps_pure ⟨rfl, rfl⟩

end SingleChain

/-! ## Chains that are stopped -/

variable {κ τ χ : Type} [Chain κ τ χ] {F : Fault → Prop} {k : κ}

/-- The spine of a chain and the rest of it do not depend on each other. -/
class SteadyChain (κ τ : outParam Type) (χ : Type) [Chain κ τ χ] : Prop where
  spine?_mapSpine : ∀ (c : χ) (f : Spine τ → Spine τ),
    Chain.spine? (Chain.mapSpine c f) = (Chain.spine? c).map f
  name_mapSpine : ∀ (c : χ) (f : Spine τ → Spine τ), Chain.name (Chain.mapSpine c f) = Chain.name c
  mapSpine_self : ∀ (c : χ) (s : Spine τ), Chain.spine? c = some s →
    Chain.mapSpine c (fun _ => s) = c

instance {κ τ : Type} [Task κ τ] : SteadyChain κ τ (SingleChain κ τ) where
  spine?_mapSpine _ _ := rfl
  name_mapSpine _ _ := rfl
  mapSpine_self c s hs := by
    have hs : c.spine = some s := hs
    show { c with spine := c.spine.map fun _ => s } = c
    rw [hs, Option.map_some, ← hs]

instance {κ τ : Type} [Task κ τ] : SteadyChain κ τ (PlainChain κ τ) where
  spine?_mapSpine _ _ := rfl
  name_mapSpine _ _ := rfl
  mapSpine_self c s hs := by
    have hs : c.spine = some s := hs
    show { c with spine := c.spine.map fun _ => s } = c
    rw [hs, Option.map_some, ← hs]

namespace Chain

/-- What is seen of a chain does not depend on its spine. -/
def Rigid {β : Type} (v : χ → β) : Prop :=
  ∀ (c : χ) (f : Spine τ → Spine τ), v (mapSpine c f) = v c

omit [Chain κ τ χ] in
/-- A chain that is replaced by one that looks the same. -/
theorem map_set_of_eq {β : Type} {v : χ → β} {cs : List χ} {i : Nat} {c c' : χ}
    (hc : cs[i]? = some c) (h : v c' = v c) : (cs.set i c').map v = cs.map v := by
  obtain ⟨hi, rfl⟩ := List.getElem?_eq_some_iff.mp hc
  rw [List.map_set, h, ← List.getElem_map v (h := by simpa using hi), List.set_getElem_self]

/-- Chains that became other chains by stops: at most their spines changed, and none became
active. -/
structure Calmed (cs cs' : List χ) : Prop where
  view : ∀ {β : Type} {v : χ → β}, Rigid v → cs'.map v = cs.map v
  calm : (∀ c ∈ cs, isActive c = false) → ∀ c ∈ cs', isActive c = false

namespace Calmed

variable {cs cs' cs'' : List χ}

theorem refl (cs : List χ) : Calmed cs cs := ⟨fun _ => rfl, id⟩

theorem trans (h : Calmed cs cs') (h' : Calmed cs' cs'') : Calmed cs cs'' :=
  ⟨fun hv => (h'.view hv).trans (h.view hv), fun ha => h'.calm (h.calm ha)⟩

theorem set {i : Nat} {c c' : χ} (hc : cs[i]? = some c)
    (hview : ∀ {β : Type} {v : χ → β}, Rigid v → v c' = v c) (ha : isActive c' = false) :
    Calmed cs (cs.set i c') := by
  refine ⟨fun hv => map_set_of_eq hc (hview hv), fun hcs b hb => ?_⟩
  rcases List.mem_or_eq_of_mem_set hb with hb | rfl
  · exact hcs b hb
  · exact ha

theorem names [SteadyChain κ τ χ] (h : Calmed cs cs') :
    cs'.map Chain.name = cs.map Chain.name := h.view SteadyChain.name_mapSpine

end Calmed

variable [Task κ τ] [SteadyChain κ τ χ]

theorem stop_quiet (hF : Releases τ F) (c : χ) :
    (stop c).Keeps k F Happening.Quiet fun c' _ =>
      (∀ {β : Type} {v : χ → β}, Rigid v → v c' = v c) ∧ isActive c' = false := by
  unfold stop onSpine
  split
  · next h => exact Act.keeps_pure ⟨fun _ => rfl, by simp [isActive, h]⟩
  · next s h =>
    refine (Spine.stop_quiet hF none s).bind fun s' _ hs' => Act.keeps_pure ⟨fun hv => hv c _, ?_⟩
    simpa [isActive, SteadyChain.spine?_mapSpine, h] using hs'

omit [SteadyChain κ τ χ] in
theorem stop_of_none {c : χ} (h : spine? c = none) : stop c = pure c := by
  simp [stop, onSpine, h]

theorem stop_of_inactive {c : χ} (h : isActive c = false) : stop c = pure c := by
  cases hs : spine? c with
  | none => exact stop_of_none hs
  | some s =>
      have ha : s.root.active = false := by simpa [isActive, hs] using h
      simp only [stop, onSpine, hs, Spine.stop_of_inactive ha, pure_bind,
        SteadyChain.mapSpine_self c s hs]

theorem interrupt_quiet (hF : Releases τ F) (c : χ) (next : Option String) :
    (interrupt c next).Keeps k F Happening.Quiet fun c' _ =>
      (∀ {β : Type} {v : χ → β}, Rigid v → v c' = v c) ∧ isActive c' = false :=
  Act.Keeps.tell_bind rfl (stop_quiet hF c)

end Chain

/-! ## Control -/

namespace Runner

open Chain

variable {r r' r'' : Runner χ}

theorem nameAt_eq (r : Runner χ) (place : Option Nat) :
    r.nameAt place = place.bind fun i => (r.chains.map Chain.name)[i]? := by
  cases place <;> simp [nameAt]

theorem currentName_eq (h : r'.chains.map Chain.name = r.chains.map Chain.name)
    (hcur : r'.current = r.current) : r'.currentName = r.currentName := by
  show r'.nameAt r'.current = r.nameAt r.current
  rw [nameAt_eq, nameAt_eq, h, hcur]

/-- The event of a change of control. -/
def switch (r r' : Runner χ) : List SinkEvent :=
  if r'.current = r.current then [] else [.chainChanged r.currentName r'.currentName]

theorem switch_self (hcur : r'.current = r.current) : r.switch r' = [] := if_pos hcur

theorem switch_congr (h : r''.chains.map Chain.name = r'.chains.map Chain.name)
    (hcur : r''.current = r'.current) : r.switch r'' = r.switch r' := by
  rw [switch, switch, currentName_eq h hcur, hcur]

theorem switch_of_eq (h : r'.chains.map Chain.name = r.chains.map Chain.name)
    (hcur : r'.current = r.current) : r'.switch r'' = r.switch r'' := by
  rw [switch, switch, currentName_eq h hcur, hcur]

/-- Control went to the selected chain, with the event of that. -/
structure Granted (r r' : Runner χ) (selected : Option Nat) (trail : List (Happening τ)) :
    Prop where
  chains : Calmed r.chains r'.chains
  current : r'.current = selected
  enabled : r'.enabled = r.enabled
  trace : r'.trace = r.trace
  events : events trail = r.switch r'

variable [Task κ τ] [SteadyChain κ τ χ]

theorem interruptHolder_quiet (hF : Releases τ F) (r : Runner χ) (next : Option String) :
    (r.interruptHolder next).Keeps k F Happening.Quiet fun r' _ =>
      r' = { r with chains := r'.chains } ∧ Calmed r.chains r'.chains := by
  rw [interruptHolder]
  split
  · exact Act.keeps_pure ⟨rfl, .refl _⟩
  · next i hcur =>
    split
    · exact Act.keeps_pure ⟨rfl, .refl _⟩
    · next c hc =>
      refine (interrupt_quiet hF c next).bind ?_
      rintro c' _ ⟨hview, ha⟩
      exact Act.keeps_pure ⟨rfl, .set hc hview ha⟩

theorem handOver_granted (hF : Releases τ F) {selected : Option Nat}
    (hne : selected ≠ r.current) :
    (r.handOver selected).Meets k F fun r' _ t => Granted r r' selected t := by
  rw [handOver]
  refine Act.Meets.bind (interruptHolder_quiet hF r _) ?_
  rintro r₁ k₁ before ⟨hquiet, hr₁, hcalmed⟩
  refine (emit_meets r₁ _ k₁).bind ?_
  rintro r₂ k₂ t ⟨hr₂, -, notes, rfl, -, hnotes⟩
  have hchains : r₂.chains = r₁.chains := by rw [hr₂]
  have hname : ({ r₂ with current := selected } : Runner χ).currentName = r.nameAt selected := by
    show nameAt _ selected = _
    rw [nameAt_eq, nameAt_eq]
    simp only [hchains, hcalmed.names]
  refine Act.meets_pure ⟨hchains ▸ hcalmed, rfl, ?_, ?_, ?_⟩
  · show r₂.enabled = r.enabled
    rw [hr₂, hr₁]
  · show r₂.trace = r.trace
    rw [hr₂, hr₁]
  · rw [switch, if_neg hne, hname]
    simp [events_of_quiet hquiet, hnotes]

theorem grant_granted (hF : Releases τ F) (r : Runner χ) (selected : Option Nat) :
    (r.grant selected).Meets k F fun r' _ t => Granted r r' selected t := by
  rw [grant]
  split
  · next h => exact Act.meets_pure ⟨.refl _, h.symm, rfl, rfl, (switch_self rfl).symm⟩
  · next h => exact handOver_granted hF h

theorem release_granted (hF : Releases τ F) (r : Runner χ) :
    r.release.Meets k F fun r' _ t => Granted r r' none t := by
  rw [release]
  split
  · next h => exact handOver_granted hF fun hcur => by simp [← hcur] at h
  · next h =>
    have hcur : r.current = none := by simpa using h
    exact Act.meets_pure ⟨.refl _, hcur, rfl, rfl, (switch_self rfl).symm⟩

/-! ## Halts -/

theorem stopAll_quiet (hF : Releases τ F) (cs : List χ) :
    (stopAll cs).Keeps k F Happening.Quiet fun cs' _ =>
      Calmed cs cs' ∧ ∀ c ∈ cs', isActive c = false := by
  induction cs generalizing k with
  | nil => exact Act.keeps_pure ⟨.refl _, by simp⟩
  | cons c cs ih =>
      rw [stopAll]
      refine (stop_quiet hF c).bind ?_
      rintro c' _ ⟨hview, ha⟩
      refine ih.bind ?_
      rintro cs' _ ⟨hcalmed, hcs'⟩
      have hall : ∀ b ∈ c' :: cs', isActive b = false := by
        intro b hb
        rcases List.mem_cons.mp hb with rfl | hb
        · exact ha
        · exact hcs' b hb
      refine Act.keeps_pure ⟨⟨fun hv => ?_, fun _ => hall⟩, hall⟩
      rw [List.map_cons, List.map_cons, hview hv, hcalmed.view hv]

/-- Nobody is active or in control, ticks do nothing, and nothing is reported. -/
structure Halted (r : Runner χ) : Prop where
  inactive : ∀ c ∈ r.chains, isActive c = false
  current : r.current = none
  disabled : r.enabled = false
  trace : r.trace = {}

theorem disable_halts (hF : Releases τ F) (r : Runner χ) :
    r.disable.Meets k F fun r' _ t =>
      r'.Halted ∧ Calmed r.chains r'.chains ∧ events t = r.switch r' := by
  rw [disable]
  refine Act.Meets.bind (stopAll_quiet hF r.chains) ?_
  rintro cs k₁ t₁ ⟨hquiet, hcalmed, hcs⟩
  refine (release_granted hF { r with chains := cs }).bind ?_
  intro r₂ k₂ t₂ h
  have hnames : ({ r with chains := cs } : Runner χ).chains.map Chain.name =
      r.chains.map Chain.name := hcalmed.names
  have hswitch : r.switch { r₂ with enabled := false, trace := {} } = events t₂ := by
    rw [h.events, switch_of_eq hnames rfl]
    exact switch_congr rfl rfl
  have hhalted : ({ r₂ with enabled := false, trace := {} } : Runner χ).Halted :=
    ⟨h.chains.calm hcs, h.current, rfl, rfl⟩
  split
  · exact Act.Meets.note_bind (Act.meets_pure ⟨hhalted, hcalmed.trans h.chains,
      by simp [hswitch, events_of_quiet hquiet]⟩)
  · exact Act.meets_pure ⟨hhalted, hcalmed.trans h.chains,
      by simp [hswitch, events_of_quiet hquiet]⟩

/-- Without a chain in control nothing happens; else control is taken away from it. -/
theorem stopCurrent_meets (hF : Releases τ F) (r : Runner χ) :
    r.stopCurrent.Meets k F fun r' _ t =>
      r.currentChain = none ∧ r' = r ∧ t = [] ∨
        r'.current = none ∧ r'.trace = {} ∧ r'.enabled = r.enabled ∧
          Calmed r.chains r'.chains ∧ events t = r.switch r' := by
  rw [stopCurrent]
  split
  · next hcur => exact Act.meets_pure (Or.inl ⟨by simp [currentChain, hcur], rfl, rfl⟩)
  · next i hcur =>
    split
    · next hc => exact Act.meets_pure (Or.inl ⟨by simp [currentChain, hcur, hc], rfl, rfl⟩)
    · next c hc =>
      refine Act.Meets.bind (stop_quiet hF c) ?_
      rintro c' k₁ t₁ ⟨hquiet, hview, ha⟩
      have hcalmed : Calmed r.chains (r.setChain i c').chains := .set hc hview ha
      have hne : none ≠ (r.setChain i c').current := by simp [setChain, hcur]
      refine (handOver_granted hF hne).bind ?_
      intro r₂ k₂ t₂ h
      refine Act.meets_pure (Or.inr ⟨h.current, rfl, h.enabled, hcalmed.trans h.chains, ?_⟩)
      rw [events_append, events_of_quiet hquiet, List.nil_append, List.append_nil, h.events,
        switch_of_eq hcalmed.names rfl]
      exact (switch_congr rfl rfl).symm

namespace Halted

omit [SteadyChain κ τ χ] in
theorem tick (h : r.Halted) : r.tick = pure r := by
  rw [Runner.tick, if_neg (by simp [h.disabled])]

omit [SteadyChain κ τ χ] in
theorem stopCurrent (h : r.Halted) : r.stopCurrent = pure r := by
  rw [Runner.stopCurrent, h.current]

theorem stopAll {cs : List χ} (h : ∀ c ∈ cs, isActive c = false) :
    Runner.stopAll cs = pure cs := by
  induction cs with
  | nil => rfl
  | cons c cs ih =>
      rw [Runner.stopAll, stop_of_inactive (h c List.mem_cons_self),
        ih fun b hb => h b (List.mem_cons_of_mem c hb)]
      rfl

theorem disable (h : r.Halted) : r.disable = pure r := by
  have hsame : { r with enabled := false, trace := {} } = r := by
    rw [← h.disabled, ← h.trace]
  rw [Runner.disable, stopAll h.inactive, pure_bind, release, if_neg (by simp [h.current]),
    pure_bind, if_neg (by simp [h.disabled]), hsame]

end Halted

end Runner

end Arbiter
