import Arbiter.Runner.Basic
import Arbiter.Proofs.Chain.Sound

/-! Exclusive control. Only the chain in control can be active, and control moves by one event,
after the teardown of the chain that held it and before the first hook of the next. -/

namespace Arbiter

variable {κ τ χ : Type} [Chain κ τ χ]

/-! ## Selection -/

theorem selectFrom_lt {k : κ} {chains : List χ} {index : Nat}
    {best result : Option (Nat × Number.Binary32)}
    (h : selectFrom k chains index best = .ok result) (hb : ∀ b ∈ best, b.1 < index) :
    ∀ b ∈ result, b.1 < index + chains.length := by
  induction chains generalizing index best with
  | nil =>
      cases h
      simpa using hb
  | cons c rest ih =>
      rw [selectFrom] at h
      cases hc : claim? c k with
      | error e => rw [hc] at h; cases h
      | ok claim =>
          rw [hc] at h
          have hbetter : ∀ b ∈ better best index claim, b.1 < index + 1 := by
            intro b hm
            unfold better at hm
            split at hm
            · exact Nat.lt_succ_of_lt (hb b hm)
            · cases hm
              exact Nat.lt_succ_self _
            · split at hm
              · cases hm
                exact Nat.lt_succ_self _
              · exact Nat.lt_succ_of_lt (hb b hm)
          intro b hm
          have := ih h hbetter b hm
          simp only [List.length_cons]
          omega

theorem select_lt {chains : List χ} {k : κ} {i : Nat} (h : select chains k = .ok (some i)) :
    i < chains.length := by
  rw [select] at h
  cases hs : selectFrom k chains 0 none with
  | error e => rw [hs] at h; cases h
  | ok best =>
      rw [hs] at h
      have hi : best.map Prod.fst = some i := Except.ok.inj h
      obtain ⟨b, hb, rfl⟩ := Option.map_eq_some_iff.mp hi
      have := selectFrom_lt hs (by simp) b hb
      omega

namespace Runner

def heldNodes (r : Runner χ) : List (Node τ) :=
  match r.currentChain with
  | none => []
  | some c => Chain.nodes c

/-- The spines are sound, an active chain is in control, and so is nobody while the runner is
disabled. -/
structure Orderly (r : Runner χ) : Prop where
  sound : ∀ c ∈ r.chains, Chain.Sound c
  holder : ∀ i c, r.chains[i]? = some c → Chain.isActive c = true → r.current = some i
  present : ∀ i, r.current = some i → i < r.chains.length
  halted : r.enabled = false → r.current = none

theorem orderly_withSink (sink : Sink) : (withSink sink : Runner χ).Orderly :=
  ⟨by simp [withSink], by simp [withSink], by simp [withSink], by simp [withSink]⟩

/-! ## Events -/

omit [Chain κ τ χ] in
theorem emit_meets {F : Fault → Prop} (r : Runner χ) (e : SinkEvent) (k : κ) :
    (r.emit e : Act κ (Happening τ) (Runner χ)).Meets k F fun r' k' t =>
      r' = { r with sink := r'.sink } ∧ k' = k ∧
        ∃ notes, t = .reported e :: notes ∧ hooks notes = [] ∧ events notes = [] := by
  rw [emit]
  apply Act.Meets.bind (Act.meets_tell (Q := fun _ k' t => k' = k ∧ t = [.reported e])
    ⟨rfl, rfl⟩)
  intro _ k' t h
  obtain ⟨hk, rfl⟩ := h
  apply Act.Meets.bind (Act.meets_tellAll (Q := fun _ k'' t => k'' = k' ∧ hooks t = [] ∧
    events t = []) ⟨rfl, by simp, by simp⟩)
  intro _ k'' t h
  exact Act.meets_pure ⟨rfl, h.1.trans hk, t, by simp, h.2⟩

omit [Chain κ τ χ] in
theorem emitAll_meets {F : Fault → Prop} (r : Runner χ) (es : List SinkEvent) (k : κ) :
    (r.emitAll es : Act κ (Happening τ) (Runner χ)).Meets k F fun r' k' t =>
      r' = { r with sink := r'.sink } ∧ k' = k ∧ hooks t = [] ∧ events t = es := by
  induction es generalizing r k with
  | nil => exact Act.meets_pure ⟨rfl, rfl, rfl, rfl⟩
  | cons e es ih =>
      rw [emitAll]
      apply (emit_meets r e k).bind
      intro r₁ k₁ t h
      obtain ⟨hr, hk, notes, rfl, hh, he⟩ := h
      apply (ih r₁ k₁).imp
      intro r₂ k₂ u h
      obtain ⟨hr', hk', hh', he'⟩ := h
      refine ⟨?_, hk'.trans hk, by simp [hh, hh'], by simp [he, he']⟩
      rw [hr', hr]

/-! ## Hand-over -/

variable [Task κ τ] [OrderlyChain κ τ χ]

/-- What a hand-over does: it stops the started nodes of the holder from the root down, tells of the
change, and leaves every chain inactive and all others than the holder as they are. -/
structure HandOver (r r' : Runner χ) (selected : Option Nat) (trail : List (Happening τ)) :
    Prop where
  trail_eq : ∃ before after, trail = before ++
      .reported (.chainChanged r.currentName (r.nameAt selected)) :: after ∧
    hooks before = Spine.stops none r.heldNodes ∧ events before = [] ∧
    hooks after = [] ∧ events after = []
  current : r'.current = selected
  enabled : r'.enabled = r.enabled
  length : r'.chains.length = r.chains.length
  others : ∀ j, r.current ≠ some j → r'.chains[j]? = r.chains[j]?
  resting : ∀ c ∈ r'.chains, Chain.Resting c

omit [Task κ τ] [OrderlyChain κ τ χ] in
/-- Every chain but the one in control rests. -/
theorem Orderly.resting {r : Runner χ} (hr : r.Orderly) {j : Nat} {c : χ}
    (hc : r.chains[j]? = some c) (hj : r.current ≠ some j) : Chain.Resting c := by
  apply (hr.sound c (List.mem_of_getElem? hc)).resting
  cases ha : Chain.isActive c with
  | false => rfl
  | true => exact absurd (hr.holder j c hc ha) hj

/-- Of the runner only the holder changes, and no chain is active afterwards. -/
theorem interruptHolder_ensures {r : Runner χ} (hr : r.Orderly) (next : Option String) (k : κ) :
    (r.interruptHolder next).Ensures k fun r' _ t =>
      r' = { r with chains := r'.chains } ∧ r'.chains.length = r.chains.length ∧
        (∀ j, r.current ≠ some j → r'.chains[j]? = r.chains[j]?) ∧
        (∀ c ∈ r'.chains, Chain.Resting c) ∧
        hooks t = Spine.stops none r.heldNodes ∧ events t = [] := by
  have hrest : (∀ i c, r.current = some i → r.chains[i]? ≠ some c) →
      ∀ c ∈ r.chains, Chain.Resting c := by
    intro h c hc
    obtain ⟨j, hj⟩ := List.mem_iff_getElem?.mp hc
    exact hr.resting hj fun hcur => h j c hcur hj
  rw [interruptHolder]
  split
  case h_1 hcur =>
    refine Act.meets_pure ⟨rfl, rfl, fun _ _ => rfl, hrest (by simp [hcur]), ?_, rfl⟩
    simp [heldNodes, currentChain, hcur, Spine.stops]
  case h_2 i hcur =>
    split
    case h_1 hc =>
      refine Act.meets_pure ⟨rfl, rfl, fun _ _ => rfl, hrest ?_, ?_, rfl⟩
      · intro j b hj hb
        rw [hcur] at hj
        cases hj
        simp [hc] at hb
      · simp [heldNodes, currentChain, hcur, hc, Spine.stops]
    case h_2 c hc =>
      apply (Chain.interrupt_ensures (hr.sound c (List.mem_of_getElem? hc)) next k).bind
      intro c' k' t h
      obtain ⟨⟨hc', -⟩, hh, he⟩ := h
      refine Act.meets_pure ⟨rfl, by simp [setChain], ?_, ?_, ?_, by simpa using he⟩
      · intro j hj
        rw [setChain, List.getElem?_set_ne (by simpa [hcur] using hj)]
      · intro b hb
        obtain ⟨j, hj⟩ := List.mem_iff_getElem?.mp hb
        by_cases hij : i = j
        · subst hij
          rw [setChain, List.getElem?_set_self (hr.present i hcur)] at hj
          cases hj
          exact hc'
        · rw [setChain, List.getElem?_set_ne hij] at hj
          exact hr.resting hj (by simpa [hcur] using hij)
      · simp [hh, heldNodes, currentChain, hcur, hc]

theorem handOver_ensures {r : Runner χ} (hr : r.Orderly) (selected : Option Nat) (k : κ) :
    (r.handOver selected).Ensures k fun r' _ t => HandOver r r' selected t := by
  rw [handOver]
  apply (interruptHolder_ensures hr _ k).bind
  intro r₁ k₁ before h
  obtain ⟨hr₁, hlen, hothers, hrest, hh, he⟩ := h
  apply (emit_meets r₁ _ k₁).bind
  intro r₂ k₂ t h
  obtain ⟨hr₂, -, notes, rfl, hh', he'⟩ := h
  have hchains : r₂.chains = r₁.chains := by rw [hr₂]
  refine Act.meets_pure ⟨⟨before, notes, by simp, hh, he, hh', he'⟩, rfl, ?_, ?_, ?_, ?_⟩
  · show r₂.enabled = r.enabled
    rw [hr₂, hr₁]
  · simpa only [hchains] using hlen
  · simpa only [hchains] using hothers
  · simpa only [hchains] using hrest

omit [Task κ τ] [OrderlyChain κ τ χ] in
theorem HandOver.orderly {r r' : Runner χ} {selected : Option Nat} {t : List (Happening τ)}
    (h : HandOver r r' selected t) (hs : ∀ i, selected = some i → i < r.chains.length)
    (he : r.enabled = false → selected = none) : r'.Orderly := by
  refine ⟨fun c hc => (h.resting c hc).sound, ?_, ?_, ?_⟩
  · intro i c hc ha
    simp [(h.resting c (List.mem_of_getElem? hc)).inactive] at ha
  · intro i hi
    rw [h.length]
    exact hs i (h.current ▸ hi)
  · intro hd
    rw [h.current]
    exact he (h.enabled ▸ hd)

/-! ## Ticks -/

omit [Task κ τ] [OrderlyChain κ τ χ] in
theorem Orderly.setChain {r : Runner χ} (hr : r.Orderly) {i : Nat} {c : χ}
    (hi : r.current = some i) (hc : Chain.Sound c) : (r.setChain i c).Orderly := by
  refine ⟨?_, ?_, ?_, hr.halted⟩
  · intro b hb
    rcases List.mem_or_eq_of_mem_set hb with hb | rfl
    · exact hr.sound b hb
    · exact hc
  · intro j b hb ha
    by_cases hj : i = j
    · subst hj
      exact hi
    · rw [Runner.setChain, List.getElem?_set_ne hj] at hb
      exact hr.holder j b hb ha
  · intro j hj
    simpa [Runner.setChain] using hr.present j hj

theorem tickChain_ensures {r : Runner χ} (hr : r.Orderly) (k : κ) :
    (r.tickChain r.current).Ensures k fun r' _ t =>
      r'.Orderly ∧ r'.current = r.current ∧ r'.enabled = r.enabled ∧
        r'.chains.length = r.chains.length ∧
        (∀ j, r.current ≠ some j → r'.chains[j]? = r.chains[j]?) ∧ events t = [] := by
  unfold tickChain
  split
  case h_1 hcur =>
    exact Act.meets_pure ⟨⟨hr.sound, hr.holder, hr.present, hr.halted⟩, rfl, rfl, rfl,
      fun _ _ => rfl, rfl⟩
  case h_2 i hcur =>
    split
    case h_1 =>
      exact Act.meets_pure ⟨⟨hr.sound, hr.holder, hr.present, hr.halted⟩, rfl, rfl, rfl,
        fun _ _ => rfl, rfl⟩
    case h_2 c hc =>
      apply (OrderlyChain.tick_ensures c {} k (hr.sound c (List.mem_of_getElem? hc))).bind
      intro p k' t h
      obtain ⟨c', trace⟩ := p
      obtain ⟨hc', -, he⟩ := h
      have hset := hr.setChain hcur hc'
      refine Act.meets_pure ⟨⟨hset.sound, hset.holder, hset.present, hset.halted⟩, rfl, rfl,
        by simp [Runner.setChain], ?_, by simpa using he⟩
      intro j hj
      exact List.getElem?_set_ne (by simpa [hcur] using hj)

/-- A tick of an enabled runner: the selection, the grant of control, the tick of the selected chain
and the reports, in this order. -/
structure Ticked (r r' : Runner χ) (k k' : κ) (trail : List (Happening τ)) (selected : Option Nat)
    (granted : Done κ (Happening τ) (Runner χ)) (ticked : Done κ (Happening τ) (Runner χ))
    (reports : List (Happening τ)) : Prop where
  select : select r.chains k = .ok selected
  grant : r.grant selected k = .ok granted
  tick : granted.value.tickChain selected granted.context = .ok ticked
  value : r' = { ticked.value with sink := r'.sink }
  context : k' = ticked.context
  trail_eq : trail = granted.trail ++ (ticked.trail ++ reports)
  hooks : hooks reports = []
  events : events reports = ticked.value.trace.changes.map .stateChanged ++
    [.tickFinished ticked.value.report]

omit [OrderlyChain κ τ χ] in
theorem tick_ensures {r : Runner χ} (he : r.enabled = true) (k : κ) :
    r.tick.Ensures k fun r' k' t =>
      ∃ selected granted ticked reports, Ticked r r' k k' t selected granted ticked reports := by
  rw [tick]
  rw [if_pos he]
  refine Act.Meets.get_bind (Act.Meets.ofExcept_bind (fun _ _ => trivial) ?_)
  intro selected hsel
  apply (Act.ensures_run _ k).bind
  intro r₁ k₁ t₁ h₁
  apply (Act.ensures_run _ k₁).bind
  intro r₂ k₂ t₂ h₂
  apply (emitAll_meets r₂ _ k₂).bind
  intro r₃ k₃ t₃ h
  obtain ⟨hr₃, hk₃, hh₃, he₃⟩ := h
  apply (emit_meets r₃ _ k₃).imp
  intro r₄ k₄ t₄ h
  obtain ⟨hr₄, hk₄, notes, ht₄, hh₄, he₄⟩ := h
  refine ⟨selected, ⟨r₁, k₁, t₁⟩, ⟨r₂, k₂, t₂⟩, t₃ ++ t₄, hsel, h₁, h₂, ?_, hk₄.trans hk₃, rfl,
    ?_, ?_⟩
  · rw [hr₄, hr₃]
  · simp [ht₄, hh₃, hh₄]
  · rw [ht₄, events_append, events_reported, he₃, he₄, hr₃]
    rfl

theorem grant_ensures {r : Runner χ} (hr : r.Orderly) (selected : Option Nat) (k : κ) :
    (r.grant selected).Ensures k fun r' k' t =>
      selected = r.current ∧ r' = r ∧ k' = k ∧ t = [] ∨
        selected ≠ r.current ∧ HandOver r r' selected t := by
  rw [grant]
  split
  case isTrue h => exact Act.meets_pure (Or.inl ⟨h, rfl, rfl, rfl⟩)
  case isFalse h => exact (handOver_ensures hr selected k).imp fun _ _ _ ht => Or.inr ⟨h, ht⟩

/-- A grant to the selected chain keeps an enabled runner orderly. -/
theorem grant_orderly {r : Runner χ} (hr : r.Orderly) (he : r.enabled = true)
    {selected : Option Nat} {k : κ} (hs : select r.chains k = .ok selected) :
    (r.grant selected).Ensures k fun r' _ _ => r'.Orderly ∧ r'.current = selected := by
  apply (grant_ensures hr selected k).imp
  intro r' k' t h
  rcases h with ⟨hcur, hr', -⟩ | ⟨-, h⟩
  · rw [hr']
    exact ⟨hr, hcur.symm⟩
  · refine ⟨h.orderly ?_ (by simp [he]), h.current⟩
    intro i hi
    exact select_lt (hi ▸ hs)

end Runner

end Arbiter
