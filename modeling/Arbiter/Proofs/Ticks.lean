import Arbiter.Proofs.Runner.Control

/-! Rules for ticks. What a tick of a spine, a chain or the runner meets follows from what its parts
meet, faults included. -/

namespace Arbiter

variable {κ τ χ : Type} {k : κ} {F : Fault → Prop}

/-! ## Spines -/

namespace Spine

variable [Task κ τ]

/-- There is room for a root and two levels below it. -/
theorem exists_depth (s : Spine τ) (trace : Trace) :
    ∃ depth, s.tick trace = tickWithin (depth + 3) s trace := by
  refine ⟨depthLimit - 3, ?_⟩
  rw [tick, Nat.sub_add_cancel (by decide)]

/-- What is met wherever there is room for a root and two levels below it. -/
theorem tick_within {s : Spine τ} {trace : Trace}
    {Q : Spine τ × Trace → κ → List (Happening τ) → Prop}
    (h : ∀ depth, (tickWithin (depth + 3) s trace).Meets k F Q) : (s.tick trace).Meets k F Q := by
  obtain ⟨depth, htick⟩ := exists_depth s trace
  rw [htick]
  exact h depth

/-- A tick: the root is made ready and takes its turn. If it fails it is stopped with what is held
below it. If not, what is held below is settled, and if anything is held that is ticked in turn. -/
theorem tickWithin_turn {depth : Nat} {s : Spine τ} {trace : Trace} {R : Spine τ → κ → Prop}
    (h : s.ready.Meets k F fun s₁ k₁ _ =>
      s₁.root.stopped = false ∧
        (Task.onTick s₁.root.task s₁.root.control).Meets k₁ F fun turn k₂ _ =>
          (∀ reason, turn.reply.failure = some reason →
            (({ s₁ with root := turned s₁.root turn } : Spine τ).fail reason).Meets k₂ F
              fun s' k₃ _ => R s' k₃) ∧
          (turn.reply.failure = none →
            ∀ n, n = { turned s₁.root turn with reportedState := n.reportedState } →
              (settle n s₁.below turn.candidate).Meets k₂ F fun below k₃ _ =>
                (below = [] → R { root := n } k₃) ∧
                  ∀ m rest, below = m :: rest → ∀ trace,
                    (tickWithin depth { root := m, below := rest } trace).Meets k₃ F
                      fun r k₄ _ => (rejoin n r.1).Meets k₄ F fun s k₅ _ => R s k₅)) :
    (tickWithin (depth + 1) s trace).Meets k F fun r k' _ => R r.1 k' := by
  rw [tickWithin]
  apply h.bind
  intro s₁ k₁ t₁ h₁
  obtain ⟨hstopped, hturn⟩ := h₁
  simp only [hstopped, Bool.false_eq_true, if_false]
  apply (Act.Meets.called hturn).bind
  intro turn k₂ t₂ h₂
  obtain ⟨hfails, hsettle⟩ := h₂
  cases hreason : turn.reply.failure with
  | some reason =>
      simp only
      apply (hfails reason hreason).bind
      intro s' k₃ t₃ hR
      exact Act.meets_pure hR
  | none =>
      simp only
      apply (reportState_meets _ _ k₂).bind
      intro r k₃ t₃ h₃
      obtain ⟨n, trace'⟩ := r
      obtain ⟨⟨state, hn⟩, hk, -⟩ := h₃
      have hn' : n = { turned s₁.root turn with reportedState := n.reportedState } := by
        rw [show n = _ from hn]
      subst hk
      apply (hsettle hreason n hn').bind
      intro below k₄ t₄ h₄
      obtain ⟨hnil, hcons⟩ := h₄
      cases below with
      | nil => exact Act.meets_pure (hnil rfl)
      | cons m rest =>
          apply (hcons m rest rfl _).bind
          intro r k₅ t₅ h₅
          apply Act.Meets.bind h₅
          intro s' k₆ t₆ h₆
          exact Act.meets_pure h₆

theorem tickWithin_meets {depth : Nat} {s : Spine τ} {trace : Trace} {R : Spine τ → κ → Prop}
    (h : s.ready.Meets k F fun s₁ k₁ _ =>
      s₁.root.stopped = false ∧
        (Task.onTick s₁.root.task s₁.root.control).Meets k₁ F fun turn k₂ _ =>
          turn.reply.failure = none ∧
            ∀ n, n = { turned s₁.root turn with reportedState := n.reportedState } →
              (settle n s₁.below turn.candidate).Meets k₂ F fun below k₃ _ =>
                (below = [] → R { root := n } k₃) ∧
                  ∀ m rest, below = m :: rest → ∀ trace,
                    (tickWithin depth { root := m, below := rest } trace).Meets k₃ F
                      fun r k₄ _ => (rejoin n r.1).Meets k₄ F fun s k₅ _ => R s k₅) :
    (tickWithin (depth + 1) s trace).Meets k F fun r k' _ => R r.1 k' := by
  refine tickWithin_turn (h.imp ?_)
  intro s₁ k₁ t₁ h₁
  refine ⟨h₁.1, h₁.2.imp ?_⟩
  intro turn k₂ t₂ h₂
  exact ⟨fun reason hreason => by simp [h₂.1] at hreason, fun _ => h₂.2⟩

theorem tickWithin_fails {depth : Nat} {s : Spine τ} {trace : Trace} {R : Spine τ → κ → Prop}
    (h : s.ready.Meets k F fun s₁ k₁ _ =>
      s₁.root.stopped = false ∧
        (Task.onTick s₁.root.task s₁.root.control).Meets k₁ F fun turn k₂ _ =>
          ∃ reason, turn.reply.failure = some reason ∧
            (({ s₁ with root := turned s₁.root turn } : Spine τ).fail reason).Meets k₂ F
              fun s' k₃ _ => R s' k₃) :
    (tickWithin (depth + 1) s trace).Meets k F fun r k' _ => R r.1 k' := by
  refine tickWithin_turn (h.imp ?_)
  intro s₁ k₁ t₁ h₁
  refine ⟨h₁.1, h₁.2.imp ?_⟩
  intro turn k₂ t₂ h₂
  obtain ⟨reason, hreason, hfail⟩ := h₂
  refine ⟨?_, fun hnone => by simp [hreason] at hnone⟩
  intro reason' hreason'
  obtain rfl : reason = reason' := Option.some.inj (hreason.symm.trans hreason')
  exact hfail

end Spine

/-! ## Single chains -/

namespace SingleChain

variable [Task κ τ] {c : SingleChain κ τ} {s : Spine τ} {trace : Trace}

theorem tick_working {R : Spine τ → κ → Prop} (hs : c.spine = some s)
    (hf : s.root.failure = none) (hd : s.root.isFinished k = .ok false)
    (h : (s.tick trace).Meets k F fun r k' _ => r.1.root.failure = none ∧ R r.1 k') :
    (c.tick trace).Meets k F fun r k' _ => ∃ s', r.1 = { c with spine := some s' } ∧ R s' k' := by
  have hreport : s.root.failureReport = none := by simp [Node.failureReport, hf]
  rw [tick]
  simp only [hs, hreport]
  refine Act.Meets.get_bind (Act.Meets.ofExcept_bind (by simp [hd]) ?_)
  intro done hdone
  obtain rfl : false = done := Except.ok.inj (hd.symm.trans hdone)
  apply h.bind
  intro r k' t h'
  obtain ⟨s', trace'⟩ := r
  obtain ⟨hf', hR⟩ := h'
  have hreport' : s'.root.failureReport = none := by simpa [Node.failureReport] using hf'
  simp only [hreport']
  exact Act.meets_pure ⟨s', rfl, hR⟩

theorem tick_finished {R : κ → Prop} (hs : c.spine = some s) (hf : s.root.failure = none)
    (hd : s.root.isFinished k = .ok true) (h : (s.stop none).Meets k F fun _ k' _ => R k') :
    (c.tick trace).Meets k F fun r k' _ =>
      r.1 = { c with spine := none, outcome := some .finished } ∧ R k' := by
  have hreport : s.root.failureReport = none := by simp [Node.failureReport, hf]
  rw [tick]
  simp only [hs, hreport]
  refine Act.Meets.get_bind (Act.Meets.ofExcept_bind (by simp [hd]) ?_)
  intro done hdone
  obtain rfl : true = done := Except.ok.inj (hd.symm.trans hdone)
  apply h.bind
  intro s' k' t h'
  apply (finish_meets c s' .finished k').bind
  intro c' k'' u hu
  obtain ⟨hc, hk, -⟩ := hu
  subst hk
  exact Act.meets_pure ⟨hc, h'⟩

theorem tick_failing {R : Failure → κ → Prop} (hs : c.spine = some s)
    (hf : s.root.failure = none) (hd : s.root.isFinished k = .ok false)
    (h : (s.tick trace).Meets k F fun r k' _ =>
      ∃ failure, r.1.root.failureReport = some failure ∧ R failure k') :
    (c.tick trace).Meets k F fun r k' _ =>
      ∃ failure, r.1 = { c with spine := none, outcome := some (.failed failure) } ∧
        R failure k' := by
  have hreport : s.root.failureReport = none := by simp [Node.failureReport, hf]
  rw [tick]
  simp only [hs, hreport]
  refine Act.Meets.get_bind (Act.Meets.ofExcept_bind (by simp [hd]) ?_)
  intro done hdone
  obtain rfl : false = done := Except.ok.inj (hd.symm.trans hdone)
  apply h.bind
  intro r k' t h'
  obtain ⟨s', trace'⟩ := r
  obtain ⟨failure, hfailure, hR⟩ := h'
  simp only [hfailure]
  apply (finish_meets c s' (.failed failure) k').bind
  intro c' k'' u hu
  obtain ⟨hc, hk, -⟩ := hu
  subst hk
  exact Act.meets_pure ⟨failure, hc, hR⟩

end SingleChain

/-! ## Selection -/

variable [Chain κ τ χ]

theorem claim?_eq_some {c : χ} {p : Number.Binary32} (h : claim? c k = .ok (some p)) :
    p = Chain.priority c k := by
  rw [claim?] at h
  cases hr : Chain.isRelevant c k with
  | error e => rw [hr] at h; cases h
  | ok relevant =>
      cases relevant with
      | false => rw [hr] at h; cases h
      | true =>
          rw [hr] at h
          have h : (if (Chain.priority c k).isNaN then none else some (Chain.priority c k)) =
            some p := Except.ok.inj h
          by_cases hp : (Chain.priority c k).isNaN
          · rw [if_pos hp] at h
            cases h
          · rw [if_neg hp] at h
            exact (Option.some.inj h).symm

theorem claim?_relevant {c : χ} (hc : Chain.isRelevant c k = .ok true)
    (hp : (Chain.priority c k).isNaN = false) : claim? c k = .ok (some (Chain.priority c k)) := by
  rw [claim?]
  rw [hc]
  simp [hp]
  rfl

theorem claim?_irrelevant {c : χ} (hc : Chain.isRelevant c k = .ok false) :
    claim? c k = .ok none := by
  rw [claim?]
  rw [hc]
  rfl

theorem claim?_error {c : χ} {e : Fault} (h : claim? c k = .error e) :
    Chain.isRelevant c k = .error e := by
  rw [claim?] at h
  cases hr : Chain.isRelevant c k with
  | error e' => rw [hr] at h; cases h; rfl
  | ok relevant =>
      rw [hr] at h
      cases relevant <;> cases h

theorem selectFrom_irrelevant {c : χ} {chains : List χ} {index : Nat}
    {best : Option (Nat × Number.Binary32)} (hc : Chain.isRelevant c k = .ok false) :
    selectFrom k (c :: chains) index best = selectFrom k chains (index + 1) best := by
  rw [selectFrom, claim?_irrelevant hc]
  rfl

/-- A claim that no further chain exceeds stays the best. -/
theorem selectFrom_keeps {chains : List χ} {index i : Nat} {top : Number.Binary32}
    {result : Option (Nat × Number.Binary32)}
    (h : ∀ c ∈ chains, top.less (Chain.priority c k) = false)
    (hr : selectFrom k chains index (some (i, top)) = .ok result) : result = some (i, top) := by
  induction chains generalizing index with
  | nil =>
      cases hr
      rfl
  | cons c chains ih =>
      rw [selectFrom] at hr
      cases hc : claim? c k with
      | error e => rw [hc] at hr; cases hr
      | ok claim =>
          rw [hc] at hr
          have hbetter : better (some (i, top)) index claim = some (i, top) := by
            cases claim with
            | none => rfl
            | some p =>
                have hp := claim?_eq_some hc
                have hless := h c List.mem_cons_self
                rw [← hp] at hless
                simp [better, hless]
          have hr : selectFrom k chains (index + 1) (better (some (i, top)) index claim) =
            .ok result := hr
          rw [hbetter] at hr
          exact ih (fun c hc => h c (List.mem_cons_of_mem _ hc)) hr

theorem selectFrom_error {chains : List χ} {index : Nat} {best : Option (Nat × Number.Binary32)}
    {e : Fault} (h : selectFrom k chains index best = .error e) :
    ∃ c ∈ chains, Chain.isRelevant c k = .error e := by
  induction chains generalizing index best with
  | nil => cases h
  | cons c chains ih =>
      rw [selectFrom] at h
      cases hc : claim? c k with
      | error e' =>
          rw [hc] at h
          cases h
          exact ⟨c, List.mem_cons_self, claim?_error hc⟩
      | ok claim =>
          rw [hc] at h
          obtain ⟨b, hb, he⟩ := ih h
          exact ⟨b, List.mem_cons_of_mem _ hb, he⟩

theorem selectFrom_skips {before chains : List χ} {index : Nat}
    {best : Option (Nat × Number.Binary32)} (hb : ∀ b ∈ before, Chain.isRelevant b k = .ok false) :
    selectFrom k (before ++ chains) index best =
      selectFrom k chains (index + before.length) best := by
  induction before generalizing index with
  | nil => rfl
  | cons b before ih =>
      rw [List.cons_append, selectFrom_irrelevant (hb b List.mem_cons_self),
        ih fun c hc => hb c (List.mem_cons_of_mem _ hc), List.length_cons]
      congr 1
      omega

section Foremost

variable {rest : List χ} {c : χ}

/-- A relevant chain that comes after irrelevant ones is the best so far. -/
theorem select_append (before : List χ) (hb : ∀ b ∈ before, Chain.isRelevant b k = .ok false)
    (hc : Chain.isRelevant c k = .ok true) (hp : (Chain.priority c k).isNaN = false) :
    select (before ++ c :: rest) k =
      (selectFrom k rest (before.length + 1) (some (before.length, Chain.priority c k))).map
        fun best => best.map Prod.fst := by
  rw [select]
  rw [selectFrom_skips hb, Nat.zero_add, selectFrom, claim?_relevant hc hp]
  rfl

/-- It is selected if no other exceeds it. -/
theorem select_foremost {selected : Option Nat} (before : List χ)
    (hb : ∀ b ∈ before, Chain.isRelevant b k = .ok false) (hc : Chain.isRelevant c k = .ok true)
    (hp : (Chain.priority c k).isNaN = false)
    (h : ∀ b ∈ rest, (Chain.priority c k).less (Chain.priority b k) = false)
    (hs : select (before ++ c :: rest) k = .ok selected) : selected = some before.length := by
  rw [select_append before hb hc hp] at hs
  cases hr : selectFrom k rest (before.length + 1)
      (some (before.length, Chain.priority c k)) with
  | error e => rw [hr] at hs; cases hs
  | ok best =>
      rw [hr] at hs
      cases hs
      rw [selectFrom_keeps h hr]
      rfl

theorem select_foremost_error {e : Fault} (before : List χ)
    (hb : ∀ b ∈ before, Chain.isRelevant b k = .ok false) (hc : Chain.isRelevant c k = .ok true)
    (hp : (Chain.priority c k).isNaN = false)
    (hs : select (before ++ c :: rest) k = .error e) :
    ∃ b ∈ rest, Chain.isRelevant b k = .error e := by
  rw [select_append before hb hc hp] at hs
  cases hr : selectFrom k rest (before.length + 1)
      (some (before.length, Chain.priority c k)) with
  | error e' =>
      rw [hr] at hs
      cases hs
      exact selectFrom_error hr
  | ok best => rw [hr] at hs; cases hs

theorem select_head {selected : Option Nat} (hc : Chain.isRelevant c k = .ok true)
    (hp : (Chain.priority c k).isNaN = false)
    (h : ∀ b ∈ rest, (Chain.priority c k).less (Chain.priority b k) = false)
    (hs : select (c :: rest) k = .ok selected) : selected = some 0 :=
  select_foremost [] nofun hc hp h hs

theorem select_head_error {e : Fault} (hc : Chain.isRelevant c k = .ok true)
    (hp : (Chain.priority c k).isNaN = false) (hs : select (c :: rest) k = .error e) :
    ∃ b ∈ rest, Chain.isRelevant b k = .error e :=
  select_foremost_error [] nofun hc hp hs

end Foremost

/-! ## The runner -/

namespace Runner

variable [Task κ τ]

section Selected

variable {r : Runner χ} {i : Nat} {c : χ} {R : χ → κ → Prop}

omit [Task κ τ] in
/-- No chain but the one at a place has control and holds a root. -/
def Free (r : Runner χ) (i : Nat) : Prop :=
  ∀ j b, r.current = some j → j ≠ i → r.chains[j]? = some b → Chain.spine? b = none

omit [Task κ τ] in
theorem free_of_current {p : Prop} [Decidable p] (h : r.current = if p then none else some i) :
    r.Free i := by
  intro j b hj hne
  rw [h] at hj
  split at hj
  · cases hj
  · exact absurd (Option.some.inj hj).symm hne

omit [Task κ τ] in
theorem currentName_of_current (hcur : r.current = some i) (hc : r.chains[i]? = some c) :
    r.currentName = some (Chain.name c) := by
  unfold currentName currentChain
  rw [hcur]
  simp only [Option.bind_some, hc, Option.map_some]

/-- A chain without a root does not notice that it loses control. -/
theorem interruptHolder_free {next : Option String} (hfree : r.Free i)
    (hcur : r.current ≠ some i) :
    (r.interruptHolder next).Meets k F fun r' k' _ => r' = r ∧ k' = k := by
  rw [interruptHolder]
  cases hj : r.current with
  | none => exact Act.meets_pure ⟨rfl, rfl⟩
  | some j =>
      dsimp only
      cases hb : r.chains[j]? with
      | none => exact Act.meets_pure ⟨rfl, rfl⟩
      | some b =>
          have hne : j ≠ i := by
            rintro rfl
            exact hcur hj
          have hspine := hfree j b hj hne hb
          have hset : r.setChain j b = r := by
            obtain ⟨hlt, rfl⟩ := List.getElem?_eq_some_iff.mp hb
            rw [setChain, List.set_getElem_self]
          unfold Chain.interrupt Chain.stop Chain.onSpine
          simp only [hspine]
          refine Act.Meets.bind (P := fun b' k' _ => b' = b ∧ k' = k)
            (Act.Meets.note_bind (Act.meets_pure ⟨rfl, rfl⟩)) ?_
          intro b' k' t hb'
          obtain ⟨rfl, rfl⟩ := hb'
          exact Act.meets_pure ⟨hset, rfl⟩

/-- Control goes to a chain that has it already or takes it from one without a root. -/
theorem grant_selected (he : r.enabled = true) (hfree : r.Free i) :
    (r.grant (some i)).Meets k F fun r' k' _ =>
      (r'.chains = r.chains ∧ r'.current = some i ∧ r'.enabled = true) ∧ k' = k := by
  rw [grant]
  by_cases hcur : some i = r.current
  · rw [if_pos hcur]
    exact Act.meets_pure ⟨⟨rfl, hcur.symm, he⟩, rfl⟩
  · rw [if_neg hcur]
    rw [handOver]
    apply (interruptHolder_free hfree (fun h => hcur h.symm)).bind
    intro r₁ k₁ t₁ h₁
    obtain ⟨rfl, rfl⟩ := h₁
    apply (emit_meets r₁ _ k₁).bind
    intro r₂ k₂ t₂ h₂
    obtain ⟨hr, hk, -⟩ := h₂
    refine Act.meets_pure ⟨⟨?_, rfl, ?_⟩, hk⟩
    · rw [hr]
    · rw [hr]
      exact he

omit [Task κ τ] in
theorem tickChain_selected (hc : r.chains[i]? = some c)
    (h : (Chain.tick c {}).Meets k F fun p k' _ => R p.1 k') :
    (r.tickChain (some i)).Meets k F fun r' k' _ => ∃ c', R c' k' ∧
      r'.chains = r.chains.set i c' ∧ r'.current = r.current ∧ r'.enabled = r.enabled := by
  rw [tickChain]
  simp only [hc]
  apply h.bind
  intro p k' t h'
  exact Act.meets_pure ⟨p.1, h', rfl, rfl, rfl⟩

theorem tick_selected (he : r.enabled = true)
    (hfault : ∀ e, select r.chains k = .error e → F e)
    (hselect : ∀ selected, select r.chains k = .ok selected → selected = some i)
    (hfree : r.Free i) (hc : r.chains[i]? = some c)
    (h : (Chain.tick c {}).Meets k F fun p k' _ => R p.1 k') :
    r.tick.Meets k F fun r' k' _ =>
      ∃ c', R c' k' ∧ r'.chains = r.chains.set i c' ∧ r'.current = some i ∧ r'.enabled = true := by
  rw [tick]
  rw [if_pos he]
  refine Act.Meets.get_bind (Act.Meets.ofExcept_bind hfault ?_)
  intro selected hs
  obtain rfl := hselect selected hs
  apply (grant_selected he hfree).bind
  intro r₁ k₁ t₁ h₁
  obtain ⟨⟨hchains, hcur₁, he₁⟩, rfl⟩ := h₁
  rw [← hchains] at hc
  apply (tickChain_selected hc h).bind
  intro r₂ k₂ t₂ h₂
  apply (emitAll_meets r₂ _ k₂).bind
  intro r₃ k₃ t₃ h₃
  apply (emit_meets r₃ _ k₃).imp
  intro r₄ k₄ t₄ h₄
  obtain ⟨c', hR, hchains₂, hcur₂, he₂⟩ := h₂
  obtain ⟨hr₃, rfl, -⟩ := h₃
  obtain ⟨hr₄, rfl, -⟩ := h₄
  refine ⟨c', hR, ?_, ?_, ?_⟩
  · rw [hr₄, hr₃, ← hchains]
    exact hchains₂
  · rw [hr₄, hr₃]
    exact hcur₂.trans hcur₁
  · rw [hr₄, hr₃]
    exact he₂.trans he₁

end Selected

end Runner

end Arbiter
