import Arbiter.Proofs.Conduct.Chain
import Arbiter.Proofs.Ticks

/-! Rules of conduct on the runner of an agent. Only the chain in control has jobs at work, and
every operation of the runner keeps what its jobs keep. -/

namespace Arbiter

variable {F : Fault → Prop} {T : Record → Prop} {fit : Job → Prop}
  {W : Nat → List Job → World → Prop} {m : Nat} {w : World}

/-! ## The jobs of many chains -/

namespace AgentChain

/-- The jobs at work on chains, chain by chain. -/
def allAtWork (chains : List AgentChain) : List Job := chains.flatMap fun c => c.inner.atWork

theorem allAtWork_of_resting {chains : List AgentChain} (h : ∀ c ∈ chains, Chain.Resting c) :
    allAtWork chains = [] :=
  List.flatMap_eq_nil_iff.mpr fun c hc => SingleChain.atWork_of_resting (h c hc)

theorem allAtWork_set {chains : List AgentChain} {i : Nat} (hi : i < chains.length)
    (c : AgentChain) :
    allAtWork (chains.set i c) =
      allAtWork (chains.take i) ++ c.inner.atWork ++ allAtWork (chains.drop (i + 1)) := by
  rw [List.set_eq_take_append_cons_drop, if_pos hi]
  simp [allAtWork]

/-- The jobs of one chain among those of all. -/
theorem allAtWork_split {chains : List AgentChain} {i : Nat} {c : AgentChain}
    (h : chains[i]? = some c) :
    allAtWork chains =
      allAtWork (chains.take i) ++ c.inner.atWork ++ allAtWork (chains.drop (i + 1)) := by
  obtain ⟨hi, rfl⟩ := List.getElem?_eq_some_iff.mp h
  rw [← allAtWork_set hi, List.set_getElem_self]

theorem stopAll_keeps (hC : Conduct F T fit W) {chains : List AgentChain}
    (hc : ∀ c ∈ chains, c.inner.Tidy fit) (h : W m (allAtWork chains) w) :
    (Runner.stopAll chains).Keeps w F (Happening.Notes T) fun chains' w' =>
      (∀ c ∈ chains', c.inner.Tidy fit ∧ Chain.Resting c) ∧ W m [] w' := by
  induction chains generalizing w with
  | nil => exact Act.keeps_pure ⟨by simp, h⟩
  | cons c chains ih =>
      rw [Runner.stopAll]
      refine (stop_keeps (hC.frame [] (allAtWork chains)) (hc c List.mem_cons_self) h).bind ?_
      rintro c' w₁ ⟨hc', hW⟩
      refine (ih (fun b hb => hc b (List.mem_cons_of_mem _ hb)) hW).bind ?_
      rintro chains' w₂ ⟨hrest, hW'⟩
      refine Act.keeps_pure ⟨?_, hW'⟩
      intro b hb
      rcases List.mem_cons.mp hb with rfl | hb
      · exact hc'
      · exact hrest b hb

end AgentChain

namespace Runner

/-- The jobs at work on the chains of the runner. -/
def atWork (r : Runner AgentChain) : List Job := AgentChain.allAtWork r.chains

/-- The spines are tidy. Under exclusive control, every chain but the one in control rests. -/
structure Tidy (exclusive : Prop) (fit : Job → Prop) (r : Runner AgentChain) : Prop where
  tidy : ∀ c ∈ r.chains, c.inner.Tidy fit
  others : exclusive → ∀ i c, r.chains[i]? = some c → r.current ≠ some i → Chain.Resting c

variable {r : Runner AgentChain} {i : Nat} {c : AgentChain} {exclusive : Prop}

theorem tidy_of_resting (h : ∀ c ∈ r.chains, c.inner.Tidy fit ∧ (exclusive → Chain.Resting c)) :
    r.Tidy exclusive fit :=
  ⟨fun c hc => (h c hc).1, fun he _ c hc _ => (h c (List.mem_of_getElem? hc)).2 he⟩

theorem atWork_of_resting (h : ∀ c ∈ r.chains, Chain.Resting c) : r.atWork = [] :=
  AgentChain.allAtWork_of_resting h

/-- The jobs of a chain among those of the runner. -/
theorem atWork_split (hc : r.chains[i]? = some c) :
    r.atWork = AgentChain.allAtWork (r.chains.take i) ++ c.inner.atWork ++
      AgentChain.allAtWork (r.chains.drop (i + 1)) := AgentChain.allAtWork_split hc

theorem atWork_setChain (hi : i < r.chains.length) (c : AgentChain) :
    (r.setChain i c).atWork = AgentChain.allAtWork (r.chains.take i) ++ c.inner.atWork ++
      AgentChain.allAtWork (r.chains.drop (i + 1)) := AgentChain.allAtWork_set hi c

namespace Tidy

/-- Nobody is at work if no chain is in control. -/
theorem resting (hr : r.Tidy exclusive fit) (he : exclusive) (h : r.currentChain = none) :
    ∀ c ∈ r.chains, Chain.Resting c := by
  intro c hc
  obtain ⟨i, hi⟩ := List.mem_iff_getElem?.mp hc
  refine hr.others he i c hi fun hcur => ?_
  simp [currentChain, hcur, hi] at h

/-- The other chains rest when one is in control. -/
theorem resting_of_ne (hr : r.Tidy exclusive fit) (he : exclusive) (hcur : r.current = some i) :
    (∀ c ∈ r.chains.take i, Chain.Resting c) ∧ ∀ c ∈ r.chains.drop (i + 1), Chain.Resting c := by
  constructor
  · intro c hc
    obtain ⟨j, hj, rfl⟩ := List.mem_take_iff_getElem.mp hc
    refine hr.others he j _ (List.getElem?_eq_getElem _) ?_
    rw [hcur]
    intro h
    cases h
    omega
  · intro c hc
    obtain ⟨j, hj, rfl⟩ := List.mem_drop_iff_getElem.mp hc
    refine hr.others he (i + 1 + j) _ (List.getElem?_eq_getElem _) ?_
    rw [hcur]
    intro h
    have := Option.some.inj h
    omega

/-- All jobs at work are those of the chain in control. -/
theorem atWork_holder (hr : r.Tidy exclusive fit) (he : exclusive) (hcur : r.current = some i)
    (hc : r.chains[i]? = some c) : r.atWork = c.inner.atWork := by
  obtain ⟨hbefore, hbehind⟩ := hr.resting_of_ne he hcur
  rw [atWork_split hc, AgentChain.allAtWork_of_resting hbefore,
    AgentChain.allAtWork_of_resting hbehind, List.nil_append, List.append_nil]

/-- A chain may be replaced by a tidy one that is in control or rests. -/
theorem setChain (hr : r.Tidy exclusive fit) (hc : c.inner.Tidy fit)
    (hrest : r.current = some i ∨ (exclusive → Chain.Resting c)) :
    (r.setChain i c).Tidy exclusive fit := by
  refine ⟨?_, ?_⟩
  · intro b hb
    rcases List.mem_or_eq_of_mem_set hb with hb | rfl
    · exact hr.tidy b hb
    · exact hc
  · intro he j b hb hj
    by_cases hij : i = j
    · subst hij
      have hlt : i < r.chains.length := by
        have := (List.getElem?_eq_some_iff.mp hb).1
        simpa [Runner.setChain] using this
      rw [Runner.setChain, List.getElem?_set_self hlt] at hb
      cases hb
      exact hrest.resolve_left hj he
    · rw [Runner.setChain, List.getElem?_set_ne hij] at hb
      exact hr.others he j b hb hj

end Tidy

/-! ## Events -/

theorem receive_isRoutine (sink : Sink) (e : SinkEvent) :
    ∀ record ∈ (sink.receive e).2, record.IsRoutine := by
  intro record hrecord
  have hnote : ∀ e, ∀ record ∈ Sink.note e, record.IsRoutine := by
    intro e record hrecord
    cases e with
    | tickFinished report => cases hrecord
    | _ =>
        obtain rfl := List.mem_singleton.mp hrecord
        simp [Record.IsRoutine]
  unfold Sink.receive at hrecord
  split at hrecord
  · cases hrecord
  · exact hnote _ record hrecord
  · dsimp only at hrecord
    split at hrecord
    · obtain rfl := List.mem_singleton.mp hrecord
      simp [Record.IsRoutine]
    · cases hrecord
  · exact hnote _ record hrecord

theorem emit_routine (hC : Conduct F T fit W) {R : World → Prop} (e : SinkEvent) (h : R w) :
    (r.emit e : Act World (Happening Job) _).Keeps w F (Happening.Notes T) fun r' w' =>
      r' = { r with sink := r'.sink } ∧ R w' := by
  rw [emit]
  refine Act.Keeps.tell_bind trivial ?_
  refine Act.Keeps.tellAll_bind ?_ (Act.keeps_pure ⟨rfl, h⟩)
  intro x hx
  obtain ⟨record, hrecord, rfl⟩ := List.mem_map.mp hx
  exact hC.routine record (receive_isRoutine r.sink e record hrecord)

theorem emitAll_routine (hC : Conduct F T fit W) {R : World → Prop} (es : List SinkEvent)
    (h : R w) :
    (r.emitAll es : Act World (Happening Job) _).Keeps w F (Happening.Notes T) fun r' w' =>
      r' = { r with sink := r'.sink } ∧ R w' := by
  induction es generalizing r w with
  | nil => exact Act.keeps_pure ⟨rfl, h⟩
  | cons e es ih =>
      rw [emitAll]
      refine (emit_routine hC e h).bind ?_
      rintro r₁ w₁ ⟨hr₁, hR⟩
      refine (ih hR).imp ?_
      rintro r₂ w₂ ⟨hr₂, hR'⟩
      refine ⟨?_, hR'⟩
      rw [hr₂, hr₁]

/-! ## Control -/

namespace Tidy

/-- After an interrupt the chain that was in control rests as well. -/
theorem interruptHolder_keeps (hC : Conduct F T fit W) (hr : r.Tidy exclusive fit)
    (h : W m r.atWork w) (next : Option String) :
    (r.interruptHolder next).Keeps w F (Happening.Notes T) fun r' w' =>
      (r' = { r with chains := r'.chains } ∧
        ∀ c ∈ r'.chains, c.inner.Tidy fit ∧ (exclusive → Chain.Resting c)) ∧ W m r'.atWork w' := by
  have hnobody : r.currentChain = none → (r = { r with chains := r.chains } ∧
      ∀ c ∈ r.chains, c.inner.Tidy fit ∧ (exclusive → Chain.Resting c)) ∧ W m r.atWork w :=
    fun hnone => ⟨⟨rfl, fun c hc => ⟨hr.tidy c hc, fun he => hr.resting he hnone c hc⟩⟩, h⟩
  rw [interruptHolder]
  split
  · next hcur => exact Act.keeps_pure (hnobody (by simp [currentChain, hcur]))
  · next i hcur =>
    split
    · next hc => exact Act.keeps_pure (hnobody (by simp [currentChain, hcur, hc]))
    · next c hc =>
      have hi := (List.getElem?_eq_some_iff.mp hc).1
      rw [atWork_split hc] at h
      rw [Chain.interrupt]
      refine (Act.Keeps.note_bind (hC.routine _ (by simp [Record.IsRoutine]))
        (AgentChain.stop_keeps (hC.frame _ _) (hr.tidy c (List.mem_of_getElem? hc)) h)).bind ?_
      rintro c' w' ⟨⟨hc', hrest⟩, hW⟩
      have hset := hr.setChain (i := i) hc' (Or.inr fun _ => hrest)
      refine Act.keeps_pure ⟨⟨rfl, fun b hb => ⟨hset.tidy b hb, fun he => ?_⟩⟩, ?_⟩
      · obtain ⟨j, hj⟩ := List.mem_iff_getElem?.mp hb
        by_cases hij : i = j
        · subst hij
          rw [Runner.setChain, List.getElem?_set_self hi] at hj
          cases hj
          exact hrest
        · exact hset.others he j b hj (by simpa [Runner.setChain, hcur] using hij)
      · rw [atWork_setChain hi, SingleChain.atWork_of_resting hrest]
        exact hW

/-- A hand-over leaves the runner tidy, whoever is in control then. -/
theorem handOver_keeps (hC : Conduct F T fit W) (hr : r.Tidy exclusive fit) (h : W m r.atWork w)
    (selected : Option Nat) :
    (r.handOver selected).Keeps w F (Happening.Notes T) fun r' w' =>
      (r'.Tidy exclusive fit ∧ r'.current = selected ∧ r'.enabled = r.enabled) ∧
        W m r'.atWork w' := by
  rw [handOver]
  refine (hr.interruptHolder_keeps hC h _).bind ?_
  rintro r₁ w₁ ⟨⟨hr₁, hrest⟩, hW⟩
  refine (emit_routine hC _ hW).bind ?_
  rintro r₂ w₂ ⟨hr₂, hW'⟩
  have hchains : r₂.chains = r₁.chains := by rw [hr₂]
  have henabled : r₂.enabled = r.enabled := by rw [hr₂, hr₁]
  have hend : ∀ c ∈ ({ r₂ with current := selected } : Runner AgentChain).chains,
      c.inner.Tidy fit ∧ (exclusive → Chain.Resting c) := by
    intro c hc
    exact hrest c (hchains ▸ hc)
  refine Act.keeps_pure ⟨⟨tidy_of_resting hend, rfl, henabled⟩, ?_⟩
  show W m (AgentChain.allAtWork r₂.chains) w₂
  rw [hchains]
  exact hW'

theorem grant_keeps (hC : Conduct F T fit W) (hr : r.Tidy exclusive fit) (h : W m r.atWork w)
    (selected : Option Nat) :
    (r.grant selected).Keeps w F (Happening.Notes T) fun r' w' =>
      (r'.Tidy exclusive fit ∧ r'.current = selected) ∧ W m r'.atWork w' := by
  rw [grant]
  split
  · next hcur => exact Act.keeps_pure ⟨⟨hr, hcur.symm⟩, h⟩
  · exact (hr.handOver_keeps hC h selected).imp fun _ _ h => ⟨⟨h.1.1, h.1.2.1⟩, h.2⟩

theorem tickChain_keeps (hC : Conduct F T fit W) (hr : r.Tidy exclusive fit)
    (h : W 3 r.atWork w) :
    (r.tickChain r.current).Keeps w F (Happening.Notes T) fun r' w' =>
      r'.Tidy exclusive fit ∧ W 0 r'.atWork w' := by
  have hend : ∀ {r' : Runner AgentChain} trace, r'.Tidy exclusive fit →
      ({ r' with trace := trace } : Runner AgentChain).Tidy exclusive fit :=
    fun _ hr' => ⟨hr'.tidy, hr'.others⟩
  have hidle := hC.spend_le (Nat.zero_le 3) h
  unfold tickChain
  split
  · exact Act.keeps_pure ⟨hend _ hr, hidle⟩
  · next i hcur =>
    split
    · exact Act.keeps_pure ⟨hend _ hr, hidle⟩
    · next c hc =>
      rw [atWork_split hc] at h
      refine (AgentChain.tick_keeps (hC.frame _ _) (hr.tidy c (List.mem_of_getElem? hc)) h {}).bind
        ?_
      rintro ⟨c', trace⟩ w' ⟨hc', hW⟩
      refine Act.keeps_pure ⟨hend _ (hr.setChain hc' (Or.inl hcur)), ?_⟩
      show W 0 (r.setChain i c').atWork w'
      rw [atWork_setChain (List.getElem?_eq_some_iff.mp hc).1]
      exact hW

theorem yields_select (hC : Conduct F T fit W) {js : List Job} (h : W m js w)
    (chains : List AgentChain) : Yields (select chains w) F fun _ => True := by
  refine yields_iff.mpr ⟨fun e he => ?_, fun _ _ => trivial⟩
  rw [select] at he
  cases hfrom : selectFrom w chains 0 none with
  | error e' =>
      rw [hfrom] at he
      cases he
      obtain ⟨c, -, hrelevant⟩ := selectFrom_error hfrom
      exact (AgentChain.yields_isRelevant hC h).error hrelevant
  | ok best => rw [hfrom] at he; cases he

/-- A tick of the runner, in which every job at work takes one turn at the most. -/
theorem tick_keeps (hC : Conduct F T fit W) (hr : r.Tidy exclusive fit) (h : W 3 r.atWork w) :
    r.tick.Keeps w F (Happening.Notes T) fun r' w' => r'.Tidy exclusive fit ∧ W 0 r'.atWork w' := by
  rw [Runner.tick]
  split
  · refine Act.Keeps.get_bind ?_
    refine ((yields_select hC h r.chains).keeps).bind ?_
    rintro selected w' ⟨-, rfl⟩
    refine (hr.grant_keeps hC h selected).bind ?_
    rintro r₁ w₁ ⟨⟨hr₁, rfl⟩, hW₁⟩
    refine (hr₁.tickChain_keeps hC hW₁).bind ?_
    rintro r₂ w₂ ⟨hr₂, hW₂⟩
    refine (emitAll_routine hC _ hW₂).bind ?_
    rintro r₃ w₃ ⟨hr₃, hW₃⟩
    refine (emit_routine hC _ hW₃).imp ?_
    rintro r₄ w₄ ⟨hr₄, hW₄⟩
    rw [hr₄, hr₃]
    exact ⟨⟨hr₂.tidy, hr₂.others⟩, hW₄⟩
  · exact Act.keeps_pure ⟨hr, hC.spend_le (Nat.zero_le 3) h⟩

/-! ## Halts -/

theorem enable_keeps (hC : Conduct F T fit W) (hr : r.Tidy exclusive fit) (h : W m r.atWork w) :
    (r.enable : Act World (Happening Job) _).Keeps w F (Happening.Notes T) fun r' w' =>
      r'.Tidy exclusive fit ∧ W m r'.atWork w' := by
  rw [enable]
  split
  · exact Act.keeps_pure ⟨hr, h⟩
  · exact Act.Keeps.note_bind (hC.routine _ (by simp [Record.IsRoutine]))
      (Act.keeps_pure ⟨⟨hr.tidy, hr.others⟩, h⟩)

theorem disable_keeps (hC : Conduct F T fit W) (hr : r.Tidy exclusive fit) (h : W m r.atWork w) :
    r.disable.Keeps w F (Happening.Notes T) fun r' w' =>
      r'.Tidy exclusive fit ∧ W m r'.atWork w' := by
  rw [disable]
  refine (AgentChain.stopAll_keeps hC hr.tidy h).bind ?_
  rintro chains w₁ ⟨hrest, hW₁⟩
  have hstopped : ({ r with chains } : Runner AgentChain).Tidy exclusive fit :=
    tidy_of_resting fun c hc => ⟨(hrest c hc).1, fun _ => (hrest c hc).2⟩
  have hW₁ : W m ({ r with chains } : Runner AgentChain).atWork w₁ := by
    rw [atWork_of_resting fun c hc => (hrest c hc).2]
    exact hW₁
  have hrelease : ({ r with chains } : Runner AgentChain).release.Keeps w₁ F (Happening.Notes T)
      fun r' w' => r'.Tidy exclusive fit ∧ W m r'.atWork w' := by
    rw [release]
    split
    · exact (hstopped.handOver_keeps hC hW₁ none).imp fun _ _ h => ⟨h.1.1, h.2⟩
    · exact Act.keeps_pure ⟨hstopped, hW₁⟩
  refine hrelease.bind ?_
  rintro r₂ w₂ ⟨hr₂, hW₂⟩
  split
  · exact Act.Keeps.note_bind (hC.routine _ (by simp [Record.IsRoutine]))
      (Act.keeps_pure ⟨⟨hr₂.tidy, hr₂.others⟩, hW₂⟩)
  · exact Act.keeps_pure ⟨⟨hr₂.tidy, hr₂.others⟩, hW₂⟩

theorem stopCurrent_keeps (hC : Conduct F T fit W) (hr : r.Tidy exclusive fit)
    (h : W m r.atWork w) :
    r.stopCurrent.Keeps w F (Happening.Notes T) fun r' w' =>
      r'.Tidy exclusive fit ∧ W m r'.atWork w' := by
  rw [stopCurrent]
  split
  · exact Act.keeps_pure ⟨hr, h⟩
  · next i hcur =>
    split
    · exact Act.keeps_pure ⟨hr, h⟩
    · next c hc =>
      rw [atWork_split hc] at h
      refine (AgentChain.stop_keeps (hC.frame _ _) (hr.tidy c (List.mem_of_getElem? hc)) h).bind ?_
      rintro c' w₁ ⟨⟨hc', hrest⟩, hW₁⟩
      have hset := hr.setChain (i := i) hc' (Or.inr fun _ => hrest)
      have hwork := atWork_setChain (List.getElem?_eq_some_iff.mp hc).1 c'
      rw [SingleChain.atWork_of_resting hrest] at hwork
      rw [← hwork] at hW₁
      refine (hset.handOver_keeps hC hW₁ none).bind ?_
      rintro r₂ w₂ ⟨⟨hr₂, -, -⟩, hW₂⟩
      exact Act.keeps_pure ⟨⟨hr₂.tidy, hr₂.others⟩, hW₂⟩

end Tidy

end Runner

end Arbiter
