import Arbiter.Proofs.Lifecycle.Lives
import Arbiter.Proofs.Spine.Continuity

/-! Refused candidates over whole runs. Whatever the holder of a root does with it, each of its
ticks keeps to the rule of continuity, and no hook of a candidate that was refused is ever called.
-/

namespace Arbiter

variable {κ τ : Type}

namespace Spine

/-! ## Operations -/

/-- What the holder of a root does with it, and what others do to the context. -/
inductive Operation (κ τ : Type) where
  | tick (trace : Trace)
  | stop (taker : Option τ)
  | suspend (taker : Option τ)
  | fail (reason : String)
  | reset
  /-- Others change the context. -/
  | change (f : κ → κ)
  /-- The holder changes the task of the root. -/
  | alter (f : τ → τ)

section Operations

variable [Task κ τ]

def perform (s : Spine τ) : Operation κ τ → Act κ (Happening τ) (Spine τ)
  | .tick trace => do
    let (s, _) ← s.tick trace
    pure s
  | .stop taker => s.stop taker
  | .suspend taker => s.suspend taker
  | .fail reason => s.fail reason
  | .reset => pure s.reset
  | .change f => do
    Act.modify f
    pure s
  | .alter f => pure { s with root := { s.root with task := f s.root.task } }

def performAll (s : Spine τ) : List (Operation κ τ) → Act κ (Happening τ) (Spine τ)
  | [] => pure s
  | op :: rest => do
    let s ← s.perform op
    s.performAll rest

/-- Beside the hooks, only changes of the context and of the root's task bear on a property. -/
def Operation.Leaves (P : κ → τ → Prop) : Operation κ τ → Prop
  | change f => ∀ k t, P k t → P (f k) t
  | alter f => ∀ k t, P k t → P k (f t)
  | _ => True

variable {P : κ → τ → Prop} {s : Spine τ} {k : κ}

omit [Task κ τ] in
theorem kempt_alone {n : Node τ} (hn : n.Sound) : ({ root := n } : Spine τ).Kempt :=
  ⟨hn, by simp, by simp⟩

theorem Kempt.stop (hs : s.Kempt) (taker : Option τ) (k : κ) :
    (s.stop taker).Ensures k fun s' _ _ => s'.Kempt ∧ s'.root.active = false := by
  rw [Spine.stop]
  split
  · apply (Act.ensures_true _ k).bind
    intro n k₁ _ _
    apply (Act.ensures_true _ k₁).bind
    intro _ _ _ _
    exact Act.meets_pure ⟨kempt_alone ⟨by simp, fun _ => rfl, fun _ => rfl⟩, rfl⟩
  · next h => exact Act.meets_pure ⟨hs, by simpa using h⟩

theorem Kempt.suspend (hs : s.Kempt) (taker : Option τ) (k : κ) :
    (s.suspend taker).Ensures k fun s' _ _ => s'.Kempt := by
  rw [Spine.suspend]
  split
  · apply (pause_ensures taker s.root k).bind
    intro root k₁ _ hroot
    apply (suspendBelow_ensures taker s.below k₁ hs.held).bind
    intro below _ _ hbelow
    refine Act.meets_pure ⟨?_, fun n hn => (hbelow.1 n hn).1, ?_⟩
    · rw [hroot.1]
      exact ⟨by simp, hs.root.inactive_of_stopped, hs.root.inactive_of_failed⟩
    · exact List.pairwise_of_forall_mem_list fun _ _ n hn _ => (hbelow.1 n hn).2
  · exact Act.meets_pure hs

/-- A root that was reset stays kempt in every operation; the next tick makes it sound again. -/
theorem Kempt.perform (hs : s.Kempt) (op : Operation κ τ) (k : κ) :
    (s.perform op).Ensures k fun s' _ _ => s'.Kempt := by
  cases op with
  | tick trace =>
      apply (tickWithin_ticked depthLimit hs trace k).bind
      exact fun r k' t h => Act.meets_pure h.1.kempt
  | stop taker => exact (hs.stop taker k).imp fun _ _ _ h => h.1
  | suspend taker => exact hs.suspend taker k
  | fail reason =>
      apply (hs.stop none k).bind
      intro s' k' t h
      apply Act.Meets.note_bind
      refine Act.meets_pure ⟨⟨?_, fun _ => h.2, fun _ => h.2⟩, h.1.held, h.1.pending⟩
      exact h.1.root.active_of_started
  | reset =>
      have hroot : s.reset.root.Sound :=
        ⟨fun h => absurd h.symm Bool.false_ne_true, fun h => absurd h Bool.false_ne_true,
          fun h => absurd rfl h⟩
      exact Act.meets_pure ⟨hroot, hs.held, hs.pending⟩
  | change f => exact Act.Meets.bind (Act.ensures_true _ k) fun _ _ _ _ => Act.meets_pure hs
  | alter f =>
      have hroot : ({ s.root with task := f s.root.task } : Node τ).Sound :=
        ⟨hs.root.active_of_started, hs.root.inactive_of_stopped, hs.root.inactive_of_failed⟩
      exact Act.meets_pure ⟨hroot, hs.held, hs.pending⟩

theorem perform_lasts (hs : s.Kempt) (hP : Lasting P) {op : Operation κ τ} (hop : op.Leaves P)
    (h : Have P k s.nodes) : (s.perform op).Lasts P k fun s' k' => Have P k' s'.nodes := by
  cases op with
  | tick trace =>
      apply Act.Lasts.bind (Q := fun r k' => Have P k' r.1.nodes)
      · apply (tickWithin_ticked depthLimit hs trace k).imp
        intro r k' t hr
        obtain ⟨-, -, -, refused, hticked⟩ := hr
        exact hticked.lasts hP h
      · exact fun r k' _ hr => Act.lasts_pure hr
  | stop taker => exact stop_lasts hP taker h
  | suspend taker => exact suspend_lasts hP taker h
  | fail reason => exact fail_lasts hP reason h
  | reset =>
      rw [nodes, have_cons] at h
      exact Act.lasts_pure (have_cons.mpr h)
  | change f =>
      apply Act.Lasts.bind (Q := fun _ k' => Onward P k k')
      · exact Act.meets_modify ⟨hop k, called_of_none (by simp), hop k⟩
      · exact fun _ k' hk _ => Act.lasts_pure (h.onward hk)
  | alter f =>
      rw [nodes, have_cons] at h
      exact Act.lasts_pure (have_cons.mpr ⟨hop k _ h.1, h.2⟩)

theorem performAll_kempt (hs : s.Kempt) (ops : List (Operation κ τ)) (k : κ) :
    (s.performAll ops).Ensures k fun s' _ _ => s'.Kempt := by
  induction ops generalizing s k with
  | nil => exact Act.meets_pure hs
  | cons op ops ih =>
      apply (hs.perform op k).bind
      exact fun s' k' _ hs' => ih hs' k'

theorem performAll_lasts (hs : s.Kempt) (hP : Lasting P) {ops : List (Operation κ τ)}
    (hops : ∀ op ∈ ops, op.Leaves P) (h : Have P k s.nodes) :
    (s.performAll ops).Lasts P k fun s' k' => Have P k' s'.nodes := by
  induction ops generalizing s k with
  | nil => exact Act.lasts_pure h
  | cons op ops ih =>
      have hop := perform_lasts hs hP (hops op List.mem_cons_self) h
      have hstep : (s.perform op).Lasts P k fun s' k' => s'.Kempt ∧ Have P k' s'.nodes := by
        apply ((hs.perform op k).and hop).imp
        exact fun s' k' t h => ⟨h.2.1, h.2.2.1, h.1, h.2.2.2⟩
      apply hstep.bind
      exact fun s' k' _ h' => ih h'.1 (fun op' hop' => hops op' (List.mem_cons_of_mem op hop')) h'.2

end Operations

end Spine

/-! ## Operations in a guise -/

/-- The operation on a root in a guise: tasks that take over are put into it, and what is changed is
what it shows. -/
def Spine.Operation.disguised {κ' τ' : Type} (wrap : τ → τ') (under : (κ → κ) → κ' → κ')
    (within : (τ → τ) → τ' → τ') : Spine.Operation κ τ → Spine.Operation κ' τ'
  | .tick trace => .tick trace
  | .stop taker => .stop (taker.map wrap)
  | .suspend taker => .suspend (taker.map wrap)
  | .fail reason => .fail reason
  | .reset => .reset
  | .change f => .change (under f)
  | .alter f => .alter (within f)

namespace Guise

open Spine Act

variable {κ' τ' : Type} [Task κ' τ'] [Task κ τ] (D : Guise κ' τ' κ τ)

/-- The second operation is what the guise shows of the first. -/
inductive Shows : Spine.Operation κ' τ' → Spine.Operation κ τ → Prop where
  | tick (trace : Trace) : Shows (.tick trace) (.tick trace)
  | stop {taker' : Option τ'} {taker : Option τ} (h : taker'.map D.task = taker) :
      Shows (.stop taker') (.stop taker)
  | suspend {taker' : Option τ'} {taker : Option τ} (h : taker'.map D.task = taker) :
      Shows (.suspend taker') (.suspend taker)
  | fail (reason : String) : Shows (.fail reason) (.fail reason)
  | reset : Shows .reset .reset
  | change {f' : κ' → κ'} {f : κ → κ} (h : ∀ k, D.context (f' k) = f (D.context k)) :
      Shows (.change f') (.change f)
  | alter {f' : τ' → τ'} {f : τ → τ} (h : ∀ t, D.task (f' t) = f (D.task t)) :
      Shows (.alter f') (.alter f)

variable {D} in
theorem shows_disguised {wrap : τ → τ'} {under : (κ → κ) → κ' → κ'} {within : (τ → τ) → τ' → τ'}
    (hwrap : ∀ t, D.task (wrap t) = t) (hunder : ∀ f k, D.context (under f k) = f (D.context k))
    (hwithin : ∀ f t, D.task (within f t) = f (D.task t)) (op : Spine.Operation κ τ) :
    D.Shows (op.disguised wrap under within) op := by
  have htaker : ∀ taker : Option τ, (taker.map wrap).map D.task = taker := by
    intro taker
    cases taker with
    | none => rfl
    | some t => exact congrArg some (hwrap t)
  cases op with
  | tick trace => exact .tick trace
  | stop taker => exact .stop (htaker taker)
  | suspend taker => exact .suspend (htaker taker)
  | fail reason => exact .fail reason
  | reset => exact .reset
  | change f => exact .change (hunder f)
  | alter f => exact .alter (hwithin f)

theorem perform_matches {op' : Spine.Operation κ' τ'} {op : Spine.Operation κ τ}
    (h : D.Shows op' op) (s : Spine τ') (k : κ') :
    Matches D.context D.happening (s.perform op') ((D.spine s).perform op) k
      fun s' s => D.spine s' = s := by
  cases h with
  | tick trace =>
      apply (D.tick_matches s trace).bind
      intro r' r k h
      subst h
      exact Matches.pure rfl
  | stop h => exact h ▸ D.stop_matches _ s
  | suspend h => exact h ▸ D.suspend_matches _ s
  | fail reason => exact D.fail_matches reason s
  | reset => exact Matches.pure rfl
  | change h => exact ⟨rfl, h k, rfl⟩
  | alter h => exact Matches.pure (by simp only [Guise.spine, Spine.map, Node.map, h])

theorem performAll_matches {wrap : Spine.Operation κ τ → Spine.Operation κ' τ'}
    (hwrap : ∀ op, D.Shows (wrap op) op) (s : Spine τ') (ops : List (Spine.Operation κ τ))
    {k : κ'} :
    Matches D.context D.happening (s.performAll (ops.map wrap)) ((D.spine s).performAll ops) k
      fun s' s => D.spine s' = s := by
  induction ops generalizing s k with
  | nil => exact Matches.pure rfl
  | cons op ops ih =>
      apply (D.perform_matches (hwrap op) s k).bind
      intro s' s k h
      subst h
      exact ih s'

end Guise

/-! ## Numbers -/

namespace Instance

/-- The number of the instance has been given out. -/
def Drawn (k : Numbered κ) (i : Instance τ) : Prop := i.number < k.next

/-- The number `j` has been given out, but to another instance. -/
def Apart (j : Nat) (k : Numbered κ) (i : Instance τ) : Prop := i.number ≠ j ∧ j < k.next

/-- Who got a number before `j` was given out is apart from it. -/
theorem apart_of_drawn {k k' : Numbered κ} {j : Nat} (hj : k.next ≤ j) (hj' : j < k'.next)
    (i : Instance τ) (h : Drawn k i) : Apart j k' i :=
  ⟨Nat.ne_of_lt (Nat.lt_of_lt_of_le h hj), hj'⟩

theorem onward_drawn {k k' : Numbered κ} (h : k.next ≤ k'.next) :
    Onward (τ := Instance τ) Drawn k k' := fun _ hi => Nat.lt_of_lt_of_le hi h

theorem onward_apart {k k' : Numbered κ} (h : k.next ≤ k'.next) (j : Nat) :
    Onward (τ := Instance τ) (Apart j) k k' := fun _ hi => ⟨hi.1, Nat.lt_of_lt_of_le hi.2 h⟩

theorem next_le_of_onward (t : τ) {k k' : Numbered κ}
    (h : Onward (τ := Instance τ) Drawn k k') : k.next ≤ k'.next := by
  by_contra hlt
  exact Nat.lt_irrefl _ (h ⟨t, k'.next⟩ (Nat.lt_of_not_le hlt))

variable [Task κ τ]

/-- A sub-task that is asked for gets the next number. -/
theorem onTick_draws (i : Instance τ) (c : Control) (k : Numbered κ) :
    (Task.onTick i c).Ensures k fun turn k' _ => turn.task.number = i.number ∧ k.next ≤ k'.next ∧
      ∀ s ∈ turn.candidate, s.number = k.next ∧ k.next < k'.next := by
  apply (inside_ensures _ k).bind
  intro turn k₁ t hnext
  have hdraw : (Numbered.draw turn.candidate : Act (Numbered κ) Record _).Ensures k₁
      fun candidate k' _ => k₁.next ≤ k'.next ∧
        ∀ s ∈ candidate, s.number = k₁.next ∧ k₁.next < k'.next := by
    cases turn.candidate with
    | none => exact Act.meets_pure (by simp)
    | some s => exact Act.Meets.get_bind (Act.Meets.set_bind (Act.meets_pure (by simp)))
  apply hdraw.bind
  intro candidate k₂ u h
  rw [hnext] at h
  exact Act.meets_pure ⟨rfl, h.1, h.2⟩

theorem lasting_drawn : Lasting (Drawn : Numbered κ → Instance τ → Prop) := by
  have hsame : ∀ {k k' : Numbered κ} {i j : Instance τ}, Drawn k i →
      j.number = i.number ∧ k'.next = k.next →
        Onward (τ := Instance τ) Drawn k k' ∧ Drawn k' j := by
    intro k k' i j hi h
    refine ⟨onward_drawn (Nat.le_of_eq h.2.symm), ?_⟩
    rw [Drawn, h.1, h.2]
    exact hi
  refine ⟨fun hi c => ?_, fun {k i} hi c => ?_, fun hi taker => ?_⟩
  · exact (onStart_ensures _ c _).imp fun r k' _ h => hsame hi h
  · apply (onTick_draws i c k).imp
    intro turn k' _ h
    refine ⟨onward_drawn h.2.1, ?_, fun s hs => ?_⟩
    · rw [Drawn, h.1]
      exact onward_drawn h.2.1 i hi
    · rw [Drawn, (h.2.2 s hs).1]
      exact (h.2.2 s hs).2
  · exact (onStop_ensures _ taker _).imp fun j k' _ h => hsame hi h

theorem lasting_apart (j : Nat) : Lasting (Apart j : Numbered κ → Instance τ → Prop) := by
  have hsame : ∀ {k k' : Numbered κ} {i i' : Instance τ}, Apart j k i →
      i'.number = i.number ∧ k'.next = k.next →
        Onward (τ := Instance τ) (Apart j) k k' ∧ Apart j k' i' := by
    intro k k' i i' hi h
    refine ⟨onward_apart (Nat.le_of_eq h.2.symm) j, ?_⟩
    rw [Apart, h.1, h.2]
    exact hi
  refine ⟨fun hi c => ?_, fun {k i} hi c => ?_, fun hi taker => ?_⟩
  · exact (onStart_ensures _ c _).imp fun r k' _ h => hsame hi h
  · apply (onTick_draws i c k).imp
    intro turn k' _ h
    refine ⟨onward_apart h.2.1 j, ?_, fun s hs => ⟨?_, ?_⟩⟩
    · rw [Apart, h.1]
      exact onward_apart h.2.1 j i hi
    · rw [(h.2.2 s hs).1]
      exact (Nat.ne_of_lt hi.2).symm
    · exact Nat.lt_of_lt_of_le hi.2 h.2.1
  · exact (onStop_ensures _ taker _).imp fun i' k' _ h => hsame hi h

end Instance

/-! ## Candidates that are refused -/

namespace Spine

open Instance

section Refused

variable [Task κ τ]

/-- A candidate that is refused leaves no trace. -/
theorem Settled.of_mem_refused {k k' : κ} {below ms : List (Node τ)} {candidate : Option τ}
    {trail : List (Happening τ)} {refused : List τ} {c : τ}
    (h : Settled k below candidate ms k' trail refused) (hc : c ∈ refused) :
    c ∈ candidate ∧ ms = below ∧ k' = k ∧ Noted trail := by
  cases h with
  | free => cases hc
  | equal hheld hcandidate =>
      obtain rfl := List.mem_singleton.mp hc
      exact ⟨hcandidate, rfl, rfl, noted_nil⟩
  | forced hother hn hrefuses hnoted => exact ⟨Option.mem_toList.mp hc, rfl, rfl, hnoted⟩
  | exchanged => cases hc

variable {s s' : Spine (Instance τ)} {k k' : Numbered κ} {root : Node (Instance τ)}
  {turn : Turn (Instance τ)} {trail : List (Happening (Instance τ))} {refused : List (Instance τ)}

/-- The candidate is new: its number is none of those on the spine, and it has not been called. -/
theorem TurnTaken.apart (h : s.TurnTaken k root turn k' trail) (hs : Have Drawn k s.nodes) :
    ∀ c ∈ turn.candidate, k.next ≤ c.number ∧ Called (Apart c.number) k' trail ∧
      Apart c.number k' root.task ∧ Have (Apart c.number) k' s.below := by
  obtain ⟨s₁, k₁, t₁, records, hready, -, hbelow, hturn, rfl, rfl⟩ := h
  intro c hc
  obtain ⟨hk, hcalled, h₁⟩ := (ready_lasts lasting_drawn hs).of_ok hready
  obtain ⟨hnumber, -, hdraws⟩ := (onTick_draws s₁.root.task s₁.root.control k₁).of_ok hturn
  obtain ⟨hc, hlt⟩ := hdraws c hc
  rw [nodes, have_cons, hbelow] at h₁
  have hapart := apart_of_drawn (τ := τ) (Nat.le_of_eq hc.symm) (hc ▸ hlt)
  have hroot : Apart c.number k' (turned s₁.root turn).task := by
    show Apart c.number k' turn.task
    rw [Apart, hnumber]
    exact hapart _ h₁.1
  refine ⟨?_, called_append.mpr ⟨hcalled.mono hapart, ?_⟩, hroot, h₁.2.mono hapart⟩
  · rw [hc]
    exact next_le_of_onward c.task hk
  · refine Called.cons ?_ (called_noted records)
    simpa [Happening.callee?] using hapart _ h₁.1

/-- By induction on the levels of the tick: a candidate that is refused on one level is new to the
levels above, and what goes on below is apart from it. -/
theorem Ticked.apart (h : Ticked s k s' k' trail refused) (hs : Have Drawn k s.nodes) :
    ∀ c ∈ refused, k.next ≤ c.number ∧ Called (Apart c.number) k' trail ∧
      Have (Apart c.number) k' s'.nodes := by
  induction h with
  | gaveUp => simp
  | failed => simp
  | alone htaken hreason hnotes hsettled =>
      intro c hc
      obtain ⟨hcandidate, -, rfl, hnoted⟩ := hsettled.of_mem_refused hc
      obtain ⟨hle, hcalled, hroot, -⟩ := htaken.apart hs c hcandidate
      refine ⟨hle, ?_, have_cons.mpr ⟨hroot, have_nil⟩⟩
      exact called_append.mpr ⟨hcalled, called_append.mpr ⟨hnotes.called, hnoted.called⟩⟩
  | @onward s sub s' k k₁ k₂ k₃ k' root m rest turn t₁ notes t₂ t₃ t₄ state refused refused'
      htaken hreason hnotes hsettled hsub hopening hrejoin ih =>
      intro c hc
      simp only [called_append]
      have hfinish : k.next ≤ c.number → Called (Apart c.number) k₃ t₁ →
          Called (Apart c.number) k₃ t₂ → Called (Apart c.number) k₃ t₃ →
          Apart c.number k₃ root.task → Have (Apart c.number) k₃ sub.nodes →
          k.next ≤ c.number ∧ (Called (Apart c.number) k' t₁ ∧ Called (Apart c.number) k' notes ∧
            Called (Apart c.number) k' t₂ ∧ Called (Apart c.number) k' t₃ ∧
              Called (Apart c.number) k' t₄) ∧ Have (Apart c.number) k' s'.nodes := by
        intro hle h₁ h₂ h₃ hroot hnodes
        have hroot : Apart c.number k₃ ({ root with reportedState := state } : Node _).task := hroot
        obtain ⟨hk, hcalled, hnodes⟩ := (rejoin_lasts hroot hnodes).of_ok hrejoin
        exact ⟨hle, ⟨h₁.onward hk, hnotes.called, h₂.onward hk, h₃.onward hk, hcalled⟩, hnodes⟩
      cases List.mem_append.mp hc with
      | inl hc =>
          -- refused on this level: what is held goes on without it
          obtain ⟨hcandidate, hms, rfl, hnoted⟩ := hsettled.of_mem_refused hc
          obtain ⟨hle, hcalled, hroot, hbelow⟩ := htaken.apart hs c hcandidate
          rw [← hms] at hbelow
          obtain ⟨hk, hcalled₃, hnodes⟩ := hsub.lasts (lasting_apart c.number) hbelow
          exact hfinish hle (hcalled.onward hk) hnoted.called hcalled₃ (hk _ hroot) hnodes
      | inr hc =>
          -- refused further down: it is newer than all that came before
          obtain ⟨hk, hcalled, hroot, hbelow, hcandidate⟩ := htaken.lasts lasting_drawn hs
          obtain ⟨hk₂, hcalled₂, hms⟩ := hsettled.lasts lasting_drawn hbelow hcandidate
          obtain ⟨hle, hcalled₃, hnodes⟩ := ih hms c hc
          have hlt : c.number < k₃.next := (hnodes sub.root List.mem_cons_self).2
          have hapart := apart_of_drawn (τ := τ) hle hlt
          have hnext := next_le_of_onward c.task fun i hi => hk₂ i (hk i hi)
          exact hfinish (Nat.le_trans hnext hle) ((hcalled.onward hk₂).mono hapart)
            (hcalled₂.mono hapart) hcalled₃ (hapart _ (hk₂ _ hroot)) hnodes

end Refused

/-! ## Runs -/

/-- The operation on instances. A taker is not held here, and its number is of no account. -/
def Operation.numbered : Operation κ τ → Operation (Numbered κ) (Instance τ)
  | tick trace => tick trace
  | stop taker => stop (taker.map fun t => ⟨t, 0⟩)
  | suspend taker => suspend (taker.map fun t => ⟨t, 0⟩)
  | fail reason => fail reason
  | reset => reset
  | change f => change fun k => { k with context := f k.context }
  | alter f => alter fun i => { i with task := f i.task }

theorem Operation.numbered_leaves_drawn (op : Operation κ τ) : op.numbered.Leaves Drawn := by
  cases op with
  | change f => exact fun _ _ => id
  | alter f => exact fun _ _ => id
  | _ => trivial

theorem Operation.numbered_leaves_apart (op : Operation κ τ) (j : Nat) :
    op.numbered.Leaves (Apart j) := by
  cases op with
  | change f => exact fun _ _ => id
  | alter f => exact fun _ _ => id
  | _ => trivial

variable [Task κ τ]

theorem shows_numbered (op : Operation κ τ) :
    Numbered.guise.Shows (op.numbered : Operation (Numbered κ) (Instance τ)) op := by
  have hnumbered : op.numbered = op.disguised (fun t => (⟨t, 0⟩ : Instance τ))
      (fun f k => { k with context := f k.context }) (fun f i => { i with task := f i.task }) := by
    cases op <;> rfl
  rw [hnumbered]
  exact Guise.shows_disguised (fun _ => rfl) (fun _ _ => rfl) (fun _ _ => rfl) op

theorem performAll_tracks (s : Spine (Instance τ)) (ops : List (Operation κ τ)) (k : Numbered κ) :
    Act.Tracks Happening.plain (s.performAll (ops.map Operation.numbered))
      (s.plain.performAll ops) k
      fun s' s => s'.plain = s := by
  rw [Happening.plain_eq_map]
  exact Act.tracks_iff.mpr (Numbered.guise.performAll_matches shows_numbered s ops)

omit [Task κ τ] in
theorem callsOf_of_called {j : Nat} {k : Numbered κ} {trail : List (Happening (Instance τ))}
    (h : Called (Apart j) k trail) : callsOf j trail = [] := by
  refine List.filterMap_eq_nil_iff.mpr fun x hx => ?_
  have hcallee := h x hx
  cases x with
  | started t => exact if_neg (hcallee t rfl).1
  | ticked t => exact if_neg (hcallee t rfl).1
  | stopped t taker => exact if_neg (hcallee t rfl).1
  | _ => rfl

/-- Take any run of operations on a root, a tick in it, and what is done afterwards. The tick keeps
to the rule of continuity on every level. If the instances in the run are numbered, no hook of a
candidate that was refused in the tick is called, neither in it nor before or after. -/
theorem continuity (t : τ) (before after : List (Operation κ τ)) (trace : Trace) (k : κ) :
    ((ofTask t).performAll before).Ensures k fun s k₁ trail₁ =>
      (s.tick trace).Ensures k₁ fun r k₂ trail₂ =>
        (∃ refused, Ticked s k₁ r.1 k₂ trail₂ refused) ∧
          (r.1.performAll after).Ensures k₂ fun _ _ trail₃ => ∃ d₁ d₂ d₃,
            (ofTask (⟨t, 0⟩ : Instance τ)).performAll (before.map Operation.numbered)
              { context := k, next := 1 } = .ok d₁ ∧
            d₁.value.tick trace d₁.context = .ok d₂ ∧
            d₂.value.1.performAll (after.map Operation.numbered) d₂.context = .ok d₃ ∧
            d₁.trail.map Happening.plain = trail₁ ∧ d₂.trail.map Happening.plain = trail₂ ∧
            d₃.trail.map Happening.plain = trail₃ ∧
            ∃ refused, Ticked d₁.value d₁.context d₂.value.1 d₂.context d₂.trail refused ∧
              ∀ c ∈ refused, callsOf c.number (d₁.trail ++ d₂.trail ++ d₃.trail) = [] := by
  apply (performAll_kempt (resting_ofTask t).sound.kempt before k).ran.imp
  intro s k₁ trail₁ h₁
  obtain ⟨hrun₁, hs⟩ := h₁
  apply (tickWithin_ticked depthLimit hs trace k₁).ran.imp
  intro r k₂ trail₂ h₂
  obtain ⟨hrun₂, -, -, -, hticked⟩ := h₂
  refine ⟨hticked, (Act.ensures_run _ k₂).imp ?_⟩
  intro s₃ k₃ trail₃ hrun₃
  -- the same run with numbers
  obtain ⟨d₁, hd₁, rfl, rfl, htrail₁⟩ :=
    (performAll_tracks (ofTask ⟨t, 0⟩) before { context := k, next := 1 }).of_ok hrun₁
  obtain ⟨d₂, hd₂, rfl, rfl, htrail₂⟩ := (tick_tracks d₁.value trace).of_ok hrun₂
  obtain ⟨d₃, hd₃, -, -, htrail₃⟩ := (performAll_tracks d₂.value.1 after d₂.context).of_ok hrun₃
  refine ⟨d₁, d₂, d₃, hd₁, hd₂, hd₃, htrail₁, htrail₂, htrail₃, ?_⟩
  -- what is known of the numbers in it
  have hkempt := (resting_ofTask (⟨t, 0⟩ : Instance τ)).sound.kempt
  have hdrawn : ∀ op ∈ before.map Operation.numbered, op.Leaves Drawn := by
    simpa using fun op _ => op.numbered_leaves_drawn
  have hroot : Have Drawn { context := k, next := 1 } (ofTask (⟨t, 0⟩ : Instance τ)).nodes :=
    have_cons.mpr ⟨Nat.one_pos, have_nil⟩
  obtain ⟨-, hcalled₁, hnodes₁⟩ :=
    (performAll_lasts hkempt lasting_drawn hdrawn hroot).of_ok hd₁
  have hs₁ := (performAll_kempt hkempt _ _).of_ok hd₁
  obtain ⟨hs₂, -, -, refused, hticked⟩ := (tickWithin_ticked depthLimit hs₁ trace _).of_ok hd₂
  refine ⟨refused, hticked, fun c hc => ?_⟩
  obtain ⟨hle, hcalled₂, hnodes₂⟩ := hticked.apart hnodes₁ c hc
  have hlt : c.number < d₂.context.next := (hnodes₂ _ List.mem_cons_self).2
  have hapart : ∀ op ∈ after.map Operation.numbered, op.Leaves (Apart c.number) := by
    simpa using fun op _ => op.numbered_leaves_apart c.number
  obtain ⟨hk, hcalled₃, -⟩ :=
    (performAll_lasts hs₂.kempt (lasting_apart c.number) hapart hnodes₂).of_ok hd₃
  refine callsOf_of_called (k := d₃.context) ?_
  rw [called_append, called_append]
  exact ⟨⟨(hcalled₁.mono (apart_of_drawn hle hlt)).onward hk, hcalled₂.onward hk⟩, hcalled₃⟩

end Spine

end Arbiter
