import Arbiter.Agent.UserChain
import Arbiter.Proofs.Chain.Sound

/-! Visits of tasks to the user chain. A visit begins when a request is accepted and ends when its
root leaves; its callback is pending in between and answered at the end, with how the root left. -/

namespace Arbiter

/-! ## Visits -/

/-- The callbacks of the roots that a chain has held, as they came with the requests. -/
structure Visits where
  /-- Those of the roots that left, with how they left, in order. -/
  past : List (Option Callback × Outcome) := []
  /-- That of the root that is held, if one is. -/
  present : Option (Option Callback) := none
  deriving DecidableEq

namespace Visits

def depart (v : Visits) : Option Outcome → Visits
  | none => v
  | some o => { past := v.past ++ (v.present.map fun callback => (callback, o)).toList }

def arrive (v : Visits) : Option (Option Callback) → Visits
  | none => v
  | some callback => { v with present := some callback }

/-- The callbacks that are due to have been answered, with their answers. -/
def answers (v : Visits) : List (Callback × Outcome) :=
  v.past.filterMap fun p => p.1.map fun callback => (callback, p.2)

/-- The callback that is due to be pending. -/
def pending (v : Visits) : Option Callback := v.present.join

theorem answers_depart (v : Visits) (o : Outcome) :
    (v.depart (some o)).answers =
      v.answers ++ (v.pending.map fun callback => (callback, o)).toList := by
  unfold answers pending depart
  rw [List.filterMap_append]
  congr 1
  cases v.present with
  | none => rfl
  | some callback => cases callback <;> rfl

end Visits

namespace UserChain

variable {τ : Type} [Task World τ]

/-! ## Steps of a user chain -/

inductive Step (τ : Type) where
  | request (task : τ) (callback : Option Callback)
  | cancel
  | signalIdle
  | tick (trace : Trace)
  /-- Control moves to the chain `next`, or to none. -/
  | interrupt (next : Option String)
  | stop
  /-- The world changes by itself. -/
  | change (f : World → World)

/-- How the root that is held leaves in a step, as far as the inner chain tells: replaced by a task
that it does not serve, cancelled, or ended by a tick. -/
def departure (c : UserChain τ) (w : World) : Step τ → Option Outcome
  | .request t _ => if c.hasTask && !c.inner.isServing t then some .cancelled else none
  | .cancel => if c.hasTask then some .cancelled else none
  | .tick trace =>
    match c.inner.tick trace w with
    | .error _ => none
    | .ok d => d.value.1.outcome
  | _ => none

/-- Whether an idle task follows a root that left in the given way. -/
def idleFollows (c : UserChain τ) : Option Outcome → Bool
  | none => false
  | some o => c.idleWhenInactive && !c.runningIdle && o != .cancelled

def arrival (c : UserChain τ) (w : World) : Step τ → Option (Option Callback)
  | .request t callback => if c.inner.isServing t then none else some callback
  | .tick trace => if c.idleFollows (c.departure w (.tick trace)) then some none else none
  | _ => none

variable [Idle τ]

def perform (c : UserChain τ) : Step τ → Act World (Happening τ) (UserChain τ)
  | .request t callback => do
    let (_, c) ← c.run t callback
    pure c
  | .cancel => do
    let (_, c) ← c.cancel
    pure c
  | .signalIdle => pure c.signalIdle
  | .tick trace => do
    let (c, _) ← c.tick trace
    pure c
  | .interrupt next => Chain.interrupt c next
  | .stop => Chain.stop c
  | .change f => do
    Act.modify f
    pure c

def performAll (c : UserChain τ) (v : Visits) :
    List (Step τ) → Act World (Happening τ) (UserChain τ × Visits)
  | [] => pure (c, v)
  | step :: rest => do
    let w ← Act.get
    let c' ← c.perform step
    c'.performAll ((v.depart (c.departure w step)).arrive (c.arrival w step)) rest

/-! ## Answers -/

def answering (c : UserChain τ) (o : Outcome) : UserChain τ :=
  { c with
    callback := none
    answered := c.answered ++ (c.callback.map fun callback => (callback, o)).toList }

omit [Task World τ] [Idle τ] in
theorem answer_ensures (c : UserChain τ) (o : Outcome) (w : World) :
    (c.answer o).Ensures w fun c' w' _ => c' = c.answering o ∧ w' = w := by
  obtain ⟨inner, callback, startedAt, runningIdle, nextIsIdle, idleWhenInactive, answered⟩ := c
  cases callback with
  | none => exact Act.meets_pure ⟨by simp [answering], rfl⟩
  | some callback =>
      apply Act.Meets.bind (Act.meets_tellAll (Q := fun _ w' _ => w' = w) rfl)
      intro _ w' t h
      exact Act.meets_pure ⟨rfl, h⟩

/-- Between steps no end of a root is left to be told, and only a root that is held has a callback
pending. -/
structure Settled (c : UserChain τ) : Prop where
  sound : Chain.Sound c.inner
  told : c.inner.outcome = none
  held : c.inner.spine = none → c.callback = none

omit [Idle τ] in
/-- A refused request changes nothing. An accepted one installs its task and its callback and
answers the callback of the root that it replaces. -/
theorem run_ensures {c : UserChain τ} (hc : c.Settled) (t : τ) (callback : Option Callback)
    (w : World) :
    (c.run t callback).Ensures w fun r _ _ =>
      c.inner.isServing t = true ∧ r = (false, c) ∨
        c.inner.isServing t = false ∧ ∃ startedAt,
          r = (true, { c.answering .cancelled with
            inner := { c.inner with spine := some (Spine.ofTask t), outcome := none }
            callback, startedAt, runningIdle := c.nextIsIdle, nextIsIdle := false }) := by
  rw [run]
  apply (SingleChain.run_ensures hc.sound t w).bind
  intro r w₁ t₁ h
  obtain ⟨-, ⟨hr, hs⟩ | ⟨hr, hs⟩⟩ := h
  · rw [hr]
    exact Act.meets_pure (Or.inl ⟨hs, rfl⟩)
  · rw [hr]
    dsimp only [SingleChain.takeOutcome]
    rw [if_pos rfl]
    apply (answer_ensures _ .cancelled w₁).bind
    intro c₂ w₂ t₂ h
    obtain ⟨hc₂, -⟩ := h
    apply Act.Meets.get_bind
    rw [hc₂]
    split
    · exact Act.Meets.note_bind (Act.meets_pure (Or.inr ⟨hs, _, rfl⟩))
    · exact Act.meets_pure (Or.inr ⟨hs, _, rfl⟩)

/-- A root that has left: its callback is answered, and an idle task follows it if that is due. -/
theorem conclude_ensures {c : UserChain τ} (hnone : c.inner.spine = none)
    (htold : c.inner.outcome = none) (o : Outcome) (w : World) :
    (c.conclude o).Ensures w fun c' _ _ =>
      c.idleFollows (some o) = false ∧ c' = { c.answering o with runningIdle := false } ∨
        c.idleFollows (some o) = true ∧ ∃ startedAt,
          c' = { c.answering o with
            inner := { c.inner with spine := some (Spine.ofTask Idle.idle) }
            startedAt, runningIdle := true, nextIsIdle := false } := by
  rw [conclude]
  apply (answer_ensures c o w).bind
  intro c₁ w₁ t₁ h
  obtain ⟨rfl, -⟩ := h
  dsimp only
  split
  case isFalse h => exact Act.meets_pure (Or.inl ⟨by simpa [idleFollows] using h, rfl⟩)
  case isTrue h =>
    have hsettled :
        Settled ({ c.answering o with runningIdle := false } : UserChain τ).signalIdle := by
      refine ⟨fun s hs => ?_, htold, fun _ => rfl⟩
      cases hnone.symm.trans hs
    apply (run_ensures hsettled Idle.idle none w₁).bind
    intro r w₂ t₂ h'
    rcases h' with ⟨hs, -⟩ | ⟨-, startedAt, hr⟩
    · have hinner : SingleChain.isServing c.inner Idle.idle = true := hs
      simp [SingleChain.isServing, hnone] at hinner
    · rw [hr]
      refine Act.meets_pure (Or.inr ⟨h, startedAt, ?_⟩)
      simp [answering, signalIdle, htold]

theorem complete_ensures {c : UserChain τ} (hnone : c.inner.spine = none)
    (htold : c.inner.outcome = none) (o : Outcome) (w : World) :
    (c.complete o).Ensures w fun c' _ _ =>
      c.idleFollows (some o) = false ∧ c' = { c.answering o with runningIdle := false } ∨
        c.idleFollows (some o) = true ∧ ∃ startedAt,
          c' = { c.answering o with
            inner := { c.inner with spine := some (Spine.ofTask Idle.idle) }
            startedAt, runningIdle := true, nextIsIdle := false } := by
  rw [complete]
  apply Act.Meets.get_bind
  split
  · exact Act.Meets.note_bind (conclude_ensures hnone htold o w)
  · exact conclude_ensures hnone htold o w

theorem cancel_ensures {c : UserChain τ} (hc : c.Settled) (w : World) :
    c.cancel.Ensures w fun r _ _ =>
      c.inner.spine = none ∧ r = (false, c) ∨
        c.inner.spine ≠ none ∧ r = (true, { c.answering .cancelled with
          inner := { c.inner with spine := none, outcome := none }, runningIdle := false }) := by
  rw [cancel]
  apply (SingleChain.cancel_ensures hc.sound w).bind
  intro r w₁ t₁ h
  obtain ⟨-, ⟨hn, hr⟩ | ⟨hs, hr⟩⟩ := h
  · rw [hr]
    exact Act.meets_pure (Or.inl ⟨hn, rfl⟩)
  · rw [hr]
    apply Act.Meets.bind (complete_ensures rfl rfl .cancelled w₁)
    intro c₂ w₂ t₂ h
    rcases h with ⟨-, rfl⟩ | ⟨hf, -⟩
    · exact Act.meets_pure (Or.inr ⟨hs, rfl⟩)
    · simp [idleFollows] at hf

/-- What a tick does to a chain that holds the root `s`: the root stays and works, or it leaves, is
answered for and is followed by an idle task if that is due. -/
inductive Ticked (c : UserChain τ) (w : World) (trace : Trace) (s : Spine τ) : UserChain τ → Prop
  | stays {s'} (hroot : SingleChain.RootTick s trace w (some s') none)
      (hd : c.departure w (.tick trace) = none) :
      Ticked c w trace s { c with inner := { c.inner with spine := some s', outcome := none } }
  | leaves {o} (hroot : SingleChain.RootTick s trace w none (some o))
      (hd : c.departure w (.tick trace) = some o) (hidle : c.idleFollows (some o) = false) :
      Ticked c w trace s { c.answering o with
        inner := { c.inner with spine := none, outcome := none }, runningIdle := false }
  | idles {o startedAt} (hroot : SingleChain.RootTick s trace w none (some o))
      (hd : c.departure w (.tick trace) = some o) (hidle : c.idleFollows (some o) = true) :
      Ticked c w trace s { c.answering o with
        inner := { c.inner with spine := some (Spine.ofTask Idle.idle), outcome := none }
        startedAt, runningIdle := true, nextIsIdle := false }

theorem tick_ensures {c : UserChain τ} (hc : c.Settled) (trace : Trace) (w : World) :
    (c.tick trace).Ensures w fun r _ _ =>
      c.inner.spine = none ∧ c.departure w (.tick trace) = none ∧ r.1 = c ∨
        ∃ s, c.inner.spine = some s ∧ Ticked c w trace s r.1 := by
  rw [tick]
  apply ((SingleChain.tick_ensures hc.sound trace w).and (Act.ensures_run _ w)).bind
  intro r w₁ t₁ h
  obtain ⟨inner, trace'⟩ := r
  obtain ⟨⟨-, h⟩, hrun⟩ := h
  have hd : c.departure w (.tick trace) = inner.outcome := by
    simp only [departure, hrun]
  rcases h with ⟨hn, hinner⟩ | ⟨s, hs, s?, o?, hroot, hinner⟩
  · have hinner : inner = c.inner := hinner
    rw [hinner] at hd ⊢
    rw [hc.told] at hd
    simp only [hc.told]
    exact Act.meets_pure (Or.inl ⟨hn, hd, rfl⟩)
  · have hinner : inner = { c.inner with spine := s?, outcome := o? <|> c.inner.outcome } := hinner
    rw [hinner] at hd ⊢
    rw [hc.told] at hd ⊢
    cases o? with
    | none =>
        cases s? with
        | none => cases hroot
        | some s' =>
            exact Act.meets_pure (Or.inr ⟨s, hs, .stays hroot hd⟩)
    | some o =>
        cases s? with
        | some s' => cases hroot
        | none =>
            apply Act.Meets.bind (complete_ensures rfl rfl o w₁)
            intro c₂ w₂ t₂ h
            rcases h with ⟨hf, rfl⟩ | ⟨hf, startedAt, rfl⟩
            · exact Act.meets_pure (Or.inr ⟨s, hs, .leaves hroot hd hf⟩)
            · exact Act.meets_pure (Or.inr ⟨s, hs, .idles hroot hd hf⟩)

theorem stop_ensures {c : UserChain τ} (hc : c.Settled) (w : World) :
    (Chain.stop c).Ensures w fun c' _ _ =>
      ∃ spine, c' = { c with inner := { c.inner with spine } } ∧ spine.isSome = c.hasTask ∧
        Chain.Resting c'.inner := by
  unfold Chain.stop Chain.onSpine
  split
  case h_1 h =>
    have h : c.inner.spine = none := h
    refine Act.meets_pure ⟨c.inner.spine, rfl, rfl, fun s hs => ?_⟩
    cases h.symm.trans hs
  case h_2 s h =>
    have h : c.inner.spine = some s := h
    apply (Spine.stop_ensures none (hc.sound s h) w).bind
    intro s' w' t hs'
    refine Act.meets_pure ⟨some s', ?_, by simp [hasTask, SingleChain.hasTask, h], ?_⟩
    · show { c with inner := { c.inner with spine := c.inner.spine.map fun _ => s' } } = _
      rw [h]
      rfl
    · intro s'' hs''
      have hs'' : c.inner.spine.map (fun _ => s') = some s'' := hs''
      rw [h] at hs''
      cases hs''
      exact hs'.resting

theorem interrupt_ensures {c : UserChain τ} (hc : c.Settled) (next : Option String) (w : World) :
    (Chain.interrupt c next).Ensures w fun c' _ _ =>
      ∃ spine, c' = { c with inner := { c.inner with spine } } ∧ spine.isSome = c.hasTask ∧
        Chain.Resting c'.inner := by
  rw [Chain.interrupt]
  exact Act.Meets.note_bind (stop_ensures hc w)

/-! ## The account of the visits -/

/-- The chain answers as the visits say. -/
structure Follows (idle : Bool) (c : UserChain τ) (v : Visits) : Prop where
  settled : c.Settled
  answered : c.answered = v.answers
  callback : c.callback = v.pending
  held : c.hasTask = v.present.isSome
  idle : c.idleWhenInactive = idle

omit [Idle τ] in
theorem follows_ofIdle (idle : Bool) : (ofIdle idle : UserChain τ).Follows idle {} :=
  ⟨⟨nofun, rfl, fun _ => rfl⟩, rfl, rfl, rfl, rfl⟩

variable {idle : Bool} {c : UserChain τ} {v : Visits}

omit [Idle τ] in
/-- A root that leaves is answered for once. -/
theorem Follows.answering (h : c.Follows idle v) (o : Outcome) :
    (c.answering o).answered = (v.depart (some o)).answers := by
  rw [Visits.answers_depart, ← h.answered, ← h.callback]
  rfl

omit [Idle τ] in
theorem Follows.answering_of_none (h : c.Follows idle v) (hn : c.inner.spine = none)
    (o : Outcome) : (c.answering o).answered = v.answers := by
  have hcallback := h.settled.held hn
  simp [UserChain.answering, hcallback, h.answered]

theorem run_follows (h : c.Follows idle v) (t : τ) (callback : Option Callback) (w : World) :
    (c.perform (.request t callback)).Ensures w fun c' _ _ =>
      c'.Follows idle ((v.depart (c.departure w (.request t callback))).arrive
        (c.arrival w (.request t callback))) := by
  rw [perform]
  apply (run_ensures h.settled t callback w).bind
  intro r w₁ t₁ hr
  rcases hr with ⟨hs, rfl⟩ | ⟨hs, startedAt, rfl⟩
  · apply Act.meets_pure
    simpa [departure, arrival, hs, Visits.depart, Visits.arrive] using h
  · have hsound : Chain.Sound
        ({ c.inner with spine := some (Spine.ofTask t), outcome := none } :
          SingleChain World τ) := by
      intro s hs'
      cases hs'
      exact (Spine.resting_ofTask t).sound
    have harrival : c.arrival w (.request t callback) = some callback := by simp [arrival, hs]
    rw [harrival]
    refine Act.meets_pure ⟨⟨hsound, rfl, nofun⟩, ?_, rfl, rfl, h.idle⟩
    by_cases ht : c.hasTask = true
    · have hd : c.departure w (.request t callback) = some .cancelled := by
        simp [departure, ht, hs]
      rw [hd]
      exact h.answering .cancelled
    · have hd : c.departure w (.request t callback) = none := by simp [departure, ht]
      rw [hd]
      refine h.answering_of_none ?_ .cancelled
      simpa [hasTask, SingleChain.hasTask] using ht

theorem cancel_follows (h : c.Follows idle v) (w : World) :
    (c.perform .cancel).Ensures w fun c' _ _ =>
      c'.Follows idle ((v.depart (c.departure w .cancel)).arrive (c.arrival w .cancel)) := by
  rw [perform]
  apply (cancel_ensures h.settled w).bind
  intro r w₁ t₁ hr
  rcases hr with ⟨hn, rfl⟩ | ⟨hs, rfl⟩
  · apply Act.meets_pure
    simpa [departure, arrival, hasTask, SingleChain.hasTask, hn, Visits.depart, Visits.arrive]
      using h
  · have hd : c.departure w .cancel = some .cancelled := by
      simp [departure, hasTask, SingleChain.hasTask, Option.isSome_iff_ne_none, hs]
    rw [hd]
    exact Act.meets_pure ⟨⟨nofun, rfl, fun _ => rfl⟩, h.answering .cancelled, rfl, rfl, h.idle⟩

theorem tick_follows (h : c.Follows idle v) (trace : Trace) (w : World) :
    (c.perform (.tick trace)).Ensures w fun c' _ _ =>
      c'.Follows idle ((v.depart (c.departure w (.tick trace))).arrive
        (c.arrival w (.tick trace))) := by
  rw [perform]
  apply (tick_ensures h.settled trace w).bind
  intro r w₁ t₁ hr
  obtain ⟨c', trace'⟩ := r
  apply Act.meets_pure
  rcases hr with ⟨-, hd, hr⟩ | ⟨s, hs, hr⟩
  · obtain rfl : c' = c := hr
    simpa [arrival, hd, idleFollows, Visits.depart, Visits.arrive] using h
  · dsimp only at hr ⊢
    cases hr with
    | @stays s' hroot hd =>
        have hsound : Chain.Sound
            ({ c.inner with spine := some s', outcome := none } : SingleChain World τ) := by
          intro s'' hs''
          cases hs''
          exact (hroot.started (h.settled.sound s hs)).1
        have hv :
            (v.depart (c.departure w (.tick trace))).arrive (c.arrival w (.tick trace)) = v := by
          simp [arrival, hd, idleFollows, Visits.depart, Visits.arrive]
        rw [hv]
        refine ⟨⟨hsound, rfl, nofun⟩, h.answered, h.callback, ?_, h.idle⟩
        rw [← h.held]
        simp [hasTask, SingleChain.hasTask, hs]
    | @leaves o hroot hd hidle =>
        simp only [arrival, hd, hidle]
        exact ⟨⟨nofun, rfl, fun _ => rfl⟩, h.answering o, rfl, rfl, h.idle⟩
    | @idles o startedAt hroot hd hidle =>
        have hsound : Chain.Sound ({ c.inner with
            spine := some (Spine.ofTask Idle.idle), outcome := none } : SingleChain World τ) := by
          intro s' hs'
          cases hs'
          exact (Spine.resting_ofTask _).sound
        simp only [arrival, hd, hidle]
        exact ⟨⟨hsound, rfl, nofun⟩, h.answering o, rfl, rfl, h.idle⟩

theorem perform_follows (h : c.Follows idle v) (step : Step τ) (w : World) :
    (c.perform step).Ensures w fun c' _ _ =>
      c'.Follows idle ((v.depart (c.departure w step)).arrive (c.arrival w step)) := by
  have hstopped : ∀ {c' : UserChain τ}, (∃ spine, c' = { c with inner := { c.inner with spine } } ∧
      spine.isSome = c.hasTask ∧ Chain.Resting c'.inner) → c'.Follows idle v := by
    intro c' hc'
    obtain ⟨spine, rfl, hspine, hrest⟩ := hc'
    refine ⟨⟨hrest.sound, h.settled.told, fun hn => h.settled.held ?_⟩, h.answered, h.callback,
      hspine.trans h.held, h.idle⟩
    have hn : spine = none := hn
    rw [hn] at hspine
    simpa [hasTask, SingleChain.hasTask] using hspine.symm
  cases step with
  | request t callback => exact run_follows h t callback w
  | cancel => exact cancel_follows h w
  | signalIdle =>
      have hs := h.settled
      exact Act.meets_pure
        ⟨⟨hs.sound, hs.told, hs.held⟩, h.answered, h.callback, h.held, h.idle⟩
  | tick trace => exact tick_follows h trace w
  | interrupt next => exact (interrupt_ensures h.settled next w).imp fun _ _ _ h' => hstopped h'
  | stop => exact (stop_ensures h.settled w).imp fun _ _ _ h' => hstopped h'
  | change f =>
      apply Act.Meets.bind (Act.meets_modify (Q := fun _ _ _ => True) trivial)
      intro _ w' t _
      exact Act.meets_pure h

theorem performAll_follows (h : c.Follows idle v) (steps : List (Step τ)) (w : World) :
    (c.performAll v steps).Ensures w fun r _ _ => r.1.Follows idle r.2 := by
  induction steps generalizing c v w with
  | nil => exact Act.meets_pure h
  | cons step steps ih =>
      rw [performAll]
      refine Act.Meets.get_bind ((perform_follows h step w).bind ?_)
      intro c' w' t h'
      exact ih h' w'

omit [Idle τ] in
theorem Settled.rootTick (hc : c.Settled) {w : World} {trace : Trace} {o : Outcome}
    (hd : c.departure w (.tick trace) = some o) :
    ∃ s, c.inner.spine = some s ∧ SingleChain.RootTick s trace w none (some o) := by
  rw [departure] at hd
  cases hrun : c.inner.tick trace w with
  | error e => simp [hrun] at hd
  | ok d =>
      simp only [hrun] at hd
      obtain ⟨-, ⟨-, hinner⟩ | ⟨s, hs, s?, o?, hroot, hinner⟩⟩ :=
        (SingleChain.tick_ensures hc.sound trace w).of_ok hrun
      · simp [hinner, hc.told] at hd
      · have ho : o? = some o := by simpa [hinner, hc.told] using hd
        subst ho
        cases s? with
        | some s' => cases hroot
        | none => exact ⟨s, hs, hroot⟩

/-- If wanted, a tick that ends a root that is not the idle one leaves the idle one in its place. -/
theorem Follows.tick_idles (h : c.Follows true v) (hr : c.runningIdle = false) (trace : Trace)
    (w : World) (hd : c.departure w (.tick trace) ≠ none) :
    (c.tick trace).Ensures w fun r _ _ =>
      r.1.inner.spine = some (Spine.ofTask Idle.idle) ∧ r.1.isRunningIdle = true := by
  apply (tick_ensures h.settled trace w).imp
  intro r w' t hr'
  obtain ⟨c', trace'⟩ := r
  rcases hr' with ⟨-, hn, -⟩ | ⟨s, -, hr'⟩
  · exact absurd hn hd
  · dsimp only at hr' ⊢
    cases hr' with
    | stays _ hn => exact absurd hn hd
    | leaves hroot _ hidle => cases hroot <;> simp [idleFollows, h.idle, hr] at hidle
    | idles => exact ⟨rfl, rfl⟩

/-- At every moment of every run the callbacks that were answered are those of the roots that left,
each with how its root left, and the pending one is that of the root that is held. A request is
refused without a trace or installs its task with its callback; a tick ends the root as finished or
as failed with its report, and an idle root follows if wanted; a cancelled root is followed by none;
and a stop or the loss of control leaves the root held and the callbacks as they are. -/
theorem callbacks_answered_once (idle : Bool) (steps : List (Step τ)) (w : World)
    (d : Done World (Happening τ) (UserChain τ × Visits))
    (h : (ofIdle idle : UserChain τ).performAll {} steps w = .ok d) :
    (d.value.1.answered = d.value.2.answers ∧ d.value.1.callback = d.value.2.pending ∧
        d.value.1.hasTask = d.value.2.present.isSome) ∧
      (∀ t callback e, d.value.1.run t callback d.context = .ok e →
        d.value.1.inner.isServing t = true ∧ e.value = (false, d.value.1) ∨
          d.value.1.inner.isServing t = false ∧ e.value.1 = true ∧
            e.value.2.inner.spine = some (Spine.ofTask t) ∧ e.value.2.callback = callback) ∧
      (∀ trace o, d.value.1.departure d.context (.tick trace) = some o →
        ∃ s, d.value.1.inner.spine = some s ∧
          SingleChain.RootTick s trace d.context none (some o)) ∧
      (∀ trace e, d.value.1.tick trace d.context = .ok e → idle = true →
        d.value.1.runningIdle = false → d.value.1.departure d.context (.tick trace) ≠ none →
        e.value.1.inner.spine = some (Spine.ofTask Idle.idle) ∧ e.value.1.isRunningIdle = true) ∧
      (∀ e, d.value.1.cancel d.context = .ok e → e.value.2.inner.spine = none) ∧
      ∀ e, (d.value.1.perform .stop d.context = .ok e ∨
          ∃ next, d.value.1.perform (.interrupt next) d.context = .ok e) →
        e.value.answered = d.value.1.answered ∧ e.value.callback = d.value.1.callback ∧
          e.value.hasTask = d.value.1.hasTask := by
  have hf := (performAll_follows (follows_ofIdle idle) steps w).of_ok h
  refine ⟨⟨hf.answered, hf.callback, hf.held⟩, ?_, ?_, ?_, ?_, ?_⟩
  · intro t callback e he
    rcases (run_ensures hf.settled t callback d.context).of_ok he with h' | ⟨hs, startedAt, hr⟩
    · exact Or.inl h'
    · rw [hr]
      exact Or.inr ⟨hs, rfl, rfl, rfl⟩
  · exact fun trace o hd => hf.settled.rootTick hd
  · intro trace e he hidle hr hd
    subst hidle
    exact (hf.tick_idles hr trace d.context hd).of_ok he
  · intro e he
    rcases (cancel_ensures hf.settled d.context).of_ok he with ⟨hn, hr⟩ | ⟨-, hr⟩
    · rw [hr]
      exact hn
    · rw [hr]
  · intro e he
    have hstopped : ∃ spine, e.value = { d.value.1 with inner := { d.value.1.inner with spine } } ∧
        spine.isSome = d.value.1.hasTask ∧ Chain.Resting e.value.inner := by
      rcases he with he | ⟨next, he⟩
      · exact (stop_ensures hf.settled d.context).of_ok he
      · exact (interrupt_ensures hf.settled next d.context).of_ok he
    obtain ⟨spine, hvalue, hspine, -⟩ := hstopped
    rw [hvalue]
    exact ⟨rfl, rfl, hspine⟩

theorem callbacks_answered_once_finished :
    ∃ d, (ofIdle true : UserChain Job).performAll {}
        [.request (.kill 1) (some (.tagged "fight")), .tick {}] {} = .ok d ∧
      d.value.1.answered = [(.tagged "fight", .finished)] ∧ d.value.1.callback = none := by
  obtain ⟨d, hd, hv⟩ := Act.exists_ok (m := (ofIdle true : UserChain Job).performAll {}
      [.request (.kill 1) (some (.tagged "fight")), .tick {}]) (k := {})
    (p := fun d => d.value.2.answers == [(.tagged "fight", .finished)] &&
      d.value.2.pending == none) (by decide +kernel)
  obtain ⟨⟨hanswered, hcallback, -⟩, -⟩ := callbacks_answered_once _ _ _ d hd
  rw [Bool.and_eq_true, beq_iff_eq, beq_iff_eq] at hv
  exact ⟨d, hd, hanswered.trans hv.1, hcallback.trans hv.2⟩

end UserChain

end Arbiter
