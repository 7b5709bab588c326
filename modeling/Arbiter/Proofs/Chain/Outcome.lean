import Arbiter.Job.Hooks
import Arbiter.Proofs.Chain.Sound

/-! Roots come to a single chain with the requests it accepts. Each leaves once, and how it left
is kept until it is taken or the next root comes. -/

namespace Arbiter.SingleChain

variable {κ τ : Type}

/-! ## Steps -/

/-- What can be done to a single chain. -/
inductive Step (κ τ : Type) where
  | request (task : τ)
  | tick (trace : Trace)
  | cancel
  | stop
  /-- Control moves to the chain `next`, or to none. -/
  | interrupt (next : Option String)
  /-- The root is failed from outside. -/
  | failRoot (reason : String)
  | takeOutcome
  /-- Others change the context. -/
  | change (f : κ → κ)

inductive Answer where
  | none
  | request (accepted : Bool)
  | outcome (taken : Option Outcome)
  deriving DecidableEq

/-- Whether a step can do nothing to a chain without a root. -/
def Step.NeedsRoot : Step κ τ → Prop
  | request _ | takeOutcome | change _ => False
  | _ => True

def installing (c : SingleChain κ τ) (t : τ) : SingleChain κ τ :=
  { c with spine := some (Spine.ofTask t), outcome := none }

def leaving (c : SingleChain κ τ) (o : Outcome) : SingleChain κ τ :=
  { c with spine := none, outcome := some o }

def holding (c : SingleChain κ τ) (s : Spine τ) : SingleChain κ τ := { c with spine := some s }

variable [Task κ τ]

def perform (c : SingleChain κ τ) : Step κ τ → Act κ (Happening τ) (Answer × SingleChain κ τ)
  | .request t => do
    let (accepted, c) ← c.run t
    pure (.request accepted, c)
  | .tick trace => do
    let (c, _) ← c.tick trace
    pure (.none, c)
  | .cancel => do
    let (_, c) ← c.cancel
    pure (.none, c)
  | .stop => do
    let c ← Chain.stop c
    pure (.none, c)
  | .interrupt next => do
    let c ← Chain.interrupt c next
    pure (.none, c)
  | .failRoot reason => do
    let c ← Chain.onSpine c (Spine.fail reason)
    pure (.none, c)
  | .takeOutcome => pure (.outcome c.takeOutcome.1, c.takeOutcome.2)
  | .change f => do
    Act.modify f
    pure (.none, c)

/-- All that a step can do. A root leaves when it is replaced by a task that it does not serve, is
cancelled, or is ended by a tick; the chain keeps how it left, unless the next root is there. -/
inductive Stepped (c : SingleChain κ τ) (k : κ) : Step κ τ → Answer → SingleChain κ τ → Prop where
  /-- The root serves the request already. -/
  | refused {s : Spine τ} {t : τ} (hs : c.spine = some s)
      (hequal : Task.isEqual t s.root.task = true) :
      Stepped c k (.request t) (.request false) c
  | installed {t : τ} (hs : c.spine = none) :
      Stepped c k (.request t) (.request true) (c.installing t)
  | replaced {s : Spine τ} {t : τ} (hs : c.spine = some s)
      (hother : Task.isEqual t s.root.task = false) :
      Stepped c k (.request t) (.request true) (c.installing t)
  | cancelled {s : Spine τ} (hs : c.spine = some s) :
      Stepped c k .cancel .none (c.leaving .cancelled)
  /-- The root is finished, or has failed before the tick or in it. -/
  | ended {s : Spine τ} {trace : Trace} {o : Outcome} (hs : c.spine = some s)
      (hroot : RootTick s trace k none (some o)) :
      Stepped c k (.tick trace) .none (c.leaving o)
  | worked {s s' : Spine τ} {trace : Trace} (hs : c.spine = some s)
      (hroot : RootTick s trace k (some s') none) :
      Stepped c k (.tick trace) .none (c.holding s')
  | stopped {s s' : Spine τ} {step : Step κ τ} (hs : c.spine = some s)
      (hstep : step = .stop ∨ ∃ next, step = .interrupt next) (hrest : s'.Resting)
      (hfailure : s'.root.failure = s.root.failure) :
      Stepped c k step .none (c.holding s')
  | failed {s s' : Spine τ} {reason : String} (hs : c.spine = some s) (hrest : s'.Resting)
      (hfailure : s'.root.failure = some reason) :
      Stepped c k (.failRoot reason) .none (c.holding s')
  | idle {step : Step κ τ} (hs : c.spine = none) (hstep : step.NeedsRoot) :
      Stepped c k step .none c
  | told : Stepped c k .takeOutcome (.outcome c.outcome) { c with outcome := none }
  | changed {f : κ → κ} : Stepped c k (.change f) .none c

/-! ## What a step does -/

section Steps

variable {c : SingleChain κ τ} {k : κ}

/-- A root serves a request if it is there and the task is for its unit of work. -/
theorem isServing_iff {t : τ} :
    c.isServing t = true ↔ ∃ s, c.spine = some s ∧ Task.isEqual t s.root.task = true := by
  rw [isServing]
  cases c.spine <;> simp

/-- An action on the root leaves all else of the chain as it is. -/
theorem onSpine_holding {act : Spine τ → Act κ (Happening τ) (Spine τ)}
    {P : SingleChain κ τ → Prop} (hnone : c.spine = none → P c)
    (hsome : ∀ s, c.spine = some s → (act s).Ensures k fun s' _ _ => P (c.holding s')) :
    (Chain.onSpine c act).Ensures k fun c' _ _ => P c' := by
  rw [Chain.onSpine]
  split
  case h_1 hs => exact Act.meets_pure (hnone hs)
  case h_2 s hs =>
    have hs : c.spine = some s := hs
    apply (hsome s hs).bind
    intro s' k' t hP
    have hholding : Chain.mapSpine c (fun _ => s') = c.holding s' := by
      show { c with spine := c.spine.map fun _ => s' } = _
      rw [hs]
      rfl
    rw [hholding]
    exact Act.meets_pure hP

theorem stop_stepped (hc : Chain.Sound c) {step : Step κ τ} (hroot : step.NeedsRoot)
    (hstep : step = .stop ∨ ∃ next, step = .interrupt next) :
    (Chain.stop c).Ensures k fun c' _ _ => Stepped c k step .none c' := by
  refine onSpine_holding (fun hs => .idle hs hroot) fun s hs => ?_
  exact (Spine.stop_ensures none (hc s hs) k).imp
    fun _ _ _ h => .stopped hs hstep h.resting h.failure

theorem perform_stepped (hc : Chain.Sound c) (step : Step κ τ) :
    (c.perform step).Ensures k fun r _ _ => Stepped c k step r.1 r.2 := by
  cases step with
  | request t =>
      apply (run_ensures hc t k).bind
      intro r k' u h
      obtain ⟨-, ⟨rfl, hserving⟩ | ⟨rfl, hserving⟩⟩ := h
      · obtain ⟨s, hs, hequal⟩ := isServing_iff.mp hserving
        exact Act.meets_pure (.refused hs hequal)
      · cases hs : c.spine with
        | none => exact Act.meets_pure (.installed hs)
        | some s =>
            rw [isServing, hs] at hserving
            exact Act.meets_pure (.replaced hs hserving)
  | tick trace =>
      apply (tick_ensures hc trace k).bind
      rintro ⟨c', trace'⟩ k' u ⟨-, ⟨hs, rfl⟩ | ⟨s, hs, s?, o?, hroot, rfl⟩⟩
      · exact Act.meets_pure (.idle hs trivial)
      · cases hroot with
        | working hf hd ht hf' => exact Act.meets_pure (.worked hs (.working hf hd ht hf'))
        | latched hf => exact Act.meets_pure (.ended hs (.latched hf))
        | finished hf hd => exact Act.meets_pure (.ended hs (.finished hf hd))
        | failing hf hd ht hf' => exact Act.meets_pure (.ended hs (.failing hf hd ht hf'))
  | cancel =>
      apply (cancel_ensures hc k).bind
      rintro r k' u ⟨-, ⟨hs, rfl⟩ | ⟨hne, rfl⟩⟩
      · exact Act.meets_pure (.idle hs trivial)
      · obtain ⟨s, hs⟩ := Option.ne_none_iff_exists'.mp hne
        exact Act.meets_pure (.cancelled hs)
  | stop =>
      have hstop := stop_stepped (k := k) hc (show Step.stop.NeedsRoot from trivial) (Or.inl rfl)
      exact hstop.bind fun _ _ _ h => Act.meets_pure h
  | interrupt next =>
      have hstop := stop_stepped (k := k) hc (show (Step.interrupt next).NeedsRoot from trivial)
        (Or.inr ⟨next, rfl⟩)
      exact Act.Meets.bind (Act.Meets.note_bind hstop) fun _ _ _ h => Act.meets_pure h
  | failRoot reason =>
      refine Act.Meets.bind (onSpine_holding (P := Stepped c k (.failRoot reason) .none)
        (fun hs => .idle hs trivial) fun s hs => ?_) fun _ _ _ h => Act.meets_pure h
      exact (Spine.fail_ensures reason (hc s hs) k).imp fun _ _ _ h => .failed hs h.1 h.2.2.1
  | takeOutcome => exact Act.meets_pure .told
  | change f => exact Act.Meets.bind (Act.ensures_true _ k) fun _ _ _ _ => Act.meets_pure .changed

theorem Stepped.sound {step : Step κ τ} {answer : Answer} {c' : SingleChain κ τ}
    (h : Stepped c k step answer c') (hc : Chain.Sound c) : Chain.Sound c' := by
  have hroot : ∀ {s'}, s'.Sound → Chain.Sound (c.holding s') := by
    intro s' hs' s'' h
    cases h
    exact hs'
  have hfresh : ∀ {t}, Chain.Sound (c.installing t) := by
    intro t s h
    cases h
    exact (Spine.resting_ofTask t).sound
  cases h with
  | refused | idle | told | changed => exact hc
  | installed | replaced => exact hfresh
  | cancelled | ended => exact nofun
  | worked hs h => exact hroot (h.started (hc _ hs)).1
  | stopped hs hstep hrest => exact hroot hrest.sound
  | failed hs hrest => exact hroot hrest.sound

end Steps

/-! ## The account of the roots -/

/-- What was seen of the roots of a chain. -/
structure Register (τ : Type) where
  /-- The tasks that came with the accepted requests, in order. -/
  arrivals : List τ := []
  /-- What the chain kept of each root as it left, in order; nothing of one that was replaced. -/
  departures : List (Option Outcome) := []
  /-- The outcomes that were taken, in order, each with the place of the root that left last. -/
  taken : List (Nat × Outcome) := []

namespace Register

def arrive (v : Register τ) (t : τ) : Register τ := { v with arrivals := v.arrivals ++ [t] }

/-- A root leaves, and the chain keeps what is given. -/
def depart (v : Register τ) (o : Option Outcome) : Register τ :=
  { v with departures := v.departures ++ [o] }

def take (v : Register τ) (o : Outcome) : Register τ :=
  { v with taken := v.taken ++ [(v.departures.length - 1, o)] }

/-- The register after a step that led from `c` to `c'`. A root has left if there was one and there
is none any more or a request was accepted. -/
def observe (v : Register τ) (c : SingleChain κ τ) (step : Step κ τ) (answer : Answer)
    (c' : SingleChain κ τ) : Register τ :=
  let v := if c.hasTask ∧ (answer = .request true ∨ ¬ c'.hasTask) then v.depart c'.outcome else v
  match step, answer with
  | .request t, .request true => v.arrive t
  | .takeOutcome, .outcome (some o) => v.take o
  | _, _ => v

end Register

def performAll (c : SingleChain κ τ) (v : Register τ) :
    List (Step κ τ) → Act κ (Happening τ) (SingleChain κ τ × Register τ)
  | [] => pure (c, v)
  | step :: rest => do
    let (answer, c') ← c.perform step
    c'.performAll (v.observe c step answer c') rest

/-- The register of a chain is in order: each root that came has left once or is held, an outcome is
kept only of the root that left last, and none is taken twice. -/
structure Recorded (c : SingleChain κ τ) (v : Register τ) : Prop where
  sound : Chain.Sound c
  alone : c.outcome ≠ none → c.spine = none
  balance : v.arrivals.length = v.departures.length + if c.hasTask then 1 else 0
  kept : ∀ o, c.outcome = some o → v.departures.getLast? = some (some o) ∧
    ∀ p ∈ v.taken, p.1 + 1 < v.departures.length
  taken : ∀ p ∈ v.taken, v.departures[p.1]? = some (some p.2)
  once : (v.taken.map Prod.fst).Pairwise (· < ·)

section Recorded

variable {c : SingleChain κ τ} {v : Register τ} {k : κ}

theorem recorded_of_none (hs : c.spine = none) (ho : c.outcome = none) : c.Recorded {} := by
  refine ⟨fun s h => ?_, fun _ => hs, by simp [hasTask, hs], fun o h => ?_, nofun, .nil⟩
  · cases hs.symm.trans h
  · cases ho.symm.trans h

theorem Recorded.lt (h : c.Recorded v) {p : Nat × Outcome} (hp : p ∈ v.taken) :
    p.1 < v.departures.length :=
  (List.getElem?_eq_some_iff.mp (h.taken p hp)).1

/-- What was taken of earlier roots stays as it is when another one leaves. -/
theorem Recorded.taken_depart (h : c.Recorded v) (o : Option Outcome) :
    ∀ p ∈ (v.depart o).taken, (v.depart o).departures[p.1]? = some (some p.2) := by
  intro p hp
  show (v.departures ++ [o])[p.1]? = _
  rw [List.getElem?_append_left (h.lt hp)]
  exact h.taken p hp

theorem Recorded.leaving (h : c.Recorded v) {s : Spine τ} (hs : c.spine = some s) (o : Outcome) :
    (c.leaving o).Recorded (v.depart (some o)) := by
  have hbalance := h.balance
  rw [hasTask, hs] at hbalance
  refine ⟨nofun, fun _ => rfl, ?_, ?_, h.taken_depart _, h.once⟩
  · show v.arrivals.length = (v.departures ++ [some o]).length + 0
    simpa using hbalance
  · intro o' ho'
    obtain rfl : o = o' := Option.some.inj ho'
    refine ⟨by simp [Register.depart], fun p hp => ?_⟩
    show p.1 + 1 < (v.departures ++ [some o]).length
    simpa using h.lt hp

theorem Recorded.installed (h : c.Recorded v) (hs : c.spine = none) (t : τ)
    (hsound : Chain.Sound (c.installing t)) : (c.installing t).Recorded (v.arrive t) := by
  have hbalance := h.balance
  rw [hasTask, hs] at hbalance
  refine ⟨hsound, fun ho => absurd rfl ho, ?_, nofun, h.taken, h.once⟩
  show (v.arrivals ++ [t]).length = v.departures.length + 1
  simpa using hbalance

theorem Recorded.replaced (h : c.Recorded v) {s : Spine τ} (hs : c.spine = some s) (t : τ)
    (hsound : Chain.Sound (c.installing t)) :
    (c.installing t).Recorded ((v.depart none).arrive t) := by
  have hbalance := h.balance
  rw [hasTask, hs] at hbalance
  refine ⟨hsound, fun ho => absurd rfl ho, ?_, nofun, h.taken_depart none, h.once⟩
  show (v.arrivals ++ [t]).length = (v.departures ++ [none]).length + 1
  simpa using hbalance

theorem Recorded.holding (h : c.Recorded v) {s s' : Spine τ} (hs : c.spine = some s)
    (hsound : Chain.Sound (c.holding s')) : (c.holding s').Recorded v := by
  have hbalance := h.balance
  rw [hasTask, hs] at hbalance
  have hnone : c.outcome = none := by
    cases ho : c.outcome with
    | none => rfl
    | some o => cases (h.alone (by simp [ho])).symm.trans hs
  exact ⟨hsound, fun ho => absurd hnone ho, hbalance, fun o ho => h.kept o ho, h.taken, h.once⟩

/-- The outcome that is taken is the one of the root that left last, and it had not been taken. -/
theorem Recorded.told (h : c.Recorded v) {o : Outcome} (ho : c.outcome = some o) :
    ({ c with outcome := none } : SingleChain κ τ).Recorded (v.take o) := by
  obtain ⟨hlast, hbefore⟩ := h.kept o ho
  refine ⟨h.sound, fun hne => absurd rfl hne, h.balance, nofun, ?_, ?_⟩
  · intro p hp
    rcases List.mem_append.mp hp with hp | hp
    · exact h.taken p hp
    · obtain rfl := List.mem_singleton.mp hp
      rw [List.getLast?_eq_getElem?] at hlast
      exact hlast
  · show ((v.taken ++ [_]).map Prod.fst).Pairwise _
    rw [List.map_append, List.pairwise_append]
    refine ⟨h.once, List.pairwise_singleton .., ?_⟩
    intro i hi j hj
    obtain ⟨p, hp, rfl⟩ := List.mem_map.mp hi
    obtain rfl : j = v.departures.length - 1 := by simpa using hj
    have := hbefore p hp
    omega

omit [Task κ τ] in
/-- Without a departure or an accepted request only an outcome that is taken is added. -/
theorem Register.observe_same (v : Register τ) {c c' : SingleChain κ τ}
    (hsame : c'.hasTask = c.hasTask) {step : Step κ τ} {answer : Answer}
    (hrefused : answer ≠ .request true) (htold : ∀ o, answer ≠ .outcome (some o)) :
    v.observe c step answer c' = v := by
  have hstays : ¬ (c.hasTask = true ∧ (answer = .request true ∨ ¬ c'.hasTask = true)) := by
    rw [hsame]
    rintro ⟨hheld, h | h⟩
    · exact hrefused h
    · exact h hheld
  unfold observe
  rw [if_neg hstays]
  split
  · exact absurd rfl hrefused
  · exact absurd rfl (htold _)
  · rfl

omit [Task κ τ] in
theorem Register.observe_told (v : Register τ) (c : SingleChain κ τ) (o : Outcome) :
    v.observe c .takeOutcome (.outcome (some o)) { c with outcome := none } = v.take o := by
  have hstays : ¬ (c.hasTask = true ∧ (Answer.outcome (some o) = .request true ∨
      ¬ ({ c with outcome := none } : SingleChain κ τ).hasTask = true)) := by
    rintro ⟨hheld, h | h⟩
    · cases h
    · exact h hheld
  unfold observe
  rw [if_neg hstays]

theorem Recorded.step (h : c.Recorded v) {step : Step κ τ} {answer : Answer}
    {c' : SingleChain κ τ} (hstep : Stepped c k step answer c') :
    c'.Recorded (v.observe c step answer c') := by
  have hsound := hstep.sound h.sound
  have hsame : c'.hasTask = c.hasTask → answer ≠ .request true →
      (∀ o, answer ≠ .outcome (some o)) → c'.Recorded v →
      c'.Recorded (v.observe c step answer c') := fun hheld hrefused htold h' => by
    rw [v.observe_same hheld hrefused htold]
    exact h'
  have hholding : ∀ {s s' : Spine τ}, c.spine = some s → (c.holding s').hasTask = c.hasTask :=
    fun hs => by simp [hasTask, SingleChain.holding, hs]
  cases hstep with
  | refused => exact hsame rfl (by simp) (by simp) h
  | installed hs => simpa [Register.observe, hasTask, hs] using h.installed hs _ hsound
  | replaced hs =>
      simpa [Register.observe, hasTask, hs, installing] using h.replaced hs _ hsound
  | cancelled hs =>
      simpa [Register.observe, hasTask, hs, SingleChain.leaving] using h.leaving hs .cancelled
  | @ended s trace o hs hroot =>
      simpa [Register.observe, hasTask, hs, SingleChain.leaving] using h.leaving hs o
  | worked hs | stopped hs | failed hs =>
      exact hsame (hholding hs) (by simp) (by simp) (h.holding hs hsound)
  | idle | changed => exact hsame rfl (by simp) (by simp) h
  | told =>
      cases ho : c.outcome with
      | none =>
          rw [show ({ c with outcome := none } : SingleChain κ τ) = c by rw [← ho]]
          rw [v.observe_same rfl (by simp) (by simp)]
          exact h
      | some o =>
          rw [v.observe_told c o]
          exact h.told ho

theorem performAll_recorded (h : c.Recorded v) (steps : List (Step κ τ)) (k : κ) :
    (c.performAll v steps).Ensures k fun r _ _ => r.1.Recorded r.2 := by
  induction steps generalizing c v k with
  | nil => exact Act.meets_pure h
  | cons step steps ih =>
      rw [performAll]
      apply (perform_stepped h.sound step).bind
      intro r k' t hstep
      exact ih (h.step hstep) k'

end Recorded

/-- Take any steps on a new chain, whatever its tasks do. Each root that came has left once or is
still held, and an outcome is kept only while there is no root: that of the root that left last. No
end of a root is taken twice. And from there every step does what a step can do: a root leaves when
it is replaced, cancelled, finished or failed, and in no other way. -/
theorem roots_leave_once (name : String) (priority : κ → Number.Binary32) (relevance : κ → Bool)
    (steps : List (Step κ τ)) (k : κ) :
    (performAll { name, priority, relevance } {} steps).Ensures k fun r k' _ =>
      (r.1.outcome ≠ none → r.1.spine = none) ∧
        r.2.arrivals.length = r.2.departures.length + (if r.1.hasTask then 1 else 0) ∧
        (∀ o, r.1.outcome = some o → r.2.departures.getLast? = some (some o)) ∧
        (∀ p ∈ r.2.taken, r.2.departures[p.1]? = some (some p.2)) ∧
        (r.2.taken.map Prod.fst).Pairwise (· < ·) ∧
        ∀ step, (r.1.perform step).Ensures k' fun p _ _ => Stepped r.1 k' step p.1 p.2 := by
  refine (performAll_recorded (recorded_of_none rfl rfl) steps k).imp ?_
  intro r k' t h
  refine ⟨h.alone, h.balance, fun o ho => (h.kept o ho).1, h.taken, h.once, ?_⟩
  exact fun step => perform_stepped h.sound step

/-- Three roots: one is replaced, one is over at once, and one is failed from outside. -/
example :
    (performAll (ofPriority "Chores" (.ofInt 1)) {}
      [.request Job.idle, .request (.kill 1), .tick {}, .takeOutcome, .request .idle,
        .failRoot "called off", .tick {}, .takeOutcome, .takeOutcome]).passes {} (fun d =>
      d.value.2.departures ==
          [none, some .finished, some (.failed ⟨"Idle", "called off"⟩)] &&
        d.value.2.taken == [(1, .finished), (2, .failed ⟨"Idle", "called off"⟩)]) = true := by
  decide +kernel

end Arbiter.SingleChain
