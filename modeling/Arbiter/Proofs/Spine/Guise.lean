import Arbiter.Proofs.Contract
import Arbiter.Spine.Tick

/-! Tasks in a guise. Where the hooks of one kind of tasks do what those of another kind do, and
keep some record besides, the spines of the two kinds go through every operation together: they end
in the same fault, or leave the same once the record is taken off. -/

namespace Arbiter

variable {κ τ κ' τ' : Type}

/-! ## Off with the guise -/

def Happening.map (f : τ' → τ) : Happening τ' → Happening τ
  | started t => started (f t)
  | ticked t => ticked (f t)
  | stopped t taker => stopped (f t) (taker.map f)
  | dropped t => dropped (f t)
  | reported e => reported e
  | noted r => noted r

theorem Happening.map_comp_noted (f : τ' → τ) : Happening.map f ∘ noted = noted := rfl

def Node.map (f : τ' → τ) (n : Node τ') : Node τ :=
  { task := f n.task
    control := n.control
    reportedState := n.reportedState
    pending := n.pending
    stopped := n.stopped
    active := n.active
    failure := n.failure }

def Spine.map (f : τ' → τ) (s : Spine τ') : Spine τ :=
  { root := s.root.map f, below := s.below.map (Node.map f) }

def Turn.map (f : τ' → τ) (t : Turn τ') : Turn τ :=
  { task := f t.task, reply := t.reply, candidate := t.candidate.map f }

/-! ## Step by step -/

namespace Act

variable {ω ω' α α' β β' : Type}

/-- From the context `k`, the first action does what the second does from what `p` shows of `k`:
both end in one fault, or their values are related, and `p` and `g` show the context and the trail
of the second. -/
def Matches (p : κ' → κ) (g : ω' → ω) (m' : Act κ' ω' α') (m : Act κ ω α) (k : κ')
    (R : α' → α → Prop) : Prop :=
  match m' k, m (p k) with
  | .error e', .error e => e' = e
  | .ok d', .ok d => R d'.value d.value ∧ p d'.context = d.context ∧ d'.trail.map g = d.trail
  | _, _ => False

variable {p : κ' → κ} {g : ω' → ω} {k : κ'} {R : α' → α → Prop} {m' : Act κ' ω' α'} {m : Act κ ω α}

theorem Matches.of_ok (h : Matches p g m' m k R) {d : Done κ ω α} (hd : m (p k) = .ok d) :
    ∃ d', m' k = .ok d' ∧ R d'.value d.value ∧ p d'.context = d.context ∧
      d'.trail.map g = d.trail := by
  rw [Matches] at h
  rw [hd] at h
  split at h
  · next hd' => cases hd'
  · next d' _ hd' he =>
    cases he
    exact ⟨d', hd', h⟩
  · exact h.elim

theorem Matches.pure {a' : α'} {a : α} (h : R a' a) :
    Matches p g (Pure.pure a' : Act κ' ω' α') (Pure.pure a : Act κ ω α) k R :=
  ⟨h, rfl, rfl⟩

theorem Matches.bind {T : β' → β → Prop} {f' : α' → Act κ' ω' β'} {f : α → Act κ ω β}
    (hm : Matches p g m' m k R) (hf : ∀ a' a k, R a' a → Matches p g (f' a') (f a) k T) :
    Matches p g (m' >>= f') (m >>= f) k T := by
  unfold Matches at hm ⊢
  rw [bind_apply, bind_apply]
  split at hm
  · next e' e he' he =>
    rw [he', he]
    exact hm
  · next d' d hd' hd =>
    obtain ⟨hR, hk, ht⟩ := hm
    have h := hf d'.value d.value d'.context hR
    rw [Matches] at h
    rw [hk] at h
    rw [hd', hd]
    simp only
    cases hb' : f' d'.value d'.context with
    | error e' =>
        cases hb : f d.value d.context with
        | error e => simpa [hb', hb] using h
        | ok b => simp [hb', hb] at h
    | ok b' =>
        cases hb : f d.value d.context with
        | error e => simp [hb', hb] at h
        | ok b =>
            simp only [hb', hb] at h
            exact ⟨h.1, h.2.1, by simp [ht, h.2.2]⟩
  · exact hm.elim

theorem Matches.ofExcept {x' x : Except Fault α} (hx : x' = x) :
    Matches p g (Act.ofExcept x' : Act κ' ω' α) (Act.ofExcept x : Act κ ω α) k Eq := by
  subst hx
  unfold Matches Act.ofExcept
  cases x' with
  | error e => rfl
  | ok a => exact ⟨rfl, rfl, rfl⟩

theorem Matches.get :
    Matches p g (Act.get : Act κ' ω' _) (Act.get : Act κ ω _) k fun s' s => p s' = s :=
  ⟨rfl, rfl, rfl⟩

theorem Matches.ite {c' c : Prop} [Decidable c'] [Decidable c] {n' : Act κ' ω' α'} {n : Act κ ω α}
    (hc : c' ↔ c) (ht : c' → Matches p g m' m k R) (he : ¬c' → Matches p g n' n k R) :
    Matches p g (if c' then m' else n') (if c then m else n) k R := by
  by_cases h : c'
  · rw [if_pos h, if_pos (hc.mp h)]
    exact ht h
  · rw [if_neg h, if_neg fun h' => h (hc.mpr h')]
    exact he h

theorem Matches.tellAll {ws' : List ω'} {ws : List ω} (h : ws'.map g = ws) :
    Matches p g (Act.tellAll ws') (Act.tellAll ws) k fun _ _ => True :=
  ⟨trivial, rfl, h⟩

section Hooks

variable {q : τ' → τ}

/-- The notes of the two runs are written alike. -/
theorem Matches.note_bind {s : Severity} {message : String}
    {fields' fields : List (String × String)}
    {f' : Unit → Act κ' (Happening τ') α'} {f : Unit → Act κ (Happening τ) α}
    (hfields : fields' = fields) (h : ∀ k, Matches p (Happening.map q) (f' ()) (f ()) k R) :
    Matches p (Happening.map q) (Act.note s message fields' >>= f')
      (Act.note s message fields >>= f) k R := by
  subst hfields
  exact Matches.bind (R := fun _ _ => True) ⟨trivial, rfl, rfl⟩ fun _ _ k _ => h k

theorem Matches.call {hook' : Act κ' Record α'} {hook : Act κ Record α} {c' : Happening τ'}
    {c : Happening τ} (hc : c'.map q = c) (h : ∀ k, Matches p id hook' hook k R) :
    Matches p (Happening.map q) (Act.call c' hook') (Act.call c hook) k R := by
  refine Matches.bind (R := fun _ _ => True) ⟨trivial, rfl, by simp [hc]⟩ fun _ _ k _ => ?_
  have h := h k
  unfold Matches at h ⊢
  unfold mapTrail
  split at h
  · next he' he => simpa [he', he] using h
  · next d' d hd' hd =>
    simp only [hd', hd]
    refine ⟨h.1, h.2.1, ?_⟩
    rw [List.map_map, Happening.map_comp_noted, ← h.2.2, List.map_id]
  · exact h.elim

end Hooks

end Act

open Act

/-! ## Guises -/

/-- Tasks `τ'` over contexts `κ'` that are tasks `τ` over contexts `κ`, with more to them. -/
structure Guise (κ' τ' κ τ : Type) [Task κ' τ'] [Task κ τ] where
  context : κ' → κ
  task : τ' → τ
  onStart : ∀ t c k, Matches context id (Task.onStart t c) (Task.onStart (task t) c) k
    fun r' r => (task r'.1, r'.2) = r
  onTick : ∀ t c k, Matches context id (Task.onTick t c) (Task.onTick (task t) c) k
    fun turn' turn => turn'.map task = turn
  onStop : ∀ t taker k, Matches context id (Task.onStop t taker)
    (Task.onStop (task t) (taker.map task)) k fun t' t => task t' = t
  isEqual : ∀ t c, Task.isEqual (task t) (task c) = Task.isEqual t c
  label : ∀ t, Task.label (task t) = Task.label t
  veto : ∀ t k c, ((Task.veto? (task t)).map fun veto => veto (context k) (c.map task)) =
    (Task.veto? t).map fun veto => veto k c

namespace Guise

variable [Task κ' τ'] [Task κ τ] (D : Guise κ' τ' κ τ)

abbrev happening : Happening τ' → Happening τ := Happening.map D.task

abbrev node : Node τ' → Node τ := Node.map D.task

abbrev spine : Spine τ' → Spine τ := Spine.map D.task

variable {k : κ'}

theorem nodeLabel (n : Node τ') : (D.node n).label = n.label := by
  simp only [Node.label, Node.map, D.label]

theorem failureReport (n : Node τ') : (D.node n).failureReport = n.failureReport := by
  simp only [Node.failureReport, Node.map, D.label]

theorem refuses (n : Node τ') (k : κ') (c : Option τ') :
    (D.node n).refuses (D.context k) (c.map D.task) = n.refuses k c := by
  have h := D.veto n.task k c
  unfold Node.refuses
  rw [show (D.node n).task = D.task n.task from rfl]
  cases hv : Task.veto? n.task with
  | none =>
      rw [hv, Option.map_none, Option.map_eq_none_iff] at h
      rw [h]
  | some veto =>
      rw [hv, Option.map_some, Option.map_eq_some_iff] at h
      obtain ⟨veto', hv', heq⟩ := h
      rw [hv']
      exact heq

/-! ### Teardown -/

theorem leave_matches (taker : Option τ') (n : Node τ') :
    Matches D.context D.happening (Spine.leave taker n)
      (Spine.leave (taker.map D.task) (D.node n)) k fun m' m => D.node m' = m := by
  refine Matches.ite Iff.rfl (fun _ => Matches.pure rfl) fun _ => ?_
  refine (Matches.call rfl (D.onStop n.task taker)).bind fun t' t k h => ?_
  exact Matches.pure (by rw [← h]; rfl)

theorem takerText (taker : Option τ') :
    Spine.takerText (taker.map D.task) = Spine.takerText taker := by
  cases taker with
  | none => rfl
  | some t => simp only [Spine.takerText, Option.map_some, D.label]

theorem halt_matches (taker : Option τ') (n : Node τ') :
    Matches D.context D.happening (Spine.halt taker n)
      (Spine.halt (taker.map D.task) (D.node n)) k fun m' m => D.node m' = m := by
  refine Matches.note_bind ?_ fun _ => D.leave_matches taker n
  rw [D.takerText, D.nodeLabel]

theorem pause_matches (taker : Option τ') (n : Node τ') :
    Matches D.context D.happening (Spine.pause taker n)
      (Spine.pause (taker.map D.task) (D.node n)) k fun m' m => D.node m' = m := by
  refine Matches.note_bind (by rw [D.nodeLabel]) fun _ => ?_
  refine (D.leave_matches taker n).bind fun m' m k h => ?_
  exact Matches.pure (by rw [← h]; rfl)

theorem dropAll_matches (nodes : List (Node τ')) :
    Matches D.context D.happening (Spine.dropAll nodes) (Spine.dropAll (nodes.map D.node)) k
      fun _ _ => True := by
  apply Matches.tellAll
  simp [Happening.map, Node.map]

theorem haltAll_matches (taker : Option τ') (above nodes : List (Node τ')) :
    Matches D.context D.happening (Spine.haltAll taker above nodes)
      (Spine.haltAll (taker.map D.task) (above.map D.node) (nodes.map D.node)) k
      fun ms' ms => ms'.map D.node = ms := by
  induction nodes generalizing above k with
  | nil => exact Matches.pure rfl
  | cons n rest ih =>
      refine Matches.ite Iff.rfl (fun _ => ?_) fun _ => ?_
      · refine (D.halt_matches taker n).bind fun m' m k h => ?_
        subst h
        exact ih (m' :: above)
      · refine (D.dropAll_matches (n :: rest)).bind fun _ _ k _ => ?_
        exact Matches.pure rfl

theorem stopAndDrop_matches (taker : Option τ') (nodes : List (Node τ')) :
    Matches D.context D.happening (Spine.stopAndDrop taker nodes)
      (Spine.stopAndDrop (taker.map D.task) (nodes.map D.node)) k fun _ _ => True := by
  refine (D.haltAll_matches taker [] nodes).bind fun ms' ms k h => ?_
  subst h
  exact D.dropAll_matches ms'

theorem stop_matches (taker : Option τ') (s : Spine τ') :
    Matches D.context D.happening (s.stop taker) ((D.spine s).stop (taker.map D.task)) k
      fun s' s => D.spine s' = s := by
  refine Matches.ite Iff.rfl (fun _ => ?_) fun _ => Matches.pure rfl
  refine (D.halt_matches taker s.root).bind fun n' n k h => ?_
  refine (D.stopAndDrop_matches taker s.below).bind fun _ _ k _ => ?_
  exact Matches.pure (by rw [← h]; rfl)

theorem suspendBelow_matches (taker : Option τ') (nodes : List (Node τ')) :
    Matches D.context D.happening (Spine.suspendBelow taker nodes)
      (Spine.suspendBelow (taker.map D.task) (nodes.map D.node)) k
      fun ms' ms => ms'.map D.node = ms := by
  induction nodes generalizing k with
  | nil => exact Matches.pure rfl
  | cons n rest ih =>
      refine Matches.ite Iff.rfl (fun _ => ?_) fun _ => Matches.pure rfl
      refine (D.pause_matches taker n).bind fun m' m k h => ?_
      refine ih.bind fun ms' ms k h' => ?_
      exact Matches.pure (by rw [← h, ← h']; rfl)

theorem suspend_matches (taker : Option τ') (s : Spine τ') :
    Matches D.context D.happening (s.suspend taker) ((D.spine s).suspend (taker.map D.task)) k
      fun s' s => D.spine s' = s := by
  refine Matches.ite Iff.rfl (fun _ => ?_) fun _ => Matches.pure rfl
  refine (D.pause_matches taker s.root).bind fun n' n k h => ?_
  refine (D.suspendBelow_matches taker s.below).bind fun ms' ms k h' => ?_
  exact Matches.pure (by rw [← h, ← h']; rfl)

theorem fail_matches (reason : String) (s : Spine τ') :
    Matches D.context D.happening (s.fail reason) ((D.spine s).fail reason) k
      fun s' s => D.spine s' = s := by
  refine (D.stop_matches none s).bind fun s' s k h => ?_
  subst h
  refine Matches.note_bind ?_ fun _ => Matches.pure rfl
  rw [show (D.spine s').root.label = s'.root.label from D.nodeLabel s'.root]

/-! ### Ticks -/

theorem start_matches (s : Spine τ') :
    Matches D.context D.happening s.start (D.spine s).start k fun s' s => D.spine s' = s := by
  refine Matches.note_bind ?_ fun _ => ?_
  · rw [show (D.spine s).root.label = s.root.label from D.nodeLabel s.root]
  · refine (Matches.call rfl (D.onStart s.root.task _)).bind fun r' r k h => ?_
    subst h
    obtain ⟨t, reply⟩ := r'
    dsimp only
    cases reply.failure with
    | none => exact Matches.pure rfl
    | some reason => exact D.fail_matches reason _

theorem ready_matches (s : Spine τ') :
    Matches D.context D.happening s.ready (D.spine s).ready k fun s' s => D.spine s' = s :=
  Matches.ite Iff.rfl (fun _ => D.start_matches s) fun _ => Matches.pure rfl

theorem reportState_matches (n : Node τ') (trace : Trace) :
    Matches D.context D.happening (Spine.reportState n trace) (Spine.reportState (D.node n) trace) k
      fun r' r => (D.node r'.1, r'.2) = r := by
  refine Matches.ite Iff.rfl (fun _ => Matches.pure rfl) fun _ => ?_
  refine Matches.note_bind (by rw [D.nodeLabel]) fun _ => Matches.pure ?_
  rw [show Task.label (D.node n).task = Task.label n.task from D.label n.task]
  rfl

theorem vetoed (k : κ') (below : List (Node τ')) (candidate : Option τ') :
    Spine.vetoed (D.context k) (below.map D.node) (candidate.map D.task) =
      Spine.vetoed k below candidate := by
  rw [Spine.vetoed, List.any_map]
  exact congrArg below.any (funext fun n => D.refuses n k candidate)

theorem settle_matches (parent : Node τ') (below : List (Node τ')) (candidate : Option τ') :
    Matches D.context D.happening (Spine.settle parent below candidate)
      (Spine.settle (D.node parent) (below.map D.node) (candidate.map D.task)) k
      fun ms' ms => ms'.map D.node = ms := by
  cases below with
  | nil => cases candidate <;> exact Matches.pure rfl
  | cons n rest =>
      cases candidate with
      | none =>
          refine Matches.get.bind fun k' k₁ k h => ?_
          subst h
          refine Matches.ite (by rw [← D.vetoed]; rfl) (fun _ => Matches.pure rfl) fun _ => ?_
          refine (D.stopAndDrop_matches none (n :: rest)).bind fun _ _ k _ => ?_
          exact Matches.pure rfl
      | some c =>
          refine Matches.ite (by rw [← D.isEqual]; rfl) (fun _ => Matches.pure rfl) fun _ => ?_
          refine Matches.get.bind fun k' k₁ k h => ?_
          subst h
          refine Matches.ite (by rw [← D.vetoed]; rfl) (fun _ => ?_) fun _ => ?_
          · refine Matches.note_bind ?_ fun _ => Matches.pure rfl
            rw [D.nodeLabel, D.label]
          · refine (D.stopAndDrop_matches (some c) (n :: rest)).bind fun _ _ k _ => ?_
            exact Matches.pure rfl

theorem rejoin_matches (n : Node τ') (sub : Spine τ') :
    Matches D.context D.happening (Spine.rejoin n sub) (Spine.rejoin (D.node n) (D.spine sub)) k
      fun s' s => D.spine s' = s := by
  unfold Spine.rejoin
  rw [show (D.spine sub).root.failureReport = sub.root.failureReport from D.failureReport sub.root]
  cases sub.root.failureReport with
  | none => exact Matches.pure rfl
  | some failure =>
      refine (D.dropAll_matches sub.nodes).bind fun _ _ k _ => ?_
      exact Matches.pure rfl

/-- By induction on the levels of delegation. -/
theorem tickWithin_matches (depth : Nat) (s : Spine τ') (trace : Trace) :
    Matches D.context D.happening (Spine.tickWithin depth s trace)
      (Spine.tickWithin depth (D.spine s) trace) k fun r' r => (D.spine r'.1, r'.2) = r := by
  induction depth generalizing s trace k with
  | zero => rfl
  | succ depth ih =>
      unfold Spine.tickWithin
      rw [show (D.spine s).root.label = s.root.label from D.nodeLabel s.root]
      refine (D.ready_matches s).bind fun s' s k h => ?_
      subst h
      refine Matches.ite Iff.rfl (fun _ => Matches.pure rfl) fun _ => ?_
      refine (Matches.call rfl (D.onTick s'.root.task s'.root.control)).bind
        fun turn' turn k h => ?_
      subst h
      dsimp only [Turn.map]
      cases turn'.reply.failure with
      | some reason =>
          refine (D.fail_matches reason _).bind fun s' s k h => ?_
          subst h
          rw [show (D.spine s').root.label = s'.root.label from D.nodeLabel s'.root]
          exact Matches.pure rfl
      | none =>
          refine (D.reportState_matches _ _).bind fun r' r k h => ?_
          subst h
          refine (D.settle_matches r'.1 s'.below turn'.candidate).bind fun below' below k h => ?_
          subst h
          rw [show (D.node r'.1).label = r'.1.label from D.nodeLabel r'.1]
          cases below' with
          | nil => exact Matches.pure rfl
          | cons m rest =>
              refine (ih { root := m, below := rest } _).bind fun r₁' r₁ k h => ?_
              subst h
              refine (D.rejoin_matches r'.1 r₁'.1).bind fun s' s k h => ?_
              subst h
              exact Matches.pure rfl

theorem tick_matches (s : Spine τ') (trace : Trace) :
    Matches D.context D.happening (s.tick trace) ((D.spine s).tick trace) k
      fun r' r => (D.spine r'.1, r'.2) = r :=
  D.tickWithin_matches Spine.depthLimit s trace

end Guise

end Arbiter
