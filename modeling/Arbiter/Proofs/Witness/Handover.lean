import Arbiter.Proofs.Witness.Accord

/-! The handover of failures. A sub-task that fails in a tick is stopped and dropped, and its parent
hears of it in its next hook if that is a tick hook of the same activation, and never after. -/

namespace Arbiter

variable {κ τ : Type}

namespace Spine

open Ledger

variable {k k' : Witnessed κ} {n : Node (Witness τ)} {s s' : Spine (Witness τ)} {l₀ calls : Ledger}

/-! ## Operations on witnesses -/

/-- The operation on the root of a spine of witnesses. A taker is not held here, and its number is
of no account. -/
def Operation.witnessed : Operation κ τ → Operation (Witnessed κ) (Witness τ) :=
  Operation.disguised (fun t => ⟨t, 0⟩) (fun f s => { s with context := f s.context })
    fun f i => { i with task := f i.task }

variable [Task κ τ]

theorem shows_witnessed (op : Operation κ τ) : Witnessed.guise.Shows op.witnessed op :=
  Guise.shows_disguised (fun _ => rfl) (fun _ _ => rfl) (fun _ _ => rfl) op

/-- A root between the operations of its holder. The root has the number zero. -/
def InOrder (k : Witnessed κ) (s : Spine (Witness τ)) : Prop :=
  s.root.task.number = 0 ∧ Attuned 0 k.ledger k s

omit [Task κ τ] in
theorem inOrder_of_accord (hnumber : s.root.task.number = 0) (haccord : Accord 0 k s.nodes)
    (hquiet : Quiet k.ledger) (htold : Told k.ledger) (hparent : parent? 0 k.ledger = none) :
    InOrder k s := by
  refine ⟨hnumber, haccord, hquiet, htold, fun p hp => ?_, fun _ _ => rfl, [], rfl, by simp⟩
  rw [hnumber, hparent] at hp
  cases hp

omit [Task κ τ] in
theorem InOrder.parent (h : InOrder k s) : parent? 0 k.ledger = none := by
  rw [Option.eq_none_iff_forall_ne_some]
  intro p hp
  rw [← h.1] at hp
  exact Nat.not_lt_zero p (h.1 ▸ (h.2.above p hp).1)

omit [Task κ τ] in
/-- Nodes of a root whose hooks were stopped, if any was. -/
theorem InOrder.torn (h : InOrder k s) (hstopped : Stopped s.nodes k k')
    (hnumbers : numbers s'.nodes <+: numbers s.nodes) (hp : ∀ n ∈ s'.nodes, n.pending = true) :
    InOrder k' s' := by
  have haccord := h.2.accord.stopped hstopped hnumbers hp
  obtain ⟨-, es, hes, hstops, -⟩ := hstopped
  have hnumber : s'.root.task.number = s.root.task.number :=
    (List.cons_prefix_cons.mp hnumbers).1
  refine inOrder_of_accord (hnumber.trans h.1) haccord ?_ ?_ ?_
  · rw [hes]
    exact h.2.quiet.stops hstops
  · rw [hes]
    exact h.2.told.stops hstops h.2.quiet
  · rw [hes, parent?_stops hstops]
    exact h.parent

omit [Task κ τ] in
/-- The holder may change the root, but does not start it. -/
theorem InOrder.withRoot (h : InOrder k s) (hnumber : n.task.number = s.root.task.number)
    (hn : n.pending = false → s.root.pending = false ∧ n.control = s.root.control) :
    InOrder k { s with root := n } := by
  have hnumbers : numbers (n :: s.below) = numbers s.nodes :=
    congrArg (· :: numbers s.below) hnumber
  refine inOrder_of_accord (hnumber.trans h.1) ⟨?_, ?_, ?_, ?_⟩ h.2.quiet h.2.told h.parent
  · exact hnumbers ▸ h.2.accord.drawn
  · exact hnumbers ▸ h.2.accord.linked
  · intro m hm hp
    rcases List.mem_cons.mp hm with rfl | hm
    · obtain ⟨hroot, hcontrol⟩ := hn hp
      rw [hcontrol, hnumber]
      exact h.2.accord.due s.root List.mem_cons_self hroot
    · exact h.2.accord.due m (List.mem_cons_of_mem _ hm) hp
  · intro j hj hopen
    obtain ⟨m, hm, hm', hp⟩ := h.2.accord.opened j hj hopen
    rcases List.mem_cons.mp hm with rfl | hm
    · exact absurd (hm'.symm.trans h.1) (Nat.ne_of_gt hj)
    · exact ⟨m, List.mem_cons_of_mem n hm, hm', hp⟩

theorem Passed.inOrder (h : Passed 0 l₀ k s) (hnumber : s.root.task.number = 0) : InOrder k s := by
  refine inOrder_of_accord hnumber h.accord h.quiet h.told ?_
  rw [Option.eq_none_iff_forall_ne_some]
  intro p hp
  rw [← hnumber] at hp
  exact Nat.not_lt_zero p (hnumber ▸ h.above p hp)

theorem InOrder.stop (h : InOrder k s) (hs : s.Kempt) (taker : Option (Witness τ)) :
    (s.stop taker).Ensures k fun s' k' _ => InOrder k' s' := by
  apply (stop_stopped taker fun n hn => (hs.held n hn).active).imp
  intro s' k' _ hstop
  obtain ⟨rfl, rfl⟩ | ⟨hmark, hp, hbelow, hstopped⟩ := hstop
  · exact h
  · have hnumber : s'.root.task.number = s.root.task.number := congrArg Prod.fst hmark
    refine h.torn hstopped ?_ ?_
    · simp [numbers, nodes, hbelow, hnumber]
    · simpa [nodes, hbelow] using hp

theorem InOrder.suspend (h : InOrder k s) (hs : s.Kempt) (taker : Option (Witness τ)) :
    (s.suspend taker).Ensures k fun s' k' _ => InOrder k' s' := by
  apply (suspend_stopped taker hs.held).imp
  intro s' k' _ hsuspend
  obtain ⟨rfl, rfl⟩ | ⟨hmarks, hp, hstopped⟩ := hsuspend
  · exact h
  · have hnumbers : numbers s'.nodes = numbers s.nodes := by
      rw [numbers_eq, hmarks, ← numbers_eq]
    exact h.torn hstopped (hnumbers ▸ List.prefix_rfl) hp

theorem InOrder.perform (h : InOrder k s) (hs : s.Kempt) (op : Operation κ τ) :
    (s.perform op.witnessed).Ensures k fun s' k' _ => InOrder k' s' := by
  cases op with
  | tick trace =>
      apply (tickWithin_ticked depthLimit hs trace k).bind
      intro r k' _ hticked
      obtain ⟨-, -, -, refused, hticked⟩ := hticked
      obtain ⟨hnumber, hpassed⟩ := hticked.passed hs h.2
      exact Act.meets_pure (hpassed.inOrder (hnumber.trans h.1))
  | stop taker => exact h.stop hs _
  | suspend taker => exact h.suspend hs _
  | fail reason =>
      apply (h.stop hs none).bind
      intro s' k' _ h'
      apply Act.Meets.note_bind
      exact Act.meets_pure (h'.withRoot rfl fun hp => ⟨hp, rfl⟩)
  | reset => exact Act.meets_pure (h.withRoot rfl nofun)
  | change f =>
      apply Act.Meets.bind (P := fun _ k' _ => InOrder k' s)
      · exact Act.meets_modify ⟨h.1, ⟨h.2.accord.drawn, h.2.accord.linked, h.2.accord.due,
          h.2.accord.opened⟩, h.2.quiet, h.2.told, h.2.above, h.2.due, h.2.calls⟩
      · exact fun _ _ _ h' => Act.meets_pure h'
  | alter f => exact Act.meets_pure (h.withRoot rfl fun hp => ⟨hp, rfl⟩)

theorem InOrder.performAll (h : InOrder k s) (hs : s.Kempt) (ops : List (Operation κ τ)) :
    (s.performAll (ops.map Operation.witnessed)).Ensures k fun s' k' _ =>
      InOrder k' s' ∧ s'.Kempt := by
  induction ops generalizing s k with
  | nil => exact Act.meets_pure ⟨h, hs⟩
  | cons op ops ih =>
      apply ((h.perform hs op).and (hs.perform op.witnessed k)).bind
      exact fun s' k' _ h' => ih h'.1 h'.2

omit [Task κ τ] in
theorem inOrder_ofTask (t : τ) (k : κ) :
    InOrder { context := k } (ofTask (⟨t, 0⟩ : Witness τ)) := by
  refine inOrder_of_accord rfl ⟨?_, .singleton _, ?_, ?_⟩ (fun _ => rfl) trivial rfl
  · simp [numbers, nodes, ofTask, Node.fresh]
  · simp [nodes, ofTask, Node.fresh]
  · simp [isOpen, last]

/-! ## The failures of a tick -/

/-- The sub-task `c` has failed with `f` in the calls of a tick that led to the ledger `l` and to
the spine `s`. The node `p` is its parent. -/
structure HandedOver (c : Nat) (f : Failure) (calls l : Ledger) (s : Spine (Witness τ))
    (p : Node (Witness τ)) : Prop where
  /-- The failure shows the label that the sub-task had after its stop hook. -/
  stopped : Entry.stopped c f.task ∈ calls
  /-- The sub-task is no longer held, nor is what came after it. -/
  gone : ∀ n ∈ s.nodes, n.task.number < c
  /-- Those of its nodes that were started have had their stop hooks. -/
  closed : ∀ j ≥ c, isOpen j l = false
  parent : parent? c l = some p.task.number
  /-- It holds nothing any more. -/
  last : s.nodes.getLast? = some p
  /-- Neither the parent nor a node above it fails with the sub-task. -/
  started : ∀ n ∈ s.nodes, n.Started
  holds : p.control.childFailure = some f

/-- What the calls of a tick say of its failures. -/
theorem Passed.failures (h : Passed 0 l₀ k s) (hnumber : s.root.task.number = 0)
    (hcalls : k.ledger = calls ++ l₀) :
    (∀ n ∈ s.nodes, ∀ reason, n.failure = some reason →
      ∃ e ∈ calls, e.number = n.task.number ∧ e.failure? = some reason) ∧
    ∀ e ∈ calls, ∀ reason, e.failure? = some reason → e.number ≠ 0 → ∃ label p,
      HandedOver e.number { task := label, reason } calls k.ledger s p ∧
        news p.task.number k.ledger = some { task := label, reason } := by
  obtain ⟨calls', hcalls', hfate⟩ := h.fate
  obtain rfl : calls = calls' := List.append_cancel_right (hcalls.symm.trans hcalls')
  have hstarted : ∀ {n : Node (Witness τ)} {reason : String}, n.Started →
      n.failure = some reason → False := by
    intro n reason hn hreason
    rw [hn.unfailed] at hreason
    cases hreason
  cases hfate with
  | goesOn hquiet hs =>
      refine ⟨fun n hn reason hreason => (hstarted (hs n hn) hreason).elim, ?_⟩
      intro e he reason hreason
      rw [hquiet e he] at hreason
      cases hreason
  | @rootFails f hgives hreport hp hbelow hnews =>
      refine ⟨fun n hn reason hreason => ?_, fun e he reason hreason hne => ?_⟩
      · rw [nodes, hbelow] at hn
        obtain rfl := List.mem_singleton.mp hn
        obtain ⟨e, he, heq, hf⟩ := hgives.exists_call
        rw [Node.failureReport, hreason] at hreport
        obtain rfl := Option.some.inj hreport
        exact ⟨e, he, heq, hf⟩
      · exact absurd ((hgives.unique he hreason).1.trans hnumber) hne
  | @subFails c f held p hgives hs hnodes hparent hcontrol hnews hlt =>
      refine ⟨fun n hn reason hreason => (hstarted (hs n hn) hreason).elim, ?_⟩
      intro e he reason hreason hne
      obtain ⟨rfl, rfl⟩ := hgives.unique he hreason
      refine ⟨f.task, p, ⟨hgives.stopped, hlt, ?_, hparent, by simp [hnodes], hs, hcontrol⟩, hnews⟩
      intro j hj
      rw [Bool.eq_false_iff]
      intro hopen
      have hpos : 0 < j := Nat.lt_of_lt_of_le (Nat.pos_of_ne_zero hne) hj
      obtain ⟨n, hn, rfl, -⟩ := h.accord.opened j hpos hopen
      exact absurd (hlt n hn) (Nat.not_lt_of_le hj)

/-- Take any run of operations on a root, a tick in it, and what is done afterwards. If each hook
enters in a ledger what it is given and what it replies, a start hook is never given a failure, and
a tick hook is given one exactly as long as it stands: it is the last of which its node was told, by
a sub-task that gave up, and since then the node has only been ticked and has not taken it. A node
is told of no failure before it has had the chance to hear of the one before.

A node fails in the tick only if it gives up itself. A sub-task that gives up is no longer held
after the tick, its started nodes have had their stop hooks, and its parent, which goes on, holds
the failure. If the next hook of the parent is a tick hook, a first take in it yields this failure
and a second one yields none. -/
theorem failure_reaches_parent (t : τ) (before after : List (Operation κ τ)) (trace : Trace)
    (k : κ) :
    ((ofTask t).performAll before).Ensures k fun s k₁ trail₁ =>
      (s.tick trace).Ensures k₁ fun r k₂ trail₂ =>
        (r.1.performAll after).Ensures k₂ fun s' _ trail₃ => ∃ d₁ d₂ d₃ calls,
          (ofTask (⟨t, 0⟩ : Witness τ)).performAll (before.map Operation.witnessed)
            { context := k } = .ok d₁ ∧
          d₁.value.tick trace d₁.context = .ok d₂ ∧
          d₂.value.1.performAll (after.map Operation.witnessed) d₂.context = .ok d₃ ∧
          Witnessed.guise.spine d₁.value = s ∧ (Witnessed.guise.spine d₂.value.1, d₂.value.2) = r ∧
          Witnessed.guise.spine d₃.value = s' ∧
          d₁.trail.map Witnessed.guise.happening = trail₁ ∧
          d₂.trail.map Witnessed.guise.happening = trail₂ ∧
          d₃.trail.map Witnessed.guise.happening = trail₃ ∧
          Told d₃.context.ledger ∧
          (∀ later p given reply label candidate l f,
            d₃.context.ledger = later ++ .ticked p given reply label candidate :: l →
            (given.childFailure = some f ↔ Stands p f l)) ∧
          d₂.context.ledger = calls ++ d₁.context.ledger ∧
          (∀ n ∈ d₂.value.1.nodes, ∀ reason, n.failure = some reason →
            ∃ e ∈ calls, e.number = n.task.number ∧ e.failure? = some reason) ∧
          ∀ e ∈ calls, ∀ reason, e.failure? = some reason → e.number ≠ 0 → ∃ label p,
            HandedOver e.number { task := label, reason } calls d₂.context.ledger d₂.value.1 p ∧
            ∀ later given reply label' candidate between,
              d₃.context.ledger = later ++
                .ticked p.task.number given reply label' candidate ::
                  (between ++ d₂.context.ledger) →
              (∀ x ∈ between, x.number ≠ p.task.number) →
              given.take.1 = some { task := label, reason } ∧ given.take.2.take.1 = none := by
  apply (Act.ensures_run _ k).imp
  intro s k₁ trail₁ hrun₁
  apply (Act.ensures_run _ k₁).imp
  intro r k₂ trail₂ hrun₂
  apply (Act.ensures_run _ k₂).imp
  intro s' k₃ trail₃ hrun₃
  -- the same run of witnesses
  obtain ⟨d₁, hd₁, rfl, rfl, htrail₁⟩ := (Witnessed.guise.performAll_matches shows_witnessed
    (ofTask ⟨t, 0⟩) before (k := { context := k })).of_ok hrun₁
  obtain ⟨d₂, hd₂, rfl, rfl, htrail₂⟩ := (Witnessed.guise.tick_matches d₁.value trace).of_ok hrun₂
  obtain ⟨d₃, hd₃, rfl, rfl, htrail₃⟩ := (Witnessed.guise.performAll_matches shows_witnessed
    d₂.value.1 after).of_ok hrun₃
  -- what the ledger says on the way
  obtain ⟨horder, hkempt⟩ := ((inOrder_ofTask t k).performAll
    (resting_ofTask _).sound.kempt before).of_ok hd₁
  obtain ⟨hsound, -, -, refused, hticked⟩ :=
    (tickWithin_ticked depthLimit hkempt trace d₁.context).of_ok hd₂
  obtain ⟨hnumber, hpassed⟩ := hticked.passed hkempt horder.2
  have hnumber := hnumber.trans horder.1
  obtain ⟨calls, hcalls, -⟩ := hpassed.fate
  obtain ⟨hown, hhanded⟩ := hpassed.failures hnumber hcalls
  have htold := (((hpassed.inOrder hnumber).performAll hsound.kempt after).of_ok hd₃).1.2.told
  refine ⟨d₁, d₂, d₃, calls, hd₁, hd₂, hd₃, rfl, rfl, rfl, htrail₁, htrail₂, htrail₃, htold, ?_,
    hcalls, hown, ?_⟩
  · intro later p given reply label candidate l f hledger
    rw [hledger] at htold
    have hdue : given.childFailure = due p l := htold.earlier.1
    rw [hdue, due_eq_some_iff]
  · intro e he reason hreason hne
    obtain ⟨label, p, hover, hnews⟩ := hhanded e he reason hreason hne
    refine ⟨label, p, hover, ?_⟩
    intro later given reply label' candidate between hledger hbetween
    rw [hledger] at htold
    obtain ⟨hdue, htold⟩ := htold.earlier
    have hdue : given.childFailure = due p.task.number (between ++ d₂.context.ledger) := hdue
    exact ⟨hdue.trans (due_of_news (htold.heard hnews hbetween)), rfl⟩

end Spine

end Arbiter
