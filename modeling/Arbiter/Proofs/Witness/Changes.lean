import Arbiter.Proofs.Witness.Reports

/-! The state changes of a run. What the ticks of a run add to their records is what is due after
the calls of the tick hooks, in the order of these calls. -/

namespace Arbiter

variable {κ τ : Type} [Task κ τ]

/-! ## Runs that are observed -/

namespace Spine

/-- Performs an operation and keeps the state changes that a tick adds to its record. -/
def observe (s : Spine τ) : Operation κ τ → Act κ (Happening τ) (Spine τ × List StateChange)
  | .tick trace => do
    let r ← s.tick trace
    pure (r.1, r.2.changes.drop trace.changes.length)
  | op => do
    let s ← s.perform op
    pure (s, [])

/-- Performs the operations and keeps the state changes in the order in which they came. -/
def observeAll (s : Spine τ) :
    List (Operation κ τ) → Act κ (Happening τ) (Spine τ × List StateChange)
  | [] => pure (s, [])
  | op :: ops => do
    let r ← s.observe op
    let rest ← r.1.observeAll ops
    pure (rest.1, r.2 ++ rest.2)

theorem observe_erase (s : Spine τ) (op : Operation κ τ) :
    (s.observe op >>= fun r => pure r.1) = s.perform op := by
  cases op <;> simp [observe, perform]

/-- To be observed changes nothing. -/
theorem observeAll_erase (s : Spine τ) (ops : List (Operation κ τ)) :
    (s.observeAll ops >>= fun r => pure r.1) = s.performAll ops := by
  induction ops generalizing s with
  | nil => simp [observeAll, performAll]
  | cons op ops ih =>
      rw [performAll, ← observe_erase]
      simp [observeAll, ← ih]

end Spine

namespace Guise

open Spine Act

variable {κ' τ' : Type} [Task κ' τ'] (D : Guise κ' τ' κ τ)

theorem observe_matches {op' : Spine.Operation κ' τ'} {op : Spine.Operation κ τ}
    (h : D.Shows op' op) (s : Spine τ') (k : κ') :
    Matches D.context D.happening (s.observe op') ((D.spine s).observe op) k
      fun r' r => (D.spine r'.1, r'.2) = r := by
  have hperform := D.perform_matches h s k
  cases h with
  | tick trace =>
      apply (D.tick_matches s trace).bind
      intro r' r k h
      subst h
      exact Matches.pure rfl
  | _ =>
      apply hperform.bind
      intro s' s k h
      subst h
      exact Matches.pure rfl

theorem observeAll_matches {wrap : Spine.Operation κ τ → Spine.Operation κ' τ'}
    (hwrap : ∀ op, D.Shows (wrap op) op) (s : Spine τ') (ops : List (Spine.Operation κ τ))
    {k : κ'} :
    Matches D.context D.happening (s.observeAll (ops.map wrap)) ((D.spine s).observeAll ops) k
      fun r' r => (D.spine r'.1, r'.2) = r := by
  induction ops generalizing s k with
  | nil => exact Matches.pure rfl
  | cons op ops ih =>
      apply (D.observe_matches (hwrap op) s k).bind
      intro r' r k h
      subst h
      apply (ih r'.1).bind
      intro rest' rest k h
      subst h
      exact Matches.pure rfl

end Guise

namespace Spine

open Ledger

variable {k k' k'' : Witnessed κ} {s : Spine (Witness τ)} {nodes' : List (Node (Witness τ))}
  {changes changes' : List StateChange}

/-- Between the two contexts these state changes were due, in this order. -/
def Tells (k k' : Witnessed κ) (changes : List StateChange) : Prop :=
  (reports k'.ledger).map Prod.snd = changes.reverse ++ (reports k.ledger).map Prod.snd

omit [Task κ τ] in
theorem Tells.trans (h : Tells k k' changes) (h' : Tells k' k'' changes') :
    Tells k k'' (changes ++ changes') := by
  rw [Tells, h', h, List.reverse_append, List.append_assoc]

omit [Task κ τ] in
theorem Adds.changes_eq {r : Nat} {trace trace' : Trace} {calls : Ledger}
    {new : List (Nat × StateChange)}
    (h : Adds r k trace.latestChanges k' trace'.latestChanges calls new) :
    trace'.changes = trace.changes ++ new.reverse.map Prod.snd := by
  rw [Trace.changes, h.made, List.reverse_append, List.map_reverse]
  rfl

omit [Task κ τ] in
/-- Nodes of a root whose hooks were stopped. -/
theorem Noticed.torn (h : Noticed k s.nodes) (hstopped : Stopped s.nodes k k')
    (hmarks : (nodes'.map mark).Sublist (s.nodes.map mark)) :
    Noticed k' nodes' ∧ reports k'.ledger = reports k.ledger := by
  have hidles : Idles s.root.task.number k k' := idles_of_stopped hstopped h.onward
  exact ⟨h.kept hidles hmarks, hidles.reports⟩

theorem Noticed.stop (h : Noticed k s.nodes) (hs : s.Kempt) (taker : Option (Witness τ)) :
    (s.stop taker).Ensures k fun s' k' _ =>
      Noticed k' s'.nodes ∧ reports k'.ledger = reports k.ledger := by
  apply (stop_stopped taker fun n hn => (hs.held n hn).active).imp
  intro s' k' _ hstop
  obtain ⟨rfl, rfl⟩ | ⟨hmark, -, hbelow, hstopped⟩ := hstop
  · exact ⟨h, rfl⟩
  · refine h.torn hstopped ?_
    rw [nodes, hbelow, List.map_cons, hmark]
    exact List.cons_sublist_cons.mpr (List.nil_sublist _)

/-- Only a tick reports anything. -/
theorem Noticed.perform (h : Noticed k s.nodes) (hs : s.Kempt) {op : Operation κ τ}
    (hop : ∀ trace, op ≠ .tick trace) :
    (s.perform op.witnessed).Ensures k fun s' k' _ =>
      Noticed k' s'.nodes ∧ reports k'.ledger = reports k.ledger := by
  cases op with
  | tick trace => exact absurd rfl (hop trace)
  | stop taker => exact h.stop hs _
  | suspend taker =>
      apply (suspend_stopped _ hs.held).imp
      intro s' k' _ hsuspend
      obtain ⟨rfl, rfl⟩ | ⟨hmarks, -, hstopped⟩ := hsuspend
      · exact ⟨h, rfl⟩
      · exact h.torn hstopped (by rw [hmarks])
  | fail reason =>
      apply (h.stop hs none).bind
      intro s' k' _ h'
      apply Act.Meets.note_bind
      exact Act.meets_pure ⟨h'.1.withRoot rfl, h'.2⟩
  | reset => exact Act.meets_pure ⟨h.withRoot rfl, rfl⟩
  | change f =>
      apply Act.Meets.bind (P := fun _ k' _ =>
        Noticed k' s.nodes ∧ reports k'.ledger = reports k.ledger)
      · exact Act.meets_modify ⟨⟨h.entered, h.drawn, h.ordered, h.reported⟩, rfl⟩
      · exact fun _ _ _ h' => Act.meets_pure h'
  | alter f => exact Act.meets_pure ⟨h.withRoot rfl, rfl⟩

theorem Noticed.observe (h : Noticed k s.nodes) (hs : s.Kempt) (op : Operation κ τ) :
    (s.observe op.witnessed).Ensures k fun r k' _ =>
      Noticed k' r.1.nodes ∧ r.1.Kempt ∧ Tells k k' r.2 := by
  cases op with
  | tick trace =>
      apply ((tickWithin_ticked depthLimit hs trace k).and
        (tickWithin_recorded depthLimit hs h trace)).bind
      intro r k' _ h'
      obtain ⟨⟨hsound, -⟩, calls, new, hrecorded⟩ := h'
      refine Act.meets_pure ⟨hrecorded.noticed, hsound.kempt, ?_⟩
      rw [Tells, hrecorded.adds.due, hrecorded.adds.changes_eq]
      simp
  | _ =>
      apply ((h.perform hs (by nofun)).and (hs.perform _ k)).bind
      intro s' k' _ h'
      exact Act.meets_pure ⟨h'.1.1, h'.2, congrArg (List.map Prod.snd) h'.1.2⟩

omit [Task κ τ] in
theorem noticed_ofTask (t : τ) (k : κ) :
    Noticed { context := k } (ofTask (⟨t, 0⟩ : Witness τ)).nodes := by
  refine ⟨by simp, ?_, List.pairwise_singleton _ _, ?_⟩
  · simp [numbers, nodes, ofTask, Node.fresh]
  · simp [nodes, ofTask, Node.fresh, lastState, reports]

theorem Noticed.observeAll (h : Noticed k s.nodes) (hs : s.Kempt) (ops : List (Operation κ τ)) :
    (s.observeAll (ops.map Operation.witnessed)).Ensures k fun r k' _ =>
      Noticed k' r.1.nodes ∧ r.1.Kempt ∧ Tells k k' r.2 := by
  induction ops generalizing s k with
  | nil => exact Act.meets_pure ⟨h, hs, rfl⟩
  | cons op ops ih =>
      apply (h.observe hs op).bind
      intro r k₁ _ h₁
      obtain ⟨hnoticed, hkempt, htells⟩ := h₁
      apply (ih hnoticed hkempt).bind
      intro rest k₂ _ h₂
      exact Act.meets_pure ⟨h₂.1, h₂.2.1, htells.trans h₂.2.2⟩

/-! ## The reports of a tick -/

/-- What a tick reports, given the calls in it, the latest first, the nodes that are held after it,
and the reports that were made before, the latest first. -/
structure Reported (history : List (Nat × StateChange)) (calls : Ledger)
    (nodes : List (Node (Witness τ))) (new : List (Nat × StateChange)) : Prop where
  /-- A report is made exactly on a node whose tick hook went well and left a state text other than
  the one that was reported last for the node. It shows the label and this text. -/
  due : ∀ r, r ∈ new ↔ r ∈ seen calls ∧ r.2.state ≠ lastState r.1 history
  /-- The reports come from the root down. -/
  downward : (new.map Prod.fst).Sublist (numbers nodes)
  /-- So there is at most one for each node. -/
  rising : (numbers nodes).Pairwise (· < ·)
  /-- After a tick hook that went well the node is held, and what was reported last for it is the
  text that it shows. -/
  current : ∀ r ∈ seen calls, ∃ n ∈ nodes, n.task.number = r.1 ∧
    Task.label n.task = r.2.label ∧ n.control.state = r.2.state ∧
      lastState r.1 (new.reverse ++ history) = n.control.state

theorem Recorded.reported {r : Nat} {calls : Ledger} {new : List (Nat × StateChange)}
    (h : Recorded r k changes s k' changes' calls new) :
    Reported (reports k.ledger) calls s.nodes new.reverse := by
  refine ⟨fun r => ?_, ?_, h.noticed.ordered, fun r hr => ?_⟩
  · rw [List.mem_reverse, h.adds.new_eq h.once, mem_changed]
  · rw [List.map_reverse]
    exact h.downward
  · obtain ⟨n, hn, hshows⟩ := h.shown r hr
    refine ⟨n, hn, hshows.number, hshows.label, hshows.state, ?_⟩
    rw [List.reverse_reverse, ← h.adds.due, ← hshows.number, ← h.noticed.reported n hn,
      hshows.reported, hshows.state]

/-- Take any run of operations on a root and a tick after it. If each hook enters in a ledger what
it is given and what it replies, the state changes that the ticks of the run added to their records
are the reports that the ledger tells of. The tick adds the reports that are due after its calls,
and of two reports in a row on one node the later one shows another state text. -/
theorem reports_state_changes (t : τ) (ops : List (Operation κ τ)) (trace : Trace) (k : κ) :
    ((ofTask t).observeAll ops).Ensures k fun before k₁ trail₁ =>
      (before.1.tick trace).Ensures k₁ fun r k₂ trail₂ => ∃ d₁ d₂ calls new,
        (ofTask (⟨t, 0⟩ : Witness τ)).observeAll (ops.map Operation.witnessed)
          { context := k } = .ok d₁ ∧
        d₁.value.1.tick trace d₁.context = .ok d₂ ∧
        (Witnessed.guise.spine d₁.value.1, d₁.value.2) = before ∧
        (Witnessed.guise.spine d₂.value.1, d₂.value.2) = r ∧
        d₁.context.context = k₁ ∧ d₂.context.context = k₂ ∧
        d₁.trail.map Witnessed.guise.happening = trail₁ ∧
        d₂.trail.map Witnessed.guise.happening = trail₂ ∧
        d₂.context.ledger = calls ++ d₁.context.ledger ∧
        (reports d₁.context.ledger).map Prod.snd = before.2.reverse ∧
        r.2.changes = trace.changes ++ new.map Prod.snd ∧
        Reported (reports d₁.context.ledger) calls d₂.value.1.nodes new ∧
        ∀ i, ((new.reverse ++ reports d₁.context.ledger).filter fun x => x.1 = i).IsChain
          fun later earlier => later.2.state ≠ earlier.2.state := by
  apply (Act.ensures_run _ k).imp
  intro before k₁ trail₁ hrun₁
  apply (Act.ensures_run _ k₁).imp
  intro r k₂ trail₂ hrun₂
  -- the same run of witnesses
  obtain ⟨d₁, hd₁, rfl, rfl, htrail₁⟩ := (Witnessed.guise.observeAll_matches shows_witnessed
    (ofTask ⟨t, 0⟩) ops (k := { context := k })).of_ok hrun₁
  obtain ⟨d₂, hd₂, rfl, rfl, htrail₂⟩ :=
    (Witnessed.guise.tick_matches d₁.value.1 trace).of_ok hrun₂
  -- what the nodes know of the reports
  obtain ⟨hnoticed, hkempt, htells⟩ := ((noticed_ofTask t k).observeAll
    (resting_ofTask _).sound.kempt ops).of_ok hd₁
  obtain ⟨calls, new, hrecorded⟩ :=
    (tickWithin_recorded depthLimit hkempt hnoticed trace).of_ok hd₂
  refine ⟨d₁, d₂, calls, new.reverse, hd₁, hd₂, rfl, rfl, rfl, rfl, htrail₁, htrail₂,
    hrecorded.adds.ledger, Eq.trans htells (List.append_nil _), hrecorded.adds.changes_eq,
    hrecorded.reported, fun i => ?_⟩
  rw [List.reverse_reverse, ← hrecorded.adds.due]
  exact isChain_reports i d₂.context.ledger

end Spine

end Arbiter
