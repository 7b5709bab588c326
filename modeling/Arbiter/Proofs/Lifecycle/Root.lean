import Arbiter.Job.Hooks
import Arbiter.Proofs.Chain.Sound
import Arbiter.Proofs.Lifecycle.Spine
import Arbiter.Proofs.Spine.Refusal

/-! Roots that are never reset. The flags of their nodes stay in step with each other in every
operation, so that the flags of a node alone tell whether a stop hook is due. A root with a failure
owes none, and its holder may let go of it at once. -/

namespace Arbiter

variable {κ τ : Type}

/-- What the flags of a node say of the node itself, of those `below` it, and of itself again if
there are some `above` it. -/
structure Node.Ordered (above : List (Node τ)) (n : Node τ) (below : List (Node τ)) : Prop where
  active_of_started : n.pending = false → n.active = true
  inactive_of_stopped : n.stopped = true → n.active = false
  inactive_of_failed : n.failure ≠ none → n.active = false
  below_nil : n.active = false → below = []
  held : above ≠ [] → n.Held
  pending_below : n.pending = true → ∀ m ∈ below, m.pending = true

namespace Spine

/-- The invariant of whole spines, as it shows at each node. -/
theorem Sound.ordered {s : Spine τ} (hs : s.Sound) {above below : List (Node τ)} {n : Node τ}
    (h : s.nodes = above ++ n :: below) : n.Ordered above below := by
  have hpending : n.pending = true → ∀ m ∈ below, m.pending = true := by
    have hpairs := hs.pending
    rw [h] at hpairs
    have hn := (List.pairwise_append.mp hpairs).2.1
    exact fun hp m hm => (List.pairwise_cons.mp hn).1 m hm hp
  cases above with
  | nil =>
      obtain ⟨rfl, rfl⟩ := List.cons.inj h
      exact ⟨hs.root.active_of_started, hs.root.inactive_of_stopped, hs.root.inactive_of_failed,
        hs.below_nil, fun h => absurd rfl h, hpending⟩
  | cons m above =>
      obtain ⟨-, hbelow⟩ := List.cons.inj h
      have hheld : n.Held := hs.held n (by simp [hbelow])
      have hn := hheld.sound
      refine ⟨hn.active_of_started, hn.inactive_of_stopped, hn.inactive_of_failed, ?_,
        fun _ => hheld, hpending⟩
      intro ha
      simp [hheld.active] at ha

theorem Sound.resting_of_failed {s : Spine τ} (hs : s.Sound) (hf : s.root.failure ≠ none) :
    s.Resting :=
  hs.resting (hs.root.inactive_of_failed hf)

/-! ## Operations other than resets -/

section Operations

variable [Task κ τ] {s : Spine τ}

theorem Resting.stop_eq (hs : s.Resting) (taker : Option τ) : s.stop taker = pure s := by
  rw [stop, if_neg (by simp [hs.inactive])]

/-- Only a reset breaks the order of the flags: it forgets the activation of a root and leaves the
nodes below it as they are. -/
theorem Sound.perform (hs : s.Sound) {op : Operation κ τ} (hop : op ≠ .reset) (k : κ) :
    (s.perform op).Ensures k fun s' _ _ => s'.Sound := by
  cases op with
  | tick trace =>
      apply (tick_ensures hs trace k).bind
      exact fun r k' t h => Act.meets_pure h.1
  | stop taker => exact (stop_ensures taker hs k).imp fun _ _ _ h => h.resting.sound
  | suspend taker => exact (suspend_ensures taker hs k).imp fun _ _ _ h => h.1
  | fail reason => exact (fail_ensures reason hs k).imp fun _ _ _ h => h.1.sound
  | reset => exact absurd rfl hop
  | change f => exact (Act.ensures_true _ k).bind fun _ _ _ _ => Act.meets_pure hs
  | alter f =>
      have hroot : ({ s.root with task := f s.root.task } : Node τ).Sound :=
        ⟨hs.root.active_of_started, hs.root.inactive_of_stopped, hs.root.inactive_of_failed⟩
      have hpending := List.pairwise_cons.mp hs.pending
      exact Act.meets_pure ⟨hroot, hs.below_nil, hs.held, List.pairwise_cons.mpr hpending⟩

theorem Sound.performAll (hs : s.Sound) {ops : List (Operation κ τ)}
    (hops : ∀ op ∈ ops, op ≠ .reset) (k : κ) :
    (s.performAll ops).Ensures k fun s' _ _ => s'.Sound := by
  induction ops generalizing s k with
  | nil => exact Act.meets_pure hs
  | cons op ops ih =>
      apply (hs.perform (hops op List.mem_cons_self) k).bind
      exact fun s' k' _ hs' => ih hs' (fun op' h => hops op' (List.mem_cons_of_mem op h)) k'

end Operations

/-! ## The account of a root -/

section Account

variable [Task κ τ] {s : Spine (Instance τ)}

omit [Task κ τ] in
theorem resting_of_plain (h : s.plain.Resting) : s.Resting :=
  ⟨h.pending, h.inactive, List.map_eq_nil_iff.mp h.alone⟩

omit [Task κ τ] in
theorem Operation.numbered_ne_reset {op : Operation κ τ} (h : op ≠ .reset) :
    op.numbered ≠ .reset := by
  cases op with
  | reset => exact absurd rfl h
  | _ => exact fun h => nomatch h

theorem Sound.perform_keeps (hs : s.Sound) {op : Operation κ τ} (hop : op ≠ .reset)
    (k : Numbered κ) :
    (s.perform op.numbered).Ensures k fun s' k' t =>
      Keeps (lives s.nodes) k.next (lives s'.nodes) k'.next t := by
  cases op with
  | tick trace =>
      apply (tick_keeps hs trace k).bind
      intro r k' t h
      apply Act.meets_pure
      rw [List.append_nil]
      exact h
  | stop taker => exact stop_keeps _ hs k
  | suspend taker => exact suspend_keeps _ s k
  | fail reason => exact fail_keeps reason hs k
  | reset => exact absurd rfl hop
  | change f =>
      refine Act.Meets.bind (Act.meets_modify (Q := fun _ k' t => k'.next = k.next ∧ t = [])
        ⟨rfl, rfl⟩) ?_
      rintro _ k' _ ⟨hnext, rfl⟩
      apply Act.meets_pure
      rw [hnext]
      exact .refl _ _
  | alter f => exact Act.meets_pure (.refl _ _)

theorem Sound.performAll_keeps (hs : s.Sound) {ops : List (Operation κ τ)}
    (hops : ∀ op ∈ ops, op ≠ .reset) (k : Numbered κ) :
    (s.performAll (ops.map Operation.numbered)).Ensures k fun s' k' t =>
      Keeps (lives s.nodes) k.next (lives s'.nodes) k'.next t := by
  induction ops generalizing s k with
  | nil => exact Act.meets_pure (.refl _ _)
  | cons op ops ih =>
      have hop := hops op List.mem_cons_self
      apply ((hs.perform (Operation.numbered_ne_reset hop) k).and (hs.perform_keeps hop k)).bind
      rintro s' k' t ⟨hs', h⟩
      apply (ih hs' (fun op' h' => hops op' (List.mem_cons_of_mem op h')) k').imp
      exact fun s'' k'' u h' => h.trans h'

/-- At the end of a run that begins with a new root, an instance is open only if it is held. -/
theorem performAll_closed (t : τ) {ops : List (Operation κ τ)} (hops : ∀ op ∈ ops, op ≠ .reset)
    (k : κ) :
    ((ofTask (⟨t, 0⟩ : Instance τ)).performAll (ops.map Operation.numbered)).Ensures
      { context := k, next := 1 } fun s' _ trail =>
        s'.Resting → ∀ i, Closed i trail := by
  have hs := (resting_ofTask (⟨t, 0⟩ : Instance τ)).sound
  apply (hs.performAll_keeps hops _).imp
  intro s' k' trail h hrest i
  have hrun : Keeps [] 0 (lives s'.nodes) k'.next trail := (Keeps.fresh 0).trans h
  refine (hrun.lifecycle i).2.2 ?_
  rw [hrest.lives_nodes]
  simp [ended]

end Account

/-! ## Letting go of a failed root -/

variable [Task κ τ]

/-- A chain lets go of a root that has failed without a hook and without a fault. -/
theorem SingleChain.tick_of_failed {c : SingleChain κ τ} {s : Spine τ} (h : c.spine = some s)
    {f : Failure} (hf : s.root.failureReport = some f) (trace : Trace) (k : κ) :
    (c.tick trace).Meets k (fun _ => False) fun r k' t =>
      r = ({ c with spine := none, outcome := some (.failed f) }, trace) ∧ k' = k ∧
        hooks t = [] := by
  rw [SingleChain.tick]
  split
  · next hnone => simp [hnone] at h
  · next s' hs' =>
    obtain rfl := Option.some.inj (hs'.symm.trans h)
    split
    · next f' hf' =>
      obtain rfl := Option.some.inj (hf'.symm.trans hf)
      refine (SingleChain.finish_meets c s' (.failed f') k).bind ?_
      rintro c' k' t ⟨rfl, rfl, hhooks, -⟩
      exact Act.meets_pure ⟨rfl, rfl, by simpa using hhooks⟩
    · next hnone => simp [hnone] at hf

/-- Take any run of operations on a new root without a reset. The flags of all its nodes are in
order, and so they are after each operation, since every part of a run is a run. If the root has
failed then a stop would do nothing to it, no instance that came up in the run is open, and a chain
that holds the root lets go of it in its next tick without calling a hook. -/
theorem nodes_ordered (t : τ) (ops : List (Operation κ τ)) (hops : ∀ op ∈ ops, op ≠ .reset)
    (k : κ) :
    ((ofTask t).performAll ops).Ensures k fun s k' trail =>
      (∀ above n below, s.nodes = above ++ n :: below → Node.Ordered above n below) ∧
      ∀ f, s.root.failureReport = some f →
        (∀ taker, s.stop taker = pure s) ∧
        (∃ d, (ofTask (⟨t, 0⟩ : Instance τ)).performAll (ops.map Operation.numbered)
            { context := k, next := 1 } = .ok d ∧
          d.value.plain = s ∧ d.trail.map Happening.plain = trail ∧ ∀ i, Closed i d.trail) ∧
        ∀ (c : SingleChain κ τ) (trace : Trace), c.spine = some s →
          (c.tick trace).Meets k' (fun _ => False) fun r k'' u =>
            r = ({ c with spine := none, outcome := some (.failed f) }, trace) ∧ k'' = k' ∧
              hooks u = [] := by
  apply ((resting_ofTask t).sound.performAll hops k).ran.imp
  intro s k' trail h
  obtain ⟨hrun, hs⟩ := h
  refine ⟨fun _ _ _ => hs.ordered, fun f hf => ?_⟩
  have hrest : s.Resting := hs.resting_of_failed fun h => by simp [Node.failureReport, h] at hf
  refine ⟨hrest.stop_eq, ?_, fun c trace hc => SingleChain.tick_of_failed hc hf trace k'⟩
  -- the same run with numbers
  obtain ⟨d, hd, rfl, -, htrail⟩ :=
    (performAll_tracks (ofTask ⟨t, 0⟩) ops { context := k, next := 1 }).of_ok hrun
  have hclosed := (performAll_closed t hops k).of_ok hd
  exact ⟨d, hd, rfl, htrail, hclosed (resting_of_plain hrest)⟩

/-- A root that is suspended, taken up again and then called off. -/
def calledOff : List (Operation World Job) :=
  [.tick {}, .suspend none, .tick {}, .fail "called off"]

/-- A hunt that is called off. The hunt, the walk and the step have two activations each, and all
are over when the hunt is let go of. -/
theorem nodes_ordered_hunt :
    ∃ d e, (ofTask (Job.kill 1)).performAll calledOff { mobs := [⟨1, ⟨9, 0⟩, 5⟩] } = .ok d ∧
      (ofTask (⟨.kill 1, 0⟩ : Instance Job)).performAll (calledOff.map Operation.numbered)
        { context := { mobs := [⟨1, ⟨9, 0⟩, 5⟩] }, next := 1 } = .ok e ∧
      (∀ above n below, d.value.nodes = above ++ n :: below → Node.Ordered above n below) ∧
      d.value.root.failureReport = some ⟨"Kill mob 1", "called off"⟩ ∧
      (∀ taker, d.value.stop taker = pure d.value) ∧
      (∀ i, Closed i e.trail) ∧ ∀ i < 3, callsOf i e.trail = activations [1, 1] := by
  obtain ⟨d, hd, hf⟩ := Act.exists_ok
    (m := (ofTask (Job.kill 1)).performAll calledOff) (k := { mobs := [⟨1, ⟨9, 0⟩, 5⟩] })
    (p := fun d => decide (d.value.root.failureReport = some ⟨"Kill mob 1", "called off"⟩))
    (by decide +kernel)
  obtain ⟨e, he, hcalls⟩ := Act.exists_ok
    (m := (ofTask (⟨.kill 1, 0⟩ : Instance Job)).performAll (calledOff.map Operation.numbered))
    (k := { context := { mobs := [⟨1, ⟨9, 0⟩, 5⟩] }, next := 1 })
    (p := fun e => (List.range 3).all fun i => callsOf i e.trail == activations [1, 1])
    (by decide +kernel)
  obtain ⟨hordered, hfailed⟩ :=
    (nodes_ordered (Job.kill 1) calledOff (by simp [calledOff]) _).of_ok hd
  have hf := of_decide_eq_true hf
  obtain ⟨hstop, ⟨e', he', -, -, hclosed⟩, -⟩ := hfailed _ hf
  obtain rfl := Except.ok.inj (he.symm.trans he')
  exact ⟨d, e, hd, he, hordered, hf, hstop, hclosed, by simpa using hcalls⟩

end Spine

end Arbiter
