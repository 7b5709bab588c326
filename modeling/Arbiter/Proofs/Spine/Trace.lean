import Arbiter.Proofs.Spine.Halt

/-! The record of a tick. It holds the nodes that were visited, from the root down, and the changes
of their state texts in the same order; a tick tells the sink nothing by itself. -/

namespace Arbiter

variable {κ τ : Type} {F : Fault → Prop} {k : κ}

/-! ## Visits -/

/-- A node that is ticked: its label, and the change of its state text, if that changed. -/
structure Visit where
  label : String
  change : Option StateChange := none

/-- The record that led from one trace to another: the labels of the visited nodes and the changes
of their state texts, each under the label that shows it. -/
structure Trace.Visited (trace : Trace) (visits : List Visit) (trace' : Trace) : Prop where
  spine : trace'.spine = trace.spine ++ visits.map Visit.label
  changes : trace'.changes = trace.changes ++ visits.filterMap Visit.change
  shown : ∀ v ∈ visits, ∀ c ∈ v.change, v.label = "<" ++ c.label ++ "> " ++ c.state

namespace Trace.Visited

variable {trace trace' trace'' : Trace} {visits visits' : List Visit}

theorem nil (trace : Trace) : trace.Visited [] trace := ⟨by simp, by simp, nofun⟩

theorem append (h : trace.Visited visits trace') (h' : trace'.Visited visits' trace'') :
    trace.Visited (visits ++ visits') trace'' := by
  refine ⟨?_, ?_, ?_⟩
  · rw [h'.spine, h.spine, List.map_append, List.append_assoc]
  · rw [h'.changes, h.changes, List.filterMap_append, List.append_assoc]
  · intro v hv
    rcases List.mem_append.mp hv with hv | hv
    · exact h.shown v hv
    · exact h'.shown v hv

theorem entered (trace : Trace) (label : String) :
    trace.Visited [{ label }] (trace.enter label) := by
  refine ⟨trace.spine_enter label, by simp [Trace.enter, Trace.changes], ?_⟩
  intro v hv c hc
  obtain rfl := List.mem_singleton.mp hv
  cases hc

/-- The label of a node is replaced after its work, and the change of its state text is added. -/
theorem relabelled {old new : String} {change : Option StateChange}
    (hlabels : trace'.labels = (trace.enter old).labels)
    (hchanges : trace'.changes = trace.changes ++ change.toList)
    (hshown : ∀ c ∈ change, new = "<" ++ c.label ++ "> " ++ c.state) :
    trace.Visited [{ label := new, change }] (trace'.relabel new) := by
  refine ⟨?_, ?_, ?_⟩
  · simp [Trace.spine, Trace.relabel, Trace.enter, hlabels]
  · show trace'.changes = _
    rw [hchanges]
    cases change <;> rfl
  · intro v hv c hc
    obtain rfl := List.mem_singleton.mp hv
    exact hshown c hc

end Trace.Visited

variable [Task κ τ]

namespace Spine

/-- Unless a node has been stopped or has failed, the nodes that are held were visited from the root
down, and the last state texts that were reported are those that they show. -/
def Toured (s : Spine τ) (visits : List Visit) : Prop :=
  (∀ n ∈ s.nodes, n.stopped = false ∧ n.failure = none) →
    s.nodes.map Node.label <+: visits.map Visit.label ∧
      ∀ n ∈ s.nodes, n.reportedState = n.control.state

theorem toured_of_stopped {s : Spine τ} (h : s.root.stopped = true) (visits : List Visit) :
    s.Toured visits := fun hs => by
  have hroot := (hs s.root List.mem_cons_self).1
  rw [h] at hroot
  cases hroot

theorem toured_of_failed {s : Spine τ} (h : s.root.failure ≠ none) (visits : List Visit) :
    s.Toured visits := fun hs => absurd (hs s.root List.mem_cons_self).2 h

theorem toured_alone {n : Node τ} (change : Option StateChange) (visits : List Visit)
    (hreported : n.reportedState = n.control.state) :
    ({ root := n } : Spine τ).Toured ({ label := n.label, change } :: visits) := by
  intro _
  refine ⟨by simp [nodes], ?_⟩
  intro m hm
  obtain rfl := List.mem_singleton.mp hm
  exact hreported

theorem Toured.cons {n : Node τ} {sub : Spine τ} {visits : List Visit} (h : sub.Toured visits)
    (change : Option StateChange) (hreported : n.reportedState = n.control.state) :
    ({ root := n, below := sub.nodes } : Spine τ).Toured
      ({ label := n.label, change } :: visits) := by
  intro hs
  obtain ⟨hvisits, hsub⟩ := h fun m hm => hs m (List.mem_cons_of_mem n hm)
  refine ⟨List.cons_prefix_cons.mpr ⟨rfl, hvisits⟩, ?_⟩
  intro m hm
  rcases List.mem_cons.mp hm with rfl | hm
  · exact hreported
  · exact hsub m hm

/-! ## Ticks -/

theorem ready_quiet (s : Spine τ) :
    s.ready.Keeps k (fun _ => True) Happening.Quiet fun _ _ => True := by
  have hstart : s.start.Keeps k (fun _ => True) Happening.Quiet fun _ _ => True := by
    rw [start]
    refine Act.Keeps.tell_bind rfl ?_
    refine (Act.Keeps.call_quiet (c := .started s.root.task) rfl (Act.ensures_true _ _)).bind ?_
    rintro ⟨task, reply⟩ k' -
    dsimp only
    split
    · exact Act.keeps_pure trivial
    · exact (fail_quiet releases_true _ _).imp fun _ _ _ => trivial
  rw [ready]
  split
  · exact hstart
  · exact Act.keeps_pure trivial

/-- The state text is told if it differs from the one that was reported last. -/
theorem reportState_quiet (n : Node τ) (trace : Trace) :
    (reportState n trace : Act κ (Happening τ) _).Keeps k F Happening.Quiet fun p _ =>
      p.1 = { n with reportedState := n.control.state } ∧ p.2.labels = trace.labels ∧
        ∃ change : Option StateChange, p.2.changes = trace.changes ++ change.toList ∧
          ∀ c ∈ change, n.label = "<" ++ c.label ++ "> " ++ c.state := by
  rw [reportState]
  split
  · next h => exact Act.keeps_pure ⟨by rw [h], rfl, none, by simp, by simp⟩
  · refine Act.Keeps.tell_bind rfl (Act.keeps_pure ⟨rfl, rfl,
      some { label := Task.label n.task, state := n.control.state }, ?_, ?_⟩)
    · exact trace.changes_change _
    · intro c hc
      cases hc
      rfl

theorem settle_quiet (parent : Node τ) (below : List (Node τ)) (candidate : Option τ) :
    (settle parent below candidate).Keeps k (fun _ => True) Happening.Quiet fun _ _ => True := by
  have hdrop : ∀ (taker : Option τ) (nodes held : List (Node τ)) {k : κ},
      (stopAndDrop taker nodes >>= fun _ => pure held).Keeps k (fun _ => True) Happening.Quiet
        fun _ _ => True := fun taker nodes _ _ =>
    (stopAndDrop_quiet releases_true taker nodes).bind fun _ _ _ => Act.keeps_pure trivial
  unfold settle
  split
  · exact Act.keeps_pure trivial
  · exact Act.keeps_pure trivial
  · split
    · exact Act.keeps_pure trivial
    · refine Act.Keeps.get_bind ?_
      split
      · exact Act.Keeps.tell_bind rfl (Act.keeps_pure trivial)
      · exact hdrop _ _ _
  · refine Act.Keeps.get_bind ?_
    split
    · exact Act.keeps_pure trivial
    · exact hdrop _ _ _

theorem rejoin_quiet {n : Node τ} {sub : Spine τ} {visits : List Visit} (h : sub.Toured visits)
    (change : Option StateChange) (hreported : n.reportedState = n.control.state) :
    (rejoin n sub : Act κ (Happening τ) _).Keeps k F Happening.Quiet fun s _ =>
      s.Toured ({ label := n.label, change } :: visits) := by
  rw [rejoin]
  split
  · exact Act.keeps_pure (h.cons change hreported)
  · exact (dropAll_quiet sub.nodes).bind fun _ _ _ =>
      Act.keeps_pure (toured_alone change visits hreported)

/-- By recursion over the levels of delegation: the node first, then what it holds. -/
theorem tickWithin_visits (depth : Nat) (s : Spine τ) (trace : Trace) :
    (tickWithin depth s trace).Keeps k (fun _ => True) Happening.Quiet fun p _ =>
      ∃ visits, trace.Visited visits p.2 ∧ p.1.Toured visits := by
  induction depth generalizing s trace k with
  | zero => exact Act.meets_abort trivial
  | succ depth ih =>
      rw [tickWithin]
      refine (ready_quiet s).bind fun s k₁ _ => ?_
      split
      · next h =>
        exact Act.keeps_pure ⟨_, .entered trace _, toured_of_stopped h _⟩
      · refine (Act.Keeps.call_quiet (c := .ticked s.root.task) rfl (Act.ensures_true _ k₁)).bind ?_
        intro turn k₂ _
        dsimp only
        split
        · refine (fail_quiet releases_true _ _).bind fun s' k₃ hs' => Act.keeps_pure ?_
          have hvisited : trace.Visited [{ label := s'.root.label }]
              ((trace.enter s.root.label).relabel s'.root.label) :=
            .relabelled rfl (List.append_nil _).symm (by simp)
          exact ⟨_, hvisited, toured_of_failed hs' _⟩
        · refine (reportState_quiet _ _).bind ?_
          rintro ⟨n, trace₁⟩ k₃ ⟨rfl, hlabels, change, hchanges, hshown⟩
          have hvisited := Trace.Visited.relabelled hlabels hchanges hshown
          refine (settle_quiet _ _ _).bind fun below k₄ _ => ?_
          cases below with
          | nil => exact Act.keeps_pure ⟨_, hvisited, toured_alone change [] rfl⟩
          | cons m rest =>
              refine (ih _ _).bind ?_
              rintro ⟨sub, trace₂⟩ k₅ ⟨visits, hvisits, htoured⟩
              refine (rejoin_quiet htoured change rfl).bind fun s' k₆ hs' => ?_
              exact Act.keeps_pure ⟨_, hvisited.append hvisits, hs'⟩

end Spine

end Arbiter
