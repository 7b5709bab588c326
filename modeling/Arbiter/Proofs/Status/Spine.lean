import Arbiter.Chain.Single
import Arbiter.Proofs.Runner.Halt
import Arbiter.Proofs.Spine.Trace

/-! What the state texts have in common that the hooks of the tasks set, all nodes of a spine and
all labels of a trace show, however the spine is ticked or torn down. -/

namespace Arbiter

variable {κ τ : Type} [Task κ τ] {P L : String → Prop} {k : κ}

/-- The hooks of tasks `τ` set no state text but those that satisfy `P`, and every label with such
a text satisfies `L`. -/
structure Wording (τ : Type) {κ : Type} [Task κ τ] (P L : String → Prop) : Prop where
  empty : P ""
  starts : ∀ (t : τ) {c : Control} (k : κ), P c.state →
    (Task.onStart t c).Ensures k fun r _ _ => P r.2.state
  turns : ∀ (t : τ) {c : Control} (k : κ), P c.state →
    (Task.onTick t c).Ensures k fun turn _ _ => P turn.reply.state
  label : ∀ n : Node τ, P n.control.state → L n.label

/-- All labels of the trace satisfy `L`. -/
def Trace.Shows (L : String → Prop) (trace : Trace) : Prop := ∀ l ∈ trace.labels, L l

namespace Trace

variable {trace : Trace} {label : String}

theorem shows_empty : ({} : Trace).Shows L := fun _ h => nomatch h

theorem Shows.enter (h : trace.Shows L) (hl : L label) : (trace.enter label).Shows L :=
  List.forall_mem_cons.mpr ⟨hl, h⟩

theorem Shows.relabel (h : trace.Shows L) (hl : L label) : (trace.relabel label).Shows L :=
  List.forall_mem_cons.mpr ⟨hl, fun l hmem => h l (List.mem_of_mem_tail hmem)⟩

end Trace

namespace Spine

/-- The state texts of all nodes satisfy `P`. -/
def Worded (P : String → Prop) (nodes : List (Node τ)) : Prop := ∀ n ∈ nodes, P n.control.state

omit [Task κ τ] in
theorem worded_cons {n : Node τ} {rest : List (Node τ)} :
    Worded P (n :: rest) ↔ P n.control.state ∧ Worded P rest := List.forall_mem_cons

omit [Task κ τ] in
theorem worded_singleton {n : Node τ} : Worded P [n] ↔ P n.control.state :=
  List.forall_mem_singleton

variable {s : Spine τ} {trace : Trace}

/-! ## Teardown -/

theorem Worded.stop (hs : Worded P s.nodes) (taker : Option τ) :
    (s.stop taker).Ensures k fun s' _ _ => Worded P s'.nodes := by
  rw [Spine.stop]
  split
  · refine (halt_ensures taker s.root k).bind ?_
    rintro n k' t ⟨hn, -⟩
    refine (Act.ensures_true _ k').bind fun _ _ _ _ => Act.meets_pure ?_
    refine worded_singleton.mpr ?_
    show P n.control.state
    rw [hn]
    exact hs s.root List.mem_cons_self
  · exact Act.meets_pure hs

theorem Worded.fail (hs : Worded P s.nodes) (reason : String) :
    (s.fail reason).Ensures k fun s' _ _ => Worded P s'.nodes := by
  rw [Spine.fail]
  refine (hs.stop none).bind fun s' k' _ hs' => Act.Meets.note_bind (Act.meets_pure ?_)
  obtain ⟨hroot, hbelow⟩ := worded_cons.mp hs'
  exact worded_cons.mpr ⟨hroot, hbelow⟩

/-! ## Ticks -/

theorem Worded.ready (hW : Wording τ P L) (hs : Worded P s.nodes) :
    s.ready.Ensures k fun s' _ _ => Worded P s'.nodes := by
  obtain ⟨hroot, hbelow⟩ := worded_cons.mp hs
  rw [Spine.ready]
  split
  · rw [start]
    refine Act.Meets.note_bind ((Act.Meets.called (hW.starts s.root.task k ?_)).bind ?_)
    · exact hroot
    · rintro ⟨task, reply⟩ k' t hreply
      have hstarted : ∀ n : Node τ, n.control.state = reply.state →
          Worded P ({ s with root := n } : Spine τ).nodes := fun n hn =>
        worded_cons.mpr ⟨hn ▸ hreply, hbelow⟩
      dsimp only
      split
      · exact Act.meets_pure (hstarted _ rfl)
      · exact (hstarted _ rfl).fail _
  · exact Act.meets_pure hs

theorem Worded.settle (hW : Wording τ P L) {below : List (Node τ)} (hb : Worded P below)
    (parent : Node τ) (candidate : Option τ) :
    (settle parent below candidate).Ensures k fun ns _ _ => Worded P ns := by
  have hfresh : ∀ c : τ, Worded P [Node.fresh c] := fun _ => worded_singleton.mpr hW.empty
  have hnil : Worded P ([] : List (Node τ)) := fun _ h => nomatch h
  unfold Spine.settle
  split
  · exact Act.meets_pure hnil
  · exact Act.meets_pure (hfresh _)
  · split
    · exact Act.meets_pure hb
    · refine Act.Meets.get_bind ?_
      split
      · exact Act.Meets.note_bind (Act.meets_pure hb)
      · exact (Act.ensures_true _ k).bind fun _ _ _ _ => Act.meets_pure (hfresh _)
  · refine Act.Meets.get_bind ?_
    split
    · exact Act.meets_pure hb
    · exact (Act.ensures_true _ k).bind fun _ _ _ _ => Act.meets_pure hnil

theorem Worded.rejoin {n : Node τ} (hn : P n.control.state) (hs : Worded P s.nodes) :
    (rejoin n s : Act κ (Happening τ) _).Ensures k fun s' _ _ => Worded P s'.nodes := by
  rw [Spine.rejoin]
  split
  · exact Act.meets_pure (worded_cons.mpr ⟨hn, hs⟩)
  · exact (Act.ensures_true _ k).bind fun _ _ _ _ => Act.meets_pure (worded_singleton.mpr hn)

/-- By recursion over the levels of delegation: the label of a node is written before its start and
again after its turn, both times with a state text of the node itself. -/
theorem Worded.tickWithin (hW : Wording τ P L) (depth : Nat) (hs : Worded P s.nodes)
    (ht : trace.Shows L) :
    (tickWithin depth s trace).Ensures k fun p _ _ => Worded P p.1.nodes ∧ p.2.Shows L := by
  induction depth generalizing s trace k with
  | zero => exact Act.meets_abort trivial
  | succ depth ih =>
      have henter := ht.enter (hW.label s.root (hs s.root List.mem_cons_self))
      rw [Spine.tickWithin]
      refine (hs.ready hW).bind fun s₁ k₁ _ hs₁ => ?_
      obtain ⟨hroot, hbelow⟩ := worded_cons.mp hs₁
      dsimp only
      split
      · exact Act.meets_pure ⟨hs₁, henter⟩
      · refine (Act.Meets.called (hW.turns s₁.root.task k₁ hroot)).bind fun turn k₂ _ hturn => ?_
        split
        · have hturned : Worded P ({ s₁ with root := turned s₁.root turn } : Spine τ).nodes :=
            worded_cons.mpr ⟨hturn, hbelow⟩
          refine (hturned.fail _).bind fun s₂ k₃ _ hs₂ => Act.meets_pure ⟨hs₂, ?_⟩
          exact henter.relabel (hW.label s₂.root (hs₂ s₂.root List.mem_cons_self))
        · refine Act.Meets.bind (reportState_quiet (F := fun _ => True) _ _) ?_
          rintro ⟨n, trace₁⟩ k₃ _ ⟨-, rfl, hlabels, -⟩
          have hn : P ({ turned s₁.root turn with
              reportedState := (turned s₁.root turn).control.state } : Node τ).control.state :=
            hturn
          have hshown : trace₁.Shows L := fun l hl => henter l (hlabels ▸ hl)
          have hshown := hshown.relabel (hW.label _ hn)
          refine (hbelow.settle hW _ _).bind fun below k₄ _ hbelow' => ?_
          cases below with
          | nil => exact Act.meets_pure ⟨worded_singleton.mpr hn, hshown⟩
          | cons m rest =>
              refine (ih (s := { root := m, below := rest }) hbelow' hshown).bind ?_
              rintro ⟨sub, trace₂⟩ k₅ _ ⟨hsub, hshown₂⟩
              exact (Worded.rejoin hn hsub).bind fun s₂ _ _ hs₂ => Act.meets_pure ⟨hs₂, hshown₂⟩

theorem Worded.tick (hW : Wording τ P L) (hs : Worded P s.nodes) (ht : trace.Shows L) :
    (s.tick trace).Ensures k fun p _ _ => Worded P p.1.nodes ∧ p.2.Shows L :=
  hs.tickWithin hW depthLimit ht

end Spine

end Arbiter
