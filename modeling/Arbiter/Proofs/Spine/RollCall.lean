import Arbiter.Job.Hooks
import Arbiter.Proofs.Spine.Refusal
import Arbiter.Proofs.Spine.Trace

/-! The roll call of a tick. The record names every node that takes part, once and from the root
down. Those are the nodes that are held afterwards, and after them at most one that has failed. -/

namespace Arbiter

variable {κ τ : Type}

/-! ## Work -/

/-- Whether this is a hook by which a node starts or works. -/
def Happening.isWork : Happening τ → Bool
  | started _ | ticked _ => true
  | _ => false

/-- The start and tick hooks of a trail. -/
def works (trail : List (Happening τ)) : List (Happening τ) := trail.filter Happening.isWork

@[simp] theorem works_nil : works ([] : List (Happening τ)) = [] := rfl

@[simp] theorem works_append (s t : List (Happening τ)) : works (s ++ t) = works s ++ works t :=
  List.filter_append ..

@[simp] theorem works_started (t : τ) (trail : List (Happening τ)) :
    works (.started t :: trail) = .started t :: works trail := rfl

@[simp] theorem works_ticked (t : τ) (trail : List (Happening τ)) :
    works (.ticked t :: trail) = .ticked t :: works trail := rfl

@[simp] theorem works_noted (r : Record) (trail : List (Happening τ)) :
    works (.noted r :: trail) = works trail := rfl

theorem works_eq_nil {trail : List (Happening τ)} (h : ∀ x ∈ trail, x.isWork = false) :
    works trail = [] := by
  rw [works, List.filter_eq_nil_iff]
  intro x hx
  simp [h x hx]

theorem Noted.works {trail : List (Happening τ)} (h : Noted trail) : works trail = [] := by
  apply works_eq_nil
  intro x hx
  obtain ⟨r, rfl⟩ := h x hx
  rfl

@[simp] theorem works_map_noted (rs : List Record) :
    works (rs.map (Happening.noted : Record → Happening τ)) = [] := by
  apply works_eq_nil
  intro x hx
  obtain ⟨r, -, rfl⟩ := List.mem_map.mp hx
  rfl

@[simp] theorem works_map_dropped {α : Type} (f : α → τ) (xs : List α) :
    works (xs.map fun x => Happening.dropped (f x)) = [] := by
  apply works_eq_nil
  intro x hx
  obtain ⟨y, -, rfl⟩ := List.mem_map.mp hx
  rfl

/-- A hook by which a node works is a hook. -/
theorem works_hooks (trail : List (Happening τ)) : works (hooks trail) = works trail := by
  rw [works, hooks, List.filter_filter, works]
  apply List.filter_congr
  intro x _
  cases x <;> rfl

theorem works_of_stops {taker : Option τ} {nodes : List (Node τ)} {trail : List (Happening τ)}
    (h : hooks trail = Spine.stops taker nodes) : works trail = [] := by
  rw [← works_hooks, h]
  apply works_eq_nil
  intro x hx
  obtain ⟨n, -, rfl⟩ := List.mem_map.mp hx
  rfl

/-! ## Parts -/

namespace Node

/-- The start hook leads from the first node to the second. -/
def StartsInto [Task κ τ] (n n' : Node τ) : Prop :=
  ∃ control k d, Task.onStart n.task control k = .ok d ∧ n'.failure = d.value.2.failure ∧
    (n'.failure = none → n'.task = d.value.1)

/-- The tick hook leads from the first node to the second. -/
def TurnsInto [Task κ τ] (n n' : Node τ) : Prop :=
  ∃ control k d, Task.onTick n.task control k = .ok d ∧ n'.failure = d.value.reply.failure ∧
    (n'.failure = none → n'.task = d.value.task)

end Node

/-- The part of one node in a tick: the node as it is found, as it is once it is ready, and as it is
left, and what the record says of it. -/
structure Part (τ : Type) where
  found : Node τ
  ready : Node τ
  left : Node τ
  visit : Visit

namespace Part

/-- The node fails in the tick. -/
def Fails (p : Part τ) : Prop := p.left.failure ≠ none

/-- The hooks by which the node works: its start hook, if the start is pending, and its tick hook,
unless it gives up at the start. -/
def works (p : Part τ) : List (Happening τ) :=
  (if p.found.pending then [.started p.found.task] else []) ++
    if p.ready.failure = none then [.ticked p.ready.task] else []

/-- The hooks of the task lead from the node that is found to the one that is left. The record shows
the label of the latter, and the label it had before if the node gives up at its start. -/
structure Sound [Task κ τ] (p : Part τ) : Prop where
  starts : p.found.pending = true → p.found.StartsInto p.ready
  goesOn : p.found.pending = false → p.ready = p.found
  givesUp : p.ready.failure ≠ none → p.left = p.ready ∧ p.visit.label = p.found.label
  turns : p.ready.failure = none → p.ready.TurnsInto p.left ∧ p.visit.label = p.left.label

theorem Sound.label [Task κ τ] {p : Part τ} (hp : p.Sound) (h : ¬p.Fails) :
    p.visit.label = p.left.label := by
  by_cases hready : p.ready.failure = none
  · exact (hp.turns hready).2
  · have hleft := (hp.givesUp hready).1
    rw [Fails, hleft] at h
    exact absurd hready h

/-- Nodes that are held have not failed, and the record shows them under their labels. -/
theorem held [Task κ τ] {parts : List (Part τ)} {nodes : List (Node τ)}
    (hsound : ∀ p ∈ parts, p.Sound) (hheld : parts.map left = nodes)
    (hstarted : ∀ n ∈ nodes, n.Started) :
    (∀ p ∈ parts, ¬p.Fails) ∧ parts.map (fun p => p.visit.label) = nodes.map Node.label := by
  have hunfailed : ∀ p ∈ parts, ¬p.Fails := by
    intro p hp hfails
    have hn := hstarted p.left (hheld ▸ List.mem_map_of_mem hp)
    exact hfails hn.unfailed
  refine ⟨hunfailed, ?_⟩
  rw [← hheld, List.map_map]
  exact List.map_congr_left fun p hp => (hsound p hp).label (hunfailed p hp)

end Part

namespace Spine

variable [Task κ τ] {s s' sub : Spine τ} {n : Node τ} {parts : List (Part τ)}

/-- How a tick ends, given the parts of all nodes from the root down. -/
inductive Ends (s' : Spine τ) (trail : List (Happening τ)) : List (Part τ) → Prop where
  /-- No node fails, and those that took part are held. -/
  | whole {parts : List (Part τ)} (hheld : parts.map Part.left = s'.nodes)
      (hstarted : ∀ n ∈ s'.nodes, n.Started) : Ends s' trail parts
  /-- The last node fails and is dropped, and the others are held. -/
  | subFails {parts : List (Part τ)} {p : Part τ} {before : List (Happening τ)} (hfails : p.Fails)
      (hheld : parts.map Part.left = s'.nodes) (hstarted : ∀ n ∈ s'.nodes, n.Started)
      (hdropped : trail = before ++ [.dropped p.left.task]) : Ends s' trail (parts ++ [p])
  /-- The root itself fails, and nothing is held below it. -/
  | rootFails {p : Part τ} (hfails : p.Fails) (hroot : s' = { root := p.left }) : Ends s' trail [p]

/-- A tick calls the roll: every node takes part once, from the root down. -/
structure RollCall (s s' : Spine τ) (trail : List (Happening τ)) (parts : List (Part τ)) :
    Prop where
  first : parts.head?.map Part.found = some s.root
  sound : ∀ p ∈ parts, p.Sound
  works : works trail = parts.flatMap Part.works
  ends : Ends s' trail parts

theorem RollCall.single {p : Part τ} {trail : List (Happening τ)} (hp : p.Sound)
    (hfound : p.found = s.root) (hworks : Arbiter.works trail = p.works)
    (hends : Ends s' trail [p]) : RollCall s s' trail [p] := by
  refine ⟨congrArg some hfound, ?_, ?_, hends⟩
  · intro q hq
    rw [List.mem_singleton.mp hq]
    exact hp
  · rw [hworks, List.flatMap_singleton]

theorem RollCall.cons {below : Spine τ} {p : Part τ} {before trail after : List (Happening τ)}
    (h : RollCall below sub trail parts) (hp : p.Sound) (hfound : p.found = s.root)
    (hbefore : Arbiter.works before = p.works) (hafter : Arbiter.works after = [])
    (hends : Ends s' (before ++ (trail ++ after)) (p :: parts)) :
    RollCall s s' (before ++ (trail ++ after)) (p :: parts) := by
  refine ⟨congrArg some hfound, ?_, ?_, hends⟩
  · intro q hq
    rcases List.mem_cons.mp hq with rfl | hq
    · exact hp
    · exact h.sound q hq
  · rw [works_append, works_append, hbefore, h.works, hafter, List.append_nil, List.flatMap_cons]

/-! ## Functions of a tick -/

theorem fail_part (reason : String) (hs : s.Sound) (k : κ) :
    (s.fail reason).Ensures k fun s' _ t => works t = [] ∧ s'.root.failure = some reason ∧
      s' = { root := s'.root } := by
  apply (fail_ensures reason hs k).imp
  intro s' _ t h
  obtain ⟨hrest, -, hfailure, hhooks, -⟩ := h
  refine ⟨works_of_stops hhooks, hfailure, ?_⟩
  rw [← hrest.alone]

/-- A start calls the start hook and no other hook by which a node works. -/
theorem start_part (hs : s.Sound) (k : κ) :
    s.start.Ensures k fun s' _ t =>
      works t = [.started s.root.task] ∧ s.root.StartsInto s'.root := by
  rw [start]
  refine Act.Meets.note_bind ((Act.ensures_call _ _ k).bind ?_)
  intro r k' t h
  obtain ⟨records, hran, rfl⟩ := h
  dsimp only
  split
  · next hreply => exact Act.meets_pure ⟨by simp, _, _, _, hran, hreply.symm, fun _ => rfl⟩
  · next reason hreply =>
    apply (fail_part reason (hs.restarted ⟨⟨rfl, rfl, rfl⟩, rfl⟩) k').imp
    intro s' _ u h
    obtain ⟨hworks, hfailure, -⟩ := h
    refine ⟨by simp [hworks], _, _, _, hran, hfailure.trans hreply.symm, ?_⟩
    intro hnone
    cases hfailure.symm.trans hnone

/-- The root is made ready: a part without its turn. -/
structure Readied (n n' : Node τ) (trail : List (Happening τ)) : Prop where
  works : works trail = if n.pending then [.started n.task] else []
  starts : n.pending = true → n.StartsInto n'
  goesOn : n.pending = false → n' = n

section Readied

variable {n n' left : Node τ} {visit : Visit} {trail u : List (Happening τ)}

/-- A root that is ready takes its turn. -/
theorem Readied.turn (h : Readied n n' trail) (hn' : n'.failure = none) (hleft : n'.TurnsInto left)
    (hlabel : visit.label = left.label) : Part.Sound ⟨n, n', left, visit⟩ :=
  ⟨h.starts, h.goesOn, fun hgivesUp => absurd hn' hgivesUp, fun _ => ⟨hleft, hlabel⟩⟩

theorem Readied.works_turn (h : Readied n n' trail) (hn' : n'.failure = none)
    (records : List Record) (hu : Arbiter.works u = []) (left : Node τ) (visit : Visit) :
    Arbiter.works (trail ++ (.ticked n'.task :: records.map .noted) ++ u) =
      Part.works ⟨n, n', left, visit⟩ := by
  simp [Part.works, h.works, hn', hu]

end Readied

theorem Kempt.ready_part (hs : s.Kempt) (k : κ) :
    s.ready.Ensures k fun s' _ t => Readied s.root s'.root t ∧
      (s'.root.Started ∧ s'.Sound ∧ s'.below = s.below ∨
        s'.root.stopped = true ∧ s'.root.failure ≠ none ∧ s' = { root := s'.root }) := by
  have hready : s.ready.Ensures k fun s' _ t => Readied s.root s'.root t := by
    rw [ready]
    split
    · next hp =>
      -- a start reads no flag of the root
      have hsame : s.start = ({ s with
          root := { s.root with
            pending := false, stopped := false, active := true, failure := none } } :
          Spine τ).start := rfl
      rw [hsame]
      apply (start_part (hs.withRoot ⟨⟨rfl, rfl, rfl⟩, rfl⟩) k).imp
      intro s' _ t h
      exact ⟨by rw [if_pos hp]; exact h.1, fun _ => h.2, fun hn => by simp [hp] at hn⟩
    · next hp => exact Act.meets_pure ⟨by rw [if_neg hp]; rfl, fun h => absurd h hp, fun _ => rfl⟩
  apply (hready.and (hs.ready_ensures k)).imp
  intro s' _ t h
  obtain ⟨hpart, hs', hcase⟩ := h
  refine ⟨hpart, ?_⟩
  cases hcase with
  | inl h => exact Or.inl ⟨h.1, hs', h.2⟩
  | inr h =>
      have halone := hs'.below_nil (hs'.root.inactive_of_stopped h.1)
      refine Or.inr ⟨h.1, h.2, ?_⟩
      rw [← halone]

/-- The label under which a node was entered is replaced by the one it has after its turn. -/
theorem reportState_part (hn : n.Started) (trace : Trace) (old : String) (k : κ) :
    (reportState n (trace.enter old)).Ensures k fun r _ (t : List (Happening τ)) =>
      works t = [] ∧ r.1.Started ∧ r.1.task = n.task ∧
        ∃ change, trace.Visited [{ label := r.1.label, change }] (r.2.relabel r.1.label) := by
  apply ((reportState_quiet n _).and (reportState_noted n _ k)).imp
  intro r _ t h
  obtain ⟨⟨-, hr, hlabels, change, hchanges, hshown⟩, hnotes⟩ := h
  have hlabel : n.label = r.1.label := by
    rw [hr]
    rfl
  rw [hlabel] at hshown
  refine ⟨hnotes.works, ?_, ?_, change, .relabelled hlabels hchanges hshown⟩
  · rw [hr]
    exact ⟨⟨hn.active, hn.unstopped, hn.unfailed⟩, hn.started⟩
  · rw [hr]

theorem settle_part (hs : s.Sound) (candidate : Option τ) (k : κ) :
    (settle s.root s.below candidate).Ensures k fun ms _ t => works t = [] ∧
      ∀ m rest, ms = m :: rest → ({ root := m, below := rest } : Spine τ).Kempt := by
  apply ((settle_ensures hs candidate k).and (settle_settled s.root hs.held candidate k)).imp
  intro ms _ t h
  obtain ⟨⟨-, hms⟩, refused, hsettled⟩ := h
  refine ⟨?_, fun m rest hm => (hms m rest hm).kempt⟩
  cases hsettled with
  | free => rfl
  | equal => rfl
  | forced hother hn hrefuses hnoted => exact hnoted.works
  | @exchanged k' trail dropped hne hother hyields hstop hhooks =>
      rw [works_append, works_of_stops hhooks]
      exact works_map_dropped id dropped

/-- A node that does not fail takes part before those that it holds. -/
theorem Ends.above {trail : List (Happening τ)} (h : Ends sub trail parts) (hn : n.Started)
    (k : κ) :
    (rejoin n sub).Ensures k fun s' _ u => works u = [] ∧ s'.root.failure = none ∧
      s'.root.task = n.task ∧ s'.root.label = n.label ∧
      ∀ before, ∀ p : Part τ, p.left = s'.root → Ends s' (before ++ (trail ++ u)) (p :: parts) := by
  have hjoined : (∀ m ∈ sub.nodes, m.Started) →
      (rejoin n sub : Act κ (Happening τ) _) = pure { root := n, below := sub.nodes } := by
    intro hstarted
    have hunfailed := (hstarted sub.root List.mem_cons_self).unfailed
    rw [rejoin]
    simp only [Node.failureReport, hunfailed, Option.map_none]
  have hall : (∀ m ∈ sub.nodes, m.Started) →
      ∀ m ∈ ({ root := n, below := sub.nodes } : Spine τ).nodes, m.Started :=
    fun hstarted => List.forall_mem_cons.mpr ⟨hn, hstarted⟩
  cases h with
  | whole hheld hstarted =>
      rw [hjoined hstarted]
      refine Act.meets_pure ⟨rfl, hn.unfailed, rfl, rfl, fun before p hp => ?_⟩
      refine .whole ?_ (hall hstarted)
      rw [List.map_cons, hp, hheld]
      rfl
  | @subFails parts q before' hfails hheld hstarted hdropped =>
      rw [hjoined hstarted]
      refine Act.meets_pure ⟨rfl, hn.unfailed, rfl, rfl, fun before p hp => ?_⟩
      have hheld : (p :: parts).map Part.left =
          ({ root := n, below := sub.nodes } : Spine τ).nodes := by
        rw [List.map_cons, hp, hheld]
        rfl
      have htrail : before ++ (trail ++ []) = before ++ before' ++ [.dropped q.left.task] := by
        rw [hdropped, List.append_nil, List.append_assoc]
      exact .subFails hfails hheld (hall hstarted) htrail
  | @rootFails q hfails hroot =>
      obtain ⟨reason, hreason⟩ := Option.ne_none_iff_exists'.mp hfails
      rw [hroot, rejoin]
      simp only [Node.failureReport, hreason, Option.map_some]
      refine Act.Meets.bind (P := fun _ _ t => t = [.dropped q.left.task])
        (Act.meets_tellAll rfl) ?_
      rintro _ k' _ rfl
      refine Act.meets_pure ⟨rfl, hn.unfailed, rfl, rfl, fun before p hp => ?_⟩
      -- the node is held alone, and told of the failure
      have hstarted : p.left.Started := by
        rw [hp]
        exact ⟨⟨hn.active, hn.unstopped, hn.unfailed⟩, hn.started⟩
      have hended : Ends { root := p.left } (before ++ trail ++ [.dropped q.left.task])
          ([p] ++ [q]) := .subFails hfails rfl (by simpa [nodes] using hstarted) rfl
      rw [hp, List.append_assoc] at hended
      exact hended

/-- By induction on the levels of delegation: the root takes part first, then what it holds. -/
theorem tickWithin_rollCall (depth : Nat) {s : Spine τ} (hs : s.Kempt) (trace : Trace) (k : κ) :
    (tickWithin depth s trace).Ensures k fun r _ t => ∃ parts : List (Part τ),
      trace.Visited (parts.map Part.visit) r.2 ∧ RollCall s r.1 t parts := by
  induction depth generalizing s trace k with
  | zero => exact Act.meets_abort trivial
  | succ depth ih =>
      rw [tickWithin]
      apply (hs.ready_part k).bind
      intro s₁ k₁ t₁ h₁
      obtain ⟨hready, hcase⟩ := h₁
      split
      case isTrue hstopped =>
        obtain ⟨-, hfailure, halone⟩ := hcase.resolve_left fun h => by
          simp [h.1.unstopped] at hstopped
        -- the root gives up at its start
        refine Act.meets_pure ⟨[⟨s.root, s₁.root, s₁.root, { label := s.root.label }⟩],
          .entered trace _, .single ?_ rfl ?_ (.rootFails hfailure halone)⟩
        · exact ⟨hready.starts, hready.goesOn, fun _ => ⟨rfl, rfl⟩, fun h => absurd h hfailure⟩
        · simp [Part.works, hready.works, hfailure]
      case isFalse hstopped =>
        obtain ⟨hn₁, hs₁, hbelow⟩ := hcase.resolve_right fun h => hstopped h.1
        apply (Act.ensures_call _ _ k₁).bind
        intro turn k₂ t₂ h₂
        obtain ⟨records, hran, rfl⟩ := h₂
        have hn := turned_started hn₁ turn
        have hunfailed := hn₁.unfailed
        have hturns : ∀ {left : Node τ}, left.failure = turn.reply.failure →
            (left.failure = none → left.task = turn.task) → s₁.root.TurnsInto left :=
          fun hfailure htask => ⟨_, _, _, hran, hfailure, htask⟩
        dsimp only
        split
        · next reason hreason =>
          apply (fail_part reason (hs₁.restarted hn) k₂).bind
          intro s₃ k₃ t₃ h₃
          obtain ⟨hquiet, hf, halone⟩ := h₃
          have hfails : s₃.root.failure ≠ none := by simp [hf]
          have hworks := hready.works_turn hunfailed records hquiet s₃.root
          have hleft := hturns (hf.trans hreason.symm) fun h => absurd h hfails
          refine Act.meets_pure ⟨[⟨s.root, s₁.root, s₃.root, { label := s₃.root.label }⟩],
            .relabelled rfl (List.append_nil _).symm (by simp),
            .single (hready.turn hunfailed hleft rfl) rfl ?_ (.rootFails hfails halone)⟩
          simpa using hworks _
        · next hreason =>
          apply (reportState_part hn trace s.root.label k₂).bind
          intro r k₃ t₃ h₃
          obtain ⟨hnotes, hstarted, htask, change, hvisited⟩ := h₃
          apply (settle_part (hs₁.restarted hstarted) turn.candidate k₃).bind
          intro ms k₄ t₄ h₄
          obtain ⟨hsettled, hms⟩ := h₄
          have hquiet : works (t₃ ++ t₄) = [] := by
            rw [works_append, hnotes, hsettled, List.append_nil]
          have hworks := hready.works_turn hunfailed records hquiet
          split
          · -- nothing is held below
            have hleft := hturns (hstarted.unfailed.trans hreason.symm) fun _ => htask
            refine Act.meets_pure ⟨[⟨s.root, s₁.root, r.1, { label := r.1.label, change }⟩],
              hvisited, .single (hready.turn hunfailed hleft rfl) rfl ?_ (.whole rfl ?_)⟩
            · simpa using hworks _ _
            · simpa [nodes] using hstarted
          · next m rest =>
            apply (ih (hms m rest rfl) _ k₄).bind
            intro r₅ k₅ t₅ h₅
            obtain ⟨parts, hvisits, hroll⟩ := h₅
            apply (hroll.ends.above hstarted k₅).bind
            intro s₆ k₆ t₆ h₆
            obtain ⟨hafter, hunfailed₆, htask₆, hlabel₆, hends⟩ := h₆
            have hleft := hturns (hunfailed₆.trans hreason.symm) fun _ => htask₆.trans htask
            have hpart : Part.Sound ⟨s.root, s₁.root, s₆.root, { label := r.1.label, change }⟩ :=
              hready.turn hunfailed hleft hlabel₆.symm
            have hcall := hroll.cons hpart rfl (hworks _ _) hafter (hends _ _ rfl)
            refine Act.meets_pure
              ⟨⟨s.root, s₁.root, s₆.root, { label := r.1.label, change }⟩ :: parts,
                hvisited.append hvisits, ?_⟩
            simpa using hcall

/-! ## Every tick of a run -/

/-- Take any run of operations on a root and a tick in it, with any trace. The tick keeps what the
trace says and adds the labels of the nodes that take part in it, each once and from the root down;
and the start and tick hooks that are called are theirs, each called once and in the same order. If
no node fails, those are exactly the nodes that are held after the tick, all of them started, under
the labels that they have then. If a node fails it is the only one, and the last that takes part. If
it is the root, nothing is held below it. If not, it is dropped in the end, and those before it are
the nodes that are held. -/
theorem trace_calls_roll (t : τ) (ops : List (Operation κ τ)) (trace : Trace) (k : κ) :
    ((ofTask t).performAll ops).Ensures k fun s k₁ _ =>
      (s.tick trace).Ensures k₁ fun r _ trail => ∃ parts : List (Part τ),
        trace.Visited (parts.map Part.visit) r.2 ∧
        parts.head?.map Part.found = some s.root ∧ (∀ p ∈ parts, p.Sound) ∧
        works trail = parts.flatMap Part.works ∧
        ((∀ p ∈ parts, ¬p.Fails) → parts.map Part.left = r.1.nodes ∧
          parts.map (fun p => p.visit.label) = r.1.nodes.map Node.label ∧
          ∀ n ∈ r.1.nodes, n.Started) ∧
        ∀ p ∈ parts, p.Fails → ∃ held, parts = held ++ [p] ∧ (∀ q ∈ held, ¬q.Fails) ∧
          (held = [] → r.1 = { root := p.left }) ∧
          (held ≠ [] → held.map Part.left = r.1.nodes ∧
            held.map (fun q => q.visit.label) = r.1.nodes.map Node.label ∧
            (∀ n ∈ r.1.nodes, n.Started) ∧ ∃ before, trail = before ++ [.dropped p.left.task]) := by
  apply (performAll_kempt (resting_ofTask t).sound.kempt ops k).imp
  intro s k₁ _ hs
  apply (tickWithin_rollCall depthLimit hs trace k₁).imp
  intro r _ trail h
  obtain ⟨parts, hvisited, hfirst, hsound, hworks, hends⟩ := h
  refine ⟨parts, hvisited, hfirst, hsound, hworks, ?_⟩
  cases hends with
  | whole hheld hstarted =>
      obtain ⟨hunfailed, hlabels⟩ := Part.held hsound hheld hstarted
      refine ⟨fun _ => ⟨hheld, hlabels, hstarted⟩, fun p hp hfails => ?_⟩
      exact absurd hfails (hunfailed p hp)
  | @subFails held q before hfails hheld hstarted hdropped =>
      have hsound : ∀ p ∈ held, p.Sound := fun p hp => hsound p (List.mem_append_left _ hp)
      obtain ⟨hunfailed, hlabels⟩ := Part.held hsound hheld hstarted
      have hne : held ≠ [] := by
        intro hnil
        rw [hnil] at hheld
        exact List.cons_ne_nil _ _ hheld.symm
      have hlast : q ∈ held ++ [q] := List.mem_append_right held (List.mem_singleton_self q)
      refine ⟨fun h => absurd hfails (h q hlast), fun p hp hp' => ?_⟩
      rcases List.mem_append.mp hp with hp | hp
      · exact absurd hp' (hunfailed p hp)
      · obtain rfl := List.mem_singleton.mp hp
        refine ⟨held, rfl, hunfailed, fun h => absurd h hne, fun _ => ?_⟩
        exact ⟨hheld, hlabels, hstarted, before, hdropped⟩
  | @rootFails q hfails hroot =>
      refine ⟨fun h => absurd hfails (h q List.mem_cons_self), fun p hp _ => ?_⟩
      obtain rfl := List.mem_singleton.mp hp
      exact ⟨[], rfl, by simp, fun _ => hroot, fun h => absurd rfl h⟩

/-- A step into a blocked tile fails: it is named last and is no longer held. -/
example :
    ((ofTask (Job.kill 1)).performAll [.tick {}]).passes
      { mobs := [⟨1, ⟨9, 0⟩, 5⟩], blocked := Area.addRectangle ⟨1, 0⟩ ⟨1, 0⟩ {} } (fun d =>
      (d.value.tick {}).passes d.context fun e =>
        e.value.2.spine ==
            ["<Kill mob 1> approaching", "<Goto (9, 0) ~1> 9 left", "<Step East> 2/2"] &&
          e.value.1.nodes.map Node.label ==
            ["<Kill mob 1> approaching", "<Goto (9, 0) ~1> 9 left"]) = true := by
  decide +kernel

end Spine

end Arbiter
