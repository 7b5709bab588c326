import Arbiter.Proofs.Lifecycle.Lives
import Arbiter.Proofs.Spine.Sound

/-! The account of a spine: its nodes, open where their start is not pending. Every operation on a
sound spine leads from the account before it to the account after it. -/

namespace Arbiter.Spine

variable {κ τ : Type}

/-- The account of nodes. -/
def lives (nodes : List (Node (Instance τ))) : Lives :=
  nodes.map fun n => (n.task.number, !n.pending)

/-- The account of nodes after they are stopped. -/
def ended (nodes : List (Node (Instance τ))) : Lives :=
  nodes.map fun n => (n.task.number, false)

theorem lives_of_pending {nodes : List (Node (Instance τ))} (h : ∀ n ∈ nodes, n.pending = true) :
    lives nodes = ended nodes :=
  List.map_congr_left fun n hn => by simp [h n hn]

theorem Resting.lives_nodes {s : Spine (Instance τ)} (h : s.Resting) :
    lives s.nodes = ended s.nodes := by
  refine lives_of_pending fun n hn => ?_
  rw [nodes, h.alone] at hn
  obtain rfl := List.mem_singleton.mp hn
  exact h.pending

variable [Task κ τ]

/-! ## Teardown -/

theorem leave_keeps (taker : Option (Instance τ)) (n : Node (Instance τ)) (k : Numbered κ) :
    (leave taker n).Ensures k fun m k' t => Keeps (lives [n]) k.next (ended [m]) k'.next t := by
  rw [leave]
  split
  case isTrue h =>
    rw [lives_of_pending (by simpa using h)]
    exact Act.meets_pure (.refl _ _)
  case isFalse h =>
    refine Act.Meets.bind (Act.Meets.call (R := fun m k' t => m.number = n.task.number ∧
      Keeps [(n.task.number, true)] k.next [(n.task.number, false)] k'.next t)
      ((Instance.onStop_ensures n.task taker k).imp ?_)) ?_
    · intro m k' t hm
      rw [hm.2]
      exact ⟨hm.1, (Keeps.stopped n.task taker k.next).hook t⟩
    · intro m k' t hm
      apply Act.meets_pure
      simpa [lives, ended, h, hm.1] using hm.2

theorem halt_keeps (taker : Option (Instance τ)) (n : Node (Instance τ)) (k : Numbered κ) :
    (halt taker n).Ensures k fun m k' t => Keeps (lives [n]) k.next (ended [m]) k'.next t := by
  rw [halt]
  exact Act.Meets.note_bind ((leave_keeps taker n k).imp fun _ _ _ h => h.noted _)

theorem pause_keeps (taker : Option (Instance τ)) (n : Node (Instance τ)) (k : Numbered κ) :
    (pause taker n).Ensures k fun m k' t => Keeps (lives [n]) k.next (lives [m]) k'.next t := by
  rw [pause]
  refine Act.Meets.note_bind ((leave_keeps taker n k).bind ?_)
  intro m k' t h
  apply Act.meets_pure
  simpa [lives, ended] using h.noted _

/-- Stopped nodes come before those stopped earlier, so the account is followed up to order. -/
theorem haltAll_keeps (taker : Option (Instance τ)) (above nodes : List (Node (Instance τ)))
    (k : Numbered κ) (h : ∀ n ∈ nodes, n.active = true) :
    (haltAll taker above nodes).Ensures k fun ms k' t =>
      Keeps (ended above ++ lives nodes) k.next (ended ms) k'.next t := by
  induction nodes generalizing above k with
  | nil =>
      apply Act.meets_pure
      simpa [lives] using Keeps.refl (ended above) k.next
  | cons n rest ih =>
      rw [haltAll, if_pos (h n (by simp))]
      apply (halt_keeps taker n k).bind
      intro m k' t hm
      apply (ih (m :: above) k' fun b hb => h b (by simp [hb])).imp
      intro ms k'' u hms
      refine Keeps.trans ?_ (hms.perm_left ?_) (m := ended above ++ (ended [m] ++ lives rest))
      · exact (hm.append_right (lives rest)).append_left (ended above)
      · exact List.perm_middle

omit [Task κ τ] in
theorem dropAll_keeps (nodes : List (Node (Instance τ))) (k : Numbered κ) :
    (dropAll nodes : Act (Numbered κ) (Happening (Instance τ)) Unit).Ensures k fun _ k' t =>
      Keeps (ended nodes) k.next [] k'.next t := by
  apply Act.meets_tellAll
  induction nodes with
  | nil => exact .refl [] k.next
  | cons n rest ih => exact ((Keeps.dropped n.task k.next).append_right (ended rest)).trans ih

theorem stopAndDrop_keeps (taker : Option (Instance τ)) (nodes : List (Node (Instance τ)))
    (k : Numbered κ) (h : ∀ n ∈ nodes, n.active = true) :
    (stopAndDrop taker nodes).Ensures k fun _ k' t =>
      Keeps (lives nodes) k.next [] k'.next t := by
  rw [stopAndDrop]
  apply (haltAll_keeps taker [] nodes k h).bind
  intro ms k' t hms
  exact (dropAll_keeps ms k').imp fun _ _ _ hd => hms.trans hd

theorem Sound.stopAndDrop_keeps {s : Spine (Instance τ)} (hs : s.Sound)
    (taker : Option (Instance τ)) (k : Numbered κ) :
    (stopAndDrop taker s.nodes).Ensures k fun _ k' t =>
      Keeps (lives s.nodes) k.next [] k'.next t := by
  cases ha : s.root.active with
  | true =>
      refine Spine.stopAndDrop_keeps taker s.nodes k fun n hn => ?_
      rcases List.mem_cons.mp hn with rfl | hn
      · exact ha
      · exact (hs.held n hn).active
  | false =>
      rw [(hs.resting ha).lives_nodes]
      rw [stopAndDrop]
      refine Act.Meets.bind
        (P := fun ms k' t => ms = [] ∧ Keeps (ended s.nodes) k.next [] k'.next t)
        ?_ ?_
      · rw [nodes, haltAll, if_neg (by simp [ha])]
        apply (dropAll_keeps _ k).bind
        intro _ k' t h
        exact Act.meets_pure ⟨rfl, by simpa using h⟩
      · intro ms k' t h
        obtain ⟨rfl, h⟩ := h
        exact (dropAll_keeps [] k').imp fun _ _ _ hd => h.trans hd

theorem stop_keeps (taker : Option (Instance τ)) {s : Spine (Instance τ)} (hs : s.Sound)
    (k : Numbered κ) :
    (s.stop taker).Ensures k fun s' k' t =>
      Keeps (lives s.nodes) k.next (lives s'.nodes) k'.next t := by
  rw [stop]
  split
  case isTrue ha =>
    apply (halt_keeps taker s.root k).bind
    intro n k' t hn
    apply (stopAndDrop_keeps taker s.below k' fun m hm => (hs.held m hm).active).bind
    intro _ k'' u hb
    apply Act.meets_pure
    have h := (hn.append_right (lives s.below)).trans (hb.append_left (ended [n]))
    simpa [lives, ended, nodes] using h
  case isFalse => exact Act.meets_pure (.refl _ _)

theorem suspendBelow_keeps (taker : Option (Instance τ)) (nodes : List (Node (Instance τ)))
    (k : Numbered κ) :
    (suspendBelow taker nodes).Ensures k fun ms k' t =>
      Keeps (lives nodes) k.next (lives ms) k'.next t := by
  induction nodes generalizing k with
  | nil => exact Act.meets_pure (.refl _ _)
  | cons n rest ih =>
      rw [suspendBelow]
      split
      case isTrue =>
        apply (pause_keeps taker n k).bind
        intro m k' t hm
        apply (ih k').bind
        intro ms k'' u hms
        apply Act.meets_pure
        have h := (hm.append_right (lives rest)).trans (hms.append_left (lives [m]))
        simpa [lives] using h
      case isFalse => exact Act.meets_pure (.refl _ _)

theorem suspend_keeps (taker : Option (Instance τ)) (s : Spine (Instance τ)) (k : Numbered κ) :
    (s.suspend taker).Ensures k fun s' k' t =>
      Keeps (lives s.nodes) k.next (lives s'.nodes) k'.next t := by
  rw [suspend]
  split
  case isTrue =>
    apply (pause_keeps taker s.root k).bind
    intro root k' t hroot
    apply (suspendBelow_keeps taker s.below k').bind
    intro below k'' u hbelow
    apply Act.meets_pure
    have h := (hroot.append_right (lives s.below)).trans (hbelow.append_left (lives [root]))
    simpa [lives, nodes] using h
  case isFalse => exact Act.meets_pure (.refl _ _)

theorem fail_keeps (reason : String) {s : Spine (Instance τ)} (hs : s.Sound) (k : Numbered κ) :
    (s.fail reason).Ensures k fun s' k' t =>
      Keeps (lives s.nodes) k.next (lives s'.nodes) k'.next t := by
  rw [fail]
  apply (stop_keeps none hs k).bind
  intro s' k' t h
  refine Act.Meets.note_bind (Act.meets_pure ?_)
  exact h.trans ((Keeps.refl _ _).noted _)

/-! ## Ticks -/

theorem start_keeps {s : Spine (Instance τ)} (hs : s.Sound) (hp : s.root.pending = true)
    (k : Numbered κ) :
    s.start.Ensures k fun s' k' t =>
      Keeps (lives s.nodes) k.next (lives s'.nodes) k'.next t := by
  rw [start]
  refine Act.Meets.note_bind (Act.Meets.bind (Act.Meets.call (R := fun r k' t =>
    r.1.number = s.root.task.number ∧
      Keeps [(s.root.task.number, false)] k.next [(s.root.task.number, true)] k'.next t)
    ((Instance.onStart_ensures s.root.task _ k).imp ?_)) ?_)
  · intro r k' t h
    rw [h.2]
    exact ⟨h.1, (Keeps.started s.root.task k.next).hook t⟩
  · intro r k' t h
    obtain ⟨task, reply⟩ := r
    obtain ⟨hn, h⟩ := h
    have hstart : ∀ c : Control, Keeps (lives s.nodes) k.next
        (lives ({ s.root with
          task, control := c, pending := false, stopped := false, active := true,
          failure := none } :: s.below)) k'.next t := by
      intro c
      simpa [lives, nodes, hp, show task.number = _ from hn] using
        h.append_right (lives s.below)
    dsimp only
    split
    · apply Act.meets_pure
      rw [List.append_nil]
      exact (hstart _).noted _
    · apply (fail_keeps _ (hs.restarted ⟨⟨rfl, rfl, rfl⟩, rfl⟩) k').imp
      intro s' k'' u hf
      exact ((hstart _).trans hf).noted _

theorem ready_keeps {s : Spine (Instance τ)} (hs : s.Sound) (k : Numbered κ) :
    s.ready.Ensures k fun s' k' t =>
      Keeps (lives s.nodes) k.next (lives s'.nodes) k'.next t := by
  rw [ready]
  split
  case isTrue hp => exact start_keeps hs hp k
  case isFalse => exact Act.meets_pure (.refl _ _)

/-- A step of work of an instance that is open; the candidate is not open. -/
theorem turn_keeps (i : Instance τ) (c : Control) (k : Numbered κ) :
    (Act.call (.ticked i) (Task.onTick i c)).Ensures k fun turn k' t =>
      turn.task.number = i.number ∧
        Keeps [(i.number, true)] k.next ([(i.number, true)] ++ Instance.offered turn.candidate)
          k'.next t := by
  refine Act.Meets.call ((Instance.onTick_ensures i c k).imp ?_)
  intro turn k' t h
  refine ⟨h.1, ?_⟩
  have hc := h.2.append_left [(i.number, true)]
  simpa using (((Keeps.ticked i k.next).hook t)).trans hc

omit [Task κ τ] in
theorem forget_offered (c : Option (Instance τ)) (n : Nat) :
    Keeps (Instance.offered c) n [] n ([] : List (Happening (Instance τ))) := by
  cases c with
  | none => exact .refl [] n
  | some c => exact .forget c.number n

theorem reportState_keeps (n : Node (Instance τ)) (trace : Trace) (l : Lives) (k : Numbered κ) :
    (reportState n trace).Ensures k fun _ k' t => Keeps l k.next l k'.next t := by
  rw [reportState]
  split
  · exact Act.meets_pure (.refl _ _)
  · exact Act.Meets.note_bind (Act.meets_pure ((Keeps.refl _ _).noted _))

/-- A settlement keeps the nodes that are held and forgets the candidate, or drops the nodes and
holds the candidate. -/
theorem settle_keeps {parent : Node (Instance τ)} {below : List (Node (Instance τ))}
    (hs : ({ root := parent, below } : Spine (Instance τ)).Sound) (candidate : Option (Instance τ))
    (k : Numbered κ) :
    (settle parent below candidate).Ensures k fun ns k' t =>
      Keeps (lives below ++ Instance.offered candidate) k.next (lives ns) k'.next t := by
  have hkept : Keeps (lives below ++ Instance.offered candidate) k.next (lives below) k.next
      ([] : List (Happening (Instance τ))) := by
    simpa using (forget_offered candidate k.next).append_left (lives below)
  unfold settle
  split
  · exact Act.meets_pure (.refl _ _)
  · exact Act.meets_pure (.refl _ _)
  · rename_i n rest c
    split
    · exact Act.meets_pure hkept
    · apply Act.Meets.get_bind
      split
      · exact Act.Meets.note_bind (Act.meets_pure (hkept.noted _))
      · apply (stopAndDrop_keeps (some c) (n :: rest) k
          fun m hm => (hs.held m hm).active).bind
        intro _ k' t h
        apply Act.meets_pure
        simpa [lives, Instance.offered, Node.fresh] using h.append_right [(c.number, false)]
  · rename_i n rest
    apply Act.Meets.get_bind
    split
    · exact Act.meets_pure hkept
    · apply (stopAndDrop_keeps none (n :: rest) k
        fun m hm => (hs.held m hm).active).bind
      intro _ k' t h
      apply Act.meets_pure
      simpa [lives, Instance.offered] using h

omit [Task κ τ] in
/-- A sub-task that failed is at rest when it is dropped. -/
theorem rejoin_keeps [Task (Numbered κ) (Instance τ)] (n : Node (Instance τ))
    {sub : Spine (Instance τ)} (hs : sub.Sound) (k : Numbered κ) :
    (rejoin n sub).Ensures k fun s k' t =>
      Keeps (lives [n] ++ lives sub.nodes) k.next (lives s.nodes) k'.next t := by
  rw [rejoin]
  split
  case h_1 =>
    apply Act.meets_pure
    simpa [lives, nodes] using Keeps.refl (lives [n] ++ lives sub.nodes) k.next
  case h_2 failure hf =>
    have hrest : sub.Resting := by
      refine hs.resting (hs.root.inactive_of_failed fun h => ?_)
      simp [Node.failureReport, h] at hf
    rw [hrest.lives_nodes]
    apply (dropAll_keeps sub.nodes k).bind
    intro _ k' t h
    apply Act.meets_pure
    simpa [lives, nodes] using h.append_left (lives [n])

theorem tickWithin_keeps (depth : Nat) {s : Spine (Instance τ)} (hs : s.Sound) (trace : Trace)
    (k : Numbered κ) :
    (tickWithin depth s trace).Ensures k fun r k' t =>
      Keeps (lives s.nodes) k.next (lives r.1.nodes) k'.next t := by
  induction depth generalizing s trace k with
  | zero => exact Act.meets_abort trivial
  | succ depth ih =>
      rw [tickWithin]
      apply ((ready_ensures hs k).and (ready_keeps hs k)).bind
      intro s₁ k₁ t₁ h
      obtain ⟨⟨-, hs₁, hcase⟩, h₁⟩ := h
      split
      case isTrue => exact Act.meets_pure (by simpa using h₁)
      case isFalse hstop =>
        have hn₁ : s₁.root.Started := (hcase.resolve_right fun h => hstop h.1).1
        apply (turn_keeps s₁.root.task s₁.root.control k₁).bind
        intro turn k₂ t₂ h
        obtain ⟨hnumber, h₂⟩ := h
        have hn := turned_started hn₁ turn
        have hturn : Keeps (lives s₁.nodes) k₁.next
            (lives [turned s₁.root turn] ++ (lives s₁.below ++ Instance.offered turn.candidate))
            k₂.next t₂ := by
          refine (h₂.append_right (lives s₁.below)).perm_left ?_ |>.perm_right ?_
          · simp [lives, nodes, hn₁.started]
          · simp only [lives, turned, List.map_cons, List.map_nil, hn₁.started, hnumber,
              List.append_assoc]
            exact List.perm_append_comm.append_left _
        dsimp only
        split
        · apply (fail_keeps _ (hs₁.restarted hn) k₂).bind
          intro s₃ k₃ t₃ h₃
          apply Act.meets_pure
          have hforget : Keeps
              (lives [turned s₁.root turn] ++ (lives s₁.below ++ Instance.offered turn.candidate))
              k₂.next (lives (turned s₁.root turn :: s₁.below)) k₂.next
              ([] : List (Happening (Instance τ))) := by
            simpa [lives] using
              ((forget_offered turn.candidate k₂.next).append_left (lives s₁.below)).append_left
                (lives [turned s₁.root turn])
          simpa using h₁.trans (hturn.trans (hforget.trans h₃))
        · apply ((reportState_meets _ _ k₂).and (reportState_keeps _ _
            (lives [turned s₁.root turn] ++ (lives s₁.below ++ Instance.offered turn.candidate))
            k₂)).bind
          intro r k₃ t₃ h
          obtain ⟨n, trace'⟩ := r
          obtain ⟨⟨⟨state, hn'⟩, -⟩, h₃⟩ := h
          have hn' : n = { turned s₁.root turn with reportedState := state } := hn'
          have hlife : lives [turned s₁.root turn] = lives [n] := by rw [hn']; rfl
          have hn : n.Started := by
            rw [hn']
            exact ⟨⟨hn.active, hn.unstopped, hn.unfailed⟩, hn.started⟩
          rw [hlife] at hturn h₃
          apply ((settle_ensures (hs₁.restarted hn) turn.candidate k₃).and
            (settle_keeps (hs₁.restarted hn) turn.candidate k₃)).bind
          intro below k₄ t₄ h
          obtain ⟨⟨-, hbelow⟩, h₄⟩ := h
          have hsettled := h₁.trans (hturn.trans (h₃.trans (h₄.append_left (lives [n]))))
          split
          · apply Act.meets_pure
            simpa [lives, nodes] using hsettled
          · rename_i m rest
            have hm := hbelow m rest rfl
            apply ((tickWithin_ensures depth hm _ k₄).and (ih hm _ k₄)).bind
            intro r k₅ t₅ h
            obtain ⟨sub, trace''⟩ := r
            obtain ⟨⟨hsub, -, -⟩, h₅⟩ := h
            apply (rejoin_keeps n hsub k₅).bind
            intro s₆ k₆ t₆ h₆
            apply Act.meets_pure
            simpa using hsettled.trans ((h₅.append_left (lives [n])).trans h₆)

theorem tick_keeps {s : Spine (Instance τ)} (hs : s.Sound) (trace : Trace) (k : Numbered κ) :
    (s.tick trace).Ensures k fun r k' t =>
      Keeps (lives s.nodes) k.next (lives r.1.nodes) k'.next t :=
  tickWithin_keeps depthLimit hs trace k

end Arbiter.Spine
