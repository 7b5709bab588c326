import Arbiter.Proofs.Spine.Sound

/-! The end of a spine, whatever its flags say. A stop leaves an inactive root, tells the sink
nothing, and goes through if the stop hooks do. -/

namespace Arbiter

/-- Nothing that the sink is told. -/
def Happening.Quiet {τ : Type} (h : Happening τ) : Prop := h.event? = none

theorem events_of_quiet {τ : Type} {trail : List (Happening τ)} (h : ∀ x ∈ trail, x.Quiet) :
    events trail = [] := List.filterMap_eq_nil_iff.mpr h

variable {κ τ : Type} {F : Fault → Prop} {k : κ}

/-- A hook that is called tells the sink nothing. -/
theorem Act.Keeps.call_quiet {α : Type} {hook : Act κ Record α} {c : Happening τ}
    {R : α → κ → Prop} (hc : c.Quiet) (hm : hook.Meets k F fun a k' _ => R a k') :
    (Act.call c hook).Keeps k F Happening.Quiet R := by
  refine Act.Keeps.tell_bind hc (Act.Meets.mapTrail (hm.imp fun a k' t h => ⟨?_, h⟩))
  intro x hx
  obtain ⟨record, -, rfl⟩ := List.mem_map.mp hx
  rfl

variable [Task κ τ]

/-- The stop hooks of tasks `τ` go through, or end in a fault of `F`. -/
def Releases (τ : Type) {κ : Type} [Task κ τ] (F : Fault → Prop) : Prop :=
  ∀ (t : τ) (taker : Option τ) (k : κ), (Task.onStop t taker).Meets k F fun _ _ _ => True

theorem releases_true : Releases τ (fun _ => True) := fun t taker k =>
  Act.ensures_true (Task.onStop t taker) k

namespace Spine

omit [Task κ τ] in
theorem dropAll_quiet (nodes : List (Node τ)) :
    (dropAll nodes : Act κ (Happening τ) Unit).Keeps k F Happening.Quiet fun _ _ => True := by
  refine Act.keeps_tellAll ?_ trivial
  intro x hx
  obtain ⟨n, -, rfl⟩ := List.mem_map.mp hx
  rfl

theorem leave_quiet (hF : Releases τ F) (taker : Option τ) (n : Node τ) :
    (leave taker n).Keeps k F Happening.Quiet fun _ _ => True := by
  rw [leave]
  split
  · exact Act.keeps_pure trivial
  · refine (Act.Keeps.call_quiet (c := .stopped n.task taker) rfl (hF n.task taker k)).bind ?_
    exact fun _ _ _ => Act.keeps_pure trivial

theorem halt_quiet (hF : Releases τ F) (taker : Option τ) (n : Node τ) :
    (halt taker n).Keeps k F Happening.Quiet fun _ _ => True :=
  Act.Keeps.tell_bind rfl (leave_quiet hF taker n)

theorem haltAll_quiet (hF : Releases τ F) (taker : Option τ) (above nodes : List (Node τ)) :
    (haltAll taker above nodes).Keeps k F Happening.Quiet fun _ _ => True := by
  induction nodes generalizing above k with
  | nil => exact Act.keeps_pure trivial
  | cons n rest ih =>
      rw [haltAll]
      split
      · exact (halt_quiet hF taker n).bind fun m _ _ => ih (m :: above)
      · exact (dropAll_quiet (n :: rest)).bind fun _ _ _ => Act.keeps_pure trivial

theorem stopAndDrop_quiet (hF : Releases τ F) (taker : Option τ) (nodes : List (Node τ)) :
    (stopAndDrop taker nodes).Keeps k F Happening.Quiet fun _ _ => True :=
  (haltAll_quiet hF taker [] nodes).bind fun halted _ _ => dropAll_quiet halted

theorem stop_quiet (hF : Releases τ F) (taker : Option τ) (s : Spine τ) :
    (s.stop taker).Keeps k F Happening.Quiet fun s' _ => s'.root.active = false := by
  rw [stop]
  split
  · refine (halt_quiet hF taker s.root).bind fun n _ _ => ?_
    exact (stopAndDrop_quiet hF taker s.below).bind fun _ _ _ => Act.keeps_pure rfl
  · next h => exact Act.keeps_pure (by simpa using h)

theorem fail_quiet (hF : Releases τ F) (reason : String) (s : Spine τ) :
    (s.fail reason).Keeps k F Happening.Quiet fun s' _ => s'.root.failure ≠ none :=
  (stop_quiet hF none s).bind fun _ _ _ => Act.Keeps.tell_bind rfl (Act.keeps_pure nofun)

theorem pause_quiet (hF : Releases τ F) (taker : Option τ) (n : Node τ) :
    (pause taker n).Keeps k F Happening.Quiet fun _ _ => True :=
  Act.Keeps.tell_bind rfl ((leave_quiet hF taker n).bind fun _ _ _ => Act.keeps_pure trivial)

theorem suspendBelow_quiet (hF : Releases τ F) (taker : Option τ) (nodes : List (Node τ)) :
    (suspendBelow taker nodes).Keeps k F Happening.Quiet fun _ _ => True := by
  induction nodes generalizing k with
  | nil => exact Act.keeps_pure trivial
  | cons n rest ih =>
      rw [suspendBelow]
      split
      · exact (pause_quiet hF taker n).bind fun _ _ _ => ih.bind fun _ _ _ => Act.keeps_pure trivial
      · exact Act.keeps_pure trivial

theorem suspend_quiet (hF : Releases τ F) (taker : Option τ) (s : Spine τ) :
    (s.suspend taker).Keeps k F Happening.Quiet fun _ _ => True := by
  rw [suspend]
  split
  · refine (pause_quiet hF taker s.root).bind fun _ _ _ => ?_
    exact (suspendBelow_quiet hF taker s.below).bind fun _ _ _ => Act.keeps_pure trivial
  · exact Act.keeps_pure trivial

/-- A stop of what has been stopped does nothing at all. -/
theorem stop_of_inactive {s : Spine τ} (h : s.root.active = false) (taker : Option τ) :
    s.stop taker = pure s := by
  rw [stop, if_neg (by simp [h])]

end Spine

end Arbiter
