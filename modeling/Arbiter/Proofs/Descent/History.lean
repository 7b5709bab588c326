import Arbiter.Proofs.Job.Turns

/-! Where a job comes from. A job that another one holds is begotten by that if the history tells
the turn of the other that asked for it, and if neither has been stopped or started anew since. -/

namespace Arbiter

/-! ## Aims -/

namespace Job

/-- The job without how far it is. -/
def aim : Job → Job
  | step s => stepFrom s.source s.direction
  | goto g => gotoWithin g.target g.range
  | wander v => wanderFor v.duration
  | kill mob => kill mob
  | eat _ => eatFood
  | idle => idle

theorem isEqual_iff {i j : Job} : i.isEqual j = true ↔ i.aim = j.aim := by
  cases i <;> cases j <;> simp [isEqual, aim, stepFrom, gotoWithin, wanderFor, eatFood]

theorem kind_aim (j : Job) : j.aim.kind = j.kind := by
  cases j <;> rfl

theorem kind_of_aim {i j : Job} (h : i.aim = j.aim) : i.kind = j.kind := by
  rw [← kind_aim i, h, kind_aim]

theorem aim_restarted (j : Job) : j.restarted.aim = j.aim := by
  cases j <;> rfl

end Job

variable {w : World} {c : Control}

theorem Step.turn_aim (s : Step) :
    (s.turn c).Ensures w fun turn _ _ => turn.task.aim = (Job.step s).aim := by
  rw [turn]
  split
  · exact Act.meets_pure rfl
  · refine Act.Meets.ofExcept_bind (fun _ _ => trivial) fun progress _ => ?_
    split
    · refine (Act.ensures_true _ w).bind fun moved _ _ _ => ?_
      split
      · exact Act.meets_pure rfl
      · exact Act.meets_pure rfl
    · exact Act.meets_pure rfl

theorem Wander.turn_aim (v : Wander) :
    v.turn.Ensures w fun turn _ _ => turn.task.aim = (Job.wander v).aim := by
  rw [turn]
  refine Act.Meets.ofExcept_bind (fun _ _ => trivial) fun elapsed _ => ?_
  refine (Act.ensures_true _ w).bind fun moved _ _ _ => ?_
  exact Act.meets_pure rfl

theorem Goto.turn_aim (g : Goto) :
    (g.turn c).Ensures w fun turn _ _ => turn.task.aim = (Job.goto g).aim := by
  have hnext : ∀ (h : Goto) (p : Position) (state : String) (took : Bool) {w : World},
      (Job.goto h).aim = (Job.goto g).aim →
        (Act.ofExcept (h.next p state took) : Act World Record _).Ensures w fun turn _ _ =>
          turn.task.aim = (Job.goto g).aim := by
    intro h p state took w haim
    refine Act.meets_ofExcept (fun _ _ => trivial) fun turn hturn => ?_
    obtain ⟨detour, htask⟩ := ((h.yields_next p state took).ok hturn).task
    rw [htask]
    exact haim
  rw [turn]
  refine Act.Meets.get_bind ?_
  dsimp only
  split
  · exact hnext g _ _ _ rfl
  · refine Act.Meets.ofExcept_bind (fun _ _ => trivial) fun blocked _ => ?_
    split
    · exact Act.meets_pure rfl
    · split
      · exact Act.meets_pure rfl
      · exact (Act.ensures_true _ w).bind fun _ _ _ _ => hnext _ _ _ _ rfl

namespace Job

theorem fight_aim (mob : Nat) :
    (fight mob c).Ensures w fun turn _ _ => turn.task.aim = (kill mob).aim := by
  rw [fight]
  refine Act.Meets.get_bind ?_
  split
  · exact Act.meets_pure rfl
  · refine Act.Meets.ofExcept_bind (fun _ _ => trivial) fun d _ => ?_
    split
    · exact (Act.ensures_true _ w).bind fun _ _ _ _ => Act.meets_pure rfl
    · exact Act.meets_pure rfl

/-- A turn does not change what a job aims at. -/
theorem turn_aim (j : Job) : (j.turn c).Ensures w fun turn _ _ => turn.task.aim = j.aim := by
  cases j with
  | step s => exact s.turn_aim
  | goto g => exact g.turn_aim
  | wander v => exact v.turn_aim
  | kill mob => exact fight_aim mob
  | idle => exact Act.meets_pure rfl
  | eat chewing =>
      refine Act.Meets.mono (turn_keeps (eat chewing)) (fun _ _ => trivial) ?_
      rintro turn _ _ ⟨-, hturned⟩
      have hkind : turn.task.kind = .eat := hturned.kind
      cases htask : turn.task with
      | eat _ => rfl
      | _ => rw [htask] at hkind; cases hkind

end Job

/-! ## Histories -/

/-- The kind of the job of which a hook call begins or ends an activation. -/
def Happening.bound? : Happening Job → Option Job.Kind
  | started j => some j.kind
  | stopped j _ => some j.kind
  | _ => none

/-- No activation of a job of the kind begins or ends. -/
def Unbroken (k : Job.Kind) (calls : List (Happening Job)) : Prop :=
  ∀ x ∈ calls, x.bound? ≠ some k

section Unbroken

variable {k : Job.Kind} {s t : List (Happening Job)}

theorem unbroken_nil : Unbroken k [] := by simp [Unbroken]

theorem unbroken_append : Unbroken k (s ++ t) ↔ Unbroken k s ∧ Unbroken k t := by
  simp [Unbroken, or_imp, forall_and]

theorem unbroken_ticked (j : Job) : Unbroken k [.ticked j] := by
  simp [Unbroken, Happening.bound?]

end Unbroken

/-- The activation of the job in which the hook calls of a history leave it: it began with the last
of them that begins or ends an activation of a job of its kind. -/
inductive Begun (j : Job) : List (Happening Job) → Prop
  | of_start {before since : List (Happening Job)} {j₀ : Job} (hstarted : j.isEqual j₀ = true)
      (hsince : Unbroken j.kind since) : Begun j (before ++ .started j₀ :: since)

/-- By the hook calls of a history, the child was made by the parent in the activation in which the
parent still is. That began with the start of `parent₀`. In a later turn of it, as `parent₁`, the
parent asked for `child₀`, which was started after what was held before had been stopped. Since then
neither activation has ended. -/
inductive Begotten (parent child : Job) : List (Happening Job) → Prop
  | of_turn {before since ended after : List (Happening Job)} {parent₀ parent₁ child₀ : Job}
      {control : Control} {w w' : World} {turn : Turn Job} {records : List Record}
      (hparent : parent.isEqual parent₀ = true) (hsame : parent.isEqual parent₁ = true)
      (hturn : Task.onTick parent₁ control w = .ok ⟨turn, w', records⟩)
      (hcandidate : turn.candidate = some child₀) (hchild : child.isEqual child₀ = true)
      (hended : ∀ x ∈ ended, ∃ j taker, x = .stopped j taker)
      (hgoes : Unbroken parent.kind (since ++ ended ++ after))
      (hlasts : Unbroken child.kind after) :
      Begotten parent child
        (before ++ .started parent₀ :: (since ++ .ticked parent₁ :: (ended ++ .started child₀ ::
          after)))

variable {i j parent child : Job} {calls more : List (Happening Job)}

theorem Begun.append (h : Begun j calls) (hmore : Unbroken j.kind more) :
    Begun j (calls ++ more) := by
  cases h with
  | of_start hstarted hsince =>
      rw [List.append_assoc]
      exact .of_start hstarted (unbroken_append.mpr ⟨hsince, hmore⟩)

theorem Begun.congr (h : Begun j calls) (haim : i.aim = j.aim) : Begun i calls := by
  cases h with
  | of_start hstarted hsince =>
      refine .of_start (Job.isEqual_iff.mpr (haim.trans (Job.isEqual_iff.mp hstarted))) ?_
      rw [Job.kind_of_aim haim]
      exact hsince

/-- A turn of a job that goes on makes a child of the candidate that is started next. -/
theorem Begun.begets {parent₁ child₀ : Job} {ended after : List (Happening Job)}
    {control : Control} {w w' : World} {turn : Turn Job} {records : List Record}
    (h : Begun parent calls) (hsame : parent₁.aim = parent.aim)
    (hturn : Task.onTick parent₁ control w = .ok ⟨turn, w', records⟩)
    (hcandidate : turn.candidate = some child₀) (hchild : child.aim = child₀.aim)
    (hended : ∀ x ∈ ended, ∃ j taker, x = .stopped j taker)
    (hgoes : Unbroken parent.kind (ended ++ after)) (hlasts : Unbroken child.kind after) :
    Begotten parent child (calls ++ .ticked parent₁ :: (ended ++ .started child₀ :: after)) := by
  cases h with
  | of_start hstarted hsince =>
      rw [List.append_assoc, List.cons_append]
      refine .of_turn hstarted (Job.isEqual_iff.mpr hsame.symm) hturn hcandidate
        (Job.isEqual_iff.mpr hchild) hended ?_ hlasts
      rw [List.append_assoc]
      exact unbroken_append.mpr ⟨hsince, hgoes⟩

namespace Begotten

/-- The child is at work in the history. -/
theorem begun (h : Begotten parent child calls) : Begun child calls := by
  cases h with
  | @of_turn before since ended after parent₀ parent₁ child₀ _ _ _ _ _ _ _ _ _ hchild₀ _ _
      hlasts =>
      have hcalls : Begun child (before ++ .started parent₀ :: (since ++ .ticked parent₁ ::
        ended) ++ .started child₀ :: after) := .of_start hchild₀ hlasts
      simpa using hcalls

theorem append (h : Begotten parent child calls) (hparent : Unbroken parent.kind more)
    (hchild : Unbroken child.kind more) : Begotten parent child (calls ++ more) := by
  cases h with
  | @of_turn before since ended after parent₀ parent₁ child₀ _ _ _ _ _ hparent₀ hsame hturn
      hcandidate hchild₀ hended hgoes hlasts =>
      have hgoes' : Unbroken parent.kind (since ++ ended ++ (after ++ more)) := by
        rw [← List.append_assoc]
        exact unbroken_append.mpr ⟨hgoes, hparent⟩
      have hlasts' : Unbroken child.kind (after ++ more) := unbroken_append.mpr ⟨hlasts, hchild⟩
      simp only [List.append_assoc, List.cons_append]
      exact .of_turn hparent₀ hsame hturn hcandidate hchild₀ hended hgoes' hlasts'

theorem congr {parent' child' : Job} (h : Begotten parent child calls)
    (hparent : parent'.aim = parent.aim) (hchild : child'.aim = child.aim) :
    Begotten parent' child' calls := by
  cases h with
  | of_turn hparent₀ hsame hturn hcandidate hchild₀ hended hgoes hlasts =>
      rw [← Job.kind_of_aim hparent] at hgoes
      rw [← Job.kind_of_aim hchild] at hlasts
      exact .of_turn (Job.isEqual_iff.mpr (hparent.trans (Job.isEqual_iff.mp hparent₀)))
        (Job.isEqual_iff.mpr (hparent.trans (Job.isEqual_iff.mp hsame))) hturn hcandidate
        (Job.isEqual_iff.mpr (hchild.trans (Job.isEqual_iff.mp hchild₀))) hended hgoes hlasts

end Begotten

end Arbiter
