import Mathlib.Data.Option.Basic
import Arbiter.Proofs.Job.Turns
import Arbiter.Proofs.Status.Text

/-! The labels and the state texts of the jobs. No label holds a mark, whatever the numbers in it,
and every state text that a job sets can be shown. -/

namespace Arbiter

namespace Label

/-! ## Numbers -/

theorem isEnd_of_isDigit {c : Char} (h : c.isDigit = true) : IsEnd c := by
  have hrange : '0'.val.toNat ≤ c.val.toNat ∧ c.val.toNat ≤ '9'.val.toNat := by
    simpa only [Char.isDigit, Bool.and_eq_true, decide_eq_true_eq, ge_iff_le,
      UInt32.le_iff_toNat_le] using h
  have hrange : 48 ≤ c.toNat ∧ c.toNat ≤ 57 := hrange
  constructor
  · simp only [Text.isBlank, Bool.or_eq_false_iff, Bool.and_eq_false_iff, decide_eq_false_iff_not,
      beq_eq_false_iff_ne]
    omega
  · rintro rfl
    revert hrange
    decide

theorem isDigit_of_mem {n : Nat} {c : Char} (h : c ∈ n.repr.toList) : c.isDigit = true := by
  rw [Nat.repr_eq_ofList_toDigits, String.toList_ofList] at h
  exact Nat.isDigit_of_mem_toDigits (by decide) (by decide) h

@[simp]
theorem unmarked_nat (n : Nat) : Unmarked n.repr := by
  intro h
  have hdigit := isDigit_of_mem h
  revert hdigit
  decide

@[simp]
theorem unmarked_int (z : Int) : Unmarked z.repr := by
  rw [Int.repr_eq_if]
  split
  · exact unmarked_nat z.toNat
  · exact unmarked_append.mpr ⟨by decide, unmarked_nat (-z).toNat⟩

theorem plain_nat (n : Nat) : Plain n.repr :=
  ⟨unmarked_nat n, fun _ hc => isEnd_of_isDigit (isDigit_of_mem (List.mem_of_getLast? hc))⟩

theorem repr_ne_empty (n : Nat) : n.repr ≠ "" := by
  rw [Nat.repr_eq_ofList_toDigits, ne_eq, String.ofList_eq_empty_iff]
  exact Nat.toDigits_ne_nil

/-! ## State texts -/

/-- The end of a text is that of its last part. -/
theorem Plain.append {s t : String} (hs : Unmarked s) (ht : Plain t) (hne : t ≠ "") :
    Plain (s ++ t) := by
  refine ⟨unmarked_append.mpr ⟨hs, ht.unmarked⟩, fun c hc => ht.ending c ?_⟩
  rwa [String.toList_append, List.getLast?_append_of_ne_nil _ (by simpa using hne)] at hc

instance (c : Char) : Decidable (IsEnd c) :=
  inferInstanceAs (Decidable (Text.isBlank c = false ∧ c ≠ '>'))

instance (s : String) : Decidable (Plain s) :=
  haveI : Decidable (∀ c ∈ s.toList.getLast?, IsEnd c) := s.toList.getLast?.decidableForallMem
  decidable_of_iff (Unmarked s ∧ ∀ c ∈ s.toList.getLast?, IsEnd c)
    ⟨fun h => ⟨h.1, h.2⟩, fun h => ⟨h.unmarked, h.ending⟩⟩

/-- How far a task is. -/
theorem plain_progress (n m : Nat) : Plain (toString n ++ "/" ++ toString m) :=
  Plain.append (unmarked_append.mpr ⟨unmarked_nat n, by decide⟩) (plain_nat m) (repr_ne_empty m)

end Label

/-! ## Labels of jobs -/

open Label

@[simp]
theorem Direction.unmarked_name (d : Direction) : Unmarked d.name := by
  cases d <;> decide

@[simp]
theorem Position.unmarked_text (p : Position) : Unmarked p.text := by
  simp +decide [text]

namespace Job

theorem unmarked_label (j : Job) : Unmarked j.label := by
  cases j with
  | goto g =>
      rw [label]
      split <;> simp +decide
  | _ => simp +decide [label]

end Job

/-! ## State texts of jobs -/

/-- A turn whose state text can be shown. -/
def Turn.Plain {τ : Type} (turn : Turn τ) : Prop := Label.Plain turn.reply.state

variable {w : World} {c : Control}

theorem Step.turn_plain (s : Step) (hc : Label.Plain c.state) :
    (s.turn c).Ensures w fun turn _ _ => turn.Plain := by
  rw [turn]
  split
  · exact Act.meets_pure hc
  · refine Act.Meets.ofExcept_bind (fun _ _ => trivial) fun progress _ => ?_
    dsimp only
    split
    · refine (Act.ensures_true _ w).bind fun moved _ _ _ => ?_
      split
      · exact Act.meets_pure (plain_progress progress ticks)
      · exact Act.meets_pure (plain_progress progress ticks)
    · exact Act.meets_pure (plain_progress progress ticks)

theorem Wander.turn_plain (v : Wander) : v.turn.Ensures w fun turn _ _ => turn.Plain := by
  rw [turn]
  refine Act.Meets.ofExcept_bind (fun _ _ => trivial) fun elapsed _ => ?_
  refine (Act.ensures_true _ w).bind fun moved _ _ _ => ?_
  exact Act.meets_pure (plain_progress elapsed v.duration)

namespace Goto

theorem direct_plain (g : Goto) (p : Position) {state : String} (hstate : Label.Plain state)
    (took : Bool) : Yields (g.direct p state took) (fun _ => True) Turn.Plain := by
  unfold direct
  split
  · exact yields_pure hstate
  · refine ((p.yields_distance g.target).mono (fun _ _ => trivial) fun _ h => h).bind ?_
    intro left _
    exact yields_pure (Plain.append (unmarked_nat left) (by decide) (by decide))

theorem next_plain (g : Goto) (p : Position) {state : String} (hstate : Label.Plain state)
    (took : Bool) : Yields (g.next p state took) (fun _ => True) Turn.Plain := by
  rw [next]
  refine ((g.yields_arrived p).mono (fun _ _ => trivial) fun _ h => h).bind ?_
  intro arrived _
  split
  · exact yields_pure (by decide : Label.Plain "arrived")
  · split
    · exact g.direct_plain p hstate took
    · split
      · exact yields_pure (by decide : Label.Plain "sidestepping")
      · exact direct_plain _ p hstate took

theorem turn_plain (g : Goto) (hc : Label.Plain c.state) :
    (g.turn c).Ensures w fun turn _ _ => turn.Plain := by
  have hnext : ∀ (g : Goto) (took : Bool), (Act.ofExcept (g.next w.position c.state took) :
      Act World Record (Turn Job)).Ensures w fun turn _ _ => turn.Plain := fun g took =>
    Act.meets_ofExcept (fun _ _ => trivial) fun _ h => (g.next_plain w.position hc took).ok h
  rw [turn]
  refine Act.Meets.get_bind ?_
  dsimp only
  split
  · exact hnext g false
  · refine Act.Meets.ofExcept_bind (fun _ _ => trivial) fun blocked _ => ?_
    split
    · exact Act.meets_pure hc
    · split
      · exact Act.meets_pure hc
      · refine Act.Meets.bind (P := fun _ w' _ => w' = w) (Act.meets_tell rfl) ?_
        rintro _ _ _ rfl
        exact hnext _ true

end Goto

namespace Job

theorem fight_plain (mob : Nat) (hc : Label.Plain c.state) :
    (fight mob c).Ensures w fun turn _ _ => turn.Plain := by
  rw [fight]
  refine Act.Meets.get_bind ?_
  split
  · exact Act.meets_pure hc
  · next m _ =>
    refine Act.Meets.ofExcept_bind (fun _ _ => trivial) fun d _ => ?_
    split
    · refine (Act.ensures_true _ w).bind fun _ _ _ _ => Act.meets_pure ?_
      show Label.Plain ("attacking (" ++ toString m.health ++ " hp)")
      exact Plain.append (by simp +decide) (by decide) (by decide)
    · exact Act.meets_pure (by decide : Label.Plain "approaching")

theorem chew_plain (chewing : Nat) (hc : Label.Plain c.state) :
    (chew chewing c).Ensures w fun turn _ _ => turn.Plain := by
  have hfood : ∀ food : Item, Label.Plain ("chewing " ++ food.name) := by
    intro food
    cases food <;> decide
  rw [chew]
  refine Act.Meets.get_bind ?_
  split
  · exact Act.meets_pure hc
  · next food _ =>
    refine Act.Meets.ofExcept_bind (fun _ _ => trivial) fun n _ => ?_
    dsimp only
    split
    · exact (Act.ensures_true _ w).bind fun _ _ _ _ => Act.meets_pure (hfood food)
    · exact Act.meets_pure (hfood food)

theorem turn_plain (j : Job) (hc : Label.Plain c.state) :
    (j.turn c).Ensures w fun turn _ _ => turn.Plain := by
  cases j with
  | step s => exact s.turn_plain hc
  | goto g => exact g.turn_plain hc
  | wander v => exact v.turn_plain
  | kill mob => exact fight_plain mob hc
  | eat chewing => exact chew_plain chewing hc
  | idle => exact Act.meets_pure (by decide : Label.Plain "waiting")

end Job

end Arbiter
