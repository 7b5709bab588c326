import Mathlib.Data.List.Basic
import Arbiter.Task.Basic

/-! The ledger of a run: the calls of start, tick and stop hooks, each with what the hook was given
and what it replied. Nodes go by numbers. What a node is due to learn about its sub-tasks can be
read off the ledger. -/

namespace Arbiter

/-- The call of a hook. -/
inductive Entry where
  | started (number : Nat) (given : Control) (reply : Reply)
  /-- A tick hook is entered with the label that the task has then, and with the number of the
  sub-task that it asks for. -/
  | ticked (number : Nat) (given : Control) (reply : Reply) (label : String)
      (candidate : Option Nat)
  /-- A stop hook is entered with the label that the task has then. -/
  | stopped (number : Nat) (label : String)
  deriving DecidableEq

/-- Takes the failure of a sub-task: what is taken, and what is left. -/
def Control.take (c : Control) : Option Failure × Control :=
  (c.childFailure, { c with childFailure := none })

/-- Entries, the latest first. -/
abbrev Ledger := List Entry

namespace Entry

/-- The node whose hook is called. -/
def number : Entry → Nat
  | started i _ _ => i
  | ticked i _ _ _ _ => i
  | stopped i _ => i

/-- The reason with which the task gives up. -/
def failure? : Entry → Option String
  | started _ _ reply => reply.failure
  | ticked _ _ reply _ _ => reply.failure
  | stopped _ _ => none

def candidate? : Entry → Option Nat
  | ticked _ _ _ _ candidate => candidate
  | _ => none

def isStop : Entry → Bool
  | stopped _ _ => true
  | _ => false

/-- Whether this is a tick in which the task does not take the failure of a sub-task. -/
def keeps : Entry → Bool
  | ticked _ _ reply _ _ => !reply.tookChildFailure
  | _ => false

theorem failure?_of_isStop {e : Entry} (h : e.isStop = true) : e.failure? = none := by
  cases e <;> first | rfl | cases h

theorem candidate?_of_isStop {e : Entry} (h : e.isStop = true) : e.candidate? = none := by
  cases e <;> first | rfl | cases h

/-- A tick leaves the failure that was given in it unless the task takes it. -/
theorem childFailure_apply (i : Nat) (given : Control) (reply : Reply) (label : String)
    (candidate : Option Nat) : (given.apply reply).childFailure =
      if (ticked i given reply label candidate).keeps then given.childFailure else none := by
  cases h : reply.tookChildFailure <;> simp [Control.apply, keeps, h]

end Entry

namespace Ledger

/-! ## What the ledger says of a node -/

/-- The last call of a hook of the node. -/
def last (i : Nat) (l : Ledger) : Option Entry := l.find? fun e => e.number = i

/-- The node has started and has not had its stop hook since. -/
def isOpen (i : Nat) (l : Ledger) : Bool := (last i l).any fun e => !e.isStop

/-- The reason with which the node gave up in its last call. -/
def giving (i : Nat) (l : Ledger) : Option String := (last i l).bind Entry.failure?

/-- The node that asked for the sub-task. -/
def parent? (c : Nat) (l : Ledger) : Option Nat :=
  (l.find? fun e => e.candidate? = some c).map Entry.number

/-- The failure of which the node `p` is told by an entry: a sub-task of `p` that has given up is
stopped. -/
def blame (p : Nat) (l : Ledger) : Entry → Option Failure
  | .stopped c label =>
    if parent? c l = some p then (giving c l).map fun reason => { task := label, reason } else none
  | _ => none

/-- The failure that the next tick hook of the node `p` is due: the last of which `p` was told in
the activation that goes on, unless `p` has taken it. -/
def due (p : Nat) : Ledger → Option Failure
  | [] => none
  | e :: l =>
    if e.number = p then if e.keeps then due p l else none else (blame p l e).or (due p l)

/-- The node `p` was told of the failure, and of none after it. The calls of `p` since are ticks,
and it has not taken the failure. -/
def Stands (p : Nat) (f : Failure) (l : Ledger) : Prop :=
  ∃ since e before, l = since ++ e :: before ∧ e.number ≠ p ∧ blame p before e = some f ∧
    (∀ x ∈ since, x.number = p → x.keeps = true) ∧
    ∀ newer x older, since = newer ++ x :: older → blame p (older ++ e :: before) x = none

/-- The failure of which the node `p` was told since its last call. -/
def news (p : Nat) : Ledger → Option Failure
  | [] => none
  | e :: l => if e.number = p then none else (blame p l e).or (news p l)

/-- A start hook is given no failure, and a tick hook the one that it is due. A node is told of no
failure before it has had the chance to hear of the one before. -/
def Fits (l : Ledger) : Entry → Prop
  | .started _ given _ => given.childFailure = none
  | .ticked i given _ _ _ => given.childFailure = due i l
  | .stopped c label => ∀ p f, blame p l (.stopped c label) = some f → news p l = none

/-- Every call fits what was entered before. -/
def Told : Ledger → Prop
  | [] => True
  | e :: l => Fits l e ∧ Told l

/-- Nobody has given up without having been stopped since. -/
def Quiet (l : Ledger) : Prop := ∀ i, giving i l = none

variable {i j c p : Nat} {e : Entry} {l es : Ledger} {f : Failure}

/-! ## One more entry -/

theorem giving_cons : giving i (e :: l) = if e.number = i then e.failure? else giving i l := by
  by_cases h : e.number = i <;> simp [giving, last, h]

theorem isOpen_cons : isOpen i (e :: l) = if e.number = i then !e.isStop else isOpen i l := by
  by_cases h : e.number = i <;> simp [isOpen, last, h]

theorem parent?_cons :
    parent? c (e :: l) = if e.candidate? = some c then some e.number else parent? c l := by
  by_cases h : e.candidate? = some c <;> simp [parent?, h]

theorem parent?_cons_of_ne (h : e.candidate? ≠ some c) : parent? c (e :: l) = parent? c l := by
  rw [parent?_cons, if_neg h]

theorem due_cons_self : due e.number (e :: l) = if e.keeps then due e.number l else none := by
  rw [due, if_pos rfl]

theorem news_cons_self : news e.number (e :: l) = none := by
  rw [news, if_pos rfl]

/-- Only a stop tells a node of a failure. -/
theorem blame_of_call (h : e.isStop = false) : blame p l e = none := by
  cases e <;> first | rfl | cases h

/-- The stop of a node that has not given up tells nobody of a failure. -/
theorem blame_of_quiet (h : giving e.number l = none) : blame p l e = none := by
  cases e with
  | stopped c label =>
      have h : giving c l = none := h
      simp [blame, h]
  | _ => rfl

theorem due_cons_of_ne (hne : e.number ≠ p) (h : blame p l e = none) :
    due p (e :: l) = due p l := by
  rw [due, if_neg hne, h, Option.none_or]

theorem news_cons_of_ne (hne : e.number ≠ p) (h : blame p l e = none) :
    news p (e :: l) = news p l := by
  rw [news, if_neg hne, h, Option.none_or]

/-- A node that was stopped when it gave up is quiet again. -/
theorem Quiet.givenUp (h : Quiet l) (label : String) :
    Quiet (.stopped e.number label :: e :: l) := by
  intro i
  rw [giving_cons, giving_cons]
  show (if e.number = i then none else _) = none
  split
  · rfl
  · exact h i

/-- Only the parent of a node is told of its failure. -/
theorem parent?_of_blame {label : String} (h : blame p l (.stopped c label) = some f) :
    parent? c l = some p := by
  by_contra hne
  simp [blame, hne] at h

/-- What is new to a node is what it is due. -/
theorem due_of_news (h : news p l = some f) : due p l = some f := by
  induction l with
  | nil => cases h
  | cons e l ih =>
      rw [news] at h
      split at h
      · cases h
      · next hne =>
        rw [due, if_neg hne]
        cases hb : blame p l e with
        | none =>
            rw [hb, Option.none_or] at h
            rw [ih h, Option.none_or]
        | some g =>
            rw [hb, Option.some_or] at h
            rw [h, Option.some_or]

theorem blame_of_keeps (h : e.keeps = true) : blame p l e = none := by
  cases e <;> first | rfl | cases h

theorem Stands.cons (h : Stands p f l) (hown : e.number = p → e.keeps = true)
    (hblame : blame p l e = none) : Stands p f (e :: l) := by
  obtain ⟨since, e', before, rfl, hne, hf, hkeeps, hlast⟩ := h
  refine ⟨e :: since, e', before, rfl, hne, hf, List.forall_mem_cons.mpr ⟨hown, hkeeps⟩, ?_⟩
  intro newer x older heq
  cases newer with
  | nil =>
      obtain ⟨rfl, rfl⟩ := List.cons.inj heq
      exact hblame
  | cons _ newer => exact hlast newer x older (List.cons.inj heq).2

/-- A failure is due exactly as long as it stands. -/
theorem due_eq_some_iff : due p l = some f ↔ Stands p f l := by
  refine ⟨fun h => ?_, fun h => ?_⟩
  · induction l with
    | nil => cases h
    | cons e l ih =>
        rw [due] at h
        split at h
        · split at h
          · next hkeeps => exact (ih h).cons (fun _ => hkeeps) (blame_of_keeps hkeeps)
          · cases h
        · next hne =>
          cases hb : blame p l e with
          | none =>
              rw [hb, Option.none_or] at h
              exact (ih h).cons (fun he => absurd he hne) hb
          | some g =>
              rw [hb, Option.some_or] at h
              exact ⟨[], e, l, rfl, hne, hb.trans h, by simp, by simp⟩
  · obtain ⟨since, e, before, rfl, hne, hf, hkeeps, hlast⟩ := h
    induction since with
    | nil => rw [List.nil_append, due, if_neg hne, hf, Option.some_or]
    | cons x since ih =>
        rw [List.forall_mem_cons] at hkeeps
        have hdue := ih hkeeps.2 fun newer y older heq =>
          hlast (x :: newer) y older (by rw [heq, List.cons_append])
        rw [List.cons_append, due]
        split
        · next hx => rw [if_pos (hkeeps.1 hx), hdue]
        · rw [hlast [] x since rfl, Option.none_or, hdue]

/-! ## More entries -/

theorem isOpen_append (h : ∀ e ∈ es, e.number ≠ i) : isOpen i (es ++ l) = isOpen i l := by
  induction es with
  | nil => rfl
  | cons e es ih =>
      rw [List.forall_mem_cons] at h
      rw [List.cons_append, isOpen_cons, if_neg h.1, ih h.2]

theorem parent?_append (h : ∀ e ∈ es, e.candidate? ≠ some c) :
    parent? c (es ++ l) = parent? c l := by
  induction es with
  | nil => rfl
  | cons e es ih =>
      rw [List.forall_mem_cons] at h
      rw [List.cons_append, parent?_cons_of_ne h.1, ih h.2]

theorem Told.earlier (h : Told (es ++ l)) : Told l := by
  induction es with
  | nil => exact h
  | cons e es ih => exact ih h.2

/-- A node that was told of a failure gets to hear of it in its next call. -/
theorem Told.heard (ht : Told (es ++ l)) (h : news p l = some f) (hes : ∀ e ∈ es, e.number ≠ p) :
    news p (es ++ l) = some f := by
  induction es with
  | nil => exact h
  | cons e es ih =>
      rw [List.forall_mem_cons] at hes
      obtain ⟨hfits, ht⟩ := ht
      have hnews := ih ht hes.2
      rw [List.cons_append, news, if_neg hes.1]
      cases hb : blame p (es ++ l) e with
      | none => rw [Option.none_or, hnews]
      | some g =>
          -- a further failure would have come before the node heard of the first
          cases e with
          | stopped c label =>
              have hnone : news p (es ++ l) = none := hfits p g hb
              rw [hnews] at hnone
              cases hnone
          | _ => cases hb

/-! ## Stops -/

section Stops

variable (hes : ∀ e ∈ es, e.isStop = true)

include hes

theorem giving_stops (h : giving i l = none) : giving i (es ++ l) = none := by
  induction es with
  | nil => exact h
  | cons e es ih =>
      rw [List.forall_mem_cons] at hes
      rw [List.cons_append, giving_cons]
      split
      · exact Entry.failure?_of_isStop hes.1
      · exact ih hes.2

theorem Quiet.stops (h : Quiet l) : Quiet (es ++ l) := fun i => giving_stops hes (h i)

theorem parent?_stops : parent? c (es ++ l) = parent? c l :=
  parent?_append fun e he => by simp [Entry.candidate?_of_isStop (hes e he)]

theorem isOpen_stops (h : isOpen i (es ++ l) = true) :
    isOpen i l = true ∧ ∀ e ∈ es, e.number ≠ i := by
  induction es with
  | nil => exact ⟨h, by simp⟩
  | cons e es ih =>
      rw [List.forall_mem_cons] at hes
      rw [List.cons_append, isOpen_cons, hes.1] at h
      split at h
      · cases h
      · next hne =>
        obtain ⟨hopen, hnone⟩ := ih hes.2 h
        exact ⟨hopen, List.forall_mem_cons.mpr ⟨hne, hnone⟩⟩

theorem due_stops (h : Quiet l) (hne : ∀ e ∈ es, e.number ≠ p) : due p (es ++ l) = due p l := by
  induction es with
  | nil => rfl
  | cons e es ih =>
      rw [List.forall_mem_cons] at hes hne
      rw [List.cons_append, due_cons_of_ne hne.1 (blame_of_quiet (h.stops hes.2 e.number)),
        ih hes.2 hne.2]

theorem news_stops (h : Quiet l) (hne : ∀ e ∈ es, e.number ≠ p) :
    news p (es ++ l) = news p l := by
  induction es with
  | nil => rfl
  | cons e es ih =>
      rw [List.forall_mem_cons] at hes hne
      rw [List.cons_append, news_cons_of_ne hne.1 (blame_of_quiet (h.stops hes.2 e.number)),
        ih hes.2 hne.2]

theorem news_stops_of_none (h : Quiet l) (hnews : news p l = none) : news p (es ++ l) = none := by
  induction es with
  | nil => exact hnews
  | cons e es ih =>
      rw [List.forall_mem_cons] at hes
      rw [List.cons_append, news, blame_of_quiet (h.stops hes.2 e.number), ih hes.2]
      exact ite_self _

theorem Told.stops (h : Quiet l) (ht : Told l) : Told (es ++ l) := by
  induction es with
  | nil => exact ht
  | cons e es ih =>
      rw [List.forall_mem_cons] at hes
      refine ⟨?_, ih hes.2⟩
      cases e with
      | stopped c label =>
          intro p f hblame
          have hnone : blame p (es ++ l) (.stopped c label) = none :=
            blame_of_quiet (h.stops hes.2 c)
          cases hnone.symm.trans hblame
      | _ => cases hes.1

end Stops

end Ledger

end Arbiter
