import Mathlib.Data.List.Induction
import Arbiter.Proofs.Contract

/-! Task instances. Every task that comes up in a run gets a number of its own and does all else as
before, so that a trail says which calls go to one instance. -/

namespace Arbiter

structure Instance (τ : Type) where
  task : τ
  number : Nat

/-- A context with the first number that is free. -/
structure Numbered (κ : Type) where
  context : κ
  next : Nat := 0

namespace Numbered

variable {κ ω τ α : Type}

/-- Runs an action that knows nothing of numbers. -/
def inside (m : Act κ ω α) : Act (Numbered κ) ω α :=
  m.within context fun k s => { s with context := k }

/-- Gives a task the next number, if there is a task. -/
def draw : Option τ → Act (Numbered κ) ω (Option (Instance τ))
  | none => pure none
  | some t => do
    let s ← Act.get
    Act.set { s with next := s.next + 1 }
    pure (some ⟨t, s.next⟩)

variable [Task κ τ]

/-- An instance does what its task does, and the tasks that it delegates to get fresh numbers. -/
instance : Task (Numbered κ) (Instance τ) where
  onStart i c := do
    let r ← inside (Task.onStart i.task c)
    pure ({ i with task := r.1 }, r.2)
  onTick i c := do
    let turn ← inside (Task.onTick i.task c)
    let candidate ← draw turn.candidate
    pure { task := { i with task := turn.task }, reply := turn.reply, candidate }
  onStop i taker := do
    let task ← inside (Task.onStop i.task (taker.map Instance.task))
    pure { i with task }
  isFinished i s := Task.isFinished i.task s.context
  isEqual i j := Task.isEqual i.task j.task
  label i := Task.label i.task
  veto? i := (Task.veto? i.task).map fun veto s candidate =>
    veto s.context (candidate.map Instance.task)

end Numbered

/-! ## The calls of one instance -/

inductive Call where
  | start
  | tick
  | stop
  deriving DecidableEq

section Calls

variable {τ : Type}

/-- The call of a hook of the instance `i`. -/
def Happening.callOf? (i : Nat) : Happening (Instance τ) → Option Call
  | started t => if t.number = i then some .start else none
  | ticked t => if t.number = i then some .tick else none
  | stopped t _ => if t.number = i then some .stop else none
  | _ => none

def callsOf (i : Nat) (trail : List (Happening (Instance τ))) : List Call :=
  trail.filterMap (Happening.callOf? i)

/-- A start, some ticks and a stop. -/
def activation (ticks : Nat) : List Call := .start :: List.replicate ticks .tick ++ [.stop]

/-- One activation after another, each with its number of ticks. -/
def activations (ticks : List Nat) : List Call := (ticks.map activation).flatten

/-- The calls of the instance begin a sequence of activations. -/
def Paired (i : Nat) (trail : List (Happening (Instance τ))) : Prop :=
  ∃ ticks, callsOf i trail <+: activations ticks

/-- The calls of the instance are whole activations: none is open. -/
def Closed (i : Nat) (trail : List (Happening (Instance τ))) : Prop :=
  ∃ ticks, callsOf i trail = activations ticks

/-! ## The watch over one instance -/

/-- Whether the activation of instance `i` is open after a happening, if it was so or not before.
Nothing that breaks the order of calls passes, nor the end of an instance that is open. -/
def watchOne (i : Nat) (isOpen : Bool) : Happening (Instance τ) → Option Bool
  | .started t => if t.number = i then (if isOpen then none else some true) else some isOpen
  | .ticked t => if t.number = i && !isOpen then none else some isOpen
  | .stopped t _ => if t.number = i then (if isOpen then some false else none) else some isOpen
  | .dropped t => if t.number = i && isOpen then none else some isOpen
  | _ => some isOpen

def watch (i : Nat) (isOpen : Bool) (trail : List (Happening (Instance τ))) : Option Bool :=
  trail.foldlM (watchOne i) isOpen

theorem watch_append (i : Nat) (o : Bool) (s t : List (Happening (Instance τ))) :
    watch i o (s ++ t) = (watch i o s).bind fun o' => watch i o' t :=
  List.foldlM_append

theorem watch_concat (i : Nat) (o : Bool) (t : List (Happening (Instance τ)))
    (h : Happening (Instance τ)) :
    watch i o (t ++ [h]) = (watch i o t).bind fun o' => watchOne i o' h := by
  rw [watch_append]
  congr 1
  funext o'
  simp [watch, List.foldlM]

theorem activations_concat (ticks : List Nat) (n : Nat) :
    activations (ticks ++ [n]) = activations ticks ++ activation n := by
  simp [activations]

/-- What a watched trail has called: whole activations, and a further one that has begun if the
instance is open. -/
theorem calls_of_watch {i : Nat} {trail : List (Happening (Instance τ))} {o : Bool}
    (h : watch i false trail = some o) :
    ∃ ticks, if o then ∃ n, callsOf i trail =
        activations ticks ++ .start :: List.replicate n .tick
      else callsOf i trail = activations ticks := by
  induction trail using List.reverseRecOn generalizing o with
  | nil =>
      cases h
      exact ⟨[], rfl⟩
  | append_singleton t e ih =>
      rw [watch_concat] at h
      obtain ⟨o', ht, he⟩ := Option.bind_eq_some_iff.mp h
      obtain ⟨ticks, hcalls⟩ := ih ht
      have hsame : e.callOf? i = none → o' = o →
          ∃ ticks, if o then ∃ n, callsOf i (t ++ [e]) =
              activations ticks ++ .start :: List.replicate n .tick
            else callsOf i (t ++ [e]) = activations ticks := by
        intro hnone ho
        subst ho
        refine ⟨ticks, ?_⟩
        simpa [callsOf, List.filterMap_append, hnone] using hcalls
      cases e with
      | started a =>
          by_cases ha : a.number = i
          · cases o' <;> simp [watchOne, ha] at he
            subst he
            refine ⟨ticks, 0, ?_⟩
            simpa [callsOf, Happening.callOf?, ha] using hcalls
          · exact hsame (by simp [Happening.callOf?, ha]) (by simpa [watchOne, ha] using he)
      | ticked a =>
          by_cases ha : a.number = i
          · cases o' <;> simp [watchOne, ha] at he
            subst he
            obtain ⟨n, hcalls⟩ := hcalls
            refine ⟨ticks, n + 1, ?_⟩
            rw [callsOf] at hcalls
            simp [callsOf, Happening.callOf?, ha, hcalls, List.replicate_succ']
          · exact hsame (by simp [Happening.callOf?, ha]) (by simpa [watchOne, ha] using he)
      | stopped a b =>
          by_cases ha : a.number = i
          · cases o' <;> simp [watchOne, ha] at he
            subst he
            obtain ⟨n, hcalls⟩ := hcalls
            refine ⟨ticks ++ [n], ?_⟩
            rw [callsOf] at hcalls
            simp [callsOf, Happening.callOf?, ha, hcalls, activations_concat, activation]
          · exact hsame (by simp [Happening.callOf?, ha]) (by simpa [watchOne, ha] using he)
      | dropped a =>
          apply hsame rfl
          simp only [watchOne] at he
          split at he
          · cases he
          · exact Option.some.inj he
      | reported e => exact hsame rfl (Option.some.inj he)
      | noted r => exact hsame rfl (Option.some.inj he)

theorem closed_of_watch {i : Nat} {trail : List (Happening (Instance τ))}
    (h : watch i false trail = some false) : Closed i trail := by
  obtain ⟨ticks, hcalls⟩ := calls_of_watch h
  exact ⟨ticks, hcalls⟩

theorem paired_of_watch {i : Nat} {trail : List (Happening (Instance τ))} {o : Bool}
    (h : watch i false trail = some o) : Paired i trail := by
  obtain ⟨ticks, hcalls⟩ := calls_of_watch h
  cases o with
  | false =>
      have hcalls : callsOf i trail = activations ticks := hcalls
      exact ⟨ticks, hcalls ▸ List.prefix_rfl⟩
  | true =>
      obtain ⟨n, hcalls⟩ := hcalls
      refine ⟨ticks ++ [n], ?_⟩
      rw [hcalls, activations_concat]
      exact (List.prefix_append_right_inj _).mpr (List.prefix_append ..)

/-- An instance that is dropped in a watched trail is closed at that moment. -/
theorem closed_of_dropped {before after : List (Happening (Instance τ))} {t : Instance τ} {o : Bool}
    (h : watch t.number false (before ++ .dropped t :: after) = some o) :
    Closed t.number before := by
  rw [watch_append] at h
  obtain ⟨o', hbefore, h⟩ := Option.bind_eq_some_iff.mp h
  cases o' with
  | false => exact closed_of_watch hbefore
  | true => simp [watch, List.foldlM, watchOne] at h

end Calls

end Arbiter
