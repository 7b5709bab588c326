import Arbiter.Proofs.Job.Walking
import Arbiter.Proofs.World.Roaming

/-! How a wander goes on: every turn is one deed the way it is heading, whatever comes between two
turns, and its heading outlasts stops and starts. -/

namespace Arbiter

variable {w : World} {v : Wander} {i : Nat} {F : Fault → Prop}

/-- A fault of a wander that has no room to count `n` more turns. -/
def Wander.Strains (v : Wander) (n : Nat) (e : Fault) : Prop :=
  e = .overflow ∧ 1 <<< 32 ≤ v.elapsed + n

namespace Job

theorem wander_turn (h : w.Outlet v.heading i) (hgrid : ∃ q, w.position.step v.heading = .ok q)
    (control : Control) :
    ((wander v).turn control).Meets w (fun e => v.Strains 1 e ∨ w.Strains i 1 e)
      fun turn w' _ => turn.reply.failure = none ∧ turn.candidate = none ∧
        turn.task = .wander
          { v with elapsed := v.elapsed + 1, heading := (w.roam v.heading).2 } ∧
        w' = (w.roam v.heading).1 := by
  rw [turn, Wander.turn]
  refine Act.Meets.ofExcept_bind (fun e he => Or.inl (count32_error he)) ?_
  intro elapsed helapsed
  obtain ⟨-, rfl⟩ := count32_eq_ok_iff.mp helapsed
  apply ((World.tryMove_roams h hgrid).mono (fun e he => Or.inr he) fun _ _ _ h => h).bind
  intro moved w' t hroam
  rw [hroam]
  exact Act.meets_pure ⟨rfl, rfl, rfl, rfl⟩

/-! ## Calls of hooks -/

inductive Prompt where
  | start (control : Control)
  | tick (control : Control)
  | stop (taker : Option Job)

/-- The number of ticks among the calls. -/
def Prompt.ticks : List Prompt → Nat
  | [] => 0
  | .tick _ :: prompts => ticks prompts + 1
  | _ :: prompts => ticks prompts

def prompted : List Prompt → Job → Act World Record Job
  | [], j => pure j
  | .start control :: prompts, j => do
    let (j, _) ← (Task.onStart j control : Act World Record (Job × Reply))
    prompted prompts j
  | .tick control :: prompts, j => do
    let turn ← Task.onTick j control
    prompted prompts turn.task
  | .stop taker :: prompts, j => do
    let j ← Task.onStop j taker
    prompted prompts j

/-- Whatever calls come in between, every tick of a wander is one more deed. -/
theorem prompted_wander {prompts : List Prompt} (h : w.Outlet v.heading i)
    (hgrid : w.OnGrid (Prompt.ticks prompts) v.heading) :
    (prompted prompts (.wander v)).Meets w
      (fun e => v.Strains (Prompt.ticks prompts) e ∨ w.Strains i (Prompt.ticks prompts) e)
      fun _ w' _ => w' = (World.roamed (Prompt.ticks prompts) w v.heading).1 := by
  induction prompts generalizing w v i with
  | nil => exact Act.meets_pure rfl
  | cons prompt prompts ih =>
      cases prompt with
      | start control =>
          -- A start sets the elapsed ticks back and leaves the heading.
          have hstart : (Task.onStart (wander v) control : Act World Record (Job × Reply)) =
              pure (.wander v.restarted, control.unchanged) := rfl
          rw [prompted, hstart, pure_bind]
          refine (ih (v := v.restarted) h hgrid).mono ?_ fun _ _ _ h' => h'
          rintro e (he | he)
          · have hcount : 1 <<< 32 ≤ 0 + Prompt.ticks prompts := he.2
            exact Or.inl ⟨he.1, by simp only [Prompt.ticks]; omega⟩
          · exact Or.inr he
      | tick control =>
          obtain ⟨hstep, hrest⟩ := hgrid
          obtain ⟨j, hout, hstrains⟩ := h.next
          refine ((wander_turn h hstep control).mono ?_ fun _ _ _ h' => h').bind ?_
          · rintro e (he | he)
            · exact Or.inl ⟨he.1, by have := he.2; simp only [Prompt.ticks]; omega⟩
            · exact Or.inr (he.mono (Nat.le_refl i) (by simp only [Prompt.ticks]; omega))
          · rintro turn w' t ⟨-, -, htask, rfl⟩
            rw [htask]
            refine (ih (v := { v with
              elapsed := v.elapsed + 1, heading := (w.roam v.heading).2 }) hout hrest).mono ?_
                fun _ _ _ h' => h'
            rintro e (he | he)
            · have hcount : 1 <<< 32 ≤ v.elapsed + 1 + Prompt.ticks prompts := he.2
              exact Or.inl ⟨he.1, by simp only [Prompt.ticks]; omega⟩
            · exact Or.inr (hstrains _ e he)
      | stop taker =>
          have hstop : (Task.onStop (wander v) taker : Act World Record Job) =
              pure (.wander v) := rfl
          rw [prompted, hstop, pure_bind]
          exact ih h hgrid

end Job

/-! ## Spines -/

namespace Spine

/-- A wander at work, which may not have started. -/
inductive Wanders : Wander → Spine Job → Prop
  | fresh (duration : Nat) : Wanders { duration } (ofTask (.wanderFor duration))
  | roaming {v : Wander} {n : Node Job} (h : n.Working (.wander v)) : Wanders v { root := n }

variable {s : Spine Job} {trace : Trace}

theorem Wanders.root (h : s.Wanders v) :
    s.root.failure = none ∧ s.root.task = .wander v ∧ s.below = [] := by
  cases h with
  | fresh duration => exact ⟨rfl, rfl, rfl⟩
  | roaming h => exact ⟨h.unfailed, h.task, rfl⟩

theorem Wanders.isFinished (h : s.Wanders v) :
    s.root.isFinished w = .ok (decide (v.duration ≤ v.elapsed)) := by
  rw [Node.isFinished]
  rw [h.root.2.1]
  rfl

theorem Wanders.ready (h : s.Wanders v) :
    s.ready.Meets w F fun s' w' _ =>
      s'.root.Working (.wander v) ∧ s'.below = [] ∧ w' = w := by
  obtain ⟨-, -, hbelow⟩ := h.root
  rw [← hbelow]
  apply ready_walk
  cases h with
  | fresh duration => exact Or.inl ⟨rfl, fun _ => rfl⟩
  | roaming h => exact Or.inr h

theorem Wanders.tick (h : s.Wanders v) (hout : w.Outlet v.heading i)
    (hgrid : ∃ q, w.position.step v.heading = .ok q) :
    (s.tick trace).Meets w (fun e => v.Strains 1 e ∨ w.Strains i 1 e) fun r w' _ =>
      r.1.Wanders { v with elapsed := v.elapsed + 1, heading := (w.roam v.heading).2 } ∧
        w' = (w.roam v.heading).1 := by
  obtain ⟨depth, htick⟩ := exists_depth s trace
  rw [htick]
  refine (tick_alone (R := fun j w' => j = .wander
    { v with elapsed := v.elapsed + 1, heading := (w.roam v.heading).2 } ∧
      w' = (w.roam v.heading).1) (h.ready.imp ?_)).imp ?_
  · rintro s₁ w₁ t₁ ⟨hwork, hbelow, rfl⟩
    exact ⟨_, hwork, hbelow, fun control => Job.wander_turn hout hgrid control⟩
  · rintro ⟨⟨root, below⟩, trace'⟩ w' t ⟨hbelow, j, hj, rfl, hw'⟩
    obtain rfl : below = [] := hbelow
    exact ⟨.roaming hj, hw'⟩

end Spine

end Arbiter
