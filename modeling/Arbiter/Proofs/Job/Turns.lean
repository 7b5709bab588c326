import Arbiter.Job.Hooks
import Arbiter.Proofs.World.Deeds

/-! What the hooks of a job leave of the job and of the world. A turn does one deed at the most, and
only jobs that delegate nothing can move. -/

namespace Arbiter

namespace Job

/-! ## Kinds -/

inductive Kind where
  | step
  | goto
  | wander
  | kill
  | eat
  | idle
  deriving DecidableEq, Repr

def kind : Job → Kind
  | step _ => .step
  | goto _ => .goto
  | wander _ => .wander
  | kill _ => .kill
  | eat _ => .eat
  | idle => .idle

namespace Kind

/-- Fights delegate walks, and walks delegate steps. -/
inductive Delegates : Kind → Kind → Prop
  | goto_step : Delegates .goto .step
  | kill_goto : Delegates .kill .goto

/-- How many levels of jobs there can be below one. -/
def rank : Kind → Nat
  | kill => 2
  | goto => 1
  | _ => 0

theorem Delegates.rank_lt {a b : Kind} (h : a.Delegates b) : b.rank < a.rank := by
  cases h <;> decide

theorem Delegates.ne_eat {a b : Kind} (h : a.Delegates b) : b ≠ .eat := by
  cases h <;> decide

theorem rank_le (a : Kind) : a.rank ≤ 2 := by
  cases a <;> decide

end Kind

/-- The counter that a turn may advance. -/
def counter : Job → Nat
  | step s => s.progress
  | goto g => g.blocked
  | wander v => v.elapsed
  | eat chewing => chewing
  | kill _ | idle => 0

def target? : Job → Option Position
  | goto g => some g.target
  | _ => none

/-- The job with its counters set back. -/
def restarted : Job → Job
  | step s => step s.restarted
  | goto g => goto g.restarted
  | wander v => wander v.restarted
  | kill mob => kill mob
  | eat _ => eat 0
  | idle => idle

theorem kind_restarted (j : Job) : j.restarted.kind = j.kind := by
  cases j <;> rfl

theorem counter_restarted (j : Job) : j.restarted.counter = 0 := by
  cases j <;> rfl

theorem target?_restarted (j : Job) : j.restarted.target? = j.target? := by
  cases j <;> rfl

/-- The frame that protects all food during a meal. -/
def mealFrame : Frame := { label := eatFood.label, protectedItems := Item.foods }

/-- The frames that a job holds open while it is at work. -/
def frames (j : Job) : Frames := if j.isEat then [mealFrame] else []

theorem isEat_iff {j : Job} : j.isEat = true ↔ j.kind = .eat := by
  cases j <;> simp [isEat, kind]

theorem isEat_of_kind {i j : Job} (h : i.kind = j.kind) : i.isEat = j.isEat := by
  rw [Bool.eq_iff_iff, isEat_iff, isEat_iff, h]

/-! ## Starts and stops -/

variable {w : World} {F : Fault → Prop} {c : Control}

theorem begin_keeps (j : Job) :
    (j.begin c).Keeps w F Record.IsRoutine fun p w' =>
      p = (j.restarted, c.unchanged) ∧ w' = { w with frames := j.frames ++ w.frames } := by
  cases j with
  | eat chewing =>
      unfold begin World.openFrame World.protect
      refine Act.Keeps.bind
        (P := fun _ w' => w' = { w with frames := w.frames.opened eatFood.label })
        (Act.keeps_modify rfl) ?_
      intro _ w' hw
      subst hw
      refine Act.Keeps.bind
        (P := fun _ w' => w' = { w with frames := (eat chewing).frames ++ w.frames })
        (Act.Keeps.get_bind (Act.keeps_set rfl)) ?_
      intro _ w' hw
      exact Act.keeps_pure ⟨rfl, hw⟩
  | _ => exact Act.keeps_pure ⟨rfl, rfl⟩

/-- A job that stops closes its frames. It warns if there is none to be closed. -/
theorem quit_keeps (j : Job) :
    j.quit.Keeps w F (fun r => r.IsRoutine ∨ j.frames ≠ [] ∧ w.frames = []) fun j' w' =>
      j' = j ∧ w' = { w with frames := w.frames.drop j.frames.length } := by
  cases j with
  | eat chewing =>
      unfold quit World.closeFrame
      refine Act.Keeps.bind (P := fun _ w' =>
        w' = { w with frames := w.frames.drop (eat chewing).frames.length }) ?_ ?_
      · refine Act.Keeps.get_bind ?_
        split
        case h_1 hnil =>
          exact Act.keeps_tell (Or.inr ⟨nofun, hnil⟩) (by rw [hnil, List.drop_nil, ← hnil])
        case h_2 f rest hcons => exact Act.keeps_set (by simp [hcons, frames, isEat])
      · intro _ w' hw
        exact Act.keeps_pure ⟨rfl, hw⟩
  | _ => exact Act.keeps_pure ⟨rfl, rfl⟩

/-! ## Turns -/

/-- What a job reads and counts in a turn stays within its range. -/
structure HasRoom (j : Job) (w : World) : Prop extends w.Roams where
  counter : j.counter + 1 < 1 <<< 32
  target : ∀ p ∈ j.target?, w.position.gap p < 1 <<< 32
  mobs : ∀ m ∈ w.mobs, w.position.gap m.position < 1 <<< 32

/-- What a turn leaves of the job and of the world, and what it delegates. -/
structure Turned (j : Job) (w : World) (turn : Turn Job) (w' : World) : Prop where
  kind : turn.task.kind = j.kind
  counter : turn.task.counter ≤ j.counter + 1
  target : turn.task.target? = j.target?
  candidate : ∀ s ∈ turn.candidate,
    j.kind.Delegates s.kind ∧ ∀ p ∈ s.target?, ∃ m ∈ w.mobs, m.position = p
  deed : w' = w ∨ ∃ d, w.Did d w'
  /-- A job that can delegate leaves the walking to others. -/
  still : 0 < j.kind.rank → w' = w ∨ ∃ mob, w.Did (.attack mob) w'

theorem Turned.position {j : Job} {w w' : World} {turn : Turn Job} (h : j.Turned w turn w')
    (hrank : 0 < j.kind.rank) : w'.position = w.position := by
  rcases h.still hrank with rfl | ⟨mob, hd⟩
  · rfl
  · cases hd
    rfl

end Job

section Turns

variable {w : World} {c : Control}

theorem Position.yields_distance (p q : Position) :
    Yields (p.distance q) (fun e => e = .overflow ∧ 1 <<< 32 ≤ p.gap q) fun d => d = p.gap q :=
  yields_iff.mpr ⟨fun _ h => count32_error h, fun _ h => (count32_eq_ok_iff.mp h).2.symm⟩

theorem Step.turn_keeps (s : Step) :
    (s.turn c).Keeps w (fun e => e = .overflow ∧ ¬ (Job.step s).HasRoom w) Record.IsRoutine
      ((Job.step s).Turned w) := by
  rw [turn]
  split
  · exact Act.keeps_pure ⟨rfl, Nat.le_succ _, rfl, nofun, Or.inl rfl, nofun⟩
  · refine Act.Keeps.ofExcept_bind ?_ ?_
    · intro e he
      have hcount := count32_error he
      exact ⟨hcount.1, fun h => absurd h.counter (Nat.not_lt.mpr hcount.2)⟩
    intro progress hprogress
    obtain ⟨-, rfl⟩ := count32_eq_ok_iff.mp hprogress
    split
    · refine ((World.tryMove_keeps w s.direction).mono ?_ (fun _ h => h) fun _ _ h => h).bind ?_
      · intro e he
        exact ⟨he.1, fun h => he.2 h.toRoams⟩
      · intro moved w' hdeed
        split
        · exact Act.keeps_pure ⟨rfl, Nat.le_refl _, rfl, nofun, Or.inr hdeed, nofun⟩
        · exact Act.keeps_pure ⟨rfl, Nat.le_refl _, rfl, nofun, Or.inr hdeed, nofun⟩
    · exact Act.keeps_pure ⟨rfl, Nat.le_refl _, rfl, nofun, Or.inl rfl, nofun⟩

theorem Wander.turn_keeps (v : Wander) :
    v.turn.Keeps w (fun e => e = .overflow ∧ ¬ (Job.wander v).HasRoom w) Record.IsRoutine
      ((Job.wander v).Turned w) := by
  rw [turn]
  refine Act.Keeps.ofExcept_bind ?_ ?_
  · intro e he
    have hcount := count32_error he
    exact ⟨hcount.1, fun h => absurd h.counter (Nat.not_lt.mpr hcount.2)⟩
  intro elapsed helapsed
  obtain ⟨-, rfl⟩ := count32_eq_ok_iff.mp helapsed
  refine ((World.tryMove_keeps w v.heading).mono ?_ (fun _ h => h) fun _ _ h => h).bind ?_
  · intro e he
    exact ⟨he.1, fun h => he.2 h.toRoams⟩
  · intro moved w' hdeed
    exact Act.keeps_pure ⟨rfl, Nat.le_refl _, rfl, nofun, Or.inr hdeed, nofun⟩

namespace Goto

variable {g : Goto}

theorem yields_arrived (g : Goto) (p : Position) :
    Yields (g.arrived p) (fun e => e = .overflow ∧ 1 <<< 32 ≤ p.gap g.target) fun b =>
      b = decide (p.gap g.target ≤ g.range) := by
  rw [arrived]
  refine (p.yields_distance g.target).bind ?_
  intro d hd
  subst hd
  exact yields_pure rfl

/-- A turn of a walk that is not blocked: at the most it asks for a step. -/
structure Stepping (g : Goto) (turn : Turn Job) : Prop where
  task : ∃ detour, turn.task = .goto { g with detour }
  candidate : ∀ s ∈ turn.candidate, s.kind = .step

theorem yields_direct (g : Goto) (p : Position) (state : String) (took : Bool) :
    Yields (g.direct p state took) (fun e => e = .overflow ∧ 1 <<< 32 ≤ p.gap g.target)
      g.Stepping := by
  unfold direct
  split
  · exact yields_pure ⟨⟨_, rfl⟩, nofun⟩
  · refine (p.yields_distance g.target).bind ?_
    intro left _
    exact yields_pure ⟨⟨_, rfl⟩, by rintro s hs; cases hs; rfl⟩

theorem yields_next (g : Goto) (p : Position) (state : String) (took : Bool) :
    Yields (g.next p state took) (fun e => e = .overflow ∧ 1 <<< 32 ≤ p.gap g.target)
      g.Stepping := by
  rw [next]
  refine (g.yields_arrived p).bind ?_
  intro arrived _
  split
  · exact yields_pure ⟨⟨_, rfl⟩, nofun⟩
  · split
    · exact g.yields_direct p state took
    · split
      · exact yields_pure ⟨⟨_, rfl⟩, by rintro s hs; cases hs; rfl⟩
      · exact (yields_direct { g with detour := none } p state took).mono (fun _ h => h)
          fun turn h => ⟨h.task, h.candidate⟩

theorem Stepping.turned {h : Goto} {turn : Turn Job} (hs : h.Stepping turn)
    (htarget : h.target = g.target) (hblocked : h.blocked ≤ g.blocked + 1) :
    (Job.goto g).Turned w turn w := by
  obtain ⟨⟨detour, htask⟩, hcandidate⟩ := hs
  refine ⟨?_, ?_, ?_, ?_, Or.inl rfl, fun _ => Or.inl rfl⟩
  · rw [htask]
    rfl
  · rw [htask]
    exact hblocked
  · rw [htask]
    exact congrArg some htarget
  · intro s hmem
    have hkind := hcandidate s hmem
    rw [hkind]
    refine ⟨.goto_step, ?_⟩
    cases s with
    | step t => exact nofun
    | _ => cases hkind

theorem turn_keeps (g : Goto) :
    (g.turn c).Keeps w (fun e => e = .overflow ∧ ¬ (Job.goto g).HasRoom w) Record.IsRoutine
      ((Job.goto g).Turned w) := by
  have hfar : ∀ e, e = Fault.overflow ∧ 1 <<< 32 ≤ w.position.gap g.target →
      e = .overflow ∧ ¬ (Job.goto g).HasRoom w := by
    rintro e ⟨he, hle⟩
    exact ⟨he, fun h => absurd (h.target g.target rfl) (Nat.not_lt.mpr hle)⟩
  rw [turn]
  refine Act.Keeps.get_bind ?_
  dsimp only
  split
  · have hnext := g.yields_next w.position c.state false
    exact Act.keeps_ofExcept (fun e he => hfar e (hnext.error he))
      fun turn hturn => (hnext.ok hturn).turned rfl (Nat.le_succ _)
  · refine Act.Keeps.ofExcept_bind ?_ ?_
    · intro e he
      have hcount := count32_error he
      exact ⟨hcount.1, fun h => absurd h.counter (Nat.not_lt.mpr hcount.2)⟩
    intro blocked hblocked
    obtain ⟨-, rfl⟩ := count32_eq_ok_iff.mp hblocked
    split
    · exact Act.keeps_pure ⟨rfl, Nat.le_refl _, rfl, nofun, Or.inl rfl, fun _ => Or.inl rfl⟩
    · split
      · exact Act.keeps_pure ⟨rfl, Nat.le_refl _, rfl, nofun, Or.inl rfl, fun _ => Or.inl rfl⟩
      · next direction _ =>
        refine Act.Keeps.tell_bind (by simp [Record.IsRoutine]) ?_
        have hnext := yields_next
          { g with
            blocked := g.blocked + 1
            detour := some { place := w.position, direction := direction.clockwise } }
          w.position c.state true
        exact Act.keeps_ofExcept (fun e he => hfar e (hnext.error he))
          fun turn hturn => (hnext.ok hturn).turned rfl (Nat.le_refl _)

end Goto

namespace Job

theorem fight_keeps (mob : Nat) :
    (fight mob c).Keeps w (fun e => e = .overflow ∧ ¬ (kill mob).HasRoom w) Record.IsRoutine
      ((kill mob).Turned w) := by
  rw [fight]
  refine Act.Keeps.get_bind ?_
  split
  · exact Act.keeps_pure ⟨rfl, Nat.le_succ _, rfl, nofun, Or.inl rfl, fun _ => Or.inl rfl⟩
  · next m hm =>
    have hmem : m ∈ w.mobs := List.mem_of_find?_eq_some hm
    refine Act.Keeps.ofExcept_bind ?_ ?_
    · intro e he
      have hcount := (w.position.yields_distance m.position).error he
      exact ⟨hcount.1, fun h => absurd (h.mobs m hmem) (Nat.not_lt.mpr hcount.2)⟩
    intro d hd
    split
    · refine ((World.attack_keeps w mob).mono ?_ (fun _ h => h) fun _ _ h => h).bind ?_
      · intro e he
        exact ⟨he.1, fun h => absurd h.deeds (Nat.not_lt.mpr he.2)⟩
      · intro _ w' hdid
        exact Act.keeps_pure
          ⟨rfl, Nat.le_succ _, rfl, nofun, Or.inr ⟨_, hdid⟩, fun _ => Or.inr ⟨mob, hdid⟩⟩
    · refine Act.keeps_pure ⟨rfl, Nat.le_succ _, rfl, ?_, Or.inl rfl, fun _ => Or.inl rfl⟩
      rintro s hs
      cases hs
      refine ⟨.kill_goto, ?_⟩
      rintro p hp
      cases hp
      exact ⟨m, hmem, rfl⟩

theorem chew_keeps (chewing : Nat) :
    (chew chewing c).Keeps w (fun e => e = .overflow ∧ ¬ (eat chewing).HasRoom w)
      Record.IsRoutine ((eat chewing).Turned w) := by
  rw [chew]
  refine Act.Keeps.get_bind ?_
  split
  · exact Act.keeps_pure ⟨rfl, Nat.le_succ _, rfl, nofun, Or.inl rfl, nofun⟩
  · next food _ =>
    refine Act.Keeps.ofExcept_bind ?_ ?_
    · intro e he
      have hcount := count32_error he
      exact ⟨hcount.1, fun h => absurd h.counter (Nat.not_lt.mpr hcount.2)⟩
    intro n hn
    obtain ⟨-, rfl⟩ := count32_eq_ok_iff.mp hn
    dsimp only
    split
    · refine ((World.eat_keeps w food).mono ?_ (fun _ h => h) fun _ _ h => h).bind ?_
      · intro e he
        exact ⟨he.1, fun h => absurd h.deeds (Nat.not_lt.mpr he.2)⟩
      · intro eaten w' hdid
        refine Act.keeps_pure ⟨rfl, Nat.zero_le _, rfl, nofun, ?_, nofun⟩
        cases eaten with
        | true => exact Or.inr ⟨_, hdid⟩
        | false => exact Or.inl hdid
    · exact Act.keeps_pure ⟨rfl, Nat.le_refl _, rfl, nofun, Or.inl rfl, nofun⟩

theorem turn_keeps (j : Job) :
    (j.turn c).Keeps w (fun e => e = .overflow ∧ ¬ j.HasRoom w) Record.IsRoutine (j.Turned w) := by
  cases j with
  | step s => exact s.turn_keeps
  | goto g => exact g.turn_keeps
  | wander v => exact v.turn_keeps
  | kill mob => exact fight_keeps mob
  | eat chewing => exact chew_keeps chewing
  | idle => exact Act.keeps_pure ⟨rfl, Nat.le_succ _, rfl, nofun, Or.inl rfl, nofun⟩

theorem yields_isFinished (j : Job) (w : World) :
    Yields (j.isFinished w)
      (fun e => e = .overflow ∧ ∃ p ∈ j.target?, 1 <<< 32 ≤ w.position.gap p) fun _ => True := by
  cases j with
  | goto g =>
      exact (g.yields_arrived w.position).mono (fun _ h => ⟨h.1, g.target, rfl, h.2⟩)
        fun _ _ => trivial
  | _ => exact trivial

end Job

end Turns

end Arbiter
