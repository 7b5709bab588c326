import Arbiter.Proofs.Agent.Rounds
import Arbiter.Proofs.Agent.Survival
import Arbiter.Proofs.Job.Wandering

/-! How an agent gets unstuck. The chain for it wanders for six ticks, of which at least one is a
move wherever there is a way out, and hands control back in the seventh. -/

namespace Arbiter

variable {w : World} {v : Wander} {t i : Nat} {o : Option Outcome}

/-- The chain that gets an agent unstuck, with what it holds and how its last root ended. -/
def unstuck (t : Nat) (s : Option (Spine Job)) (o : Option Outcome) : ReactiveChain :=
  { trigger := .stuck t
    inner := { (ReactiveChain.ofTrigger (.stuck t)).inner with spine := s, outcome := o } }

/-- The chain at a wander. Before the first tick it holds none. -/
inductive Strolls (t : Nat) (o : Option Outcome) : Wander → AgentChain → Prop
  | stuck : Strolls t o { duration := Trigger.wanderTicks } (.reactive (unstuck t none o))
  | roaming {v : Wander} {s : Spine Job} (hs : s.Wanders v)
      (hv : v.duration = Trigger.wanderTicks) : Strolls t o v (.reactive (unstuck t (some s) none))

namespace Strolls

variable {c : AgentChain} {trace : Trace} {F : Fault → Prop}

theorem duration (h : Strolls t o v c) : v.duration = 6 := by
  cases h with
  | stuck => rfl
  | roaming hs hv => exact hv

theorem tick_inner {R : SingleChain World Job → World → Prop} (h : Strolls t o v c)
    (hasks : v.elapsed = 0 → t ≤ w.stuck)
    (htick : ∀ s : Spine Job, s.Wanders v →
      ((unstuck t (some s) none).inner.tick trace).Meets w F fun p w' _ => R p.1 w') :
    (Chain.tick c trace).Meets w F fun p w' _ =>
      ∃ inner, p.1 = .reactive { trigger := .stuck t, inner } ∧ R inner w' := by
  cases h with
  | stuck =>
      have hrequest : (unstuck t none o).request? w = .ok (some (.wanderFor 6)) := by
        show (Trigger.stuck t).answer? w = _
        rw [Trigger.answer?, Trigger.holds, decide_eq_true (hasks rfl)]
        rfl
      apply (ReactiveChain.tick_asking (c := unstuck t none o) hrequest rfl
        (htick _ (.fresh 6))).imp
      rintro p w' u ⟨-, hp, inner, rfl, hR⟩
      exact ⟨inner, hp, hR⟩
  | @roaming _ s hs hv =>
      apply (ReactiveChain.tick_quiet (c := unstuck t (some s) none) rfl (htick s hs)).imp
      rintro p w' u ⟨-, hp, inner, rfl, hR⟩
      exact ⟨inner, hp, hR⟩

theorem tick_roams (h : Strolls t o v c) (hasks : v.elapsed = 0 → t ≤ w.stuck)
    (hv : v.elapsed < 6) (hout : w.Outlet v.heading i)
    (hgrid : ∃ q, w.position.step v.heading = .ok q) :
    (Chain.tick c trace).Meets w (w.Strains i 1) fun p w' _ =>
      Strolls t o { v with elapsed := v.elapsed + 1, heading := (w.roam v.heading).2 } p.1 ∧
        w' = (w.roam v.heading).1 := by
  have hduration := h.duration
  refine (h.tick_inner hasks (R := fun inner w' => ∃ s',
    inner = (unstuck t (some s') none).inner ∧
      s'.Wanders { v with elapsed := v.elapsed + 1, heading := (w.roam v.heading).2 } ∧
        w' = (w.roam v.heading).1) fun s hs => ?_).imp ?_
  · have hunfinished : s.root.isFinished w = .ok false := by
      rw [hs.isFinished, decide_eq_false (by omega)]
    apply SingleChain.tick_working (c := (unstuck t (some s) none).inner) rfl hs.root.1 hunfinished
    refine (hs.tick hout hgrid).mono ?_ ?_
    · rintro e (he | he)
      · exact absurd he.2 (by omega)
      · exact he
    · intro r w' u hr
      exact ⟨hr.1.root.1, hr⟩
  · rintro p w' u ⟨inner, hp, s', rfl, hs', hw'⟩
    rw [hp]
    exact ⟨.roaming hs' hduration, hw'⟩

theorem tick_ends (h : Strolls t o v c) (hv : v.elapsed = 6) :
    (Chain.tick c trace).Meets w F fun p w' _ =>
      p.1 = .reactive (unstuck t none (some .finished)) ∧ w' = w := by
  have hduration := h.duration
  refine (h.tick_inner (by omega) (R := fun inner w' =>
    inner = (unstuck t none (some .finished)).inner ∧ w' = w) fun s hs => ?_).imp ?_
  · have hfinished : s.root.isFinished w = .ok true := by
      rw [hs.isFinished, decide_eq_true (by omega)]
    obtain ⟨hfail, htask, hbelow⟩ := hs.root
    apply SingleChain.tick_finished (R := fun w' => w' = w)
      (c := (unstuck t (some s) none).inner) rfl hfail hfinished
    refine Spine.stop_walk ?_ none
    intro n hn
    rw [Spine.nodes, hbelow, List.mem_singleton] at hn
    rw [hn, htask]
    rfl
  · rintro p w' u ⟨inner, hp, rfl, hw'⟩
    exact ⟨hp, hw'⟩

theorem play (h : Strolls t o v c) (hasks : v.elapsed = 0 → t ≤ w.stuck) {traces : List Trace}
    {n : Nat} (hn : v.elapsed + n = 6) (hlength : traces.length = n + 1)
    (hout : w.Outlet v.heading i) (hgrid : w.OnGrid n v.heading) :
    (c.play (Round.ofTraces traces)).Meets w (w.Strains i n) fun q w' _ =>
      q.1 = .reactive (unstuck t none (some .finished)) ∧
        w' = (World.roamed n w v.heading).1 := by
  induction n generalizing w v c i traces with
  | zero =>
      obtain ⟨trace, rfl⟩ := List.length_eq_one_iff.mp hlength
      apply AgentChain.play_round (R := fun c' _ w' =>
        c' = .reactive (unstuck t none (some .finished)) ∧ w' = w)
      apply (h.tick_ends hn).imp
      intro p w' u hp
      exact Act.meets_pure hp
  | succ n ih =>
      obtain ⟨trace, traces, rfl⟩ : ∃ first rest, traces = first :: rest :=
        List.exists_cons_of_length_eq_add_one hlength
      obtain ⟨hstep, hrest⟩ := hgrid
      obtain ⟨j, hnext, hstrains⟩ := hout.next
      apply AgentChain.play_round (R := fun c' _ w' =>
        c' = .reactive (unstuck t none (some .finished)) ∧
          w' = (World.roamed (n + 1) w v.heading).1)
      refine ((h.tick_roams hasks (by omega) hout hstep).mono ?_ fun _ _ _ h' => h').imp ?_
      · exact fun e he => he.mono (Nat.le_refl i) (by omega)
      · rintro p w' u ⟨hp, rfl⟩
        refine (ih hp (fun hzero => absurd hzero (Nat.succ_ne_zero _)) (by simp only; omega)
          (Nat.succ.inj hlength) hnext hrest).mono ?_ fun _ _ _ h' => h'
        exact fun e he => hstrains n e he

end Strolls

/-- An agent that is not walled in and stays on the grid gets unstuck by wandering. There is a move
among any four turns of a wander in a row, so that it never bumps more than three times in a row.
The chain for it is through after seven ticks, and the agent does not count as stuck any more. A run
ends early only if a counter has no room: that of the turns, of the bumps or of the deeds. -/
theorem wander_gets_unstuck (w : World) (hhere : w.isBlocked w.position = false)
    (hfree : ∃ d, w.isBlocked (w.position.beside d) = false) :
    (∀ (v : Wander) (prompts : List Job.Prompt), w.OnGrid (Job.Prompt.ticks prompts) v.heading →
      (Job.prompted prompts (.wander v)).Meets w
        (fun e => v.Strains (Job.Prompt.ticks prompts) e ∨ w.Strains 3 (Job.Prompt.ticks prompts) e)
        fun _ w' _ => ∃ deeds, w'.history = deeds.reverse ++ w.history ∧
          deeds.length = Job.Prompt.ticks prompts ∧
          (∀ row, row <:+: deeds → 4 ≤ row.length → ∃ p q, Deed.move p q ∈ row) ∧
          ∀ row, row <:+: deeds → (∀ x ∈ row, ∃ p d, x = Deed.bump p d) → row.length ≤ 3) ∧
    ∀ (t : Nat) (o : Option Outcome) (traces : List Trace), 3 < t → t ≤ w.stuck →
      traces.length = 7 → w.OnGrid 6 .north →
        ((AgentChain.reactive (unstuck t none o)).play (Round.ofTraces traces)).Meets w
          (w.Strains 3 6) fun q w' _ =>
            q.1 = .reactive (unstuck t none (some .finished)) ∧ w'.stuck ≤ 3 ∧
              Chain.isRelevant q.1 w' = .ok false := by
  constructor
  · intro v prompts hgrid
    obtain ⟨i, hout⟩ := World.exists_outlet hhere hfree v.heading
    refine (Job.prompted_wander hout hgrid).mono ?_ ?_
    · rintro e (he | he)
      · exact Or.inl he
      · exact Or.inr (he.mono hout.few (Nat.le_refl _))
    · rintro _ w' u rfl
      obtain ⟨deeds, hhistory, hlength, hbrisk⟩ := hout.brisk (Job.Prompt.ticks prompts)
      have hrow := fun row (hrow : row <:+: deeds) => (hbrisk.mono hout.few).of_row hrow
      refine ⟨deeds, hhistory, hlength, fun row h => (hrow row h).exists_move, ?_⟩
      intro row h hbumps
      refine (hrow row h).length_le fun p q hmove => ?_
      obtain ⟨p', d, hbump⟩ := hbumps _ hmove
      cases hbump
  · intro t o traces ht hstuck hlength hgrid
    obtain ⟨i, hout⟩ := World.exists_outlet hhere hfree .north
    have hbegin : Strolls t o { duration := 6 } (.reactive (unstuck t none o)) := .stuck
    refine (hbegin.play (fun _ => hstuck) (n := 6) rfl hlength hout hgrid).mono ?_ ?_
    · exact fun e he => he.mono hout.few (Nat.le_refl _)
    · rintro q w' u ⟨hq, rfl⟩
      have hfew := hout.stuck_le (n := 6) (Nat.lt_of_le_of_lt hout.few (by decide))
      refine ⟨hq, hfew, ?_⟩
      rw [hq]
      show (pure (decide (t ≤ _)) : Except Fault Bool) = .ok false
      rw [decide_eq_false (Nat.not_le.mpr (Nat.lt_of_le_of_lt hfew ht))]
      rfl

def nook : World :=
  { stuck := 5
    blocked := (({} : Area).addRectangle ⟨0, 1⟩ ⟨1, 1⟩).addRectangle ⟨0, -1⟩ ⟨1, -1⟩
      |>.addRectangle ⟨1, 0⟩ ⟨1, 0⟩ }

theorem wander_gets_unstuck_nook :
    (∃ d, Job.prompted [.start {}, .tick {}, .tick {}, .stop none, .start {}, .tick {}, .tick {}]
        (.wanderFor 3) nook = .ok d ∧ ∃ p q, Deed.move p q ∈ d.context.history) ∧
      ∃ d, (AgentChain.reactive (unstuck 4 none none)).play
          (Round.ofTraces (List.replicate 7 {})) nook = .ok d ∧
        d.context.stuck ≤ 3 ∧ Chain.isRelevant d.value.1 d.context = .ok false := by
  obtain ⟨hturns, hticks⟩ := wander_gets_unstuck nook rfl ⟨.west, rfl⟩
  constructor
  · have hgrid : nook.OnGrid 4 .north :=
      ⟨⟨_, rfl⟩, ⟨_, rfl⟩, ⟨_, rfl⟩, ⟨_, rfl⟩, trivial⟩
    generalize hprompts : [Job.Prompt.start {}, .tick {}, .tick {}, .stop none, .start {},
      .tick {}, .tick {}] = prompts
    have hfour : Job.Prompt.ticks prompts = 4 := by rw [← hprompts]; rfl
    have hrun := hturns { duration := 3 } prompts (by rw [hfour]; exact hgrid)
    rw [hfour] at hrun
    have hroom : ∀ e, ¬ (Wander.Strains { duration := 3 } 4 e ∨ nook.Strains 3 4 e) := by
      rintro e (he | he)
      · exact absurd he.2 (by decide)
      · exact absurd he.2 (by decide)
    obtain ⟨d, hd, deeds, hhistory, hlength, hrows, -⟩ :=
      (hrun.mono (G := fun _ => False) hroom fun _ _ _ h => h).ok
    obtain ⟨p, q, hmove⟩ := hrows deeds (List.infix_refl _) (Nat.le_of_eq hlength.symm)
    exact ⟨d, hd, p, q, by rw [hhistory]; simp [hmove]⟩
  · have hgrid : nook.OnGrid 6 .north :=
      ⟨⟨_, rfl⟩, ⟨_, rfl⟩, ⟨_, rfl⟩, ⟨_, rfl⟩, ⟨_, rfl⟩, ⟨_, rfl⟩, trivial⟩
    generalize htraces : List.replicate 7 ({} : Trace) = traces
    have hseven : traces.length = 7 := by rw [← htraces]; rfl
    have hrun := hticks 4 none traces (by decide) (by decide) hseven hgrid
    have hroom : ∀ e, ¬ nook.Strains 3 6 e := fun e he => absurd he.2 (by decide)
    obtain ⟨d, hd, -, hstuck, hrelevant⟩ :=
      (hrun.mono (G := fun _ => False) hroom fun _ _ _ h => h).ok
    exact ⟨d, hd, hstuck, hrelevant⟩

/-- A world in which only the way to the north is blocked, and the next bump is one too many to
count. -/
def brink : World :=
  { stuck := 1 <<< 32 - 1
    blocked := ({} : Area).addRectangle ⟨0, 1⟩ ⟨0, 1⟩ }

/-- The wander does not come to its second turn, which would be a move. -/
theorem wander_gets_unstuck_brink :
    brink.isBlocked brink.position = false ∧
      brink.isBlocked (brink.position.beside .east) = false ∧ brink.OnGrid 6 .north ∧
        3 < 4 ∧ 4 ≤ brink.stuck ∧
          Job.prompted (List.replicate 4 (.tick {})) (.wanderFor 6) brink = .error .overflow ∧
            (AgentChain.reactive (unstuck 4 none none)).play
              (Round.ofTraces (List.replicate 7 {})) brink = .error .overflow := by
  refine ⟨rfl, rfl, ?_, by decide, by decide, ?_, ?_⟩
  · exact ⟨⟨_, rfl⟩, ⟨_, rfl⟩, ⟨_, rfl⟩, ⟨_, rfl⟩, ⟨_, rfl⟩, ⟨_, rfl⟩, trivial⟩
  · exact Act.error_of_fails (by decide +kernel)
  · exact Act.error_of_fails (by decide +kernel)

end Arbiter
