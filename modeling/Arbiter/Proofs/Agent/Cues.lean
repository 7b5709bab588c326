import Arbiter.Agent.Scenario
import Arbiter.Proofs.Agent.Lookup
import Arbiter.Proofs.Spine.Lasting

/-! Scenarios that are applied again and again. Each cue is brought about once, in the order of
their ticks, as soon as it is due; one that fails is left for the next time, with all after it. -/

namespace Arbiter

/-! ## Cues let no time pass -/

theorem Job.lasting_tick (n : Nat) : Lasting fun (w : World) (_ : Job) => w.tick = n := by
  refine ⟨fun {w j} hw c => ?_, fun {w j} hw c => ?_, fun {w j} hw taker => ?_⟩
  · apply Act.Meets.imp j.begin_keeps
    rintro r w' _ ⟨-, -, rfl⟩
    exact ⟨fun _ => id, hw⟩
  · apply Act.Meets.mono j.turn_keeps
    · exact fun _ _ => trivial
    · rintro turn w' _ ⟨-, hturned⟩
      have htick : w'.tick = n := by
        cases hturned.deed with
        | inl hsame => rw [hsame, hw]
        | inr hdeed =>
            obtain ⟨d, hd⟩ := hdeed
            rw [hd.tick, hw]
      exact ⟨fun _ _ => htick, htick, fun _ _ => htick⟩
  · apply Act.Meets.imp j.quit_keeps
    rintro j' w' _ ⟨-, -, rfl⟩
    exact ⟨fun _ => id, hw⟩

theorem SingleChain.run_tick (c : SingleChain World Job) (job : Job) (w : World) :
    (c.run job).Ensures w fun _ w' _ => w'.tick = w.tick := by
  have hvacate : (c.vacate (some job)).Ensures w fun _ w' _ => w'.tick = w.tick := by
    rw [vacate]
    split
    · exact Act.meets_pure rfl
    · next s _ =>
      have hnodes : Spine.Have (fun (w' : World) (_ : Job) => w'.tick = w.tick) w s.nodes :=
        fun _ _ => rfl
      apply Act.Meets.imp (Spine.stopAndDrop_lasts (Job.lasting_tick w.tick) (some job) hnodes)
      exact fun _ w' _ h => h.1 job rfl
  rw [run]
  split
  · exact Act.meets_pure rfl
  · apply hvacate.bind
    exact fun _ w' _ hw' => Act.Meets.note_bind (Act.meets_pure hw')

theorem UserChain.run_tick (u : UserChain Job) (job : Job) (callback : Option Callback)
    (w : World) : (u.run job callback).Ensures w fun _ w' _ => w'.tick = w.tick := by
  rw [run]
  apply (u.inner.run_tick job w).bind
  intro r w₁ _ hw₁
  obtain ⟨accepted, inner⟩ := r
  cases accepted with
  | false => exact Act.meets_pure hw₁
  | true =>
      apply (answer_meets .cancelled).bind
      intro v w₂ _ hv
      obtain ⟨-, rfl⟩ := hv
      apply Act.Meets.get_bind
      split
      · exact Act.Meets.note_bind (Act.meets_pure hw₁)
      · exact Act.meets_pure hw₁

namespace Cue

def Brief (a : Agent) (r : Except AgentError Unit) (b : Agent) (trail : List (Happening Job)) :
    Prop :=
  b.world.tick = a.world.tick ∧ ∀ e, r = .error e → b = a ∧ trail = []

theorem onWorld_brief {a : Agent} {m : Act World Record Unit}
    (h : m.Ensures a.world fun _ w _ => w.tick = a.world.tick) :
    (Agent.onWorld m >>= fun _ => pure (.ok ())).Ensures a (Brief a) := by
  apply Act.Meets.bind (P := fun _ b _ => b.world.tick = a.world.tick)
  · exact Act.Meets.within (Act.Meets.mapTrail (Act.Meets.imp h fun _ _ _ hw => hw))
  · exact fun _ b _ hb => Act.meets_pure ⟨hb, nofun⟩

theorem fire_brief (c : Cue) (a : Agent) : c.fire.Ensures a (Brief a) := by
  cases c with
  | errand target =>
      apply Act.Meets.get_bind
      cases huser : a.builtinUser? with
      | none =>
          apply Act.Meets.bind (P := fun r b t => r = .error Agent.notRegistered ∧ b = a ∧ t = [])
          · unfold Act.Meets
            rw [Agent.runUserJob_of_none huser]
            exact ⟨rfl, rfl, rfl⟩
          · rintro r b t ⟨rfl, rfl, rfl⟩
            exact Act.meets_pure ⟨rfl, fun _ _ => ⟨rfl, rfl⟩⟩
      | some p =>
          obtain ⟨i, u⟩ := p
          apply Act.Meets.bind
            ((Agent.runUserJob_meets huser _ _).mono (fun _ hf => hf.elim) fun _ _ _ h => h)
          rintro r b t ⟨installed, v, t', hrun, rfl, -⟩
          exact Act.meets_pure ⟨(u.run_tick _ _ _).of_ok hrun, nofun⟩
  | ambush id dx dy health =>
      apply onWorld_brief
      rw [placeAt, bind_assoc]
      apply Act.Meets.get_bind
      apply Act.Meets.ofExcept_bind (fun _ _ => trivial)
      intro place _
      exact Act.Meets.bind (Act.meets_tell (Q := fun _ w _ => w = a.world) rfl)
        fun _ w _ hw => Act.meets_modify (by rw [hw])
  | hazard =>
      apply onWorld_brief
      apply Act.Meets.get_bind
      apply Act.Meets.ofExcept_bind (fun _ _ => trivial)
      exact fun tiles _ => Act.meets_modify rfl
  | hunger level => exact onWorld_brief (Act.meets_modify rfl)
  | wall tiles => exact onWorld_brief (Act.meets_modify rfl)

end Cue

/-! ## One application -/

def TimedCue.announced (c : TimedCue) (a : Agent) : Happening Job :=
  .noted ⟨.info, "script event", [("tick", toString a.world.tick), ("event", c.cue.shown)]⟩

namespace Scenario

/-- Cues that were brought about one after the other, each announced before. -/
inductive Brought : Agent → List TimedCue → Agent → List (Happening Job) → Prop where
  | nil (a : Agent) : Brought a [] a []
  | cons {a b d : Agent} {c : TimedCue} {cs : List TimedCue} {t u : List (Happening Job)}
      (hfire : c.cue.fire a = .ok ⟨.ok (), b, t⟩) (hrest : Brought b cs d u) :
      Brought a (c :: cs) d (c.announced a :: (t ++ u))

/-- What an application does at the tick of the agent: it brings about the cues `news`, which are
due, up to one that is not due yet or one that fails. -/
structure Applies (a : Agent) (fired pending news : List TimedCue)
    (p : Scenario × Except AgentError Unit) (b : Agent) (trail : List (Happening Job)) : Prop where
  fired : p.1.fired = fired ++ news
  pending : pending = news ++ p.1.pending
  due : ∀ c ∈ news, c.due ≤ a.world.tick
  tick : b.world.tick = a.world.tick
  complete : p.2 = .ok () → Brought a news b trail ∧ ∀ c ∈ p.1.pending.head?, a.world.tick < c.due
  partly : ∀ e, p.2 = .error e → ∃ c rest t, p.1.pending = c :: rest ∧ c.due ≤ a.world.tick ∧
    Brought a news b t ∧ c.cue.fire b = .ok ⟨.error e, b, []⟩ ∧ trail = t ++ [c.announced b]

/-- By induction on the cues that are still to come. -/
theorem applyFrom_applies (fired pending : List TimedCue) (a : Agent) :
    (applyFrom fired pending).Ensures a fun p b t =>
      ∃ news, Applies a fired pending news p b t := by
  induction pending generalizing fired a with
  | nil =>
      exact Act.meets_pure ⟨[], by simp, rfl, by simp, rfl, fun _ => ⟨.nil a, by simp⟩, nofun⟩
  | cons c rest ih =>
      rw [applyFrom]
      apply Act.Meets.get_bind
      split
      · next hearly =>
        refine Act.meets_pure ⟨[], by simp, rfl, by simp, rfl, fun _ => ⟨.nil a, ?_⟩, nofun⟩
        simpa using hearly
      · next hdue =>
        have hdue : c.due ≤ a.world.tick := Nat.le_of_not_lt hdue
        apply Act.Meets.note_bind
        apply (c.cue.fire_brief a).ran.bind
        intro r b t h
        obtain ⟨hfire, htick, herror⟩ := h
        cases r with
        | error e =>
            obtain ⟨rfl, rfl⟩ := herror e rfl
            refine Act.meets_pure ⟨[], by simp, rfl, by simp, rfl, nofun, ?_⟩
            intro e' he
            cases he
            exact ⟨c, rest, [], rfl, hdue, .nil b, hfire, rfl⟩
        | ok =>
            apply (ih (fired ++ [c]) b).imp
            intro p d u h
            obtain ⟨news, h⟩ := h
            have hlater := h.due
            have hcomplete := h.complete
            have hpartly := h.partly
            rw [htick] at hlater hcomplete hpartly
            refine ⟨c :: news, ?_, ?_, ?_, h.tick.trans htick, ?_, ?_⟩
            · rw [h.fired, List.append_assoc]
              rfl
            · rw [List.cons_append, ← h.pending]
            · intro d hd
              cases List.mem_cons.mp hd with
              | inl hd => exact hd ▸ hdue
              | inr hd => exact hlater d hd
            · intro hok
              exact ⟨.cons hfire (hcomplete hok).1, (hcomplete hok).2⟩
            · intro e he
              obtain ⟨d, rest', t', hpending, hd, hbrought, hfails, rfl⟩ := hpartly e he
              exact ⟨d, rest', _, hpending, hd, .cons hfire hbrought, hfails,
                by simp [TimedCue.announced]⟩

/-! ## Applications in turn -/

structure Application where
  agent : Agent
  scenario : Scenario
  after : Scenario
  result : Except AgentError Unit
  left : Agent
  trail : List (Happening Job)
  ran : scenario.apply agent = .ok ⟨(after, result), left, trail⟩

namespace Application

def tick (v : Application) : Nat := v.agent.world.tick

def news (v : Application) : List TimedCue := v.after.fired.drop v.scenario.fired.length

theorem applies (v : Application) : Applies v.agent v.scenario.fired v.scenario.pending v.news
    (v.after, v.result) v.left v.trail := by
  obtain ⟨news, h⟩ := (applyFrom_applies v.scenario.fired v.scenario.pending v.agent).of_ok v.ran
  have hfired : v.after.fired = v.scenario.fired ++ news := h.fired
  have hnews : v.news = news := by simp [Application.news, hfired]
  exact hnews ▸ h

/-- The application takes up the cue first: it brings it about, or fails with it at once. -/
def Resumes (v : Application) (c : TimedCue) : Prop :=
  (∃ more, v.news = c :: more) ∨
    v.news = [] ∧ v.left = v.agent ∧
      ∃ e, v.result = .error e ∧ c.cue.fire v.agent = .ok ⟨.error e, v.agent, []⟩

end Application

def Chained : Scenario → List Application → Prop
  | _, [] => True
  | s, v :: rest => v.scenario = s ∧ Chained v.after rest

/-- The list holds the same cues by their ticks, those of one tick in the order given. -/
structure Ordered (cues sorted : List TimedCue) : Prop where
  perm : sorted.Perm cues
  pairwise : sorted.Pairwise fun a b => a.due ≤ b.due
  stable : ∀ t, (sorted.filter fun c => c.due = t) = cues.filter fun c => c.due = t

theorem ofList_ordered (cues : List TimedCue) : Ordered cues (ofList cues).pending := by
  refine ⟨ofList_perm cues, ofList_pairwise cues, fun t => ?_⟩
  have hsorted : (cues.filter fun c => c.due = t).Pairwise
      fun a b => decide (a.due ≤ b.due) = true := by
    refine List.pairwise_of_forall_mem_list fun a ha b hb => ?_
    simp only [List.mem_filter, decide_eq_true_eq] at ha hb ⊢
    rw [ha.2, hb.2]
  have hsub : (cues.filter fun c => c.due = t).Sublist (ofList cues).pending :=
    List.sublist_mergeSort (fun a b c => by simpa using Nat.le_trans)
      (fun a b => by simpa using Nat.le_total a.due b.due) hsorted List.filter_sublist
  have hsub := hsub.filter fun c => decide (c.due = t)
  rw [List.filter_filter] at hsub
  simp only [Bool.and_self] at hsub
  have hlength := ((ofList_perm cues).filter fun c => decide (c.due = t)).length_eq
  exact (hsub.eq_of_length hlength.symm).symm

/-- What is known of a scenario before the last of some applications: they brought about what is new
of its past, each cue when it was due, and took nothing else away. -/
theorem Chained.reaches {s : Scenario} {earlier later : List Application} {v : Application}
    (h : Chained s (earlier ++ v :: later)) :
    v.scenario.fired = s.fired ++ earlier.flatMap Application.news ∧
      v.scenario.fired ++ v.scenario.pending = s.fired ++ s.pending ∧
      (∀ c ∈ v.scenario.fired, c ∈ s.fired ∨ ∃ u ∈ earlier, c.due ≤ u.tick) ∧
      ∀ u ∈ later.head?, u.scenario = v.after := by
  induction earlier generalizing s with
  | nil =>
      obtain ⟨rfl, hlater⟩ := h
      refine ⟨by simp, rfl, fun c hc => Or.inl hc, ?_⟩
      cases later with
      | nil => simp
      | cons u rest =>
          intro u' hu
          cases hu
          exact hlater.1
  | cons u earlier ih =>
      obtain ⟨rfl, hrest⟩ := h
      obtain ⟨hfired, hwhole, hpast, hnext⟩ := ih hrest
      have happlies := u.applies
      have hafter : u.after.fired = u.scenario.fired ++ u.news := happlies.fired
      refine ⟨?_, ?_, ?_, hnext⟩
      · rw [hfired, hafter, List.flatMap_cons, List.append_assoc]
      · rw [hwhole, hafter, happlies.pending, List.append_assoc]
      · intro c hc
        cases hpast c hc with
        | inl hmem =>
            rw [hafter] at hmem
            cases List.mem_append.mp hmem with
            | inl hmem => exact Or.inl hmem
            | inr hmem => exact Or.inr ⟨u, List.mem_cons_self, happlies.due c hmem⟩
        | inr hmem =>
            obtain ⟨u', hu', hle⟩ := hmem
            exact Or.inr ⟨u', List.mem_cons_of_mem u hu', hle⟩

theorem Application.resumes {v : Application} {c : TimedCue} {rest : List TimedCue}
    (hpending : v.scenario.pending = c :: rest) (hdue : c.due ≤ v.tick) : v.Resumes c := by
  have happlies := v.applies
  have hsplit : c :: rest = v.news ++ v.after.pending := hpending ▸ happlies.pending
  cases hnews : v.news with
  | cons d more =>
      rw [hnews] at hsplit
      obtain ⟨rfl, -⟩ := List.cons.inj hsplit
      exact Or.inl ⟨more, hnews⟩
  | nil =>
      rw [hnews, List.nil_append] at hsplit
      cases hresult : v.result with
      | ok =>
          -- the cue is due, so an application that goes through does not stop before it
          have hlate := (happlies.complete hresult).2 c (by simp [← hsplit])
          exact absurd hlate (Nat.not_lt.mpr hdue)
      | error e =>
          obtain ⟨d, rest', t, hd, -, hbrought, hfails, -⟩ := happlies.partly e hresult
          rw [← hsplit] at hd
          obtain ⟨rfl, -⟩ := List.cons.inj hd
          rw [hnews] at hbrought
          generalize hleft : v.left = b at hbrought hfails
          cases hbrought
          exact Or.inr ⟨hnews, hleft, e, hresult, hfails⟩

theorem late_of_head {pending : List TimedCue} {t : Nat}
    (hpairwise : pending.Pairwise fun a b => a.due ≤ b.due)
    (hhead : ∀ c ∈ pending.head?, t < c.due) : ∀ c ∈ pending, t < c.due := by
  cases pending with
  | nil => simp
  | cons d rest =>
      have hd : t < d.due := hhead d (by simp)
      rw [List.pairwise_cons] at hpairwise
      intro c hc
      cases List.mem_cons.mp hc with
      | inl hc => exact hc ▸ hd
      | inr hc => exact Nat.lt_of_lt_of_le hd (hpairwise.1 c hc)

theorem split_at_tick {fired pending : List TimedCue} {t : Nat} (hdue : ∀ c ∈ fired, c.due ≤ t)
    (hlate : ∀ c ∈ pending, t < c.due) :
    (fired ++ pending).filter (fun c => c.due ≤ t) = fired ∧
      (fired ++ pending).countP (fun c => t < c.due) = pending.length := by
  constructor
  · rw [List.filter_append, List.filter_eq_self.mpr (by simpa using hdue),
      List.filter_eq_nil_iff.mpr (by simpa using hlate), List.append_nil]
  · rw [List.countP_append, List.countP_eq_zero.mpr (by simpa using hdue), Nat.zero_add,
      List.countP_eq_length.mpr (by simpa using hlate)]

/-- Apply a scenario again and again, to an agent whose ticks do not go back and which is changed at
will in between. All in all each cue is brought about once and in order. An application that goes
through has brought about what is due, and no more. One that fails with a cue has brought about all
before it; nothing is changed for that cue, and the next application takes it up first. -/
theorem applications_in_order (cues : List TimedCue) {runs : List Application}
    (hchained : Chained (ofList cues) runs)
    (hticks : (runs.map Application.tick).Pairwise (· ≤ ·)) :
    ∃ sorted, Ordered cues sorted ∧ ∀ earlier v later, runs = earlier ++ v :: later →
      v.after.fired = (earlier ++ [v]).flatMap Application.news ∧
      v.after.fired ++ v.after.pending = sorted ∧
      (v.result = .ok () → Brought v.agent v.news v.left v.trail ∧
        v.after.fired = sorted.filter (fun c => c.due ≤ v.tick) ∧
        v.after.remaining = cues.countP fun c => v.tick < c.due) ∧
      ∀ e, v.result = .error e → ∃ c rest t, v.after.pending = c :: rest ∧ c.due ≤ v.tick ∧
        Brought v.agent v.news v.left t ∧ c.cue.fire v.left = .ok ⟨.error e, v.left, []⟩ ∧
        v.trail = t ++ [c.announced v.left] ∧ ∀ u ∈ later.head?, u.Resumes c := by
  refine ⟨(ofList cues).pending, ofList_ordered cues, ?_⟩
  rintro earlier v later rfl
  obtain ⟨hfired, hwhole, hpast, hnext⟩ := hchained.reaches
  have happlies := v.applies
  have hafter : v.after.fired = v.scenario.fired ++ v.news := happlies.fired
  have hsorted : v.after.fired ++ v.after.pending = (ofList cues).pending := by
    rw [hafter, List.append_assoc, ← happlies.pending, hwhole]
    rfl
  rw [List.map_append, List.map_cons, List.pairwise_append, List.pairwise_cons] at hticks
  obtain ⟨-, ⟨hlater, -⟩, hearlier⟩ := hticks
  have hdue : ∀ c ∈ v.after.fired, c.due ≤ v.tick := by
    intro c hc
    rw [hafter] at hc
    cases List.mem_append.mp hc with
    | inr hc => exact happlies.due c hc
    | inl hc =>
        cases hpast c hc with
        | inl hmem => simp [ofList] at hmem
        | inr hmem =>
            obtain ⟨u, hu, hle⟩ := hmem
            exact Nat.le_trans hle
              (hearlier u.tick (List.mem_map_of_mem hu) v.tick List.mem_cons_self)
  refine ⟨?_, hsorted, ?_, ?_⟩
  · rw [hafter, hfired, List.flatMap_append, List.flatMap_singleton]
    rfl
  · intro hok
    obtain ⟨hbrought, hhead⟩ := happlies.complete hok
    have hpairwise := ofList_pairwise cues
    rw [← hsorted, List.pairwise_append] at hpairwise
    have hlate := late_of_head hpairwise.2.1 hhead
    obtain ⟨hfilter, hcount⟩ := split_at_tick hdue hlate
    refine ⟨hbrought, ?_, ?_⟩
    · rw [← hsorted, hfilter]
    · rw [← (ofList_perm cues).countP_eq, ← hsorted, hcount]
      rfl
  · intro e he
    obtain ⟨c, rest, t, hpending, hc, hbrought, hfails, htrail⟩ := happlies.partly e he
    refine ⟨c, rest, t, hpending, hc, hbrought, hfails, htrail, fun u hu => ?_⟩
    have hscenario : u.scenario.pending = c :: rest := (hnext u hu).symm ▸ hpending
    have hmem := List.mem_map_of_mem (f := Application.tick) (List.mem_of_mem_head? hu)
    exact Application.resumes hscenario (Nat.le_trans hc (hlater u.tick hmem))

/-- Two meals are missed, and an errand comes in between. -/
def busyDay : List TimedCue := [⟨3, .hunger 1⟩, ⟨0, .hunger 5⟩, ⟨0, .errand ⟨2, 0⟩⟩]

def busyDayHalted : Scenario where
  fired := [⟨0, .hunger 5⟩]
  pending := [⟨0, .errand ⟨2, 0⟩⟩, ⟨3, .hunger 1⟩]

theorem Application.of_passes (plan : AgentPlan) {s : Scenario} {n : Nat}
    {p : Scenario → Except AgentError Unit → Bool}
    (h : plan.build.passes {} (fun e => e.value.toOption.any fun a =>
      decide (a.world.tick = n) && s.apply.passes a fun d => p d.value.1 d.value.2) = true) :
    ∃ v : Application, v.scenario = s ∧ v.tick = n ∧ p v.after v.result = true := by
  obtain ⟨d, -, hd⟩ := Act.exists_ok h
  obtain ⟨a, -, ha⟩ := Option.any_eq_true _ _ |>.mp hd
  simp only [Bool.and_eq_true, decide_eq_true_eq] at ha
  obtain ⟨⟨⟨after, result⟩, left, trail⟩, hran, hp⟩ := Act.exists_ok ha.2
  exact ⟨⟨a, s, after, result, left, trail, hran⟩, rfl, ha.1, hp⟩

/-- An agent without a user chain fails with the errand, and later one with that chain takes it up.
-/
theorem applications_in_order_busyDay : ∃ u v : Application,
    Chained (ofList busyDay) [u, v] ∧ u.result = .error Agent.notRegistered ∧
      u.after = busyDayHalted ∧ v.result = .ok () ∧ v.Resumes ⟨0, .errand ⟨2, 0⟩⟩ ∧
        v.after.fired = [⟨0, .hunger 5⟩, ⟨0, .errand ⟨2, 0⟩⟩, ⟨3, .hunger 1⟩] := by
  have hsorted : ofList busyDay =
      { pending := [⟨0, .hunger 5⟩, ⟨0, .errand ⟨2, 0⟩⟩, ⟨3, .hunger 1⟩] } := by
    simp [ofList, busyDay, List.mergeSort, List.MergeSort.Internal.splitInTwo]
  obtain ⟨u, huscenario, hutick, hu⟩ := Application.of_passes { builtin := false }
    (s := { pending := [⟨0, .hunger 5⟩, ⟨0, .errand ⟨2, 0⟩⟩, ⟨3, .hunger 1⟩] }) (n := 0)
    (p := fun after result => decide (after = busyDayHalted ∧ result = .error Agent.notRegistered))
    (by decide +kernel)
  obtain ⟨v, hvscenario, hvtick, hv⟩ := Application.of_passes
    { world := some { tick := 3 } } (s := busyDayHalted) (n := 3)
    (p := fun _ result => decide (result = .ok ()))
    (by decide +kernel)
  obtain ⟨hafter, huresult⟩ := of_decide_eq_true hu
  have hvresult := of_decide_eq_true hv
  have hchained : Chained (ofList busyDay) [u, v] := by
    rw [hsorted]
    exact ⟨huscenario, hvscenario.trans hafter.symm, trivial⟩
  obtain ⟨sorted, -, haccount⟩ := applications_in_order busyDay hchained
    (by simp [hutick, hvtick])
  obtain ⟨-, hfailed, -, hhalts⟩ := haccount [] u [v] rfl
  obtain ⟨-, -, hcomplete, -⟩ := haccount [u] v [] rfl
  obtain ⟨c, rest, t, hpending, -, -, -, -, hresumes⟩ := hhalts _ huresult
  obtain ⟨-, hfired, -⟩ := hcomplete hvresult
  rw [hafter] at hpending hfailed
  obtain ⟨rfl, -⟩ := List.cons.inj hpending
  refine ⟨u, v, hchained, huresult, hafter, hvresult, hresumes v rfl, ?_⟩
  rw [hfired, ← hfailed, hvtick]
  decide

end Scenario

end Arbiter
