import Arbiter.Proofs.Conduct.Runner
import Arbiter.Proofs.Descent.Chain
import Arbiter.Proofs.Runner.Control

/-! Runners in the history of their chains. Only the chain in control is at work, so the hook calls
since it got control are its own; all other chains rest or are still as they were handed over. -/

namespace Arbiter

namespace AgentChain

variable {c : AgentChain} {past : List (Happening Job)} {aside : Prop}

/-- The chain rests, or it is still as it was handed over with its past. That can be only if it
stands aside from all requests. -/
def Idle (c : AgentChain) (past : List (Happening Job)) (aside : Prop) : Prop :=
  Chain.Resting c ∨ aside ∧ c.inner.Descends past

theorem Idle.descends (h : c.Idle past aside) : c.inner.Descends past := by
  rcases h with hrest | ⟨-, hc⟩
  · exact SingleChain.descends_of_resting hrest
  · exact hc

end AgentChain

namespace Runner

variable {w : World} {r : Runner AgentChain} {aside : Nat → Prop}
  {past : Nat → List (Happening Job)} {calls told : List (Happening Job)} {i : Nat} {c : AgentChain}

/-- A chain is the one that was put in its place, or it is as it was. -/
theorem setChain_cases {j : Nat} {b : AgentChain} (h : (r.setChain i c).chains[j]? = some b) :
    i = j ∧ c = b ∨ i ≠ j ∧ r.chains[j]? = some b := by
  by_cases hij : i = j
  · subst hij
    have hlt : i < r.chains.length := by
      simpa [setChain] using (List.getElem?_eq_some_iff.mp h).1
    rw [setChain, List.getElem?_set_self hlt] at h
    exact Or.inl ⟨rfl, Option.some.inj h⟩
  · rw [setChain, List.getElem?_set_ne hij] at h
    exact Or.inr ⟨hij, h⟩

/-- All chains are idle, each with its own past. -/
def AllIdle (aside : Nat → Prop) (past : Nat → List (Happening Job)) (chains : List AgentChain) :
    Prop := ∀ (i : Nat) (c : AgentChain), chains[i]? = some c → c.Idle (past i) (aside i)

/-- The chain in control may be at work: then it descends from its past with the last of the hook
calls. The others are idle. No more than three nodes were visited in the last tick. -/
structure Accounted (aside : Nat → Prop) (past : Nat → List (Happening Job))
    (calls : List (Happening Job)) (r : Runner AgentChain) : Prop where
  chains : ∀ i c, r.chains[i]? = some c → c.Idle (past i) (aside i) ∨
    r.current = some i ∧ ∃ later, later <:+ calls ∧ c.inner.Descends (past i ++ later)
  trace : r.trace.spine.length ≤ 3

theorem AllIdle.accounted {chains : List AgentChain} (h : AllIdle aside past chains)
    (hchains : r.chains = chains) (htrace : r.trace.spine.length ≤ 3) :
    r.Accounted aside past calls :=
  ⟨fun i c hc => Or.inl (h i c (hchains ▸ hc)), htrace⟩

theorem allIdle_of_resting {chains : List AgentChain} (h : ∀ c ∈ chains, Chain.Resting c) :
    AllIdle aside past chains := fun _ c hc => Or.inl (h c (List.mem_of_getElem? hc))

namespace Accounted

theorem idle (hr : r.Accounted aside past calls) (hc : r.chains[i]? = some c)
    (hcur : r.current ≠ some i) : c.Idle (past i) (aside i) :=
  (hr.chains i c hc).resolve_right fun h => hcur h.1

/-- Every chain descends from its past with some of the last hook calls, if with any. -/
theorem descends (hr : r.Accounted aside past calls) (hc : r.chains[i]? = some c) :
    ∃ later, later <:+ calls ∧ c.inner.Descends (past i ++ later) := by
  rcases hr.chains i c hc with hidle | ⟨-, hlater⟩
  · exact ⟨[], List.nil_suffix, by simpa using hidle.descends⟩
  · exact hlater

theorem untold (hr : r.Accounted aside past calls) :
    r.Accounted aside past (calls ++ hooks []) := by
  rwa [hooks_nil, List.append_nil]

/-- The chain in control may be replaced by one that descends from its history with the calls that
are told now. -/
theorem setHolder (hr : r.Accounted aside past calls) (hcur : r.current = some i)
    {later : List (Happening Job)} (hlater : later <:+ calls)
    (hc : c.inner.Descends (past i ++ (later ++ told))) :
    (r.setChain i c).Accounted aside past (calls ++ told) := by
  refine ⟨fun j b hb => ?_, hr.trace⟩
  rcases setChain_cases hb with ⟨rfl, rfl⟩ | ⟨hij, hb⟩
  · obtain ⟨before, rfl⟩ := hlater
    exact Or.inr ⟨hcur, later ++ told, ⟨before, by simp⟩, hc⟩
  · exact Or.inl (hr.idle hb fun h => hij (Option.some.inj (hcur.symm.trans h)))

/-- A request to the user chain is made to a chain in control or to one that rests. -/
theorem setUser (hr : r.Accounted aside past calls) {u v : UserChain Job}
    (hu : r.chains[i]? = some (.user u)) (hi : ¬ aside i)
    (hasked : SingleChain.Asked u.inner v.inner told) :
    (r.setChain i (.user v)).Accounted aside past (calls ++ told) := by
  -- A user chain that is not in control rests, and then the request calls no hook that would come
  -- between the calls of the chain that is.
  rcases hr.chains i _ hu with hidle | ⟨hcur, later, hlater, hc⟩
  · have hrest : Chain.Resting u.inner := hidle.resolve_right fun h => hi h.1
    obtain rfl := hasked.quiet hrest
    rw [List.append_nil]
    refine ⟨fun j b hb => ?_, hr.trace⟩
    rcases setChain_cases hb with ⟨rfl, rfl⟩ | ⟨-, hb⟩
    · exact Or.inl (Or.inl (hasked.resting hrest))
    · exact hr.chains j b hb
  · refine hr.setHolder hcur hlater ?_
    rw [← List.append_assoc]
    exact hasked.descends hc

/-! ## Control -/

theorem interruptHolder (hr : r.Accounted aside past calls) (next : Option String) :
    (r.interruptHolder next).Meets w (· = .overflow) fun r' _ _ =>
      AllIdle aside past r'.chains ∧ r' = { r with chains := r'.chains } := by
  rw [Runner.interruptHolder]
  split
  · next hcur => exact Act.meets_pure ⟨fun j b hb => hr.idle hb (by simp [hcur]), rfl⟩
  · next i hcur =>
    split
    · next hnone =>
      refine Act.meets_pure ⟨fun j b hb => hr.idle hb fun hj => ?_, rfl⟩
      obtain rfl := Option.some.inj (hcur.symm.trans hj)
      cases hnone.symm.trans hb
    · next c hc =>
      obtain ⟨later, -, hdescends⟩ := hr.descends hc
      have hstop : (Chain.interrupt c next).Meets w (· = .overflow) fun c' _ _ =>
          Chain.Resting c' := Act.Meets.note_bind (AgentChain.stop_rests hdescends)
      refine hstop.bind fun c' _ _ hrest => ?_
      refine Act.meets_pure ⟨fun j b hb => ?_, rfl⟩
      rcases setChain_cases hb with ⟨rfl, rfl⟩ | ⟨hij, hb⟩
      · exact Or.inl hrest
      · exact hr.idle hb fun h => hij (Option.some.inj (hcur.symm.trans h))

/-- Nobody is at work after a hand-over. -/
theorem handOver (hr : r.Accounted aside past calls) (selected : Option Nat) :
    (r.handOver selected).Meets w (· = .overflow) fun r' _ _ =>
      AllIdle aside past r'.chains ∧ r'.current = selected ∧ r'.trace = r.trace := by
  rw [Runner.handOver]
  refine (hr.interruptHolder _).bind ?_
  rintro r₁ w₁ _ ⟨hidle, hr₁⟩
  refine (emit_meets r₁ _ w₁).bind ?_
  rintro r₂ _ _ ⟨hr₂, -⟩
  refine Act.meets_pure ⟨?_, rfl, ?_⟩
  · rw [hr₂]
    exact hidle
  · rw [hr₂, hr₁]

theorem grant (hr : r.Accounted aside past calls) (selected : Option Nat) :
    (r.grant selected).Meets w (· = .overflow) fun r' _ t =>
      r'.Accounted aside past (calls ++ hooks t) ∧ r'.current = selected := by
  rw [Runner.grant]
  split
  · next hcur => exact Act.meets_pure ⟨hr.untold, hcur.symm⟩
  · refine (hr.handOver selected).imp ?_
    rintro r' _ _ ⟨hidle, hcur, htrace⟩
    exact ⟨hidle.accounted rfl (htrace ▸ hr.trace), hcur⟩

theorem release (hr : r.Accounted aside past calls) :
    r.release.Meets w (· = .overflow) fun r' _ _ => AllIdle aside past r'.chains := by
  rw [Runner.release]
  split
  · exact (hr.handOver none).imp fun _ _ _ h => h.1
  · next hcur =>
    have hcur : r.current = none := by simpa using hcur
    exact Act.meets_pure fun j b hb => hr.idle hb (by simp [hcur])

/-! ## Ticks -/

theorem tickChain (hr : r.Accounted aside past calls) :
    (r.tickChain r.current).Meets w (· = .overflow) fun r' _ t =>
      r'.Accounted aside past (calls ++ hooks t) := by
  have hnobody : ({ r with trace := {} } : Runner AgentChain).Accounted aside past
      (calls ++ hooks []) := ⟨hr.untold.chains, Nat.zero_le _⟩
  unfold Runner.tickChain
  split
  · exact Act.meets_pure hnobody
  · next i hcur =>
    split
    · exact Act.meets_pure hnobody
    · next c hc =>
      -- A chain that has just got control begins with none of the calls, whoever they belong to.
      obtain ⟨later, hlater, hdescends⟩ := hr.descends hc
      refine (AgentChain.tick_descends hdescends {}).bind ?_
      rintro ⟨c', trace⟩ _ t ⟨hc', hlength⟩
      rw [List.append_assoc] at hc'
      refine Act.meets_pure ⟨?_, hlength⟩
      rw [List.append_nil]
      exact (hr.setHolder hcur hlater hc').chains

theorem tick (hr : r.Accounted aside past calls) :
    r.tick.Meets w (· = .overflow) fun r' _ t => r'.Accounted aside past (calls ++ hooks t) := by
  rw [Runner.tick]
  split
  · have hselect : Yields (select r.chains w) (· = .overflow) fun _ => True :=
      @Tidy.yields_select _ _ _ _ 0 w conduct_overflow [] trivial r.chains
    refine Act.Meets.get_bind (Act.Meets.ofExcept_bind (fun _ he => hselect.error he)
      fun selected _ => ?_)
    refine (hr.grant selected).bind ?_
    rintro r₁ w₁ t₁ ⟨hr₁, rfl⟩
    refine hr₁.tickChain.bind fun r₂ w₂ t₂ hr₂ => ?_
    refine (emitAll_meets r₂ _ w₂).bind ?_
    rintro r₃ _ t₃ ⟨hr₃, -, ht₃, -⟩
    refine (emit_meets r₃ _ _).imp ?_
    rintro r₄ _ _ ⟨hr₄, -, notes, rfl, hnotes, -⟩
    have htold : calls ++ hooks (t₁ ++ (t₂ ++ (t₃ ++ .reported (.tickFinished r₃.report) ::
        notes))) = calls ++ hooks t₁ ++ hooks t₂ := by
      simp [ht₃, hnotes]
    rw [htold, hr₄, hr₃]
    exact ⟨hr₂.chains, hr₂.trace⟩
  · exact Act.meets_pure hr.untold

/-! ## Halts -/

theorem enable (hr : r.Accounted aside past calls) :
    (r.enable : Act World (Happening Job) _).Meets w (· = .overflow) fun r' _ t =>
      r'.Accounted aside past (calls ++ hooks t) := by
  rw [Runner.enable]
  split
  · exact Act.meets_pure hr.untold
  · exact Act.Meets.note_bind (Act.meets_pure ⟨hr.untold.chains, hr.trace⟩)

theorem disable (hr : r.Accounted aside past calls) :
    r.disable.Meets w (· = .overflow) fun r' _ t =>
      r'.Accounted aside past (calls ++ hooks t) := by
  have htidy : ∀ c ∈ r.chains, c.inner.Tidy fun _ => True := by
    intro c hc
    obtain ⟨i, hi⟩ := List.mem_iff_getElem?.mp hc
    obtain ⟨_, -, hdescends⟩ := hr.descends hi
    exact hdescends.tidy
  have hstop := AgentChain.stopAll_keeps conduct_overflow (m := 0) (w := w) htidy trivial
  rw [Runner.disable]
  refine Act.Meets.bind hstop ?_
  rintro chains w₁ _ ⟨-, hrest, -⟩
  have hstopped : ({ r with chains } : Runner AgentChain).Accounted aside past calls :=
    (allIdle_of_resting fun c hc => (hrest c hc).2).accounted rfl hr.trace
  refine hstopped.release.bind fun r₂ _ _ hidle => ?_
  split
  · exact Act.Meets.note_bind (Act.meets_pure (hidle.accounted rfl (Nat.zero_le _)))
  · exact Act.meets_pure (hidle.accounted rfl (Nat.zero_le _))

theorem stopCurrent (hr : r.Accounted aside past calls) :
    r.stopCurrent.Meets w (· = .overflow) fun r' _ t =>
      r'.Accounted aside past (calls ++ hooks t) := by
  rw [Runner.stopCurrent]
  split
  · exact Act.meets_pure hr.untold
  · next i hcur =>
    split
    · exact Act.meets_pure hr.untold
    · next c hc =>
      obtain ⟨later, hlater, hdescends⟩ := hr.descends hc
      refine (AgentChain.stop_rests hdescends).bind fun c' w₁ t hrest => ?_
      have hset : (r.setChain i c').Accounted aside past (calls ++ hooks t) :=
        hr.setHolder hcur hlater (SingleChain.descends_of_resting hrest)
      refine (hset.handOver none).bind ?_
      rintro r₂ _ _ ⟨hidle, -⟩
      exact Act.meets_pure (hidle.accounted rfl (Nat.zero_le _))

end Accounted

end Runner

end Arbiter
