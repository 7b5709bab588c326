import Arbiter.Proofs.Agent.Lookup
import Arbiter.Proofs.Descent.Runner

/-! Delegation in agents. Whatever a host does with an agent, its chains hold spines of a few shapes
only, every tick of them ends within three levels, and what a job holds it has begotten in the
activation in which it is. -/

namespace Arbiter

namespace Agent

variable {a : Agent} {past : Nat → List (Happening Job)} {calls : List (Happening Job)}

/-- The chains are accounted for. All but the built-in user chain stand aside from requests. -/
def Accounted (past : Nat → List (Happening Job)) (calls : List (Happening Job)) (a : Agent) :
    Prop := a.runner.Accounted (fun i => a.userPlace ≠ some i) past calls

/-- After the action the chains are accounted for if they were before it. No fault ends it but a sum
that is too large. -/
def Accounts {α : Type} (past : Nat → List (Happening Job))
    (m : Act Agent (Happening Job) α) : Prop :=
  ∀ (a : Agent) (calls : List (Happening Job)), a.Accounted past calls →
    m.Meets a (· = .overflow) fun _ b t => b.Accounted past (calls ++ hooks t)

/-! ## Parts of operations -/

section Parts

variable {α β : Type}

theorem accounts_pure (x : α) : Accounts past (pure x) :=
  fun _ _ ha => Act.meets_pure (Runner.Accounted.untold ha)

theorem Accounts.bind {m : Act Agent (Happening Job) α} {f : α → Act Agent (Happening Job) β}
    (hm : Accounts past m) (hf : ∀ x, Accounts past (f x)) : Accounts past (m >>= f) := by
  intro a calls ha
  refine (hm a calls ha).bind fun x b t hb => (hf x b _ hb).imp fun _ c u hc => ?_
  rw [hooks_append, ← List.append_assoc]
  exact hc

theorem accounts_onRunner
    {act : Runner AgentChain → Act World (Happening Job) (Runner AgentChain)}
    (h : ∀ {aside : Nat → Prop} {calls : List (Happening Job)} {r : Runner AgentChain} {w : World},
      r.Accounted aside past calls → (act r).Meets w (· = .overflow) fun r' _ t =>
        r'.Accounted aside past (calls ++ hooks t)) : Accounts past (onRunner act) := by
  intro a calls ha
  refine (onRunner_meets (h ha)).imp ?_
  rintro _ b t ⟨hb, hr⟩
  have hplace : b.userPlace = a.userPlace := by rw [hb]
  rw [Accounted, hplace]
  exact hr

theorem builtinUser?_place {i : Nat} {u : UserChain Job} (h : a.builtinUser? = some (i, u)) :
    a.userPlace = some i := by
  rw [builtinUser?] at h
  simp only [Option.bind_eq_bind, Option.bind_eq_some_iff] at h
  obtain ⟨j, hplace, c, -, v, -, hpair⟩ := h
  obtain ⟨rfl, -⟩ := Prod.mk.inj (Option.some.inj hpair)
  exact hplace

theorem accounts_onUser {m : UserChain Job → Act World (Happening Job) (α × UserChain Job)}
    (hgoes : ∀ u w, (m u).Meets w (fun _ => False) fun _ _ _ => True)
    (hasks : ∀ {u : UserChain Job} {calls : List (Happening Job)} {w : World},
      u.inner.Descends calls → (m u).Ensures w fun p _ t =>
        SingleChain.Asked u.inner p.2.inner (hooks t)) : Accounts past (onUser m) := by
  intro a calls ha
  cases huser : a.builtinUser? with
  | none =>
      rw [Act.Meets, onUser_of_none huser]
      exact Runner.Accounted.untold ha
  | some p =>
      obtain ⟨i, u⟩ := p
      have hchain := builtinUser?_chain huser
      obtain ⟨later, -, hdescends⟩ := Runner.Accounted.descends ha hchain
      refine (onUser_meets huser ((hgoes u a.world).mono (fun _ => False.elim)
        fun _ _ _ h => h)).imp ?_
      rintro _ b t ⟨x, v, hrun, -, hb⟩
      have hasked : SingleChain.Asked u.inner v.inner (hooks t) := (hasks hdescends).of_ok hrun
      rw [hb]
      exact Runner.Accounted.setUser ha hchain (by simp [builtinUser?_place huser]) hasked

theorem accounts_advance : Accounts past (onWorld World.advance) := by
  intro a calls ha
  refine Act.Meets.within (Act.Meets.mapTrail (Act.Meets.mono (World.advance_keeps a.world)
    (fun _ h => h.1) fun _ w t _ => ?_))
  rw [hooks_map_noted, List.append_nil]
  exact ha

end Parts

/-! ## Operations -/

theorem accounts_tick : Accounts past tick :=
  accounts_advance.bind fun _ => accounts_onRunner fun hr => hr.tick

theorem accounts_runUserJob (job : Job) (callback : Option Callback) :
    Accounts past (runUserJob job callback) := by
  have hask : Accounts past (onUser fun u => u.run job callback) :=
    accounts_onUser (fun u _ => (u.run_meets Job.releases job callback).imp fun _ _ _ _ => trivial)
      fun hu => UserChain.run_asks hu.sound job callback
  refine hask.bind fun result => ?_
  cases result with
  | error e => exact accounts_pure _
  | ok installed =>
      exact (accounts_onRunner fun hr => hr.enable).bind fun _ => accounts_pure _

theorem accounts_cancelUserJob : Accounts past cancelUserJob :=
  accounts_onUser (fun u _ => (u.cancel_meets Job.releases).imp fun _ _ _ _ => trivial)
    UserChain.cancel_asks

theorem accounts_stop : Accounts past stop := by
  refine accounts_cancelUserJob.bind fun _ => ?_
  refine (accounts_onRunner fun hr => hr.stopCurrent).bind fun _ => ?_
  refine (accounts_onRunner fun hr => hr.disable).bind fun _ a calls ha => ?_
  refine Act.Meets.get_bind (Act.meets_note ?_)
  rw [hooks_noted]
  exact Runner.Accounted.untold ha

theorem accounts_perform (op : Operation) : Accounts past (perform op) := by
  cases op with
  | tick => exact accounts_tick
  | request job callback =>
      exact (accounts_runUserJob job callback).bind fun _ => accounts_pure _
  | cancel => exact accounts_cancelUserJob.bind fun _ => accounts_pure _
  | stop => exact accounts_stop
  | change f => exact fun _ _ ha => Act.meets_modify (Runner.Accounted.untold ha)

theorem accounts_performAll (ops : List Operation) : Accounts past (performAll ops) := by
  induction ops with
  | nil => exact accounts_pure ()
  | cons op ops ih => exact (accounts_perform op).bind fun _ => ih

end Agent

/-! ## New agents -/

namespace AgentPlan

variable {p : AgentPlan} {a : Agent} {k k' : World} {trail : List (Happening Job)}
  {past : Nat → List (Happening Job)} {i : Nat} {c : AgentChain}

/-- The chains that an agent of the plan has beside those of its host, and before them. -/
def ownChains (p : AgentPlan) : List AgentChain := if p.builtin then builtinChains p.config else []

/-- What has happened to the chain at a place of the agent before that was built, if `past` tells it
for the chains of the host. -/
def pastAt (p : AgentPlan) (past : Nat → List (Happening Job)) (i : Nat) : List (Happening Job) :=
  if i < p.ownChains.length then [] else past (i - p.ownChains.length)

theorem ownChains_spine (p : AgentPlan) : ∀ c ∈ p.ownChains, c.inner.spine = none := by
  intro c hc
  rw [ownChains] at hc
  split at hc
  · simp only [builtinChains, List.mem_cons, List.not_mem_nil, or_false] at hc
    rcases hc with rfl | rfl | rfl | rfl | rfl <;> rfl
  · cases hc

theorem build_chains (hbuild : p.build k = .ok ⟨.ok a, k', trail⟩) :
    a.runner.chains = p.ownChains ++ p.extra ∧ a.runner.trace = {} ∧
      a.userPlace = if p.builtin then some userPlace else none := by
  have hnew : p.build.Ensures k fun result _ _ => ∀ b, result = .ok b →
      b.runner.chains = p.ownChains ++ p.extra ∧ b.runner.trace = {} ∧
        b.userPlace = if p.builtin then some userPlace else none := by
    rw [build]
    split
    · exact Act.meets_pure fun b hb => by cases hb
    · refine (Runner.registerAll_meets _ _ k).bind ?_
      rintro r k₁ t ⟨rfl, -⟩
      refine Act.Meets.note_bind (Act.meets_pure fun b hb => ?_)
      obtain rfl := Except.ok.inj hb
      exact ⟨rfl, rfl, rfl⟩
  exact hnew.of_ok hbuild a rfl

/-- The user chain that requests go to is one of the agent's own. -/
theorem build_userPlace (hbuild : p.build k = .ok ⟨.ok a, k', trail⟩)
    (hplace : a.userPlace = some i) : i < p.ownChains.length := by
  obtain ⟨-, -, huser⟩ := build_chains hbuild
  rw [hplace] at huser
  rw [ownChains]
  cases hbuiltin : p.builtin with
  | false => simp [hbuiltin] at huser
  | true =>
      rw [hbuiltin, if_pos rfl] at huser
      rw [if_pos rfl, Option.some.inj huser]
      show userPlace < 5
      decide

/-- The chains of a new agent are accounted for, if the host knows what has happened to its own. -/
theorem build_accounted (hbuild : p.build k = .ok ⟨.ok a, k', trail⟩)
    (hextra : ∀ (i : Nat) (c : AgentChain), p.extra[i]? = some c → c.inner.Used (past i)) :
    a.Accounted (fun i => hooks (p.pastAt past i)) [] := by
  obtain ⟨hchains, htrace, -⟩ := build_chains hbuild
  refine ⟨fun i c hc => Or.inl ?_, by rw [htrace]; exact Nat.zero_le _⟩
  rw [hchains] at hc
  by_cases hi : i < p.ownChains.length
  · rw [List.getElem?_append_left hi] at hc
    have hspine := p.ownChains_spine c (List.mem_of_getElem? hc)
    exact Or.inl (SingleChain.resting_of_none hspine)
  · rw [List.getElem?_append_right (Nat.le_of_not_lt hi)] at hc
    refine Or.inr ⟨fun hplace => hi (build_userPlace hbuild hplace), ?_⟩
    rw [pastAt, if_neg hi]
    exact (hextra _ c hc).descends

end AgentPlan

namespace Agent

/-- Build an agent, whose host may have dealt with its chains before, and do anything with it. The
spine that a chain holds has one of nine shapes, and every tick of it ends within three levels, in
any world; the last tick did. Every node holds what its job has begotten: the last hook calls,
together with those of the past of the chain, tell how the job asked for it in the activation in
which it still is. -/
theorem delegation_bounded {p : AgentPlan} {a : Agent} {k k' : World}
    {trail : List (Happening Job)} (ops : List Operation)
    (hbuild : p.build k = .ok ⟨.ok a, k', trail⟩) {past : Nat → List (Happening Job)}
    (hextra : ∀ (i : Nat) (c : AgentChain), p.extra[i]? = some c → c.inner.Used (past i)) :
    (performAll ops).Meets a (· = .overflow) fun _ b t => b.runner.trace.spine.length ≤ 3 ∧
      ∀ (i : Nat) (c : AgentChain) (s : Spine Job), b.runner.chains[i]? = some c →
        c.inner.spine = some s → s.kinds ∈ Spine.shapes ∧ s.Shallow ∧
          ∃ later, later <:+ hooks t ∧
            Spine.Begets s.nodes (hooks (p.pastAt past i) ++ later) := by
  have hnew := AgentPlan.build_accounted hbuild hextra
  refine (accounts_performAll ops a [] hnew).imp ?_
  rintro _ b t hb
  refine ⟨hb.trace, fun i c s hc hs => ?_⟩
  obtain ⟨later, hlater, hdescends⟩ := Runner.Accounted.descends hb hc
  have hs := hdescends s hs
  exact ⟨hs.tidy.kinds_mem, hs.tidy.shallow, later, by simpa using hlater, hs.begotten⟩

/-- A chain that its host will send on an errand. -/
def courier : SingleChain World Job where
  name := "Errands"
  priority := fun _ => .ofInt 70

/-- The walk begins before the agent is built, and a step of it is taken while the host moves a mob
and asks for a fight. -/
theorem delegation_bounded_courier :
    ∃ d e a trail f s,
      courier.perform (.request (.gotoTarget ⟨3, 0⟩)) {} = .ok d ∧
      d.value.2.perform (.tick {}) d.context = .ok e ∧
      AgentPlan.build { extra := [.single e.value.2] } {} = .ok ⟨.ok a, {}, trail⟩ ∧
      performAll [.change (World.moveMob 1 ⟨9, 9⟩), .request (.kill 1) none, .tick] a = .ok f ∧
      (f.context.runner.chains[5]?.bind fun c => c.inner.spine) = some s ∧
      s.kinds = [.goto, .step] ∧
      ∃ later, later <:+ hooks f.trail ∧
        Spine.Begets s.nodes (hooks (d.trail ++ e.trail) ++ later) := by
  obtain ⟨d, hd, hp⟩ := Act.exists_ok
    (m := courier.perform (.request (.gotoTarget ⟨3, 0⟩))) (k := {})
    (p := fun d => (d.value.2.perform (.tick {})).passes d.context fun e =>
      (AgentPlan.build { extra := [.single e.value.2] }).passes {} fun b =>
        decide (b.context = {}) && match b.value with
        | .ok a => (performAll [.change (World.moveMob 1 ⟨9, 9⟩), .request (.kill 1) none,
            .tick]).passes a fun f =>
              decide ((f.context.runner.chains[5]?.bind fun c => c.inner.spine).map Spine.kinds =
                some [.goto, .step])
        | .error _ => false)
    (by decide +kernel)
  obtain ⟨e, he, hp⟩ := Act.exists_ok hp
  obtain ⟨⟨value, context, trail⟩, hbuild, hp⟩ := Act.exists_ok hp
  simp only [Bool.and_eq_true, decide_eq_true_eq] at hp
  obtain ⟨rfl, hp⟩ := hp
  cases value with
  | error e => cases hp
  | ok a =>
      obtain ⟨f, hf, hp⟩ := Act.exists_ok hp
      obtain ⟨s, hs, hkinds⟩ := Option.map_eq_some_iff.mp (of_decide_eq_true hp)
      obtain ⟨c, hc, hspine⟩ := Option.bind_eq_some_iff.mp hs
      have hmade : courier.Used [] := .made (SingleChain.resting_of_none rfl)
      have hused : e.value.2.Used (d.trail ++ e.trail) := .performed (.performed hmade hd) he
      have hextra : ∀ (i : Nat) (c : AgentChain), [AgentChain.single e.value.2][i]? = some c →
          c.inner.Used (d.trail ++ e.trail) := by
        intro i c hc
        obtain rfl := List.mem_singleton.mp (List.mem_of_getElem? hc)
        exact hused
      obtain ⟨-, hchains⟩ := (delegation_bounded _ hbuild hextra).of_ok hf
      obtain ⟨-, -, later, hlater, hbegets⟩ := hchains 5 c s hc hspine
      exact ⟨d, e, a, trail, f, s, hd, he, hbuild, hf, hs, hkinds, later, hlater, hbegets⟩

end Agent

end Arbiter
