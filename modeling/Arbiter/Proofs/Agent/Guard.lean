import Arbiter.Proofs.Agent.Survival
import Arbiter.Proofs.Job.Fight
import Arbiter.Proofs.World.Mobs

/-! The chain that fights the nearest mob. It asks for the fight anew in every tick and goes on with
the one that it holds, and no chain but the one that leaves hazards takes control from it. -/

namespace Arbiter

variable {w : World} {F : Fault → Prop} {m : Mob} {c : Config} {radius : Nat}

/-- The chain that fights mobs within the radius, with what it holds. -/
def defense (radius : Nat) (s : Option (Spine Job)) : ReactiveChain :=
  { trigger := .mob radius
    inner := { (ReactiveChain.ofTrigger (.mob radius)).inner with spine := s } }

section Ticks

variable {s s' : Spine Job} {R : Spine Job → World → Prop}

theorem defense_request? (held : Option (Spine Job)) (h : w.nearestMob? radius = .ok (some m)) :
    (defense radius held).request? w = .ok (some (.kill m.id)) := by
  show (do
    let near ← w.nearestMob? radius
    pure (near.map fun m => Job.kill m.id) : Except Fault (Option Job)) = _
  rw [h]
  rfl

theorem defense_inner_tick {trace : Trace} {mob : Nat} (hm : w.mob? mob = some m)
    (htask : s.root.task = .kill mob) (hunfailed : s.root.failure = none)
    (htick : (s.tick trace).Meets w F fun r w' _ => r.1.root.failure = none ∧ R r.1 w') :
    ((defense radius (some s)).inner.tick trace).Meets w F fun p w' _ =>
      ∃ s', p.1 = (defense radius (some s')).inner ∧ R s' w' :=
  SingleChain.tick_working rfl hunfailed (Job.isFinished_kill htask hm) htick

theorem defense_begins (h : w.nearestMob? radius = .ok (some m)) (hm : w.mob? m.id = some m)
    (htick : ((Spine.ofTask (.kill m.id)).tick {}).Meets w F fun r w' _ =>
      r.1.root.failure = none ∧ R r.1 w') :
    (Chain.tick (AgentChain.reactive (defense radius none)) {}).Meets w F fun p w' _ =>
      ∃ s', p.1 = .reactive (defense radius (some s')) ∧ R s' w' := by
  apply (ReactiveChain.tick_asking (R := fun inner w' => ∃ s',
    inner = (defense radius (some s')).inner ∧ R s' w') (defense_request? none h) rfl
    (defense_inner_tick hm rfl rfl htick)).imp
  intro p w' t hp
  obtain ⟨chain, hp, inner, rfl, s', rfl, hR⟩ := hp
  exact ⟨s', hp, hR⟩

theorem defense_goes_on (h : w.nearestMob? radius = .ok (some m)) (hm : w.mob? m.id = some m)
    (htask : s.root.task = .kill m.id) (hunfailed : s.root.failure = none)
    (htick : (s.tick {}).Meets w F fun r w' _ => r.1.root.failure = none ∧ R r.1 w') :
    (Chain.tick (AgentChain.reactive (defense radius (some s))) {}).Meets w F fun p w' _ =>
      ∃ s', p.1 = .reactive (defense radius (some s')) ∧ R s' w' := by
  have hserving : (defense radius (some s)).inner.isServing (.kill m.id) = true := by
    show Task.isEqual (Job.kill m.id) s.root.task = true
    rw [htask]
    show decide (m.id = m.id) = true
    simp
  apply (ReactiveChain.tick_serving (R := fun inner w' => ∃ s',
    inner = (defense radius (some s')).inner ∧ R s' w') (defense_request? _ h) hserving
    (defense_inner_tick hm htask hunfailed htick)).imp
  intro p w' t hp
  obtain ⟨chain, hp, inner, rfl, s', rfl, hR⟩ := hp
  exact ⟨s', hp, hR⟩

end Ticks

/-! ## Arbitration -/

section Arbitration

variable {s : Option (Spine Job)} {u : UserChain Job}

/-- The built-in chains while only the one that fights has been ticked. -/
def garrison (c : Config) (s : Option (Spine Job)) (u : UserChain Job) : List AgentChain :=
  .reactive (.ofTrigger .hazard) :: .reactive (defense c.defenseRadius s) ::
    (AgentPlan.followers c u).tail

theorem hazard_irrelevant (h : w.onHazard = false) :
    ∀ b ∈ [AgentChain.reactive (.ofTrigger .hazard)], Chain.isRelevant b w = .ok false := by
  intro b hb
  obtain rfl := List.mem_singleton.mp hb
  rw [isRelevant_hazard, h]

theorem defense_isRelevant (h : w.nearestMob? radius = .ok (some m)) :
    Chain.isRelevant (AgentChain.reactive (defense radius s)) w = .ok true := by
  show (Trigger.mob radius).holds w = _
  rw [holds_mob h]
  rfl

theorem defense_priority (radius : Nat) (s : Option (Spine Job)) (w : World) :
    (Chain.priority (AgentChain.reactive (defense radius s)) w).isNaN = false := by
  show (Number.Binary32.ofInt 65).isNaN = false
  decide +kernel

/-- Of the chains that come after it none is more urgent than a fight. -/
theorem defense_outranks (hu : u.Waiting) {b : AgentChain}
    (hb : b ∈ (AgentPlan.followers c u).tail) (w : World) :
    (Chain.priority (AgentChain.reactive (defense radius s)) w).less (Chain.priority b w) =
      false := by
  simp only [AgentPlan.followers, List.tail_cons, List.mem_cons, List.not_mem_nil, or_false] at hb
  rcases hb with rfl | rfl | rfl
  · show (Number.Binary32.ofInt 65).less (.ofInt 60) = false
    decide +kernel
  · show (Number.Binary32.ofInt 65).less (.ofInt 55) = false
    decide +kernel
  · show (Number.Binary32.ofInt 65).less (u.inner.priority w) = false
    rw [hu.priority]
    show (Number.Binary32.ofInt 65).less (.ofInt 50) = false
    decide +kernel

theorem select_garrison {selected : Option Nat} (hu : u.Waiting) (hsafe : w.onHazard = false)
    (h : w.nearestMob? c.defenseRadius = .ok (some m))
    (hs : select (garrison c s u) w = .ok selected) : selected = some 1 :=
  select_foremost [_] (hazard_irrelevant hsafe) (defense_isRelevant h)
    (defense_priority _ s w) (fun _ hb => defense_outranks hu hb w) hs

/-- Arbitration fails only if there is too much food to count. -/
theorem select_garrison_error {e : Fault} (hsafe : w.onHazard = false)
    (h : w.nearestMob? c.defenseRadius = .ok (some m))
    (hreach : ∀ b ∈ w.mobs, w.position.gap b.position < 1 <<< 32)
    (hs : select (garrison c s u) w = .error e) :
    e = .overflow ∧
      1 <<< 32 ≤ w.inventory.cookedBeef + w.inventory.bread + w.inventory.apple := by
  obtain ⟨b, hb, he⟩ := select_foremost_error [_] (hazard_irrelevant hsafe)
    (defense_isRelevant h) (defense_priority _ s w) hs
  exact followers_error hreach (List.mem_of_mem_tail hb) he

end Arbitration

end Arbiter
