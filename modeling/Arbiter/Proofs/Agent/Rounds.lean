import Arbiter.Agent.Chains
import Arbiter.Proofs.Contract

/-! Runs of one chain by itself. Before every tick the host may change the world, and the deeds of
each tick are told apart. -/

namespace Arbiter

/-- What the host makes of the world before a tick of a chain, and the trace that the tick goes on
with. -/
structure Round where
  change : World → World := id
  trace : Trace := {}

def Round.ofTraces (traces : List Trace) : List Round := traces.map fun trace => { trace }

namespace AgentChain

def play (c : AgentChain) : List Round → Act World (Happening Job) (AgentChain × List (List Deed))
  | [] => pure (c, [])
  | r :: rounds => do
    Act.modify r.change
    let before ← Act.get
    let (c, _) ← Chain.tick c r.trace
    let after ← Act.get
    let (c, deeds) ← c.play rounds
    pure (c, after.deedsSince before.deedCount :: deeds)

variable {c : AgentChain} {r : Round} {rounds : List Round} {w v : World} {F : Fault → Prop}

theorem play_round {R : AgentChain → List (List Deed) → World → Prop}
    (h : (Chain.tick c r.trace).Meets (r.change w) F fun p v _ =>
      (p.1.play rounds).Meets v F fun q v' _ =>
        R q.1 (v.deedsSince (r.change w).deedCount :: q.2) v') :
    (c.play (r :: rounds)).Meets w F fun q v' _ => R q.1 q.2 v' := by
  rw [play]
  refine Act.Meets.bind (P := fun _ w' _ => w' = r.change w) (Act.meets_modify rfl) ?_
  intro _ w' t hw
  subst hw
  apply Act.Meets.get_bind
  apply h.bind
  intro p v t' hplay
  apply Act.Meets.get_bind
  apply hplay.bind
  intro q v' u hR
  exact Act.meets_pure hR

/-- A fault of a run that comes to a round in which there are too many deeds to count one more. -/
def Overcounts (c : AgentChain) (rounds : List Round) (w : World) (e : Fault) : Prop :=
  e = .overflow ∧ ∃ earlier r later d, rounds = earlier ++ r :: later ∧ c.play earlier w = .ok d ∧
    1 <<< 64 ≤ (r.change d.context).deedCount + 1

theorem overcounts_now {e : Fault} (he : e = .overflow ∧ 1 <<< 64 ≤ (r.change w).deedCount + 1) :
    c.Overcounts (r :: rounds) w e :=
  ⟨he.1, [], r, rounds, _, rfl, rfl, he.2⟩

/-- What happens in the later rounds happens in the run. -/
theorem Overcounts.later {e : Fault} {p : AgentChain × Trace} {t : List (Happening Job)}
    (h : p.1.Overcounts rounds v e)
    (htick : Chain.tick c r.trace (r.change w) = .ok ⟨p, v, t⟩) :
    c.Overcounts (r :: rounds) w e := by
  obtain ⟨he, earlier, r', later, d, hrounds, hplay, hcount⟩ := h
  have hrun : (c.play (r :: earlier)).Meets w (fun _ => False) fun _ v' _ => v' = d.context := by
    apply play_round (R := fun _ _ v' => v' = d.context)
    rw [Act.Meets, htick]
    show (p.1.play earlier).Meets v _ _
    rw [Act.Meets, hplay]
  obtain ⟨d', hd', hcontext⟩ := hrun.ok
  exact ⟨he, r :: earlier, r', later, d', by rw [hrounds, List.cons_append], hd',
    by rw [hcontext]; exact hcount⟩

end AgentChain

end Arbiter
