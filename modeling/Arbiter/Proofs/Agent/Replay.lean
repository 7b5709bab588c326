import Arbiter.Proofs.Conduct.Agent

/-! The log of deeds is complete. Done over again from the start, the recorded deeds lead to where
the agent stands, how long it is stuck, what it carries and which mobs are left. -/

namespace Arbiter

/-! ## Accounts -/

/-- What deeds change of a world, apart from the hunger that a meal stills. -/
structure Account where
  position : Position
  stuck : Nat
  inventory : Inventory
  mobs : List Mob
  deriving DecidableEq, Repr

namespace World

def account (w : World) : Account :=
  { position := w.position, stuck := w.stuck, inventory := w.inventory, mobs := w.mobs }

/-- Does a recorded deed over again, if it fits the account. The world gives the blocked tiles and
the damage of an attack. -/
def redo (w : World) (s : Account) : Deed → Option Account
  | .move source target =>
    if source = s.position then some { s with position := target, stuck := 0 } else none
  | .bump place d =>
    if place = s.position ∧ w.isBlocked (place.beside d) = true then
      some { s with stuck := s.stuck + 1 }
    else none
  | .attack mob => some { s with mobs := (struck w.rules.attackDamage mob s.mobs).1 }
  | .eat i => (s.inventory.take? i).map fun inventory => { s with inventory }

/-- Does recorded deeds over again, the oldest first. -/
def replay (w : World) (log : List Deed) : Option Account := log.foldlM w.redo w.account

/-- A deed that is done over again does what it did. -/
theorem Did.redo {w w' : World} {d : Deed} (h : w.Did d w') :
    w.redo w.account d = some w'.account := by
  cases h with
  | move hq hfree => simp [World.redo, account, recorded]
  | bump hq hblocked =>
      have hq := Position.step_eq_ok hq
      rw [hq] at hblocked
      simp [World.redo, account, recorded, Position.beside, hblocked]
  | attack mob => rfl
  | eat hcarried => simp [World.redo, account, recorded, hcarried]

/-! ## The log -/

/-- The history of a world since another one leads from there to here. -/
structure Logged (w₀ w : World) : Prop where
  rules : w.rules = w₀.rules
  blocked : w.blocked = w₀.blocked
  replay : w₀.replay w.history.reverse = some w.account
  count : w.deedCount = w.history.length
  deeds : w.deeds = w.history.reverse.foldl remember []

theorem logged_self {w : World} (hhistory : w.history = []) (hcount : w.deedCount = 0) :
    w.Logged w where
  rules := rfl
  blocked := rfl
  replay := by rw [hhistory]; rfl
  count := by rw [hhistory, hcount]; rfl
  deeds := by rw [deeds_eq_take, hhistory]; rfl

theorem redo_congr {v w : World} (hrules : v.rules = w.rules) (hblocked : v.blocked = w.blocked) :
    v.redo = w.redo := by
  have hisBlocked : v.isBlocked = w.isBlocked := by
    funext p
    rw [isBlocked, isBlocked, hblocked]
  funext s d
  cases d <;> simp only [redo, hrules, hisBlocked]

theorem Logged.did {w₀ w w' : World} {d : Deed} (h : w₀.Logged w) (hd : w.Did d w') :
    w₀.Logged w' where
  rules := hd.rules.trans h.rules
  blocked := hd.blocked.trans h.blocked
  replay := by
    have hbefore : w.history.reverse.foldlM w₀.redo w₀.account = some w.account := h.replay
    rw [World.replay, hd.history, List.reverse_cons, List.foldlM_append, hbefore,
      ← redo_congr h.rules h.blocked]
    simpa using hd.redo
  count := by rw [hd.deedCount, hd.history, h.count, List.length_cons]
  deeds := by
    rw [hd.deeds, hd.history, List.reverse_cons, List.foldl_append, ← h.deeds]
    rfl

/-- What is not an account, and no log, may change. -/
theorem Logged.congr {w₀ w w' : World} (h : w₀.Logged w) (hrules : w'.rules = w.rules)
    (hblocked : w'.blocked = w.blocked) (haccount : w'.account = w.account)
    (hhistory : w'.history = w.history) (hcount : w'.deedCount = w.deedCount) :
    w₀.Logged w' where
  rules := hrules.trans h.rules
  blocked := hblocked.trans h.blocked
  replay := by rw [hhistory, haccount, h.replay]
  count := by rw [hcount, hhistory, h.count]
  deeds := by rw [deeds_eq_take, hhistory, ← deeds_eq_take, h.deeds]

theorem logged_conduct (w₀ : World) :
    Conduct (fun _ => True) (fun _ => True) (fun _ => True) fun _ _ w => w₀.Logged w := by
  refine Conduct.lenient (fun _ _ => trivial) id ?_ ?_ (fun _ _ _ _ => trivial) ?_
  · intro r a b j w h
    exact h.congr rfl rfl rfl rfl rfl
  · intro r a b j w h
    exact h.congr rfl rfl rfl rfl rfl
  · intro a b j w turn w' h ht
    rcases ht.deed with rfl | ⟨d, hd⟩
    · exact h
    · exact h.did hd

theorem advance_logged {w₀ w : World} (h : w₀.Logged w) :
    advance.Keeps w (fun _ => True) (fun _ => True) fun _ w' => w₀.Logged w' := by
  refine (advance_keeps w).mono (fun _ _ => trivial) (fun _ _ => trivial) ?_
  rintro _ w' ⟨hunger, -, rfl⟩
  exact h.congr rfl rfl rfl rfl rfl

/-- The remembered deeds are the latest ones of the log. -/
theorem Logged.deeds_eq_drop {w₀ w : World} (h : w₀.Logged w) :
    w.deeds = w.history.reverse.drop (w.deedCount - min w.deedCount deedCapacity) := by
  have hforgotten : w.history.length - deedCapacity =
      w.history.length - min w.history.length deedCapacity := by omega
  rw [deeds_eq_take, List.reverse_take, h.count, hforgotten]

end World

/-! ## Runs -/

namespace Agent

/-- The recorded deeds of a run, done over again in the world in which it began, lead to the
position, the stuck moves, the inventory and the mobs that the run ends with. The host may have
dealt with its chains before. -/
theorem log_complete {p : AgentPlan} {a : Agent} {k k' : World} {trail : List (Happening Job)}
    (ops : List Operation) (hbuild : p.build k = .ok ⟨.ok a, k', trail⟩)
    (hextra : ∀ c ∈ p.extra, ∃ past, c.inner.Used past)
    (hhistory : (p.world.getD {}).history = []) (hcount : (p.world.getD {}).deedCount = 0)
    (hops : ∀ op ∈ ops, op.isChange = false) :
    (performAll ops).Ensures a fun _ b _ =>
      a.world.replay b.world.history.reverse = some b.world.account ∧
        b.world.deedCount = b.world.history.length ∧
        b.world.deeds = b.world.history.reverse.foldl World.remember [] ∧
        b.world.deeds = b.world.history.reverse.drop
          (b.world.deedCount - min b.world.deedCount World.deedCapacity) := by
  obtain ⟨hrunner, hworld⟩ := AgentPlan.build_used hbuild hextra
  have hlogged : a.world.Logged a.world :=
    World.logged_self (by rw [hworld]; exact hhistory) (by rw [hworld]; exact hcount)
  have hfits : ∀ op ∈ ops, op.Fits (fun _ => True) fun _ _ w => a.world.Logged w := by
    intro op hop
    cases op with
    | change f => cases hops _ hop
    | _ => trivial
  have hrun := Follows.performAll_keeps (V := fun _ _ _ w => a.world.Logged w) (n := 0)
    (fun _ => World.logged_conduct a.world) (fun _ _ _ _ h => World.advance_logged h) hfits
    (Nat.le_refl _) ⟨hrunner, hlogged⟩
  refine Act.Meets.imp hrun ?_
  rintro _ b t ⟨-, hb⟩
  exact ⟨hb.work.replay, hb.work.count, hb.work.deeds, hb.work.deeds_eq_drop⟩

/-- An agent next to a blocked tile. -/
def cornered : AgentPlan where
  world := some { blocked := ({} : Area).add [⟨1, 0⟩] }

theorem log_complete_cornered :
    ∃ a trail d, AgentPlan.build cornered {} = .ok ⟨.ok a, {}, trail⟩ ∧
      performAll (.request (.gotoTarget ⟨2, 0⟩) none :: List.replicate 6 .tick) a = .ok d ∧
      d.context.world.deedCount = 3 ∧
      a.world.replay d.context.world.history.reverse = some d.context.world.account ∧
      d.context.world.deeds =
        [.bump ⟨0, 0⟩ .east, .move ⟨0, 0⟩ ⟨0, -1⟩, .move ⟨0, -1⟩ ⟨1, -1⟩] := by
  obtain ⟨⟨value, context, trail⟩, hbuild, hp⟩ := Act.exists_ok (m := AgentPlan.build cornered)
    (k := {})
    (p := fun e => decide (e.context = {}) && match e.value with
      | .ok a => (performAll
          (.request (.gotoTarget ⟨2, 0⟩) none :: List.replicate 6 .tick)).passes a fun d =>
            decide (d.context.world.deedCount = 3 ∧ d.context.world.deeds =
              [.bump ⟨0, 0⟩ .east, .move ⟨0, 0⟩ ⟨0, -1⟩, .move ⟨0, -1⟩ ⟨1, -1⟩])
      | .error _ => false)
    (by decide +kernel)
  simp only [Bool.and_eq_true, decide_eq_true_eq] at hp
  obtain ⟨rfl, hp⟩ := hp
  cases value with
  | error e => cases hp
  | ok a =>
      obtain ⟨d, hd, hdeeds⟩ := Act.exists_ok hp
      obtain ⟨hcount, hdeeds⟩ := of_decide_eq_true hdeeds
      have hrun := log_complete
        (.request (.gotoTarget ⟨2, 0⟩) none :: List.replicate 6 .tick) hbuild
        (fun c hc => absurd hc List.not_mem_nil) rfl rfl
        (by simp [Operation.isChange])
      exact ⟨a, trail, d, hbuild, hd, hcount, (hrun.of_ok hd).1, hdeeds⟩

end Agent

end Arbiter
