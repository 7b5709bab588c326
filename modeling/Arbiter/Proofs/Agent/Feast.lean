import Arbiter.Proofs.Agent.Hunger

/-! How an agent with nothing but hunger spends its ticks. The food chain takes three ticks for each
unit of food and one to end the meal, and then the user chain has control. Only with a threshold of
zero and more food than the hunger needs the food chain never gives control back. -/

namespace Arbiter

variable {F : Fault → Prop} {w v : World} {c : Config} {t k n m N : Nat} {job : Job}

/-! ## Ticks of the food chain -/

/-- What the food chain holds after `n` ticks in control, of which the first `3 * k` go to a meal
of `k` units. -/
inductive Course (k : Nat) : Nat → Option (Spine Job) → Prop
  | before : Course k 0 none
  | eating {n : Nat} {s : Spine Job} (hpos : 0 < n) (hn : n ≤ 3 * k) (h : s.Dines (n % 3)) :
      Course k n (some s)
  | after {n : Nat} (hn : 3 * k < n) : Course k n none

/-- A counter of the initial world comes to its limit within `N` ticks or before the last unit of
food is eaten. -/
def World.Overrun (w : World) (N : Nat) (e : Fault) : Prop :=
  e = .overflow ∧ (1 <<< 64 ≤ w.tick + N ∨ 1 <<< 64 ≤ w.deedCount + w.inventory.rations.length)

theorem Course.tick_inner {chain : SingleChain World Job} {s : Spine Job} {trace : Trace}
    (hfeeds : w.inventory.Feeds w.hunger k) (hs : chain.spine = some s)
    (hcourse : n < 3 * k → s.Dines (n % 3)) (hmeal : ∃ c, s.Dines c)
    (hv : w.Dined m (min (n / 3) k) v) :
    (chain.tick trace).Meets v (w.Overrun N) fun p v' _ => ∃ s' o,
      p.1 = { chain with spine := s', outcome := o } ∧ Course k (n + 1) s' ∧
        w.Dined m (min ((n + 1) / 3) k) v' := by
  have hle := hfeeds.le
  by_cases hn : n < 3 * k
  · have heaten : min (n / 3) k = n / 3 := by omega
    have hnext : n / 3 + (n % 3 + 1) / 3 = min ((n + 1) / 3) k := by omega
    rw [heaten] at hv
    refine (SingleChain.tick_meal hs (hcourse hn) (Nat.mod_lt n (by decide)) hv
      (hfeeds.hungry _ (by omega)) (by omega)).mono ?_ ?_
    · intro e he
      exact ⟨he.1, Or.inr (by omega)⟩
    · intro p v' t hp
      obtain ⟨s', hp, hs', hv'⟩ := hp
      have hchews : (n % 3 + 1) % 3 = (n + 1) % 3 := by omega
      rw [Job.biteTicks, hchews] at hs'
      rw [Job.biteTicks, hnext] at hv'
      exact ⟨some s', chain.outcome, hp, .eating (by omega) (by omega) hs', hv'⟩
  · have heaten : min (n / 3) k = k := by omega
    have hnext : min ((n + 1) / 3) k = k := by omega
    obtain ⟨c, hc⟩ := hmeal
    rw [heaten] at hv
    apply (SingleChain.tick_over hfeeds hs hc hv).imp
    intro p v' t hp
    obtain ⟨o, hp, hv'⟩ := hp
    rw [hnext]
    exact ⟨none, some o, hp, .after (by omega), hv'⟩

theorem Course.tick {s : Option (Spine Job)} {o : Option Outcome}
    (hcourse : Course k n s) (hfeeds : w.inventory.Feeds w.hunger k)
    (hfood : v.inventory.rations.length < 1 <<< 32) (hcraves : s = none → Craves t v)
    (hv : w.Dined m (min (n / 3) k) v) :
    (Chain.tick (AgentChain.reactive (foodChain t s o)) {}).Meets v (w.Overrun N) fun p v' _ =>
      ∃ s' o', p.1 = .reactive (foodChain t s' o') ∧ Course k (n + 1) s' ∧
        w.Dined m (min ((n + 1) / 3) k) v' := by
  cases s with
  | none =>
      have hstart : n < 3 * k → (Spine.ofTask Job.eatFood).Dines (n % 3) := by
        intro hn
        cases hcourse with
        | before => exact .fresh
        | after hafter => omega
      refine (ReactiveChain.tick_asking (R := fun inner v' => ∃ s' o',
        inner = (foodChain t s' o').inner ∧ Course k (n + 1) s' ∧
          w.Dined m (min ((n + 1) / 3) k) v') (foodChain_request? hfood (hcraves rfl)) rfl
        ?_).imp ?_
      · exact tick_inner hfeeds rfl hstart ⟨0, .fresh⟩ hv
      · intro p v' t' hp
        obtain ⟨chain, hp, inner, rfl, s', o', rfl, h⟩ := hp
        exact ⟨s', o', hp, h⟩
  | some s =>
      obtain ⟨hn, hs⟩ : n ≤ 3 * k ∧ s.Dines (n % 3) := by
        cases hcourse with
        | eating _ hn hs => exact ⟨hn, hs⟩
      refine (ReactiveChain.tick_quiet (R := fun inner v' => ∃ s' o',
        inner = (foodChain t s' o').inner ∧ Course k (n + 1) s' ∧
          w.Dined m (min ((n + 1) / 3) k) v') rfl ?_).imp ?_
      · exact tick_inner hfeeds rfl (fun _ => hs) ⟨_, hs⟩ hv
      · intro p v' t' hp
        obtain ⟨chain, hp, inner, rfl, s', o', rfl, h⟩ := hp
        exact ⟨s', o', hp, h⟩

/-! ## Ticks of the agent -/

theorem World.Dined.craves_iff (h : w.Dined n m v) :
    Craves t v ↔ t ≤ w.hunger - w.inventory.relief m ∧ m < w.inventory.rations.length := by
  rw [Craves, h.hunger, h.rations, ne_eq, List.drop_eq_nil_iff, Nat.not_le]

/-- An agent with these settings has nothing but its hunger to see to, and the hunger does not
grow. -/
structure Leisure (c : Config) (w : World) : Prop where
  calm : w.Calm
  drain : w.rules.hungerInterval = 0
  stuck : c.stuckTicks ≠ 0
  food : w.inventory.rations.length < 1 <<< 32

theorem Leisure.food_left (hw : Leisure c w) (hv : w.Dined n m v) :
    v.inventory.rations.length < 1 <<< 32 := by
  have hfood := hw.food
  rw [hv.rations, List.length_drop]
  omega

/-- The agent after `n` ticks, in all of which the food chain had control. -/
structure Feasting (c : Config) (w : World) (job : Job) (k n : Nat) (a : Agent) : Prop where
  chains : ∃ s o u, Course k n s ∧ UserChain.Tasked job u ∧ a.runner.chains = lineup c s o u
  current : a.runner.current = if n = 0 then none else some 3
  enabled : a.runner.enabled = true
  world : w.Dined n (min (n / 3) k) a.world

namespace Feasting

variable {a : Agent}

theorem advance (h : Feasting c w job k n a) (hw : Leisure c w) (hn : n < N) :
    World.advance.Meets a.world (w.Overrun N) fun _ v _ =>
      w.Dined (n + 1) (min (n / 3) k) v := by
  apply (h.world.advance hw.drain hw.calm.hazards).mono
  · intro e he
    exact ⟨he.1, Or.inl (by omega)⟩
  · intro _ v t hv
    exact hv

theorem tick (h : Feasting c w job k n a) (hw : Leisure c w)
    (hfeeds : w.inventory.Feeds w.hunger k) (hn : n < N)
    (hcraves : n = 0 ∨ 3 * k < n → Craves c.hungerThreshold a.world) :
    Agent.tick.Meets a (w.Overrun N) fun _ b _ => Feasting c w job k (n + 1) b := by
  obtain ⟨s, o, u, hcourse, hu, hchains⟩ := h.chains
  have hfree : a.runner.Free 3 := Runner.free_of_current h.current
  have hidle : s = none → n = 0 ∨ 3 * k < n := by
    rintro rfl
    cases hcourse with
    | before => exact Or.inl rfl
    | after hn => exact Or.inr hn
  refine (Agent.tick_selected (i := 3) (R := fun chain v => ∃ s' o',
    chain = .reactive (foodChain c.hungerThreshold s' o') ∧ Course k (n + 1) s' ∧
      w.Dined (n + 1) (min ((n + 1) / 3) k) v) h.enabled hfree (by rw [hchains]; rfl)
    ((h.advance hw hn).imp ?_)).imp ?_
  · intro _ v t hv
    have hcraves' : s = none → Craves c.hungerThreshold v := by
      intro hs
      rw [hv.craves_iff, ← h.world.craves_iff]
      exact hcraves (hidle hs)
    have hfood := hw.food_left hv
    have hselect := (select_food (s := s) (o := o) (hv.calm hw.calm) hw.stuck hu hfood).1 hcraves'
    rw [hchains, hselect]
    refine ⟨nofun, fun _ hs => (Except.ok.inj hs).symm, ?_⟩
    exact hcourse.tick hfeeds hfood hcraves' hv
  · intro _ b t hb
    obtain ⟨chain, ⟨s', o', rfl, hcourse', hworld⟩, hb, hcur, he⟩ := hb
    rw [hchains] at hb
    exact ⟨⟨s', o', u, hcourse', hu, hb⟩, hcur, he, hworld⟩

theorem yields (h : Feasting c w job k n a) (hw : Leisure c w)
    (hjob : job.Errand w.position) (hn : n < N) (hidle : n = 0 ∨ 3 * k < n)
    (hcraves : ¬ Craves c.hungerThreshold a.world) :
    Agent.tick.Meets a (w.Overrun N) fun _ b _ => b.runner.currentName = some "User Tasks" := by
  obtain ⟨s, o, u, hcourse, hu, hchains⟩ := h.chains
  obtain rfl : s = none := by
    cases hcourse with
    | before => rfl
    | eating hpos hn hs => omega
    | after => rfl
  have hfree : a.runner.Free 4 := by
    intro j b hj hne hb
    rw [h.current] at hj
    split at hj
    · cases hj
    · obtain rfl := Option.some.inj hj
      rw [hchains] at hb
      obtain rfl := Option.some.inj hb
      rfl
  refine (Agent.tick_selected (i := 4) (R := fun chain _ => Chain.name chain = UserChain.name)
    h.enabled hfree (by rw [hchains]; rfl) ((h.advance hw hn).imp ?_)).imp ?_
  · intro _ v t hv
    have hcraves' : ¬ Craves c.hungerThreshold v := by
      rw [hv.craves_iff, ← h.world.craves_iff]
      exact hcraves
    have hfood := hw.food_left hv
    have hselect := (select_food (s := none) (o := o) (hv.calm hw.calm) hw.stuck hu hfood).2
      fun hall => hcraves' (hall rfl)
    rw [hchains, hselect]
    refine ⟨nofun, fun _ hs => (Except.ok.inj hs).symm, ?_⟩
    obtain ⟨hposition, -⟩ := hv.surroundings
    rw [← hposition] at hjob
    exact hu.tick hjob
  · intro _ b t hb
    obtain ⟨chain, hname, hb, hcur, -⟩ := hb
    rw [hchains] at hb
    rw [Runner.currentName_of_current hcur (by rw [hb]; rfl)]
    exact congrArg some hname

theorem currentName (h : Feasting c w job k n a) (hn : 1 ≤ n) :
    a.runner.currentName = some "Food" := by
  obtain ⟨s, o, u, -, -, hchains⟩ := h.chains
  have hcur := h.current
  rw [if_neg (by omega)] at hcur
  exact Runner.currentName_of_current hcur (by rw [hchains]; rfl)

/-- If the agent craves a meal, the food chain keeps control until the meal is over, and beyond it
with a threshold of zero and food that is left. -/
theorem tick_craving (h : Feasting c w job k n a) (hw : Leisure c w)
    (hfeeds : w.inventory.Feeds w.hunger k) (hn : n < N) (hcraves : Craves c.hungerThreshold w)
    (hmeal : n ≤ 3 * k ∨ c.hungerThreshold = 0 ∧ k < w.inventory.rations.length) :
    Agent.tick.Meets a (w.Overrun N) fun _ b _ => Feasting c w job k (n + 1) b := by
  apply h.tick hw hfeeds hn
  intro hidle
  rw [h.world.craves_iff]
  rcases hidle with rfl | hlate
  · simpa using w.dined_self.craves_iff.mp hcraves
  · obtain ⟨hzero, hleft⟩ := hmeal.resolve_left (by omega)
    omega

theorem times_tick (h : Feasting c w job k 0 a) (hw : Leisure c w)
    (hfeeds : w.inventory.Feeds w.hunger k) (hcraves : Craves c.hungerThreshold w)
    (hmeal : n ≤ 3 * k + 1 ∨ c.hungerThreshold = 0 ∧ k < w.inventory.rations.length) :
    (Act.times n Agent.tick).Meets a (w.Overrun n) fun _ b _ => Feasting c w job k n b := by
  refine Act.Meets.times (I := fun n b => Feasting c w job k n b) ?_ h
  intro i hi b hb
  apply hb.tick_craving hw hfeeds hi hcraves
  rcases hmeal with hmeal | hmeal
  · exact Or.inl (by omega)
  · exact Or.inr hmeal

theorem times_yields (h : Feasting c w job k 0 a) (hw : Leisure c w)
    (hfeeds : w.inventory.Feeds w.hunger k) (hjob : job.Errand w.position)
    (hcraves : 0 < n → Craves c.hungerThreshold w) (hn : n = 0 ∨ n = 3 * k + 1)
    (hends : ∀ v, w.Dined n (min (n / 3) k) v → ¬ Craves c.hungerThreshold v) :
    (Act.times (n + 1) Agent.tick).Meets a (w.Overrun (n + 1)) fun _ b _ =>
      b.runner.currentName = some "User Tasks" := by
  apply (Act.Meets.times (n := n + 1) (I := fun i b => i ≤ n ∧ Feasting c w job k i b ∨
    i = n + 1 ∧ b.runner.currentName = some "User Tasks") ?_ (Or.inl ⟨Nat.zero_le n, h⟩)).imp
  · intro _ b t hb
    rcases hb with ⟨hlate, -⟩ | ⟨-, hname⟩
    · omega
    · exact hname
  · intro i hi b hb
    rcases hb with ⟨-, hb⟩ | ⟨rfl, -⟩
    · by_cases hlast : i = n
      · subst hlast
        apply (hb.yields hw hjob hi (by omega) (hends b.world hb.world)).imp
        intro _ b' t hname
        exact Or.inr ⟨rfl, hname⟩
      · apply (hb.tick_craving hw hfeeds hi (hcraves (by omega)) (Or.inl (by omega))).imp
        intro _ b' t hb'
        exact Or.inl ⟨by omega, hb'⟩
    · omega

end Feasting

/-! ## Runs -/

def World.Plenty (w : World) : Prop :=
  ∃ m < w.inventory.rations.length, w.hunger ≤ w.inventory.relief m

theorem Inventory.Feeds.plenty_iff (h : w.inventory.Feeds w.hunger k) :
    w.Plenty ↔ k < w.inventory.rations.length := by
  constructor
  · rintro ⟨m, hm, hsated⟩
    by_contra hnot
    have hhungry := h.hungry m (by omega)
    omega
  · intro hk
    exact ⟨k, hk, h.ends.resolve_right (by omega)⟩

theorem Inventory.Feeds.craves_iff (h : w.inventory.Feeds w.hunger k) (hv : w.Dined n k v) :
    Craves t v ↔ t = 0 ∧ w.Plenty := by
  rw [hv.craves_iff, h.plenty_iff]
  constructor
  · rintro ⟨ht, hk⟩
    have hsated := h.ends.resolve_right (by omega)
    exact ⟨by omega, hk⟩
  · rintro ⟨rfl, hk⟩
    exact ⟨Nat.zero_le _, hk⟩

namespace Agent

variable {a : Agent}

theorem New.feasting (h : a.New c w) (hchains : a.runner.chains = AgentPlan.builtinChains c)
    (job : Job) (callback : Option Callback) (k : Nat) :
    (Agent.runUserJob job callback).Meets a F fun _ b _ => Feasting c w job k 0 b := by
  have huser : a.builtinUser? = some (AgentPlan.userPlace, .ofIdle c.idleWhenInactive) := by
    rw [Agent.builtinUser?, h.userPlace, hchains]
    rfl
  apply (runUserJob_meets huser job callback).mono
  · intro e he
    exact he.elim
  · intro r b t hb
    obtain ⟨installed, u, t', hrun, -, hb⟩ := hb
    obtain ⟨hu, hworld⟩ :=
      (UserChain.run_tasked (F := fun _ => True) c.idleWhenInactive job callback).of_ok hrun
    have hworld : b.world = w := hworld.trans h.world
    rw [hb]
    refine ⟨⟨none, none, u, .before, hu, ?_⟩, h.current, rfl, ?_⟩
    · show a.runner.chains.set AgentPlan.userPlace (.user u) = _
      rw [hchains]
      rfl
    · rw [hworld]
      exact w.dined_self

/-- With a threshold of zero and more food than the hunger needs the food chain has control of every
tick. -/
theorem New.insatiable (h : a.New c w) (hchains : a.runner.chains = AgentPlan.builtinChains c)
    (hw : Leisure c w) (hzero : c.hungerThreshold = 0) (hplenty : w.Plenty) (job : Job)
    (callback : Option Callback) (hm : 1 ≤ m) :
    (Agent.runUserJob job callback >>= fun _ => Act.times m tick).Meets a (w.Overrun m)
      fun _ b _ => b.runner.currentName = some "Food" := by
  obtain ⟨units, hfeeds⟩ := w.inventory.exists_feeds w.hunger
  have hleft := hfeeds.plenty_iff.mp hplenty
  have hcraves : Craves c.hungerThreshold w := by
    rw [w.dined_self.craves_iff]
    omega
  apply (h.feasting hchains job callback units).bind
  intro _ b t hb
  apply (hb.times_tick hw hfeeds hcraves (Or.inr ⟨hzero, hleft⟩)).imp
  intro _ b' t' hb'
  exact hb'.currentName hm

theorem New.satiable (h : a.New c w) (hchains : a.runner.chains = AgentPlan.builtinChains c)
    (hw : Leisure c w) (hends : ¬ (c.hungerThreshold = 0 ∧ w.Plenty))
    (callback : Option Callback) (hjob : job.Errand w.position) :
    ∃ last ≤ 3 * w.inventory.rations.length + 1,
      (∀ m, 1 ≤ m → m ≤ last →
        (Agent.runUserJob job callback >>= fun _ => Act.times m tick).Meets a (w.Overrun m)
          fun _ b _ => b.runner.currentName = some "Food") ∧
      (Agent.runUserJob job callback >>= fun _ => Act.times (last + 1) tick).Meets a
        (w.Overrun (last + 1)) fun _ b _ => b.runner.currentName = some "User Tasks" := by
  obtain ⟨units, hfeeds⟩ := w.inventory.exists_feeds w.hunger
  have hle := hfeeds.le
  have hstart : ∀ G : Fault → Prop, (Agent.runUserJob job callback).Meets a G fun _ b _ =>
      Feasting c w job units 0 b := fun G => h.feasting hchains job callback units
  by_cases hcraves : Craves c.hungerThreshold w
  · refine ⟨3 * units + 1, by omega, ?_, ?_⟩
    · intro m hm hlast
      apply (hstart _).bind
      intro _ b t hb
      apply (hb.times_tick hw hfeeds hcraves (Or.inl hlast)).imp
      intro _ b' t' hb'
      exact hb'.currentName hm
    · apply (hstart _).bind
      intro _ b t hb
      apply hb.times_yields hw hfeeds hjob (fun _ => hcraves) (Or.inr rfl)
      intro v hv
      have heaten : min ((3 * units + 1) / 3) units = units := by omega
      rw [heaten] at hv
      rw [hfeeds.craves_iff hv]
      exact hends
  · -- the user chain has control at once
    refine ⟨0, Nat.zero_le _, fun m hm hlast => by omega, ?_⟩
    apply (hstart _).bind
    intro _ b t hb
    apply hb.times_yields hw hfeeds hjob (fun h => absurd h (Nat.lt_irrefl 0)) (Or.inl rfl)
    intro v hv
    have heaten : min (0 / 3) units = 0 := by omega
    rw [heaten] at hv
    rw [hv.craves_iff, ← w.dined_self.craves_iff]
    exact hcraves

/-- An agent that is built with the built-in chains, that nothing but hunger troubles and that does
not grow hungrier, carries `n` units of food and is given a user job. At first the food chain may
have control. No later than in tick `3 * n + 2` the user chain has it, unless the threshold of
hunger is zero and there is more food than the hunger needs: then the food chain has control of
every tick. A run ends early only if a counter of the initial world comes to its limit. -/
theorem food_yields (p : AgentPlan) (job : Job) (callback : Option Callback) (n : Nat) (k : World)
    (hbuiltin : p.builtin = true) (hextra : p.extra = []) (hvalid : p.config.validate = .ok ())
    (hdrain : p.config.world.hungerInterval = 0) (hcalm : (p.world.getD {}).Calm)
    (hfood : (p.world.getD {}).inventory.foodCount = .ok n)
    (hjob : job.Errand (p.world.getD {}).position) :
    ∃ a trail, p.build k = .ok ⟨.ok a, k, trail⟩ ∧
      a.world = { p.world.getD {} with rules := p.config.world } ∧
      (p.config.hungerThreshold = 0 ∧ a.world.Plenty → ∀ m, 1 ≤ m →
        (runUserJob job callback >>= fun _ => Act.times m tick).Meets a (a.world.Overrun m)
          fun _ b _ => b.runner.currentName = some "Food") ∧
      (¬ (p.config.hungerThreshold = 0 ∧ a.world.Plenty) → ∃ last ≤ 3 * n + 1,
        (∀ m, 1 ≤ m → m ≤ last →
          (runUserJob job callback >>= fun _ => Act.times m tick).Meets a (a.world.Overrun m)
            fun _ b _ => b.runner.currentName = some "Food") ∧
        (runUserJob job callback >>= fun _ => Act.times (last + 1) tick).Meets a
          (a.world.Overrun (last + 1)) fun _ b _ =>
            b.runner.currentName = some "User Tasks") := by
  obtain ⟨a, trail, hbuild, hnew⟩ := AgentPlan.build_ok hbuiltin hextra hvalid k
  obtain ⟨⟨a', ha, hchains, -⟩, -⟩ :=
    (AgentPlan.build_meets (F := fun _ => True) hbuiltin hextra hvalid k).of_ok hbuild
  obtain rfl := Except.ok.inj ha
  have hworld := hnew.world
  rw [← hworld] at hnew
  obtain ⟨hn, hfood⟩ := Inventory.foodCount_eq_ok_iff.mp hfood
  have hw : Leisure p.config a.world := by
    rw [hworld]
    exact ⟨hcalm.withRules _, hdrain, Config.stuckTicks_ne_zero hvalid, by rw [hn]; exact hfood⟩
  refine ⟨a, trail, hbuild, hworld, ?_, ?_⟩
  · rintro ⟨hzero, hplenty⟩ m hm
    exact hnew.insatiable hchains hw hzero hplenty job callback hm
  · intro hends
    have hjob : job.Errand a.world.position := by rwa [hworld]
    have hlength : a.world.inventory.rations.length = n := by rw [hworld, hn]
    obtain ⟨last, hlast, h⟩ := hnew.satiable hchains hw hends callback hjob
    exact ⟨last, by omega, h⟩

def peckish : AgentPlan where
  config := { hungerThreshold := 1, world := { hungerInterval := 0 } }
  world := some { hunger := 18, inventory := { bread := 1, apple := 1 } }

theorem food_yields_peckish :
    ∃ a trail last d, peckish.build {} = .ok ⟨.ok a, {}, trail⟩ ∧ last ≤ 7 ∧
      (runUserJob (.gotoWithin ⟨3, 4⟩ 0) none >>= fun _ => Act.times (last + 1) tick) a = .ok d ∧
        d.context.runner.currentName = some "User Tasks" := by
  obtain ⟨a, trail, hbuild, hworld, -, hyields⟩ :=
    food_yields peckish (.gotoWithin ⟨3, 4⟩ 0) none 2 {} rfl rfl rfl rfl
      ⟨Area.contains_empty, rfl, Area.contains_empty, rfl⟩ rfl
      (.walk ⟨by decide, by decide⟩ ⟨by decide, by decide⟩)
  obtain ⟨last, hlast, -, hrun⟩ := hyields (by rintro ⟨h, -⟩; cases h)
  have hroom : ∀ e, ¬ a.world.Overrun (last + 1) e := by
    intro e he
    have htick : a.world.tick = 0 := by rw [hworld]; rfl
    have hdeeds : a.world.deedCount = 0 := by rw [hworld]; rfl
    have hlength : a.world.inventory.rations.length = 2 := by rw [hworld]; rfl
    rcases he.2 with h | h
    · omega
    · omega
  have hgo := hrun.mono (G := fun _ => False) hroom fun _ _ _ h => h
  obtain ⟨d, hd, hname⟩ := hgo.ok
  exact ⟨a, trail, last, d, hbuild, hlast, hd, hname⟩

def glutton : AgentPlan where
  config := { hungerThreshold := 0, world := { hungerInterval := 0 } }
  world := some { inventory := { bread := 1 } }

/-- The food chain keeps control to the end of the time in which it should give it back. -/
theorem food_yields_glutton :
    glutton.builtin = true ∧ glutton.extra = [] ∧ glutton.config.validate = .ok () ∧
      glutton.config.world.hungerInterval = 0 ∧ (glutton.world.getD {}).Calm ∧
        (glutton.world.getD {}).inventory.foodCount = .ok 1 ∧
          ∃ a trail, glutton.build {} = .ok ⟨.ok a, {}, trail⟩ ∧ ∀ m, 1 ≤ m → m ≤ 3 * 1 + 2 →
            ∃ d, (runUserJob .idle none >>= fun _ => Act.times m tick) a = .ok d ∧
              d.context.runner.currentName = some "Food" := by
  have hcalm : (glutton.world.getD {}).Calm :=
    ⟨Area.contains_empty, rfl, Area.contains_empty, rfl⟩
  refine ⟨rfl, rfl, rfl, rfl, hcalm, rfl, ?_⟩
  obtain ⟨d, hd, ⟨a, ha, hchains, hnew⟩, hk⟩ :=
    (AgentPlan.build_meets (p := glutton) (F := fun _ => False) rfl rfl rfl {}).ok
  obtain ⟨value, context, trail⟩ := d
  obtain rfl : value = .ok a := ha
  obtain rfl : context = {} := hk
  refine ⟨a, trail, hd, ?_⟩
  intro m hm hlast
  have hw : Leisure glutton.config { glutton.world.getD {} with rules := glutton.config.world } :=
    ⟨hcalm.withRules _, rfl, by decide, by decide⟩
  have hrun := hnew.insatiable hchains hw rfl ⟨0, by decide, by decide⟩ .idle none hm
  have hgo := hrun.mono (G := fun _ => False) ?_ fun _ _ _ h => h
  · exact hgo.ok
  · intro e he
    rcases he.2 with h | h
    · change 1 <<< 64 ≤ 0 + m at h
      omega
    · revert h
      decide

end Agent

end Arbiter
