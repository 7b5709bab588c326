import Arbiter.World.Deeds
import Arbiter.Proofs.Contract
import Arbiter.Proofs.Grid.Rings

/-! What the deeds leave of the world, and which of its counters have to have room for them. -/

namespace Arbiter

/-- No warning that has only its message to say. -/
def Record.IsRoutine (r : Record) : Prop := r.severity ≠ .warn ∨ r.fields ≠ []

/-! ## Counters -/

theorem count32_of_lt {n : Nat} (h : n < 1 <<< 32) : count32 n = .ok n :=
  count32_eq_ok_iff.mpr ⟨h, rfl⟩

theorem count32_error {n : Nat} {e : Fault} (h : count32 n = .error e) :
    e = .overflow ∧ 1 <<< 32 ≤ n := by
  unfold count32 at h
  split at h
  · cases h
  · cases h
    exact ⟨rfl, by omega⟩

theorem count64_error {n : Nat} {e : Fault} (h : count64 n = .error e) :
    e = .overflow ∧ 1 <<< 64 ≤ n := by
  unfold count64 at h
  split at h
  · cases h
  · cases h
    exact ⟨rfl, by omega⟩

/-- Counting the food overflows only if the food is too much altogether. -/
theorem Inventory.foodCount_error {v : Inventory} {e : Fault} (h : v.foodCount = .error e) :
    e = .overflow ∧ 1 <<< 32 ≤ v.cookedBeef + v.bread + v.apple := by
  have hfold : v.foodCount = (do
      let beef ← count32 (0 + v.cookedBeef)
      let bread ← count32 (beef + v.bread)
      count32 (bread + v.apple)) := by
    simp [foodCount, Item.foods, count]
  rw [hfold] at h
  cases hbeef : count32 (0 + v.cookedBeef) with
  | error e' =>
      rw [hbeef] at h
      cases h
      have := count32_error hbeef
      exact ⟨this.1, by omega⟩
  | ok beef =>
      rw [hbeef] at h
      have h : (do
        let bread ← count32 (beef + v.bread)
        count32 (bread + v.apple)) = .error e := h
      have hb := (count32_eq_ok_iff.mp hbeef).2
      cases hbread : count32 (beef + v.bread) with
      | error e' =>
          rw [hbread] at h
          cases h
          have := count32_error hbread
          exact ⟨this.1, by omega⟩
      | ok bread =>
          rw [hbread] at h
          have h : count32 (bread + v.apple) = .error e := h
          have hb' := (count32_eq_ok_iff.mp hbread).2
          have := count32_error h
          exact ⟨this.1, by omega⟩

/-! ## Deeds -/

namespace DeedLog

/-- The log after further deeds, the first of them done first. -/
def pushAll (l : DeedLog) (ds : List Deed) : DeedLog := ds.foldl push l

@[simp] theorem pushAll_nil (l : DeedLog) : l.pushAll [] = l := rfl

@[simp] theorem pushAll_cons (l : DeedLog) (d : Deed) (ds : List Deed) :
    l.pushAll (d :: ds) = (l.push d).pushAll ds := rfl

theorem push_pushAll (l : DeedLog) (ds : List Deed) (d : Deed) :
    (l.pushAll ds).push d = l.pushAll (ds ++ [d]) := by
  rw [pushAll, pushAll, List.foldl_append]
  rfl

@[simp] theorem history_pushAll (l : DeedLog) (ds : List Deed) :
    (l.pushAll ds).history = ds.reverse ++ l.history := by
  induction ds generalizing l with
  | nil => rfl
  | cons d ds ih => rw [pushAll_cons, ih, history_push, List.reverse_cons, List.append_assoc]; rfl

end DeedLog

namespace World

variable {w : World}

theorem deeds_eq_take (w : World) : w.deeds = (w.history.take deedCapacity).reverse :=
  w.log.recent_eq_take

/-- The deeds since a count are the latest ones, as far as they are remembered. -/
theorem deedsSince_eq (w : World) (before : Nat) :
    w.deedsSince before = (w.history.take (min (w.deedCount - before) deedCapacity)).reverse := by
  rw [deedsSince, deeds_eq_take, List.length_reverse, ← List.reverse_take, List.take_take]

/-- The world with a deed remembered. -/
def recorded (w : World) (d : Deed) : World :=
  { w with log := w.log.push d, deedCount := w.deedCount + 1 }

/-- What a deed leaves of the world in which it is done. -/
inductive Did (w : World) : Deed → World → Prop
  | move {d : Direction} {q : Position} (hq : w.position.step d = .ok q)
      (hfree : w.isBlocked q = false) :
      Did w (.move w.position q)
        (recorded { w with position := q, stuck := 0 } (.move w.position q))
  | bump {d : Direction} {q : Position} (hq : w.position.step d = .ok q)
      (hblocked : w.isBlocked q = true) :
      Did w (.bump w.position d) (recorded { w with stuck := w.stuck + 1 } (.bump w.position d))
  | attack (mob : Nat) :
      Did w (.attack mob)
        (recorded { w with mobs := (struck w.rules.attackDamage mob w.mobs).1 } (.attack mob))
  | eat {i : Item} {inventory : Inventory} (hcarried : w.inventory.take? i = some inventory) :
      Did w (.eat i)
        (recorded { w with inventory, hunger := w.hunger - i.nourishment } (.eat i))

/-- A recorded deed is the latest one; only the number of deeds may overflow. -/
theorem record_keeps (w : World) (d : Deed) :
    (record d).Keeps w (fun e => e = .overflow ∧ 1 <<< 64 ≤ w.deedCount + 1) Record.IsRoutine
      fun _ w' => w' = w.recorded d := by
  unfold record note
  refine Act.Keeps.get_bind (Act.Keeps.tell_bind (by simp [Record.IsRoutine]) ?_)
  refine Act.Keeps.ofExcept_bind (fun e he => count64_error he) ?_
  intro count hcount
  obtain ⟨-, rfl⟩ := count64_eq_ok_iff.mp hcount
  exact Act.keeps_set rfl

theorem record_meets (w : World) (d : Deed) :
    (record d).Meets w (fun e => e = .overflow ∧ 1 <<< 64 ≤ w.deedCount + 1) fun _ w' _ =>
      w' = { w with log := w.log.push d, deedCount := w.deedCount + 1 } :=
  Act.Meets.imp (record_keeps w d) fun _ _ _ h => h.2

/-- The counters and the coordinates have room for a move, whether it is blocked or not. -/
structure Roams (w : World) : Prop where
  inland : w.position.Inland 1
  stuck : w.stuck + 1 < 1 <<< 32
  deeds : w.deedCount + 1 < 1 <<< 64

theorem step_error {p : Position} {d : Direction} {e : Fault} (h : p.step d = .error e) :
    e = .overflow ∧ ¬ p.Inland 1 := by
  refine ⟨?_, fun hp => ?_⟩
  · unfold Position.step Position.shift coordinate at h
    split at h
    · split at h
      · cases h
      · cases h
        rfl
    · cases h
      rfl
  · rw [hp.step (n := 0) (by simp [Position.gap_self])] at h
    cases h

theorem tryMove_keeps (w : World) (d : Direction) :
    (tryMove d).Keeps w (fun e => e = .overflow ∧ ¬ w.Roams) Record.IsRoutine fun _ w' =>
      ∃ deed, w.Did deed w' := by
  rw [tryMove]
  refine Act.Keeps.get_bind (Act.Keeps.ofExcept_bind ?_ ?_)
  · intro e he
    exact ⟨(step_error he).1, fun h => (step_error he).2 h.inland⟩
  intro q hq
  split
  case isTrue hblocked =>
    refine Act.Keeps.ofExcept_bind ?_ ?_
    · intro e he
      have hcount := count32_error he
      exact ⟨hcount.1, fun h => absurd h.stuck (by omega)⟩
    intro stuck hstuck
    obtain ⟨-, rfl⟩ := count32_eq_ok_iff.mp hstuck
    refine Act.Keeps.set_bind (((record_keeps _ _).mono ?_ (fun _ h => h) fun _ _ h => h).bind ?_)
    · intro e he
      exact ⟨he.1, fun h => absurd h.deeds (Nat.not_lt.mpr he.2)⟩
    · intro _ w' hw
      subst hw
      exact Act.keeps_pure ⟨_, .bump hq hblocked⟩
  case isFalse hfree =>
    refine Act.Keeps.set_bind (((record_keeps _ _).mono ?_ (fun _ h => h) fun _ _ h => h).bind ?_)
    · intro e he
      exact ⟨he.1, fun h => absurd h.deeds (Nat.not_lt.mpr he.2)⟩
    · intro _ w' hw
      subst hw
      exact Act.keeps_pure ⟨_, .move hq (by simpa using hfree)⟩

theorem attack_keeps (w : World) (mob : Nat) :
    (attack mob).Keeps w (fun e => e = .overflow ∧ 1 <<< 64 ≤ w.deedCount + 1) Record.IsRoutine
      fun _ w' => w.Did (.attack mob) w' := by
  rw [attack]
  refine (record_keeps w (.attack mob)).bind ?_
  intro _ w' hw
  subst hw
  refine Act.Keeps.get_bind ?_
  dsimp only
  split
  · exact Act.Keeps.tell_bind (by simp [Record.IsRoutine]) (Act.keeps_set (.attack mob))
  · exact Act.keeps_set (.attack mob)

/-- The world after a hit. -/
def hit (w : World) (mob : Nat) : World :=
  recorded { w with mobs := (struck w.rules.attackDamage mob w.mobs).1 } (.attack mob)

theorem attack_meets (w : World) (mob : Nat) :
    (attack mob).Meets w (fun e => e = .overflow ∧ 1 <<< 64 ≤ w.deedCount + 1) fun _ w' _ =>
      w' = w.hit mob := by
  apply Act.Meets.imp (attack_keeps w mob)
  intro _ w' t h
  obtain ⟨-, h⟩ := h
  cases h with
  | attack => rfl

theorem eat_keeps (w : World) (i : Item) :
    (eat i).Keeps w (fun e => e = .overflow ∧ 1 <<< 64 ≤ w.deedCount + 1) Record.IsRoutine
      fun eaten w' => if eaten then w.Did (.eat i) w' else w' = w := by
  rw [eat]
  refine Act.Keeps.get_bind ?_
  split
  case h_1 => exact Act.keeps_pure rfl
  case h_2 inventory hcarried =>
    refine Act.Keeps.set_bind ((record_keeps _ _).bind ?_)
    intro _ w' hw
    subst hw
    exact Act.keeps_pure (.eat hcarried)

/-- A hit moves no mob and brings no new one. -/
theorem mem_struck {damage id : Nat} {mobs : List Mob} {m : Mob}
    (h : m ∈ (struck damage id mobs).1) : ∃ n ∈ mobs, n.position = m.position := by
  have hhit : ∀ left, ∀ mobs : List Mob, m ∈ struck.hitFirst id left mobs →
      ∃ n ∈ mobs, n.position = m.position := by
    intro left mobs
    induction mobs with
    | nil => exact nofun
    | cons n mobs ih =>
        intro hm
        rw [struck.hitFirst] at hm
        split at hm
        · rcases List.mem_cons.mp hm with rfl | hm
          · exact ⟨n, List.mem_cons_self, rfl⟩
          · exact ⟨m, List.mem_cons_of_mem _ hm, rfl⟩
        · rcases List.mem_cons.mp hm with rfl | hm
          · exact ⟨m, List.mem_cons_self, rfl⟩
          · obtain ⟨n', hn', hp⟩ := ih hm
            exact ⟨n', List.mem_cons_of_mem _ hn', hp⟩
  unfold struck at h
  split at h
  · exact ⟨m, h, rfl⟩
  · dsimp only at h
    split at h
    · exact ⟨m, (List.mem_filter.mp h).1, rfl⟩
    · exact hhit _ mobs h

namespace Did

variable {d : Deed} {w' : World}

theorem history (h : w.Did d w') : w'.history = d :: w.history := by
  cases h <;> exact DeedLog.history_push w.log _

theorem deeds (h : w.Did d w') : w'.deeds = remember w.deeds d := by
  cases h <;> rfl

theorem deedCount (h : w.Did d w') : w'.deedCount = w.deedCount + 1 := by
  cases h <;> rfl

theorem frames (h : w.Did d w') : w'.frames = w.frames := by
  cases h <;> rfl

theorem tick (h : w.Did d w') : w'.tick = w.tick := by
  cases h <;> rfl

theorem rules (h : w.Did d w') : w'.rules = w.rules := by
  cases h <;> rfl

theorem blocked (h : w.Did d w') : w'.blocked = w.blocked := by
  cases h <;> rfl

theorem stuck_le (h : w.Did d w') : w'.stuck ≤ w.stuck + 1 := by
  cases h <;> simp [recorded]

theorem hunger_le (h : w.Did d w') : w'.hunger ≤ w.hunger := by
  cases h <;> simp [recorded]

theorem mobs (h : w.Did d w') : ∀ m ∈ w'.mobs, ∃ n ∈ w.mobs, n.position = m.position := by
  cases h with
  | attack mob => exact fun m hm => mem_struck hm
  | _ => exact fun m hm => ⟨m, hm, rfl⟩

theorem count_le (h : w.Did d w') (i : Item) : w'.inventory.count i ≤ w.inventory.count i := by
  cases h with
  | @eat j inventory hcarried =>
      obtain ⟨-, rfl⟩ := Inventory.take?_eq_some_iff.mp hcarried
      simp only [recorded, Inventory.count_setCount]
      split
      · next hi => rw [hi]; omega
      · exact Nat.le_refl _
  | _ => exact Nat.le_refl _

/-- A deed takes the agent one tile far at the most. -/
theorem gap_le (h : w.Did d w') : w.position.gap w'.position ≤ 1 := by
  cases h with
  | move hq hfree => exact Nat.le_of_eq (Position.gap_of_step hq)
  | _ => simp [recorded, Position.gap_self]

end Did

/-- The world after a move. -/
def moved (w : World) (q : Position) : World :=
  { w with
    position := q
    stuck := 0
    log := w.log.push (.move w.position q)
    deedCount := w.deedCount + 1 }

@[simp] theorem history_moved (w : World) (q : Position) :
    (w.moved q).history = .move w.position q :: w.history := DeedLog.history_push _ _

/-- A move onto a tile that is free. -/
theorem tryMove_meets {d : Direction} {q : Position} (hq : w.position.step d = .ok q)
    (hfree : w.isBlocked q = false) :
    (tryMove d).Meets w (fun e => e = .overflow ∧ 1 <<< 64 ≤ w.deedCount + 1) fun b w' _ =>
      b = true ∧ w' = w.moved q := by
  rw [tryMove]
  refine Act.Meets.get_bind (Act.Meets.ofExcept_bind (by simp [hq]) ?_)
  intro target htarget
  obtain rfl : q = target := Except.ok.inj (hq.symm.trans htarget)
  simp only [hfree, Bool.false_eq_true, if_false]
  refine Act.Meets.set_bind ((record_meets _ _).bind ?_)
  intro _ w' t hw
  exact Act.meets_pure ⟨rfl, hw⟩

/-- The world after a move into a blocked tile. -/
def bumped (w : World) (d : Direction) : World :=
  { w with
    stuck := w.stuck + 1
    log := w.log.push (.bump w.position d)
    deedCount := w.deedCount + 1 }

@[simp] theorem history_bumped (w : World) (d : Direction) :
    (w.bumped d).history = .bump w.position d :: w.history := DeedLog.history_push _ _

/-- A move onto a tile that is blocked. -/
theorem tryMove_bumps {d : Direction} {q : Position} (hq : w.position.step d = .ok q)
    (hblocked : w.isBlocked q = true) :
    (tryMove d).Meets w
      (fun e => e = .overflow ∧ (1 <<< 32 ≤ w.stuck + 1 ∨ 1 <<< 64 ≤ w.deedCount + 1))
      fun b w' _ => b = false ∧ w' = w.bumped d := by
  rw [tryMove]
  refine Act.Meets.get_bind (Act.Meets.ofExcept_bind (by simp [hq]) ?_)
  intro target htarget
  obtain rfl : q = target := Except.ok.inj (hq.symm.trans htarget)
  simp only [hblocked, if_true]
  refine Act.Meets.ofExcept_bind
    (fun e he => ⟨(count32_error he).1, Or.inl (count32_error he).2⟩) ?_
  intro stuck hstuck
  obtain ⟨-, rfl⟩ := count32_eq_ok_iff.mp hstuck
  refine Act.Meets.set_bind (((record_meets _ _).mono ?_ fun _ _ _ h => h).bind ?_)
  · exact fun e he => ⟨he.1, Or.inr he.2⟩
  · intro _ w' t hw
    exact Act.meets_pure ⟨rfl, hw⟩

/-! ## Surroundings -/

/-- Mobs whose distances can be counted are looked over without a fault. -/
theorem mobsWithin_eq {mobs : List Mob} (h : ∀ m ∈ mobs, w.position.gap m.position < 1 <<< 32)
    (radius : Nat) :
    w.mobsWithin radius mobs = .ok
      ((mobs.filter fun m => w.position.gap m.position ≤ radius).map
        fun m => (w.position.gap m.position, m)) := by
  induction mobs with
  | nil => rfl
  | cons m mobs ih =>
      have hd : w.position.distance m.position = .ok (w.position.gap m.position) :=
        count32_of_lt (h m List.mem_cons_self)
      rw [mobsWithin, hd, ih fun n hn => h n (List.mem_cons_of_mem _ hn)]
      by_cases hnear : w.position.gap m.position ≤ radius
      · simp [hnear, bind, Except.bind, pure, Except.pure]
      · simp [hnear, bind, Except.bind, pure, Except.pure]

theorem nearestMob?_ok (h : ∀ m ∈ w.mobs, w.position.gap m.position < 1 <<< 32) (radius : Nat) :
    ∃ near, w.nearestMob? radius = .ok near := by
  rw [nearestMob?]
  rw [mobsWithin_eq h]
  exact ⟨_, rfl⟩

theorem nearestSafe_congr {v : World} (hp : v.position = w.position) (hh : v.hazards = w.hazards)
    (hb : v.blocked = w.blocked) : v.nearestSafe = w.nearestSafe := by
  have hsafe : v.isSafe = w.isSafe := by
    funext p
    simp [isSafe, isHazard, isBlocked, hh, hb]
  unfold nearestSafe
  rw [hp, hsafe]

/-! ## The passing of time -/

theorem hungerAt_error {tick : Nat} {e : Fault} (h : w.hungerAt tick = .error e) :
    e = .overflow ∧ 1 <<< 32 ≤ w.hunger + 1 := by
  unfold hungerAt at h
  dsimp only at h
  split at h
  · cases hc : count32 (w.hunger + 1) with
    | error e' =>
        rw [hc] at h
        cases h
        exact count32_error hc
    | ok n => rw [hc] at h; cases h
  · cases h

theorem hungerAt_ok {tick hunger : Nat} (h : w.hungerAt tick = .ok hunger) :
    hunger = w.hunger ∨ hunger ≤ maxHunger := by
  unfold hungerAt at h
  dsimp only at h
  split at h
  · cases hc : count32 (w.hunger + 1) with
    | error e => rw [hc] at h; cases h
    | ok n =>
        rw [hc] at h
        cases h
        exact Or.inr (Nat.min_le_right _ _)
  · cases h
    exact Or.inl rfl

/-- The world one tick later. -/
def passed (w : World) (hunger : Nat) : World :=
  { w with
    tick := w.tick + 1
    hunger
    health := if w.onHazard then w.health - w.rules.hazardDamage else w.health }

/-- When time passes, only the two counters may overflow. -/
theorem advance_keeps (w : World) :
    advance.Keeps w
      (fun e => e = .overflow ∧ (1 <<< 64 ≤ w.tick + 1 ∨ 1 <<< 32 ≤ w.hunger + 1)) Record.IsRoutine
      fun _ w' => ∃ hunger, (hunger = w.hunger ∨ hunger ≤ maxHunger) ∧ w' = w.passed hunger := by
  rw [advance]
  refine Act.Keeps.get_bind (Act.Keeps.ofExcept_bind ?_ ?_)
  · intro e he
    have := count64_error he
    exact ⟨this.1, Or.inl this.2⟩
  intro tick htick
  obtain ⟨-, rfl⟩ := count64_eq_ok_iff.mp htick
  refine Act.Keeps.ofExcept_bind ?_ ?_
  · intro e he
    have := hungerAt_error he
    exact ⟨this.1, Or.inr this.2⟩
  intro hunger hhunger
  have hlimit := hungerAt_ok hhunger
  by_cases hz : w.onHazard
  · simp only [hz, if_true]
    exact Act.Keeps.set_bind (Act.keeps_tell (by simp [Record.IsRoutine])
      ⟨hunger, hlimit, by simp [passed, hz]⟩)
  · simp only [hz, Bool.false_eq_true, if_false]
    exact Act.keeps_set ⟨hunger, hlimit, by simp [passed, hz]⟩

theorem advance_meets (w : World) :
    advance.Meets w
      (fun e => e = .overflow ∧ (1 <<< 64 ≤ w.tick + 1 ∨ 1 <<< 32 ≤ w.hunger + 1)) fun _ w' _ =>
        ∃ hunger, (hunger = w.hunger ∨ hunger ≤ maxHunger) ∧ w' = w.passed hunger :=
  Act.Meets.imp (advance_keeps w) fun _ _ _ h => h.2

end World

end Arbiter
