import Mathlib.Logic.Function.Basic
import Arbiter.Proofs.World.Deeds
import Arbiter.World.Host

/-! What attacks leave of the mobs, whatever ids they have. A hit finds the first mob of its id; the
last one takes away all mobs of the id, hit or not. -/

namespace Arbiter.World

variable {damage id i : Nat} {hits : Nat → Nat} {m : Mob} {mobs before after : List Mob}

/-! ## One hit -/

theorem struck_cons (damage id : Nat) (m : Mob) (mobs : List Mob) :
    (struck damage id (m :: mobs)).1 =
      if m.id = id then
        if m.health ≤ damage then mobs.filter fun n => n.id != id
        else { m with health := m.health - damage } :: mobs
      else m :: (struck damage id mobs).1 := by
  by_cases hid : m.id = id
  · rw [if_pos hid]
    by_cases hlast : m.health ≤ damage
    · have hzero : m.health - damage = 0 := Nat.sub_eq_zero_of_le hlast
      simp [struck, hid, hlast, hzero]
    · have hleft : m.health - damage ≠ 0 := by omega
      simp [struck, struck.hitFirst, hid, hlast, hleft]
  · rw [if_neg hid]
    simp only [struck, List.find?_cons, beq_eq_false_iff_ne.mpr hid]
    cases mobs.find? fun n => n.id == id with
    | none => rfl
    | some n =>
        dsimp only
        split
        · simp [hid]
        · simp [struck.hitFirst, hid]

theorem struck_of_absent (h : ∀ n ∈ mobs, n.id ≠ id) : (struck damage id mobs).1 = mobs := by
  induction mobs with
  | nil => rfl
  | cons m mobs ih =>
      rw [struck_cons, if_neg (h m List.mem_cons_self),
        ih fun n hn => h n (List.mem_cons_of_mem m hn)]

theorem struck_split (h : ∀ n ∈ before, n.id ≠ id) (hm : m.id = id) :
    (struck damage id (before ++ m :: after)).1 =
      if m.health ≤ damage then before ++ after.filter fun n => n.id != id
      else before ++ { m with health := m.health - damage } :: after := by
  induction before with
  | nil => rw [List.nil_append, struck_cons, if_pos hm]; rfl
  | cons n before ih =>
      have ih := ih fun b hb => h b (List.mem_cons_of_mem n hb)
      rw [List.cons_append, struck_cons, if_neg (h n List.mem_cons_self), ih]
      split <;> rfl

theorem struck_filter (h : id ≠ i) :
    (struck damage id (mobs.filter fun n => n.id != i)).1 =
      (struck damage id mobs).1.filter fun n => n.id != i := by
  induction mobs with
  | nil => rfl
  | cons m mobs ih =>
      rw [struck_cons]
      by_cases hid : m.id = id
      · have hm : (m.id != i) = true := by simpa [hid] using h
        rw [List.filter_cons, if_pos hm, struck_cons, if_pos hid, if_pos hid]
        split
        · rw [List.filter_filter, List.filter_filter]
          exact List.filter_congr fun n _ => Bool.and_comm _ _
        · rw [List.filter_cons, if_pos hm]
      · rw [if_neg hid, List.filter_cons, List.filter_cons]
        split
        · rw [struck_cons, if_neg hid, ih]
        · exact ih

/-! ## Any number of hits -/

/-- The mob after the hits at its id, `hits i` of them at each id `i`. -/
def hurt (damage : Nat) (hits : Nat → Nat) (m : Mob) : Mob :=
  { m with health := m.health - hits m.id * damage }

abbrev Spent (damage : Nat) (hits : Nat → Nat) (m : Mob) : Prop :=
  0 < hits m.id ∧ m.health ≤ hits m.id * damage

/-- What is left of the mobs. The first mob of an id takes all hits at the id, and once they have
used up its health all mobs of the id are gone. -/
def remaining (damage : Nat) (hits : Nat → Nat) : List Mob → List Mob
  | [] => []
  | m :: rest =>
    let others := remaining damage (Function.update hits m.id 0) rest
    if Spent damage hits m then others.filter fun n => n.id != m.id
    else hurt damage hits m :: others

theorem remaining_unhurt (damage : Nat) (mobs : List Mob) :
    remaining damage (fun _ => 0) mobs = mobs := by
  induction mobs with
  | nil => rfl
  | cons m mobs ih => simp [remaining, Spent, hurt, ih]

theorem remaining_congr {hits' : Nat → Nat} (h : ∀ m ∈ mobs, hits m.id = hits' m.id) :
    remaining damage hits mobs = remaining damage hits' mobs := by
  induction mobs generalizing hits hits' with
  | nil => rfl
  | cons m mobs ih =>
      have hrest : ∀ n ∈ mobs,
          Function.update hits m.id 0 n.id = Function.update hits' m.id 0 n.id := by
        intro n hn
        rw [Function.update_apply, Function.update_apply, h n (List.mem_cons_of_mem m hn)]
      simp only [remaining, Spent, hurt, ih hrest, h m List.mem_cons_self]

/-- One more hit at an id, by induction on the mobs: it is aimed at the first one, or it passes. -/
theorem struck_remaining (damage id : Nat) (hits : Nat → Nat) (mobs : List Mob) :
    (struck damage id (remaining damage hits mobs)).1 =
      remaining damage (Function.update hits id (hits id + 1)) mobs := by
  induction mobs generalizing hits with
  | nil => rfl
  | cons m mobs ih =>
      simp only [remaining, Spent, hurt]
      by_cases hid : m.id = id
      · subst hid
        rw [Function.update_idem, Function.update_self, Nat.add_mul, Nat.one_mul]
        generalize remaining damage (Function.update hits m.id 0) mobs = others
        by_cases hgone : 0 < hits m.id ∧ m.health ≤ hits m.id * damage
        · rw [if_pos hgone, if_pos (by omega)]
          exact struck_of_absent (by simp)
        · rw [if_neg hgone, struck_cons, if_pos rfl]
          dsimp only
          split
          · rw [if_pos (by omega)]
          · rw [if_neg (by omega), Nat.sub_sub]
      · have hne : id ≠ m.id := fun h => hid h.symm
        have hpast := ih (Function.update hits m.id 0)
        rw [Function.update_of_ne hne, ← Function.update_comm hne] at hpast
        rw [Function.update_of_ne hid, ← hpast]
        split
        · exact struck_filter hne
        · rw [struck_cons]
          exact if_neg hid

/-- Where no two mobs have the same id, each is hit by itself and goes by itself. -/
theorem remaining_of_nodup (hids : (mobs.map Mob.id).Nodup) :
    remaining damage hits mobs =
      (mobs.filter fun m => ¬Spent damage hits m).map (hurt damage hits) := by
  induction mobs generalizing hits with
  | nil => rfl
  | cons m mobs ih =>
      obtain ⟨hfresh, hids⟩ := List.nodup_cons.mp hids
      have hne : ∀ n ∈ mobs, n.id ≠ m.id := fun n hn h => hfresh (h ▸ List.mem_map_of_mem hn)
      have hrest : remaining damage (Function.update hits m.id 0) mobs =
          remaining damage hits mobs :=
        remaining_congr fun n hn => Function.update_of_ne (hne n hn) _ _
      rw [remaining, hrest, ih hids, List.filter_cons]
      by_cases hgone : Spent damage hits m
      · rw [if_pos hgone, if_neg (by simpa only [decide_eq_true_eq, not_not] using hgone)]
        refine List.filter_eq_self.mpr fun n hn => ?_
        obtain ⟨n', hn', rfl⟩ := List.mem_map.mp hn
        exact bne_iff_ne.mpr (hne n' (List.mem_filter.mp hn').1)
      · rw [if_neg hgone, if_pos (decide_eq_true hgone), List.map_cons]

/-! ## Attacks -/

def attackAll : List Nat → Act World Record Unit
  | [] => pure ()
  | id :: rest => do
    attack id
    attackAll rest

theorem attackAll_meets (w : World) (hits : Nat → Nat) (ids : List Nat) (mobs : List Mob)
    (h : w.mobs = remaining w.rules.attackDamage hits mobs) :
    (attackAll ids).Meets w (fun e => e = .overflow ∧ 1 <<< 64 ≤ w.deedCount + ids.length)
      fun _ v _ => v = { w with
        mobs := remaining w.rules.attackDamage (fun i => hits i + ids.count i) mobs
        log := w.log.pushAll (ids.map Deed.attack)
        deedCount := w.deedCount + ids.length } := by
  induction ids generalizing w hits with
  | nil =>
      apply Act.meets_pure
      cases w
      simpa using h
  | cons id ids ih =>
      have hcount : (fun i => hits i + (id :: ids).count i) =
          fun i => Function.update hits id (hits id + 1) i + ids.count i := by
        funext i
        rw [List.count_cons, Function.update_apply]
        by_cases hi : i = id
        · subst hi
          simp
          omega
        · rw [if_neg hi, if_neg (by simpa using fun h => hi h.symm), Nat.add_zero]
      refine ((attack_meets w id).mono ?_ fun _ _ _ h => h).bind ?_
      · exact fun e he => ⟨he.1, Nat.le_trans he.2 (by simp)⟩
      rintro _ v _ rfl
      refine (ih (w.hit id) (Function.update hits id (hits id + 1)) ?_).mono ?_ ?_
      · show (struck w.rules.attackDamage id w.mobs).1 = _
        rw [h]
        exact struck_remaining _ id hits mobs
      · exact fun e he => ⟨he.1, Nat.le_trans he.2 (by simp [hit, recorded]; omega)⟩
      · rintro _ u _ rfl
        rw [hcount]
        simp [hit, recorded, Nat.add_assoc, Nat.add_comm 1]

/-- Take any world and any attacks in it. They change nothing but the mobs and the memory of deeds,
and of the mobs they leave what is left after as many hits; where the ids are distinct, each mob is
hit by itself and goes by itself. Any further attack finds the first mob of its id: either it lowers
the health of that mob alone, or it takes the mob away, and with it all others of the same id. -/
theorem attacks_hit_first (w : World) (ids : List Nat) :
    (attackAll ids).Meets w (fun e => e = .overflow ∧ 1 <<< 64 ≤ w.deedCount + ids.length)
      fun _ v _ =>
        v = { w with
          mobs := remaining w.rules.attackDamage ids.count w.mobs
          log := w.log.pushAll (ids.map Deed.attack)
          deedCount := w.deedCount + ids.length } ∧
        ((w.mobs.map Mob.id).Nodup → v.mobs =
          (w.mobs.filter fun m => ¬Spent w.rules.attackDamage ids.count m).map
            (hurt w.rules.attackDamage ids.count)) ∧
        ∀ id, (attack id).Meets v (fun e => e = .overflow ∧ 1 <<< 64 ≤ v.deedCount + 1)
          fun _ u _ =>
            u = { v with
              mobs := u.mobs
              log := v.log.push (.attack id)
              deedCount := v.deedCount + 1 } ∧
            ((∀ n ∈ v.mobs, n.id ≠ id) → u.mobs = v.mobs) ∧
            ∀ before m after, v.mobs = before ++ m :: after → (∀ n ∈ before, n.id ≠ id) →
              m.id = id → u.mobs =
                if m.health ≤ w.rules.attackDamage then before ++ after.filter fun n => n.id != id
                else before ++ { m with health := m.health - w.rules.attackDamage } :: after := by
  have hstart : w.mobs = remaining w.rules.attackDamage (fun _ => 0) w.mobs :=
    (remaining_unhurt _ _).symm
  refine (attackAll_meets w _ ids w.mobs hstart).imp ?_
  rintro _ v _ rfl
  have hcount : (fun i => 0 + ids.count i) = ids.count := funext fun i => Nat.zero_add _
  rw [hcount]
  refine ⟨rfl, remaining_of_nodup, fun id => (attack_meets _ id).imp ?_⟩
  rintro _ u _ rfl
  refine ⟨rfl, struck_of_absent, ?_⟩
  rintro before m after hmobs hbefore hm
  exact (congrArg (fun mobs => (struck _ id mobs).1) hmobs).trans (struck_split hbefore hm)

/-- The death of the first mob with an id takes away the second, which nobody has hit. -/
theorem attack_takes_namesake :
    ∃ d e, (do spawnMob 7 ⟨1, 0⟩ 4; spawnMob 7 ⟨2, 0⟩ 20 : Act World Record Unit) {} = .ok d ∧
      d.context.mobs = [⟨7, ⟨1, 0⟩, 4⟩, ⟨7, ⟨2, 0⟩, 20⟩] ∧ attack 7 d.context = .ok e ∧
      e.context.mobs = [] :=
  ⟨_, _, rfl, rfl, rfl, rfl⟩

end Arbiter.World
