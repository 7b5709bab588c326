import Arbiter.Proofs.Descent.Depth
import Arbiter.Proofs.Descent.History

/-! Spines of jobs in their history. While a root is at work its activation goes on in the hook
calls of the history, and each job below is begotten by the one above it. A tick keeps that whatever
it exchanges, and a spine at rest has nothing to account for. -/

namespace Arbiter

theorem Noted.hooks {τ : Type} {t : List (Happening τ)} (h : Noted t) : hooks t = [] := by
  refine List.filter_eq_nil_iff.mpr fun x hx => ?_
  obtain ⟨r, rfl⟩ := h x hx
  simp [Happening.isHook]

/-- Where only jobs of other kinds are called, no activation of a job of the kind begins or ends. -/
theorem Called.unbroken {P : World → Job → Prop} {w : World} {t : List (Happening Job)}
    {k : Job.Kind} (h : Called P w t) (hk : ∀ j, P w j → j.kind ≠ k) : Unbroken k (hooks t) := by
  intro x hx hbound
  have hx : x ∈ t := List.mem_of_mem_filter hx
  cases x with
  | started j => exact hk j (h _ hx j rfl) (Option.some.inj hbound)
  | stopped j taker => exact hk j (h _ hx j rfl) (Option.some.inj hbound)
  | _ => cases hbound

theorem Job.lasting_rank (r : Nat) : Lasting fun (_ : World) (j : Job) => j.kind.rank ≤ r where
  start {w j} hj c := by
    refine Act.Meets.imp (j.begin_keeps (w := w) (F := fun _ => True)) ?_
    rintro p _ _ ⟨-, rfl, -⟩
    exact ⟨fun _ => id, j.kind_restarted ▸ hj⟩
  tick {w j} hj c := by
    refine Act.Meets.mono (j.turn_keeps (w := w)) (fun _ _ => trivial) ?_
    rintro turn _ _ ⟨-, hturned⟩
    refine ⟨fun _ => id, hturned.kind ▸ hj, fun s hs => ?_⟩
    have hrank := (hturned.candidate s hs).1.rank_lt
    omega
  stop {w j} hj taker := by
    refine Act.Meets.imp (j.quit_keeps (w := w) (F := fun _ => True)) ?_
    rintro j' _ _ ⟨-, rfl, -⟩
    exact ⟨fun _ => id, hj⟩

namespace Spine

variable {s s' : Spine Job} {w w' : World} {calls : List (Happening Job)}

/-! ## Ranks -/

theorem Tidy.rank_lt {fit : Job → Prop} (hs : s.Tidy fit) :
    ∀ n ∈ s.below, n.task.kind.rank < s.root.task.kind.rank := by
  have hlined := hs.lined
  rw [nodes] at hlined
  generalize s.root = root, s.below = below at hlined
  induction below generalizing root with
  | nil => simp
  | cons m below ih =>
      obtain ⟨hdelegates, hlined⟩ := List.isChain_cons_cons.mp hlined
      intro n hn
      rcases List.mem_cons.mp hn with rfl | hn
      · exact hdelegates.rank_lt
      · exact (ih m hlined n hn).trans hdelegates.rank_lt

theorem Tidy.have_rank {fit : Job → Prop} (hs : s.Tidy fit) :
    Have (fun (_ : World) j => j.kind.rank ≤ s.root.task.kind.rank) w s.nodes :=
  have_cons.mpr ⟨Nat.le_refl _, fun n hn => Nat.le_of_lt (hs.rank_lt n hn)⟩

/-- A tick touches no activation of a job of a kind above that of the root. -/
theorem Ticked.unbroken {fit : Job → Prop} {t : List (Happening Job)} {refused : List Job}
    (h : Ticked s w s' w' t refused) (hs : s.Tidy fit) {k : Job.Kind}
    (hk : s.root.task.kind.rank < k.rank) : Unbroken k (hooks t) := by
  refine (h.lasts (Job.lasting_rank _) hs.have_rank).2.1.unbroken fun j hj hkind => ?_
  rw [hkind] at hj
  omega

/-! ## Shapes -/

def kinds (s : Spine Job) : List Job.Kind := s.nodes.map fun n => n.task.kind

def shapes : List (List Job.Kind) :=
  [[.idle], [.eat], [.wander], [.step], [.goto], [.goto, .step], [.kill], [.kill, .goto],
    [.kill, .goto, .step]]

/-- Below a walk there is at most a step, and nothing below that. -/
theorem lined_below_goto {ks : List Job.Kind} (h : (.goto :: ks).IsChain Job.Kind.Delegates) :
    ks = [] ∨ ks = [.step] := by
  cases h with
  | singleton => exact Or.inl rfl
  | cons_cons hstep hbelow =>
      obtain rfl := hstep.of_goto
      cases hbelow with
      | singleton => exact Or.inr rfl
      | cons_cons hnone _ => cases hnone

theorem Tidy.kinds_mem {fit : Job → Prop} (hs : s.Tidy fit) : s.kinds ∈ shapes := by
  have hlined : s.kinds.IsChain Job.Kind.Delegates := (List.isChain_map _).mpr hs.lined
  rw [kinds, nodes, List.map_cons] at hlined ⊢
  generalize s.root.task.kind = k, s.below.map (fun n => n.task.kind) = ks at hlined ⊢
  cases k with
  | goto => rcases lined_below_goto hlined with rfl | rfl <;> decide
  | kill =>
      cases hlined with
      | singleton => decide
      | cons_cons hgoto hbelow =>
          obtain rfl := hgoto.of_kill
          rcases lined_below_goto hbelow with rfl | rfl <;> decide
  | _ =>
      cases hlined with
      | singleton => decide
      | cons_cons hnone _ => cases hnone

/-! ## Parts of a tick -/

def starts (s : Spine Job) : List (Happening Job) :=
  if s.root.pending then [.started s.root.task] else []

theorem ready_starts (s : Spine Job) :
    s.ready.Ensures w fun s' _ t => hooks t = s.starts ∧ s'.root.task.aim = s.root.task.aim ∧
      (s.root.pending = true → s'.root.stopped = false) := by
  rw [ready, starts]
  split
  · rw [start]
    refine Act.Meets.note_bind ((Act.ensures_call _ _ w).bind ?_)
    rintro ⟨task, reply⟩ w₁ _ ⟨records, hrun, rfl⟩
    obtain ⟨-, hp, -⟩ := (s.root.task.begin_keeps (F := fun _ => True)).of_ok hrun
    obtain ⟨rfl, rfl⟩ := Prod.mk.inj hp
    refine Act.meets_pure ⟨?_, s.root.task.aim_restarted, fun _ => rfl⟩
    rw [hooks_noted, List.append_nil]
    show [Happening.started s.root.task] ++ hooks (records.map .noted) = _
    rw [hooks_map_noted, List.append_nil]
  · next hp => exact Act.meets_pure ⟨rfl, rfl, fun h => absurd h hp⟩

/-- How the root takes its turn: the calls of its hooks, and what the turn leaves of its aim. -/
theorem TurnTaken.call {root : Node Job} {turn : Turn Job} {t : List (Happening Job)}
    (h : s.TurnTaken w root turn w' t) :
    ∃ j control v records, Task.onTick j control v = .ok ⟨turn, w', records⟩ ∧
      hooks t = s.starts ++ [.ticked j] ∧ j.aim = s.root.task.aim ∧
        root.task.aim = s.root.task.aim ∧
          ∀ c ∈ turn.candidate, s.root.task.kind.Delegates c.kind := by
  obtain ⟨s₁, w₁, t₁, records, hready, -, -, hturn, rfl, rfl⟩ := h
  obtain ⟨hstarts, haim, -⟩ := (ready_starts s).of_ok hready
  refine ⟨_, _, _, records, hturn, ?_, haim, ?_, fun c hc => ?_⟩
  · rw [hooks_append, hstarts]
    show _ ++ Happening.ticked s₁.root.task :: hooks (records.map .noted) = _
    rw [hooks_map_noted]
  · exact (s₁.root.task.turn_aim.of_ok hturn).trans haim
  · have hturned := (s₁.root.task.turn_keeps.of_ok hturn).2
    rw [← Job.kind_of_aim haim]
    exact (hturned.candidate c hc).1

/-- What is held is kept without a call, or it is stopped and the candidate is held instead. -/
theorem Settled.kept_or_exchanged {below ms : List (Node Job)} {candidate : Option Job}
    {t : List (Happening Job)} {refused : List Job}
    (h : Settled w below candidate ms w' t refused) :
    ms = below ∧ hooks t = [] ∨
      ms = candidate.toList.map Node.fresh ∧ hooks t = stops candidate below := by
  cases h with
  | free hbelow => exact Or.inr ⟨rfl, by rw [hbelow]; rfl⟩
  | equal => exact Or.inl ⟨rfl, rfl⟩
  | forced _ _ _ hnoted => exact Or.inl ⟨rfl, hnoted.hooks⟩
  | @exchanged _ trail dropped _ _ _ _ hhooks =>
      refine Or.inr ⟨rfl, ?_⟩
      rw [hooks_append, hhooks]
      simpa using hooks_map_dropped id dropped

theorem rejoin_calls (n : Node Job) (sub : Spine Job) :
    (rejoin n sub : Act World (Happening Job) _).Ensures w fun s' _ t => hooks t = [] ∧
      s'.root.task = n.task ∧ s'.root.failure = n.failure ∧
        (sub.root.failure = none ∧ s'.below = sub.nodes ∨ s'.below = []) := by
  rw [rejoin]
  split
  · next hreport =>
    exact Act.meets_pure ⟨rfl, rfl, rfl, Or.inl ⟨Option.map_eq_none_iff.mp hreport, rfl⟩⟩
  · refine (dropAll_meets sub.nodes w).bind ?_
    rintro _ _ t ⟨-, ht, -⟩
    exact Act.meets_pure ⟨by simp [ht], rfl, rfl, Or.inr rfl⟩

/-! ## Descent -/

/-- Every node holds what its job has begotten. -/
def Begets (nodes : List (Node Job)) (calls : List (Happening Job)) : Prop :=
  nodes.IsChain fun m n => Begotten m.task n.task calls

/-- What the hook calls of its history tell of a spine: the activation of the root goes on, unless
the spine rests, and all below it descend from it. -/
structure Descends (s : Spine Job) (calls : List (Happening Job)) : Prop where
  tidy : s.Tidy fun _ => True
  begun : ¬ s.Resting → Begun s.root.task calls
  begotten : Begets s.nodes calls

theorem begets_alone (n : Node Job) : Begets [n] calls := List.isChain_singleton n

theorem Resting.descends (h : s.Resting) : s.Descends calls := by
  refine ⟨h.tidy trivial, absurd h, ?_⟩
  rw [nodes, h.alone]
  exact begets_alone s.root

theorem starts_of_started (h : s.root.Started) : s.starts = [] :=
  if_neg (by simp [h.started])

namespace Descends

theorem starts_eq (hs : s.Descends calls) (h : ¬ s.Resting) : s.starts = [] :=
  starts_of_started (hs.tidy.started h s.root List.mem_cons_self)

theorem begun_starts (hs : s.Descends calls) : Begun s.root.task (calls ++ s.starts) := by
  by_cases hrest : s.Resting
  · rw [starts, if_pos hrest.pending]
    exact .of_start (Job.isEqual_iff.mpr rfl) unbroken_nil
  · rw [hs.starts_eq hrest, List.append_nil]
    exact hs.begun hrest

theorem unbroken_stops (hs : s.Descends calls) (taker : Option Job) :
    Unbroken s.root.task.kind (stops taker s.below) := by
  intro x hx hbound
  obtain ⟨n, hn, rfl⟩ := List.mem_map.mp hx
  have hrank := hs.tidy.rank_lt n (List.mem_of_mem_filter hn)
  rw [Option.some.inj hbound] at hrank
  exact Nat.lt_irrefl _ hrank

end Descends

/-- How a tick continues the history of a root that does not fail in it: after the start that is due
the activation of the root goes on, and what it holds is begotten. -/
structure Continued (s s' : Spine Job) (calls told : List (Happening Job)) : Prop where
  aim : s'.root.task.aim = s.root.task.aim
  unbroken : ∃ after, told = s.starts ++ after ∧ Unbroken s.root.task.kind after
  begotten : Begets s'.nodes (calls ++ told)

/-- What is held while the root takes its turn, and what is held instead of it, descends from the
history with that turn. The first is begotten already, and the second will be once it is started. -/
theorem Settled.descends {m : Node Job} {rest : List (Node Job)} {candidate : Option Job}
    {t : List (Happening Job)} {refused : List Job} {j : Job} {told : List (Happening Job)}
    (h : Settled w s.below candidate (m :: rest) w' t refused) (hs : s.Descends calls)
    (hcandidate : ∀ c ∈ candidate, s.root.task.kind.Delegates c.kind)
    (htold : told = s.starts ++ [.ticked j]) :
    ({ root := m, below := rest } : Spine Job).Descends (calls ++ (told ++ hooks t)) ∧
      s.root.task.kind.Delegates m.task.kind ∧ Unbroken s.root.task.kind (hooks t) ∧
        (m.Started ∧ Begotten s.root.task m.task (calls ++ (told ++ hooks t)) ∨
          ∃ c ∈ candidate, m = Node.fresh c ∧ ∀ x ∈ hooks t, ∃ j taker, x = .stopped j taker) := by
  rcases h.kept_or_exchanged with ⟨hkept, ht⟩ | ⟨hfresh, ht⟩
  · have hrest : ¬ s.Resting := fun hrest => by simp [hrest.alone] at hkept
    have hroot := hs.tidy.started hrest s.root List.mem_cons_self
    have hbegotten := hs.begotten
    have htidy : ({ root := s.root, below := m :: rest } : Spine Job).Tidy fun _ => True := by
      rw [hkept]
      exact hs.tidy
    have hmore : ∀ k, Unbroken k (told ++ hooks t) := by
      intro k
      rw [htold, hs.starts_eq hrest, ht, List.append_nil]
      exact unbroken_ticked j
    rw [Begets, nodes, ← hkept, List.isChain_cons_cons] at hbegotten
    obtain ⟨hm, hbelow⟩ := hbegotten
    have hm := hm.append (hmore _) (hmore _)
    refine ⟨⟨htidy.tail hroot, fun _ => hm.begun, ?_⟩, (List.isChain_cons_cons.mp htidy.lined).1,
      ht ▸ unbroken_nil, Or.inl ⟨?_, hm⟩⟩
    · exact hbelow.imp fun _ _ hn => hn.append (hmore _) (hmore _)
    · exact hs.tidy.started hrest m (by simp [nodes, ← hkept])
  · cases candidate with
    | none => cases hfresh
    | some c =>
        obtain ⟨rfl, rfl⟩ := List.cons.inj hfresh
        refine ⟨(resting_ofTask c).descends, hcandidate c rfl, ht ▸ hs.unbroken_stops _,
          Or.inr ⟨c, rfl, rfl, fun x hx => ?_⟩⟩
        rw [ht] at hx
        obtain ⟨n, -, rfl⟩ := List.mem_map.mp hx
        exact ⟨_, _, rfl⟩

/-- What is held is begotten after its own tick: it was before, or it was asked for in the turn of
the root and its start is the first of its calls. -/
theorem Descends.begets_held {m : Node Job} {rest : List (Node Job)} {j : Job} {control : Control}
    {turn : Turn Job} {records : List Record} {ended told after : List (Happening Job)}
    (hs : s.Descends calls) (hturn : Task.onTick j control w = .ok ⟨turn, w', records⟩)
    (hj : j.aim = s.root.task.aim)
    (horigin : m.Started ∧
        Begotten s.root.task m.task (calls ++ (s.starts ++ [.ticked j] ++ ended)) ∨
      ∃ c ∈ turn.candidate, m = Node.fresh c ∧ ∀ x ∈ ended, ∃ j taker, x = .stopped j taker)
    (hended : Unbroken s.root.task.kind ended) (hlower : Unbroken s.root.task.kind told)
    (htold : told = ({ root := m, below := rest } : Spine Job).starts ++ after)
    (hafter : Unbroken m.task.kind after) :
    Begotten s.root.task m.task (calls ++ (s.starts ++ [.ticked j] ++ ended) ++ told) := by
  rcases horigin with ⟨hstarted, hbegotten⟩ | ⟨c, hc, rfl, hstops⟩
  · rw [starts_of_started hstarted, List.nil_append] at htold
    exact hbegotten.append hlower (htold ▸ hafter)
  · obtain rfl : told = .started c :: after := htold
    have hgoes : Unbroken s.root.task.kind after :=
      fun x hx => hlower x (List.mem_cons_of_mem _ hx)
    have hbegotten := hs.begun_starts.begets hj hturn hc rfl hstops
      (unbroken_append.mpr ⟨hended, hgoes⟩) hafter
    show Begotten s.root.task c _
    simpa using hbegotten

/-- By induction on the levels of the tick. The calls below a root are of lower ranks, so that they
neither begin nor end an activation of a job of its kind. -/
theorem Ticked.continued {t : List (Happening Job)} {refused : List Job}
    (h : Ticked s w s' w' t refused) (hs : s.Descends calls) (hroot : s'.root.failure = none) :
    Continued s s' calls (hooks t) := by
  induction h generalizing calls with
  | @gaveUp s s' w w' t hready hstopped =>
      obtain ⟨-, ⟨hstarted, -⟩, -⟩ :=
        (hs.tidy.ready_keeps conduct_true (r := 0) trivial).of_ok hready
      simp [(hstarted s'.root List.mem_cons_self).unstopped] at hstopped
  | failed htaken hreason hfail =>
      exact absurd hroot ((fail_quiet releases_true _ _).of_ok hfail).2
  | @alone s w w₁ w' root turn t₁ notes t₂ state _ htaken hreason hnotes hsettled =>
      obtain ⟨j, control, v, records, -, ht₁, -, haim, -⟩ := htaken.call
      have htold : hooks (t₁ ++ (notes ++ t₂)) = s.starts ++ ([.ticked j] ++ hooks t₂) := by
        simp [ht₁, hnotes.hooks]
      refine ⟨haim, ⟨_, htold, unbroken_append.mpr ⟨unbroken_ticked j, ?_⟩⟩, begets_alone _⟩
      rcases hsettled.kept_or_exchanged with ⟨-, ht₂⟩ | ⟨-, ht₂⟩
      · exact ht₂ ▸ unbroken_nil
      · exact ht₂ ▸ hs.unbroken_stops _
  | @onward s sub s' w w₁ w₂ w₃ w' root m rest turn t₁ notes t₂ t₃ t₄ state _ _ htaken hreason
      hnotes hsettled hsub hopening hrejoin ih =>
      obtain ⟨j, control, v, records, hturn, ht₁, hj, haim, hcandidate⟩ := htaken.call
      obtain ⟨hm, hdelegates, hended, horigin⟩ := hsettled.descends hs hcandidate ht₁
      obtain ⟨ht₄, htask, -, hbelow⟩ := (rejoin_calls _ sub).of_ok hrejoin
      have hlower := hsub.unbroken hm.tidy hdelegates.rank_lt
      have htold : hooks (t₁ ++ (notes ++ (t₂ ++ (t₃ ++ t₄)))) =
          s.starts ++ ([.ticked j] ++ (hooks t₂ ++ hooks t₃)) := by
        simp [ht₁, ht₄, hnotes.hooks]
      have hcalls : calls ++ hooks (t₁ ++ (notes ++ (t₂ ++ (t₃ ++ t₄)))) =
          calls ++ (hooks t₁ ++ hooks t₂) ++ hooks t₃ := by
        simp [ht₄, hnotes.hooks]
      have haim' : s'.root.task.aim = s.root.task.aim := by
        rw [htask]
        exact haim
      refine ⟨haim', ⟨_, htold, ?_⟩, ?_⟩
      · exact unbroken_append.mpr ⟨unbroken_ticked j, unbroken_append.mpr ⟨hended, hlower⟩⟩
      rw [Begets, nodes]
      rcases hbelow with ⟨hfailure, hbelow⟩ | hbelow
      · obtain ⟨hsubaim, ⟨after, ht₃, hafter⟩, hchain⟩ := ih hm hfailure
        rw [hbelow, nodes, List.isChain_cons_cons]
        refine ⟨Begotten.congr ?_ haim' hsubaim, hcalls ▸ hchain⟩
        rw [ht₁] at horigin
        rw [hcalls, ht₁]
        exact hs.begets_held hturn hj horigin hended hlower ht₃ hafter
      · rw [hbelow]
        exact begets_alone _

theorem Descends.tick (hs : s.Descends calls) (trace : Trace) :
    (s.tick trace).Meets w (· = .overflow) fun p _ t => p.1.Descends (calls ++ hooks t) ∧
      ∃ visits, trace.Visited visits p.2 ∧ visits.length ≤ 3 := by
  refine (Act.Meets.ran (hs.tidy.tick_visits trace)).imp ?_
  rintro p w' t ⟨hrun, hworked, hvisits⟩
  refine ⟨?_, hvisits⟩
  by_cases hroot : p.1.root.failure = none
  · obtain ⟨-, -, -, refused, hticked⟩ :=
      (tickWithin_ticked depthLimit hs.tidy.sound.kempt trace w).of_ok hrun
    obtain ⟨haim, ⟨after, htold, hafter⟩, hbegotten⟩ := hticked.continued hs hroot
    refine ⟨hworked.tidy, fun _ => ?_, hbegotten⟩
    rw [htold, ← List.append_assoc]
    exact (hs.begun_starts.append hafter).congr haim
  · exact (hworked.resting hroot).descends

end Spine

end Arbiter
