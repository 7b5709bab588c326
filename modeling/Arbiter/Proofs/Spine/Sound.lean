import Arbiter.Proofs.Contract
import Arbiter.Spine.Tick

/-! Sound spines: what the flags of the nodes say about each other. Every operation on a root keeps
its spine sound and tells the sink nothing; a teardown calls exactly the stop hooks that are due. -/

namespace Arbiter

/-! ## The hooks of a trail -/

/-- The hook calls of a trail. -/
def hooks {τ : Type} (trail : List (Happening τ)) : List (Happening τ) :=
  trail.filter Happening.isHook

section Trails

variable {τ : Type}

@[simp] theorem hooks_nil : hooks ([] : List (Happening τ)) = [] := rfl

@[simp] theorem hooks_append (s t : List (Happening τ)) : hooks (s ++ t) = hooks s ++ hooks t :=
  List.filter_append ..

@[simp] theorem hooks_map_noted (rs : List Record) :
    hooks (rs.map (Happening.noted : Record → Happening τ)) = [] := by
  simp [hooks, Happening.isHook]

@[simp] theorem hooks_noted (r : Record) (t : List (Happening τ)) :
    hooks (.noted r :: t) = hooks t := rfl

@[simp] theorem hooks_reported (e : SinkEvent) (t : List (Happening τ)) :
    hooks (.reported e :: t) = hooks t := rfl

@[simp] theorem hooks_stopped (a : τ) (b : Option τ) (t : List (Happening τ)) :
    hooks (.stopped a b :: t) = .stopped a b :: hooks t := rfl

@[simp] theorem hooks_map_dropped {α : Type} (f : α → τ) (l : List α) :
    hooks (l.map fun a => Happening.dropped (f a)) = [] := by
  simp [hooks, Happening.isHook]

@[simp] theorem events_nil : events ([] : List (Happening τ)) = [] := rfl

@[simp] theorem events_noted (r : Record) (t : List (Happening τ)) :
    events (.noted r :: t) = events t := rfl

@[simp] theorem events_reported (e : SinkEvent) (t : List (Happening τ)) :
    events (.reported e :: t) = e :: events t := rfl

@[simp] theorem events_started (a : τ) (t : List (Happening τ)) :
    events (.started a :: t) = events t := rfl

@[simp] theorem events_ticked (a : τ) (t : List (Happening τ)) :
    events (.ticked a :: t) = events t := rfl

@[simp] theorem events_stopped (a : τ) (b : Option τ) (t : List (Happening τ)) :
    events (.stopped a b :: t) = events t := rfl

@[simp] theorem events_map_dropped {α : Type} (f : α → τ) (l : List α) :
    events (l.map fun a => Happening.dropped (f a)) = [] := by
  simp [events, Happening.event?]

attribute [simp] events_append events_map_noted

end Trails

variable {κ τ : Type}

/-! ## Sound nodes and spines -/

namespace Node

/-- A node is active once it has started, and inactive once it is stopped or has failed. -/
structure Sound (n : Node τ) : Prop where
  active_of_started : n.pending = false → n.active = true
  inactive_of_stopped : n.stopped = true → n.active = false
  inactive_of_failed : n.failure ≠ none → n.active = false

/-- What holds of every node below a root: its activation goes on, at least suspended. -/
structure Held (n : Node τ) : Prop where
  active : n.active = true
  unstopped : n.stopped = false
  unfailed : n.failure = none

/-- A node that has started, without a stop or a failure since. -/
structure Started (n : Node τ) : Prop extends n.Held where
  started : n.pending = false

theorem Held.sound {n : Node τ} (h : n.Held) : n.Sound :=
  ⟨fun _ => h.active, fun hs => by simp [h.unstopped] at hs, fun hf => absurd h.unfailed hf⟩

theorem Sound.started {n : Node τ} (h : n.Sound) (hp : n.pending = false) : n.Started := by
  have ha := h.active_of_started hp
  refine ⟨⟨ha, ?_, ?_⟩, hp⟩
  · cases hs : n.stopped with
    | false => rfl
    | true => simp [h.inactive_of_stopped hs] at ha
  · cases hf : n.failure with
    | none => rfl
    | some r => simp [h.inactive_of_failed (by simp [hf])] at ha

theorem Sound.pending_of_inactive {n : Node τ} (h : n.Sound) (ha : n.active = false) :
    n.pending = true := by
  cases hp : n.pending with
  | true => rfl
  | false => simp [h.active_of_started hp] at ha

end Node

namespace Spine

/-- An inactive root holds nothing, the nodes below are held, and below a node whose start is
pending the starts are pending as well. -/
structure Sound (s : Spine τ) : Prop where
  root : s.root.Sound
  below_nil : s.root.active = false → s.below = []
  held : ∀ n ∈ s.below, n.Held
  pending : s.nodes.Pairwise fun a b => a.pending = true → b.pending = true

/-- No activation: the root is alone, its start is pending, and it is not active. -/
structure Resting (s : Spine τ) : Prop where
  pending : s.root.pending = true
  inactive : s.root.active = false
  alone : s.below = []

theorem resting_ofTask (t : τ) : (ofTask t).Resting := ⟨rfl, rfl, rfl⟩

theorem Resting.sound {s : Spine τ} (h : s.Resting) : s.Sound := by
  refine ⟨⟨?_, fun _ => h.inactive, fun _ => h.inactive⟩, fun _ => h.alone, ?_, ?_⟩
  · simp [h.pending]
  · simp [h.alone]
  · simp [nodes, h.alone]

theorem Sound.resting {s : Spine τ} (h : s.Sound) (ha : s.root.active = false) : s.Resting :=
  ⟨h.root.pending_of_inactive ha, ha, h.below_nil ha⟩

/-- A node that was ticked and what it holds make a sound spine. -/
theorem sound_of_started {n : Node τ} {sub : Spine τ} (hn : n.Started) (hs : sub.Sound)
    (hr : sub.root.Started) : ({ root := n, below := sub.nodes } : Spine τ).Sound := by
  refine ⟨hn.toHeld.sound, fun ha => by simp [hn.active] at ha, ?_, ?_⟩
  · intro m hm
    rcases List.mem_cons.mp hm with rfl | hm
    · exact hr.toHeld
    · exact hs.held m hm
  · refine List.pairwise_cons.mpr ⟨fun b _ hp => ?_, hs.pending⟩
    simp [hn.started] at hp

theorem sound_alone {n : Node τ} (hn : n.Sound) : ({ root := n } : Spine τ).Sound :=
  ⟨hn, fun _ => rfl, by simp, by simp [nodes]⟩

/-- What a sound spine holds below its root is a sound spine. -/
theorem Sound.tail {n m : Node τ} {rest : List (Node τ)}
    (h : ({ root := n, below := m :: rest } : Spine τ).Sound) :
    m.Held ∧ ({ root := m, below := rest } : Spine τ).Sound := by
  have hm := h.held m (by simp)
  refine ⟨hm, hm.sound, fun ha => by simp [hm.active] at ha, ?_, ?_⟩
  · intro b hb
    exact h.held b (by simp [hb])
  · exact (List.pairwise_cons.mp h.pending).2

/-! ## Teardown -/

variable [Task κ τ]

/-- The stop hooks that are due: those of the nodes that have started. -/
def stops (taker : Option τ) (nodes : List (Node τ)) : List (Happening τ) :=
  (nodes.filter fun n => !n.pending).map fun n => .stopped n.task taker

theorem stops_cons (taker : Option τ) (n : Node τ) (nodes : List (Node τ)) :
    stops taker (n :: nodes) = stops taker [n] ++ stops taker nodes := by
  cases h : n.pending <;> simp [stops, h]

theorem Resting.stops_nodes {s : Spine τ} (h : s.Resting) (taker : Option τ) :
    stops taker s.nodes = [] := by
  simp [stops, nodes, h.pending, h.alone]

theorem leave_ensures (taker : Option τ) (n : Node τ) (k : κ) :
    (leave taker n).Ensures k fun m _ t =>
      m = { n with task := m.task } ∧ hooks t = stops taker [n] ∧ events t = [] := by
  rw [leave]
  split
  case isTrue h => exact Act.meets_pure ⟨rfl, by simp [stops, h], rfl⟩
  case isFalse h =>
    refine Act.Meets.bind (Act.Meets.call (R := fun _ _ t => hooks t = stops taker [n] ∧
      events t = []) ((Act.ensures_true _ k).imp fun _ _ t _ => ?_)) ?_
    · simp [stops, h]
    · intro task k' t ht
      exact Act.meets_pure ⟨rfl, by simpa using ht.1, by simpa using ht.2⟩

theorem halt_ensures (taker : Option τ) (n : Node τ) (k : κ) :
    (halt taker n).Ensures k fun m _ t =>
      m = { n with task := m.task } ∧ hooks t = stops taker [n] ∧ events t = [] := by
  rw [halt]
  exact Act.Meets.note_bind (leave_ensures taker n k)

theorem pause_ensures (taker : Option τ) (n : Node τ) (k : κ) :
    (pause taker n).Ensures k fun m _ t =>
      m = { n with task := m.task, pending := true } ∧ hooks t = stops taker [n] ∧
        events t = [] := by
  rw [pause]
  refine Act.Meets.note_bind ((leave_ensures taker n k).bind ?_)
  intro m k' t h
  obtain ⟨hm, hh, he⟩ := h
  refine Act.meets_pure ⟨?_, by simp [hh], by simp [he]⟩
  rw [hm]

/-- Active nodes are stopped from the top down. -/
theorem haltAll_ensures (taker : Option τ) (above nodes : List (Node τ)) (k : κ)
    (h : ∀ n ∈ nodes, n.active = true) :
    (haltAll taker above nodes).Ensures k fun _ _ t =>
      hooks t = stops taker nodes ∧ events t = [] := by
  induction nodes generalizing above k with
  | nil => exact Act.meets_pure ⟨rfl, rfl⟩
  | cons n rest ih =>
      rw [haltAll, if_pos (h n (by simp))]
      apply (halt_ensures taker n k).bind
      intro m k' t h
      obtain ⟨-, hh, he⟩ := h
      apply (ih (m :: above) k' fun b hb => h b (by simp [hb])).imp
      intro hs k'' u h
      obtain ⟨hh', he'⟩ := h
      rw [stops_cons, hooks_append, events_append, hh, hh', he, he']
      exact ⟨rfl, rfl⟩

omit [Task κ τ] in
theorem dropAll_meets {F : Fault → Prop} (nodes : List (Node τ)) (k : κ) :
    (dropAll nodes : Act κ (Happening τ) Unit).Meets k F fun _ k' t =>
      k' = k ∧ hooks t = [] ∧ events t = [] :=
  Act.meets_tellAll ⟨rfl, by simp, by simp⟩

theorem stopAndDrop_ensures (taker : Option τ) (nodes : List (Node τ)) (k : κ)
    (h : ∀ n ∈ nodes, n.active = true) :
    (stopAndDrop taker nodes).Ensures k fun _ _ t =>
      hooks t = stops taker nodes ∧ events t = [] := by
  rw [stopAndDrop]
  apply (haltAll_ensures taker [] nodes k h).bind
  intro halted k' t h
  obtain ⟨hh, he⟩ := h
  apply (dropAll_meets halted k').imp
  intro _ _ u h
  obtain ⟨-, hh', he'⟩ := h
  rw [hooks_append, events_append, hh, hh', he, he']
  exact ⟨by simp, rfl⟩

/-- A sound spine at rest has no started node to be stopped when its root is dropped. -/
theorem Sound.stopAndDrop_ensures {s : Spine τ} (hs : s.Sound) (taker : Option τ) (k : κ) :
    (stopAndDrop taker s.nodes).Ensures k fun _ _ t =>
      hooks t = stops taker s.nodes ∧ events t = [] := by
  cases ha : s.root.active with
  | true =>
      refine Spine.stopAndDrop_ensures taker s.nodes k fun n hn => ?_
      rcases List.mem_cons.mp hn with rfl | hn
      · exact ha
      · exact (hs.held n hn).active
  | false =>
      have hr := hs.resting ha
      rw [hr.stops_nodes]
      rw [stopAndDrop]
      refine Act.Meets.bind (P := fun _ _ t => hooks t = [] ∧ events t = []) ?_ ?_
      · rw [nodes, haltAll, if_neg (by simp [ha])]
        apply (dropAll_meets _ k).bind
        intro _ _ u h
        obtain ⟨-, hh, he⟩ := h
        exact Act.meets_pure (by simp [hh, he])
      · rintro halted k' t ⟨hh, he⟩
        apply (dropAll_meets halted k').imp
        intro _ _ u h
        obtain ⟨-, hh', he'⟩ := h
        simp [hh, hh', he, he']

/-- A teardown leaves a spine at rest, and the failure of its root as it was. It calls the stop
hooks that are due from the root down, no other hook, and tells the sink nothing. -/
structure Teardown (taker : Option τ) (s s' : Spine τ) (trail : List (Happening τ)) : Prop where
  resting : s'.Resting
  stopped : s.root.active = true → s'.root.stopped = true
  failure : s'.root.failure = s.root.failure
  hooks : hooks trail = stops taker s.nodes
  events : events trail = []

theorem stop_ensures (taker : Option τ) {s : Spine τ} (hs : s.Sound) (k : κ) :
    (s.stop taker).Ensures k fun s' _ t => Teardown taker s s' t := by
  rw [stop]
  split
  case isTrue ha =>
    apply (halt_ensures taker s.root k).bind
    intro n k' t h
    obtain ⟨hn, hh, he⟩ := h
    apply (stopAndDrop_ensures taker s.below k' fun m hm => (hs.held m hm).active).bind
    intro _ k'' u h
    obtain ⟨hh', he'⟩ := h
    refine Act.meets_pure ⟨⟨rfl, rfl, rfl⟩, fun _ => rfl, by rw [hn], ?_, by simp [he, he']⟩
    rw [nodes, stops_cons]
    simp [hh, hh']
  case isFalse ha =>
    have hr := hs.resting (by simpa using ha)
    exact Act.meets_pure ⟨hr, fun h => absurd h ha, rfl, by rw [hr.stops_nodes]; rfl, rfl⟩

theorem suspendBelow_ensures (taker : Option τ) (nodes : List (Node τ)) (k : κ)
    (h : ∀ n ∈ nodes, n.Held) :
    (suspendBelow taker nodes).Ensures k fun ms _ t =>
      (∀ m ∈ ms, m.Held ∧ m.pending = true) ∧ hooks t = stops taker nodes ∧ events t = [] := by
  induction nodes generalizing k with
  | nil => exact Act.meets_pure ⟨by simp, rfl, rfl⟩
  | cons n rest ih =>
      have hn := h n (by simp)
      rw [suspendBelow, if_pos (by simp [hn.active, hn.unstopped])]
      apply (pause_ensures taker n k).bind
      intro m k' t h
      obtain ⟨hm, hh, he⟩ := h
      apply (ih k' fun b hb => h b (by simp [hb])).bind
      intro ms k'' u h
      obtain ⟨hms, hh', he'⟩ := h
      refine Act.meets_pure ⟨?_, ?_, by simp [he, he']⟩
      · intro b hb
        rcases List.mem_cons.mp hb with rfl | hb
        · rw [hm]
          exact ⟨⟨hn.active, hn.unstopped, hn.unfailed⟩, rfl⟩
        · exact hms b hb
      · rw [stops_cons]
        simp [hh, hh']

theorem suspend_ensures (taker : Option τ) {s : Spine τ} (hs : s.Sound) (k : κ) :
    (s.suspend taker).Ensures k fun s' _ t =>
      s'.Sound ∧ (s'.root.active = true → s.root.active = true) ∧
        hooks t = stops taker s.nodes ∧ events t = [] := by
  rw [suspend]
  split
  case isTrue ha =>
    apply (pause_ensures taker s.root k).bind
    intro root k' t h
    obtain ⟨hroot, hh, he⟩ := h
    apply (suspendBelow_ensures taker s.below k' hs.held).bind
    intro below k'' u h
    obtain ⟨hb, hh', he'⟩ := h
    refine Act.meets_pure ⟨⟨?_, ?_, fun m hm => (hb m hm).1, ?_⟩, fun _ => ha, ?_, ?_⟩
    · rw [hroot]
      exact ⟨nofun, hs.root.inactive_of_stopped, hs.root.inactive_of_failed⟩
    · rw [hroot]
      simp [ha]
    · refine List.pairwise_cons.mpr ⟨fun m hm _ => (hb m hm).2, ?_⟩
      exact List.pairwise_of_forall_mem_list fun _ _ m hm _ => (hb m hm).2
    · rw [nodes, stops_cons]
      simp [hh, hh']
    · simp [he, he']
  case isFalse ha =>
    have hr := hs.resting (by simpa using ha)
    exact Act.meets_pure ⟨hs, fun h => h, by rw [hr.stops_nodes]; rfl, rfl⟩

theorem fail_ensures (reason : String) {s : Spine τ} (hs : s.Sound) (k : κ) :
    (s.fail reason).Ensures k fun s' _ t =>
      s'.Resting ∧ (s.root.active = true → s'.root.stopped = true) ∧
        s'.root.failure = some reason ∧ hooks t = stops none s.nodes ∧ events t = [] := by
  rw [fail]
  apply (stop_ensures none hs k).bind
  intro s' k' t h
  refine Act.Meets.note_bind (Act.meets_pure ⟨?_, h.stopped, rfl, by simp [h.hooks],
    by simp [h.events]⟩)
  exact ⟨h.resting.pending, h.resting.inactive, h.resting.alone⟩

/-! ## Ticks -/

omit [Task κ τ] in
/-- A root that starts keeps what it holds. -/
theorem Sound.restarted {s : Spine τ} (hs : s.Sound) {n : Node τ} (hn : n.Started) :
    ({ s with root := n } : Spine τ).Sound := by
  refine ⟨hn.toHeld.sound, fun h => by simp [hn.active] at h, hs.held, ?_⟩
  refine List.pairwise_cons.mpr ⟨fun b _ hp => ?_, (List.pairwise_cons.mp hs.pending).2⟩
  simp [hn.started] at hp

/-- After a start the root works, unless it gave up at once: then it rests again. -/
theorem start_ensures {s : Spine τ} (hs : s.Sound) (k : κ) :
    s.start.Ensures k fun s' _ t =>
      events t = [] ∧ s'.Sound ∧
        (s'.root.Started ∧ s'.below = s.below ∨
          s'.root.stopped = true ∧ s'.root.failure ≠ none) := by
  rw [start]
  refine Act.Meets.note_bind (Act.Meets.bind (Act.Meets.call (R := fun _ _ t => events t = [])
    ((Act.ensures_true _ _).imp fun _ _ t _ => by simp)) ?_)
  intro r k' t ht
  obtain ⟨task, reply⟩ := r
  have hn : ∀ c : Control, ({ s.root with
      task, control := c, pending := false, stopped := false, active := true,
      failure := none } : Node τ).Started := fun _ => ⟨⟨rfl, rfl, rfl⟩, rfl⟩
  dsimp only
  split
  · exact Act.meets_pure
      ⟨by simp [ht], hs.restarted (hn _), Or.inl ⟨hn _, rfl⟩⟩
  · apply (fail_ensures _ (hs.restarted (hn _)) k').imp
    intro s' k'' u h
    obtain ⟨hr, hstop, hf, -, he⟩ := h
    exact ⟨by simp [ht, he], hr.sound, Or.inr ⟨hstop rfl, by simp [hf]⟩⟩

theorem reportState_meets {F : Fault → Prop} (n : Node τ) (trace : Trace) (k : κ) :
    (reportState n trace).Meets k F fun r k' t =>
      (∃ state, r.1 = { n with reportedState := state }) ∧ k' = k ∧ events t = [] := by
  rw [reportState]
  split
  · exact Act.meets_pure ⟨⟨_, rfl⟩, rfl, rfl⟩
  · exact Act.Meets.note_bind (Act.meets_pure ⟨⟨_, rfl⟩, rfl, rfl⟩)

/-- What is held after a settlement is a sound spine again. -/
theorem settle_ensures {parent : Node τ} {below : List (Node τ)}
    (hs : ({ root := parent, below } : Spine τ).Sound) (candidate : Option τ) (k : κ) :
    (settle parent below candidate).Ensures k fun ns _ t =>
      events t = [] ∧
        ∀ m rest, ns = m :: rest → ({ root := m, below := rest } : Spine τ).Sound := by
  have hfresh : ∀ c : τ, ∀ m rest, [Node.fresh c] = m :: rest →
      ({ root := m, below := rest } : Spine τ).Sound := by
    intro c m rest h
    obtain ⟨rfl, rfl⟩ := List.cons.inj h
    exact (resting_ofTask c).sound
  have hkept : ∀ m rest, below = m :: rest → ({ root := m, below := rest } : Spine τ).Sound := by
    intro m rest h
    subst h
    exact hs.tail.2
  unfold settle
  split
  · exact Act.meets_pure ⟨rfl, nofun⟩
  · exact Act.meets_pure ⟨rfl, hfresh _⟩
  · rename_i n rest c
    split
    · exact Act.meets_pure ⟨rfl, hkept⟩
    · apply Act.Meets.get_bind
      split
      · exact Act.Meets.note_bind (Act.meets_pure ⟨rfl, hkept⟩)
      · apply (stopAndDrop_ensures (some c) (n :: rest) k
          fun m hm => (hs.held m hm).active).bind
        intro _ k' t h
        exact Act.meets_pure ⟨by simpa using h.2, hfresh c⟩
  · rename_i n rest
    apply Act.Meets.get_bind
    split
    · exact Act.meets_pure ⟨rfl, hkept⟩
    · apply (stopAndDrop_ensures none (n :: rest) k
        fun m hm => (hs.held m hm).active).bind
      intro _ k' t h
      exact Act.meets_pure ⟨by simpa using h.2, nofun⟩

/-- The root of a spine that is ready works, unless it gave up at its start. -/
theorem ready_ensures {s : Spine τ} (hs : s.Sound) (k : κ) :
    s.ready.Ensures k fun s' _ t =>
      events t = [] ∧ s'.Sound ∧
        (s'.root.Started ∧ s'.below = s.below ∨
          s'.root.stopped = true ∧ s'.root.failure ≠ none) := by
  rw [ready]
  split
  case isTrue => exact start_ensures hs k
  case isFalse hp =>
    exact Act.meets_pure ⟨rfl, hs, Or.inl ⟨hs.root.started (by simpa using hp), rfl⟩⟩

omit [Task κ τ] in
theorem turned_started {n : Node τ} (hn : n.Started) (turn : Turn τ) : (turned n turn).Started :=
  ⟨⟨hn.active, hn.unstopped, hn.unfailed⟩, hn.started⟩

theorem rejoin_ensures {n : Node τ} {sub : Spine τ} (hn : n.Started) (hs : sub.Sound)
    (hr : sub.root.failure = none → sub.root.Started) (k : κ) :
    (rejoin n sub).Ensures k fun s _ t => s.Sound ∧ s.root.Started ∧ events t = [] := by
  rw [rejoin]
  split
  case h_1 hf =>
    exact Act.meets_pure ⟨sound_of_started hn hs (hr (Option.map_eq_none_iff.mp hf)), hn, rfl⟩
  case h_2 failure _ =>
    apply (dropAll_meets sub.nodes k).bind
    intro _ k' t h
    have hn' : ({ n with control := { n.control with childFailure := some failure } } :
        Node τ).Started := ⟨⟨hn.active, hn.unstopped, hn.unfailed⟩, hn.started⟩
    exact Act.meets_pure ⟨sound_alone hn'.toHeld.sound, hn', by simp [h.2.2]⟩

/-- A tick keeps a spine sound; a root that does not fail in it works from then on. -/
theorem tickWithin_ensures (depth : Nat) {s : Spine τ} (hs : s.Sound) (trace : Trace) (k : κ) :
    (tickWithin depth s trace).Ensures k fun r _ t =>
      r.1.Sound ∧ (r.1.root.failure = none → r.1.root.Started) ∧ events t = [] := by
  induction depth generalizing s trace k with
  | zero => exact Act.meets_abort trivial
  | succ depth ih =>
      rw [tickWithin]
      apply (ready_ensures hs k).bind
      intro s₁ k₁ t₁ h
      obtain ⟨he₁, hs₁, hcase⟩ := h
      split
      case isTrue hstop =>
        refine Act.meets_pure ⟨hs₁, fun hf => ?_, by simpa using he₁⟩
        rcases hcase with ⟨h, -⟩ | h
        · simp [h.unstopped] at hstop
        · exact absurd hf h.2
      case isFalse hstop =>
        have hn₁ : s₁.root.Started := (hcase.resolve_right fun h => hstop h.1).1
        apply Act.Meets.bind (Act.Meets.call (R := fun _ _ t => events t = [])
          ((Act.ensures_true _ _).imp fun _ _ t _ => by simp))
        intro turn k₂ t₂ he₂
        have hn := turned_started hn₁ turn
        dsimp only
        split
        · apply (fail_ensures _ (hs₁.restarted hn) k₂).bind
          intro s₃ k₃ t₃ h
          obtain ⟨hr, -, hf, -, he₃⟩ := h
          exact Act.meets_pure ⟨hr.sound, fun h => by simp [hf] at h, by simp [he₁, he₂, he₃]⟩
        · apply (reportState_meets _ _ k₂).bind
          intro r k₃ t₃ h
          obtain ⟨n, trace'⟩ := r
          obtain ⟨⟨state, hn'⟩, -, he₃⟩ := h
          have hn : n.Started := by
            rw [show n = _ from hn']
            exact ⟨⟨hn.active, hn.unstopped, hn.unfailed⟩, hn.started⟩
          apply (settle_ensures (hs₁.restarted hn) turn.candidate k₃).bind
          intro below k₄ t₄ h
          obtain ⟨he₄, hbelow⟩ := h
          split
          · exact Act.meets_pure
              ⟨sound_alone hn.toHeld.sound, fun _ => hn, by simp [he₁, he₂, he₃, he₄]⟩
          · rename_i m rest
            apply (ih (hbelow m rest rfl) _ k₄).bind
            intro r k₅ t₅ h
            obtain ⟨sub, trace''⟩ := r
            obtain ⟨hsub, hroot, he₅⟩ := h
            apply (rejoin_ensures hn hsub hroot k₅).bind
            intro s₆ k₆ t₆ h
            exact Act.meets_pure
              ⟨h.1, fun _ => h.2.1, by simp [he₁, he₂, he₃, he₄, he₅, h.2.2]⟩

theorem tick_ensures {s : Spine τ} (hs : s.Sound) (trace : Trace) (k : κ) :
    (s.tick trace).Ensures k fun r _ t =>
      r.1.Sound ∧ (r.1.root.failure = none → r.1.root.Started) ∧ events t = [] :=
  tickWithin_ensures depthLimit hs trace k

end Spine

end Arbiter
