import Arbiter.Proofs.Lifecycle.Root

/-! Roots that are stopped and then reset. Such a root goes on like one that has never started,
except that it keeps its state text and the one that it reported last. What else it keeps, a failure
of a sub-task that its task has not taken, is forgotten at the next start and not seen before. -/

namespace Arbiter

variable {κ τ : Type}

/-- The node without the failure that it has been told of. -/
def Node.untold (n : Node τ) : Node τ :=
  { n with control := { n.control with childFailure := none } }

namespace Spine

/-- The spine without the failure that its root has been told of. -/
def untold (s : Spine τ) : Spine τ := { s with root := s.root.untold }

/-- What can be seen of a spine: a failure that the root has been told of is out of sight while its
start is pending. -/
def seen (s : Spine τ) : Spine τ := if s.root.pending then s.untold else s

theorem seen_of_pending {s : Spine τ} (h : s.root.pending = true) : s.seen = s.untold := if_pos h

theorem seen_of_started {s : Spine τ} (h : s.root.pending = false) : s.seen = s :=
  if_neg (by simp [h])

theorem seen_untold {s : Spine τ} (h : s.root.pending = true) : s.untold.seen = s.seen := by
  rw [seen_of_pending h]
  exact seen_of_pending (s := s.untold) h

/-- What is seen after a change that has nothing to do with the failures that roots are told of. -/
theorem seen_of_commute {f : Spine τ → Spine τ} (hf : ∀ s, f s.untold = (f s).untold)
    (hp : ∀ s, s.root.pending = true → (f s).root.pending = true) (s : Spine τ) :
    (f s.seen).seen = (f s).seen := by
  cases h : s.root.pending with
  | false => rw [seen_of_started h]
  | true => rw [seen_of_pending h, hf, seen_untold (hp s h)]

theorem seen_seen (s : Spine τ) : s.seen.seen = s.seen :=
  seen_of_commute (f := id) (fun _ => rfl) (fun _ h => h) s

/-- A root that has not started since it was made or reset, with the state text and the text
reported last that it has from before. -/
def renewed (t : τ) (state reported : String) : Spine τ :=
  { root := { Node.fresh t with control := { state }, reportedState := reported } }

theorem renewed_empty (t : τ) : renewed t "" "" = ofTask t := rfl

/-! ## What is seen -/

section Queries

variable [Task κ τ]

theorem labels_seen (s : Spine τ) : s.seen.nodes.map Node.label = s.nodes.map Node.label := by
  unfold seen
  split <;> rfl

theorem failureReports_seen (s : Spine τ) :
    s.seen.nodes.map Node.failureReport = s.nodes.map Node.failureReport := by
  unfold seen
  split <;> rfl

theorem isFinished_seen (s : Spine τ) (k : κ) :
    s.seen.nodes.map (fun n => n.isFinished k) = s.nodes.map fun n => n.isFinished k := by
  unfold seen
  split <;> rfl

theorem anyTask_seen (s : Spine τ) (p : τ → Bool) : s.seen.anyTask p = s.anyTask p := by
  unfold seen
  split <;> rfl

theorem shown_seen (s : Spine τ) : s.seen.shown = s.shown := by
  unfold seen
  split <;> rfl

theorem label_seen (s : Spine τ) : s.seen.root.label = s.root.label :=
  (List.cons.inj (labels_seen s)).1

end Queries

/-! ## Operations on what is seen -/

section Operations

variable [Task κ τ] {s : Spine τ}

/-- A start forgets what is out of sight. -/
theorem ready_seen (s : Spine τ) : s.seen.ready = s.ready := by
  cases hp : s.root.pending with
  | false => rw [seen_of_started hp]
  | true =>
      rw [seen_of_pending hp, ready, ready, if_pos hp]
      exact if_pos hp

theorem tick_seen (s : Spine τ) (trace : Trace) : s.seen.tick trace = s.tick trace := by
  show tickWithin (depthLimit - 1 + 1) s.seen trace = tickWithin (depthLimit - 1 + 1) s trace
  rw [tickWithin, tickWithin, label_seen, ready_seen]

/-- A node whose start is pending has no stop hook to be called. -/
theorem leave_of_pending (taker : Option τ) {n : Node τ} (h : n.pending = true) :
    leave taker n = pure n :=
  if_pos h

omit [Task κ τ] in
/-- It suffices to look at roots whose start is pending. -/
theorem seen_of_untold {act : Spine τ → Act κ (Happening τ) (Spine τ)}
    (h : ∀ s : Spine τ, s.root.pending = true → seen <$> act s.untold = seen <$> act s)
    (s : Spine τ) : seen <$> act s.seen = seen <$> act s := by
  cases hp : s.root.pending with
  | false => rw [seen_of_started hp]
  | true => rw [seen_of_pending hp, h s hp]

theorem stop_seen (taker : Option τ) (s : Spine τ) :
    seen <$> s.seen.stop taker = seen <$> s.stop taker := by
  refine seen_of_untold (fun s hp => ?_) s
  rw [stop, stop]
  by_cases ha : s.root.active = true
  · rw [if_pos ha, if_pos (show s.untold.root.active = true from ha), halt, halt,
      leave_of_pending taker hp, leave_of_pending taker (n := s.untold.root) hp]
    simp only [bind_assoc, pure_bind, map_bind, map_pure]
    rfl
  · rw [if_neg ha, if_neg (show ¬s.untold.root.active = true from ha), map_pure, map_pure,
      seen_untold hp]

theorem suspend_seen (taker : Option τ) (s : Spine τ) :
    seen <$> s.seen.suspend taker = seen <$> s.suspend taker := by
  refine seen_of_untold (fun s hp => ?_) s
  rw [suspend, suspend]
  by_cases ha : s.root.active = true
  · rw [if_pos ha, if_pos (show s.untold.root.active = true from ha), pause, pause,
      leave_of_pending taker hp, leave_of_pending taker (n := s.untold.root) hp]
    simp only [bind_assoc, pure_bind, map_bind, map_pure]
    rfl
  · rw [if_neg ha, if_neg (show ¬s.untold.root.active = true from ha), map_pure, map_pure,
      seen_untold hp]

omit [Task κ τ] in
/-- What depends only on what is seen comes out the same after actions of which the same is seen. -/
theorem bind_of_seen {α : Type} {m m' : Act κ (Happening τ) (Spine τ)}
    {f : Spine τ → Act κ (Happening τ) α} (hf : ∀ s : Spine τ, f s.seen = f s)
    (h : seen <$> m = seen <$> m') : m >>= f = m' >>= f := by
  have hseen : ∀ m : Act κ (Happening τ) (Spine τ), m >>= f = (seen <$> m) >>= f := by
    intro m
    rw [bind_map_left]
    exact bind_congr fun s => (hf s).symm
  rw [hseen m, h, ← hseen m']

theorem fail_seen (reason : String) (s : Spine τ) :
    seen <$> s.seen.fail reason = seen <$> s.fail reason := by
  rw [fail, fail, map_bind, map_bind]
  refine bind_of_seen (fun s => ?_) (stop_seen none s)
  simp only [map_bind, map_pure, label_seen]
  rw [seen_of_commute (f := fun s => { s with root := { s.root with failure := some reason } })
    (fun _ => rfl) (fun _ h => h) s]

theorem perform_seen (op : Operation κ τ) (s : Spine τ) :
    seen <$> s.seen.perform op = seen <$> s.perform op := by
  cases op with
  | tick trace => rw [perform, perform, tick_seen]
  | stop taker => exact stop_seen taker s
  | suspend taker => exact suspend_seen taker s
  | fail reason => exact fail_seen reason s
  | reset =>
      rw [perform, perform, map_pure, map_pure,
        seen_of_commute (f := reset) (fun _ => rfl) (fun _ _ => rfl) s]
  | change f => rw [perform, perform, map_bind, map_bind, map_pure, map_pure, seen_seen]
  | alter f =>
      rw [perform, perform, map_pure, map_pure, seen_of_commute
        (f := fun s => { s with root := { s.root with task := f s.root.task } }) (fun _ => rfl)
        (fun _ h => h) s]

/-- By induction on the operations: what comes after one depends only on what is seen. -/
theorem performAll_seen (s : Spine τ) (ops : List (Operation κ τ)) :
    seen <$> s.seen.performAll ops = seen <$> s.performAll ops := by
  induction ops generalizing s with
  | nil => rw [performAll, performAll, map_pure, map_pure, seen_seen]
  | cons op ops ih =>
      rw [performAll, performAll, map_bind, map_bind]
      exact bind_of_seen ih (perform_seen op s)

end Operations

/-! ## Renewal -/

section Renewal

variable [Task κ τ] {s : Spine τ}

/-- A stop keeps the texts of the root. -/
theorem stop_texts (taker : Option τ) (s : Spine τ) (k : κ) :
    (s.stop taker).Ensures k fun s' _ _ =>
      s'.root.control.state = s.root.control.state ∧
        s'.root.reportedState = s.root.reportedState := by
  rw [stop]
  split
  · apply (halt_ensures taker s.root k).bind
    intro n k' t h
    apply (Act.ensures_true _ k').bind
    intro _ k'' u _
    refine Act.meets_pure ?_
    rw [h.1]
    exact ⟨rfl, rfl⟩
  · exact Act.meets_pure ⟨rfl, rfl⟩

omit [Task κ τ] in
/-- A root at rest that is reset looks like a new one with the texts of the old one. -/
theorem Resting.seen_reset (hs : s.Resting) :
    s.reset.seen = renewed s.root.task s.root.control.state s.root.reportedState := by
  have hbelow := hs.alone
  cases s
  subst hbelow
  rfl

/-- Take any run of operations on a new root without a reset, a stop and then a reset. From then on
the root goes on exactly like one that has never started and has the state text and the text
reported last of the old one: the same faults, contexts, hook calls and records, the same is seen of
the nodes, and each tick leaves the same nodes and the same trace. If both texts are empty that is a
new root; if the state text is not, the first label tells it from one. -/
theorem reset_renews (t : τ) (before : List (Operation κ τ)) (hbefore : ∀ op ∈ before, op ≠ .reset)
    (taker : Option τ) (k : κ) :
    ((ofTask t).performAll before).Ensures k fun s k' _ =>
      (s.stop taker).Ensures k' fun s' _ _ =>
        (∀ later : List (Operation κ τ),
          seen <$> s'.reset.performAll later = seen <$>
            (renewed s'.root.task s.root.control.state s.root.reportedState).performAll later) ∧
        (∀ (later : List (Operation κ τ)) (trace : Trace),
          (s'.reset.performAll later >>= fun s => s.tick trace) =
            (renewed s'.root.task s.root.control.state s.root.reportedState).performAll later >>=
              fun s => s.tick trace) ∧
        (s.root.control.state = "" → s.root.reportedState = "" →
          renewed s'.root.task s.root.control.state s.root.reportedState = ofTask s'.root.task) ∧
        (s'.reset.root.label = (ofTask s'.root.task).root.label ↔ s.root.control.state = "") := by
  apply ((resting_ofTask t).sound.performAll hbefore k).imp
  intro s k' _ hs
  apply ((stop_ensures taker hs k').and (stop_texts taker s k')).imp
  rintro s' k'' _ ⟨hdown, hstate, hreported⟩
  have hseen := hdown.resting.seen_reset
  rw [hstate, hreported] at hseen
  have hlater : ∀ later : List (Operation κ τ), seen <$> s'.reset.performAll later = seen <$>
      (renewed s'.root.task s.root.control.state s.root.reportedState).performAll later := by
    intro later
    rw [← hseen, performAll_seen]
  refine ⟨hlater, fun later trace => ?_, fun hs hr => ?_, ?_⟩
  · exact bind_of_seen (fun s => tick_seen s trace) (hlater later)
  · rw [hs, hr, renewed_empty]
  · show "<" ++ Task.label s'.root.task ++ "> " ++ s'.root.control.state =
      "<" ++ Task.label s'.root.task ++ "> " ++ "" ↔ s.root.control.state = ""
    rw [hstate, String.append_right_inj]

/-- A walk that runs into a wall, is stopped before it takes the failure of its step, and reset. -/
theorem reset_renews_walk :
    ∃ d e, (ofTask (Job.gotoTarget ⟨9, 0⟩)).performAll [.tick {}, .tick {}]
        { blocked := Area.addRectangle ⟨1, 0⟩ ⟨1, 0⟩ {} } = .ok d ∧
      d.value.stop none d.context = .ok e ∧
      e.value.reset.root.control.childFailure = some ⟨"Step East", "path blocked"⟩ ∧
      ∀ later : List (Operation World Job), seen <$> e.value.reset.performAll later =
        seen <$> (renewed (.gotoTarget ⟨9, 0⟩) "9 left" "9 left").performAll later := by
  obtain ⟨d, hd, hp⟩ := Act.exists_ok
    (m := (ofTask (Job.gotoTarget ⟨9, 0⟩)).performAll [.tick {}, .tick {}])
    (k := { blocked := Area.addRectangle ⟨1, 0⟩ ⟨1, 0⟩ {} })
    (p := fun d => (d.value.stop none).passes d.context fun e =>
      decide (d.value.root.control.state = "9 left" ∧ d.value.root.reportedState = "9 left" ∧
        e.value.root.task = .gotoTarget ⟨9, 0⟩ ∧
        e.value.reset.root.control.childFailure = some ⟨"Step East", "path blocked"⟩))
    (by decide +kernel)
  obtain ⟨e, he, hp⟩ := Act.exists_ok hp
  obtain ⟨hstate, hreported, htask, hfailure⟩ := of_decide_eq_true hp
  obtain ⟨hlater, -⟩ := ((reset_renews (Job.gotoTarget ⟨9, 0⟩) [.tick {}, .tick {}]
    (by simp) none _).of_ok hd).of_ok he
  rw [hstate, hreported, htask] at hlater
  exact ⟨d, e, hd, he, hfailure, hlater⟩

/-- An idler that was stopped and reset is not like a new one: it still waits, and says so no
more. -/
theorem reset_keeps_texts :
    ∃ d e f, (ofTask Job.idle).performAll [.tick {}, .stop none, .reset] {} = .ok d ∧
      d.value.root.task = .idle ∧
      d.value.root.label = "<Idle> waiting" ∧ (ofTask Job.idle).root.label = "<Idle> " ∧
      d.value.tick {} d.context = .ok e ∧ e.value.2.changes = [] ∧
      (ofTask Job.idle).tick {} d.context = .ok f ∧ f.value.2.changes = [⟨"Idle", "waiting"⟩] := by
  obtain ⟨d, hd, hp⟩ := Act.exists_ok
    (m := (ofTask Job.idle).performAll [.tick {}, .stop none, .reset]) (k := {})
    (p := fun d => decide (d.value.root.task = .idle ∧ d.value.root.label = "<Idle> waiting") &&
      ((d.value.tick {}).passes d.context fun e => decide (e.value.2.changes = [])) &&
      ((ofTask Job.idle).tick {}).passes d.context fun f =>
        decide (f.value.2.changes = [⟨"Idle", "waiting"⟩]))
    (by decide +kernel)
  simp only [Bool.and_eq_true, decide_eq_true_eq] at hp
  obtain ⟨⟨⟨htask, hlabel⟩, htick⟩, hfresh⟩ := hp
  obtain ⟨e, he, hquiet⟩ := Act.exists_ok htick
  obtain ⟨f, hf, hreport⟩ := Act.exists_ok hfresh
  exact ⟨d, e, f, hd, htask, hlabel, rfl, he, of_decide_eq_true hquiet, hf,
    of_decide_eq_true hreport⟩

end Renewal

end Spine

end Arbiter
