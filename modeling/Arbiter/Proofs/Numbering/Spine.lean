import Arbiter.Proofs.Lifecycle.Instance
import Arbiter.Proofs.Spine.Guise

/-! Numbers change nothing. A run with numbered instances goes step by step with the run of the
plain tasks: it ends in the same fault, or leaves the same, up to the numbers. -/

namespace Arbiter

variable {κ τ : Type}

/-! ## Without numbers -/

namespace Happening

def plain : Happening (Instance τ) → Happening τ
  | started t => started t.task
  | ticked t => ticked t.task
  | stopped t taker => stopped t.task (taker.map Instance.task)
  | dropped t => dropped t.task
  | reported e => reported e
  | noted r => noted r

theorem plain_eq_map : (plain : Happening (Instance τ) → Happening τ) = map Instance.task := by
  funext h
  cases h <;> rfl

theorem map_plain_noted (rs : List Record) :
    (rs.map (noted : Record → Happening (Instance τ))).map plain = rs.map noted := by
  simp [plain]

end Happening

def Node.plain (n : Node (Instance τ)) : Node τ :=
  { task := n.task.task
    control := n.control
    reportedState := n.reportedState
    pending := n.pending
    stopped := n.stopped
    active := n.active
    failure := n.failure }

def Spine.plain (s : Spine (Instance τ)) : Spine τ :=
  { root := s.root.plain, below := s.below.map Node.plain }

/-! ## Step by step -/

namespace Act

variable {ω ω' α α' β β' : Type}

/-- From a numbered context, the first action does what the second does from the plain one: both end
in one fault, or their values are related, and contexts and trails agree up to the numbers. -/
def Tracks (g : ω' → ω) (m' : Act (Numbered κ) ω' α') (m : Act κ ω α) (k : Numbered κ)
    (R : α' → α → Prop) : Prop :=
  match m' k, m k.context with
  | .error e', .error e => e' = e
  | .ok d', .ok d => R d'.value d.value ∧ d'.context.context = d.context ∧ d'.trail.map g = d.trail
  | _, _ => False

variable {g : ω' → ω} {k : Numbered κ} {R S : α' → α → Prop} {m' : Act (Numbered κ) ω' α'}
  {m : Act κ ω α}

theorem tracks_iff : Tracks g m' m k R ↔ Matches Numbered.context g m' m k R := by
  unfold Tracks Matches
  cases m' k <;> cases m k.context <;> rfl

/-- From a run without numbers to the numbered one. -/
theorem Tracks.of_ok (h : Tracks g m' m k R) {d : Done κ ω α} (hd : m k.context = .ok d) :
    ∃ d', m' k = .ok d' ∧ R d'.value d.value ∧ d'.context.context = d.context ∧
      d'.trail.map g = d.trail :=
  Matches.of_ok (tracks_iff.mp h) hd

theorem Tracks.pure {a' : α'} {a : α} (h : R a' a) :
    Tracks g (Pure.pure a' : Act (Numbered κ) ω' α') (Pure.pure a : Act κ ω α) k R :=
  ⟨h, rfl, rfl⟩

theorem Tracks.bind {T : β' → β → Prop} {f' : α' → Act (Numbered κ) ω' β'} {f : α → Act κ ω β}
    (hm : Tracks g m' m k R) (hf : ∀ a' a k, R a' a → Tracks g (f' a') (f a) k T) :
    Tracks g (m' >>= f') (m >>= f) k T :=
  tracks_iff.mpr ((tracks_iff.mp hm).bind fun a' a k h => tracks_iff.mp (hf a' a k h))

theorem Tracks.ofExcept {x' x : Except Fault α} (hx : x' = x) :
    Tracks g (Act.ofExcept x' : Act (Numbered κ) ω' α) (Act.ofExcept x : Act κ ω α) k Eq :=
  tracks_iff.mpr (Matches.ofExcept hx)

theorem Tracks.get :
    Tracks g (Act.get : Act (Numbered κ) ω' _) (Act.get : Act κ ω _) k fun s' s => s'.context = s :=
  ⟨rfl, rfl, rfl⟩

theorem Tracks.ite {c' c : Prop} [Decidable c'] [Decidable c] {n' : Act (Numbered κ) ω' α'}
    {n : Act κ ω α} (hc : c' ↔ c) (ht : c' → Tracks g m' m k R) (he : ¬c' → Tracks g n' n k R) :
    Tracks g (if c' then m' else n') (if c then m else n) k R :=
  tracks_iff.mpr (Matches.ite hc (fun h => tracks_iff.mp (ht h)) fun h => tracks_iff.mp (he h))

theorem Tracks.tellAll {ws' : List ω'} {ws : List ω} (h : ws'.map g = ws) :
    Tracks g (Act.tellAll ws') (Act.tellAll ws) k fun _ _ => True :=
  ⟨trivial, rfl, h⟩

/-- The notes of the two runs are written alike. -/
theorem Tracks.note_bind {s : Severity} {message : String} {fields' fields : List (String × String)}
    {f' : Unit → Act (Numbered κ) (Happening (Instance τ)) α'} {f : Unit → Act κ (Happening τ) α}
    (hfields : fields' = fields) (h : ∀ k, Tracks Happening.plain (f' ()) (f ()) k R) :
    Tracks Happening.plain (Act.note s message fields' >>= f') (Act.note s message fields >>= f)
      k R := by
  rw [Happening.plain_eq_map] at h ⊢
  exact tracks_iff.mpr (Matches.note_bind hfields fun k => tracks_iff.mp (h k))

/-- An action that knows nothing of numbers. -/
theorem Tracks.inside (m : Act κ ω α) : Tracks id (Numbered.inside m) m k Eq := by
  unfold Tracks Numbered.inside within
  cases m k.context with
  | error e => rfl
  | ok d => exact ⟨rfl, rfl, List.map_id _⟩

theorem Tracks.draw (t : Option τ) :
    Tracks id (Numbered.draw t : Act (Numbered κ) ω _) (Pure.pure t : Act κ ω _) k
      fun c t => c.map Instance.task = t := by
  cases t with
  | none => exact Tracks.pure rfl
  | some t => exact ⟨rfl, rfl, rfl⟩

end Act

open Act

/-! ## The hooks of an instance -/

variable [Task κ τ] {k : Numbered κ}

theorem onStart_tracks (i : Instance τ) (c : Control) :
    Tracks id (Task.onStart i c) (Task.onStart i.task c) k fun r' r =>
      (r'.1.task, r'.2) = r := by
  rw [← bind_pure (Task.onStart i.task c)]
  refine (Tracks.inside _).bind fun r' r k h => ?_
  exact Tracks.pure h

theorem onStop_tracks (i : Instance τ) (taker : Option (Instance τ)) :
    Tracks id (Task.onStop i taker) (Task.onStop i.task (taker.map Instance.task)) k fun i' t =>
      i'.task = t := by
  rw [← bind_pure (Task.onStop i.task _)]
  refine (Tracks.inside _).bind fun r' r k h => ?_
  exact Tracks.pure h

theorem onTick_tracks (i : Instance τ) (c : Control) :
    Tracks id (Task.onTick i c) (Task.onTick i.task c) k fun t' t =>
      t'.map Instance.task = t := by
  have hplain : Task.onTick i.task c = Task.onTick i.task c >>= fun turn =>
      Pure.pure turn.candidate >>= fun candidate => Pure.pure { turn with candidate } := by
    simp
  rw [hplain]
  refine (Tracks.inside _).bind fun r' r k h => ?_
  subst h
  refine (Tracks.draw r'.candidate).bind fun c' c k h => ?_
  exact Tracks.pure (by rw [← h]; rfl)

/-- Instances are tasks in a guise. -/
def Numbered.guise : Guise (Numbered κ) (Instance τ) κ τ where
  context := Numbered.context
  task := Instance.task
  onStart i c _ := tracks_iff.mp (onStart_tracks i c)
  onTick i c _ := tracks_iff.mp (onTick_tracks i c)
  onStop i taker _ := tracks_iff.mp (onStop_tracks i taker)
  isEqual _ _ := rfl
  label _ := rfl
  veto i k c := by
    show _ = Option.map _ (Option.map _ _)
    rw [Option.map_map]
    rfl

/-! ## Spines -/

namespace Spine

omit [Task κ τ] in
theorem dropAll_tracks (nodes : List (Node (Instance τ))) :
    Tracks Happening.plain (dropAll nodes : Act (Numbered κ) _ _)
      (dropAll (nodes.map Node.plain) : Act κ _ _) k fun _ _ => True := by
  apply Tracks.tellAll
  simp [Happening.plain, Node.plain]

theorem stopAndDrop_tracks (taker : Option (Instance τ)) (nodes : List (Node (Instance τ))) :
    Tracks Happening.plain (stopAndDrop taker nodes)
      (stopAndDrop (taker.map Instance.task) (nodes.map Node.plain)) k fun _ _ => True := by
  rw [Happening.plain_eq_map]
  exact tracks_iff.mpr (Numbered.guise.stopAndDrop_matches taker nodes)

theorem stop_tracks (taker : Option (Instance τ)) (s : Spine (Instance τ)) :
    Tracks Happening.plain (s.stop taker) (s.plain.stop (taker.map Instance.task)) k
      fun s' s => s'.plain = s := by
  rw [Happening.plain_eq_map]
  exact tracks_iff.mpr (Numbered.guise.stop_matches taker s)

theorem suspend_tracks (taker : Option (Instance τ)) (s : Spine (Instance τ)) :
    Tracks Happening.plain (s.suspend taker) (s.plain.suspend (taker.map Instance.task)) k
      fun s' s => s'.plain = s := by
  rw [Happening.plain_eq_map]
  exact tracks_iff.mpr (Numbered.guise.suspend_matches taker s)

theorem fail_tracks (reason : String) (s : Spine (Instance τ)) :
    Tracks Happening.plain (s.fail reason) (s.plain.fail reason) k fun s' s => s'.plain = s := by
  rw [Happening.plain_eq_map]
  exact tracks_iff.mpr (Numbered.guise.fail_matches reason s)

theorem tick_tracks (s : Spine (Instance τ)) (trace : Trace) :
    Tracks Happening.plain (s.tick trace) (s.plain.tick trace) k
      fun r' r => (r'.1.plain, r'.2) = r := by
  rw [Happening.plain_eq_map]
  exact tracks_iff.mpr (Numbered.guise.tick_matches s trace)

end Spine

end Arbiter
