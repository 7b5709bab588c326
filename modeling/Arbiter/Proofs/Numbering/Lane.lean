import Arbiter.Proofs.Numbering.Spine
import Arbiter.Proofs.Runner.Operation

/-! Lanes of numbered instances. A lane is like a plain one if the two agree up to the numbers that
the tasks have, and whatever is done to both keeps them alike. -/

namespace Arbiter

variable {κ τ : Type} [Task κ τ]

/-! ## With numbers -/

def Node.numbered (number : Nat) (n : Node τ) : Node (Instance τ) :=
  { task := ⟨n.task, number⟩
    control := n.control
    reportedState := n.reportedState
    pending := n.pending
    stopped := n.stopped
    active := n.active
    failure := n.failure }

/-- A spine that holds nothing below its root has one number. -/
def Spine.numbered (number : Nat) (s : Spine τ) : Spine (Instance τ) :=
  { root := s.root.numbered number, below := s.below.map (Node.numbered number) }

omit [Task κ τ] in
theorem Spine.plain_numbered (number : Nat) (s : Spine τ) : (s.numbered number).plain = s := by
  have h : ∀ ns : List (Node τ), (ns.map (Node.numbered number)).map Node.plain = ns := by
    intro ns
    rw [List.map_map]
    exact List.map_id ns
  show ({ s with below := (s.below.map (Node.numbered number)).map Node.plain } : Spine τ) = s
  rw [h]

namespace Lane

/-- Priority and relevance are those of the plain lane. -/
def numbered (number : Nat) : Lane κ τ → Lane (Numbered κ) (Instance τ)
  | single c =>
    single
      { name := c.name
        priority := fun s => c.priority s.context
        relevance := fun s => c.relevance s.context
        spine := c.spine.map (Spine.numbered number)
        outcome := c.outcome }
  | plain c =>
    plain
      { name := c.name
        priority := fun spine s => c.priority (spine.map Spine.plain) s.context
        relevance := fun spine s => c.relevance (spine.map Spine.plain) s.context
        spine := c.spine.map (Spine.numbered number) }

end Lane

/-! ## Lanes that are alike up to numbers -/

structure SingleChain.Like (c' : SingleChain (Numbered κ) (Instance τ)) (c : SingleChain κ τ) :
    Prop where
  name : c'.name = c.name
  priority : ∀ s, c'.priority s = c.priority s.context
  relevance : ∀ s, c'.relevance s = c.relevance s.context
  spine : c'.spine.map Spine.plain = c.spine
  outcome : c'.outcome = c.outcome

structure PlainChain.Like (c' : PlainChain (Numbered κ) (Instance τ)) (c : PlainChain κ τ) :
    Prop where
  name : c'.name = c.name
  priority : ∀ spine s, c'.priority spine s = c.priority (spine.map Spine.plain) s.context
  relevance : ∀ spine s, c'.relevance spine s = c.relevance (spine.map Spine.plain) s.context
  spine : c'.spine.map Spine.plain = c.spine

inductive Lane.Like : Lane (Numbered κ) (Instance τ) → Lane κ τ → Prop
  | single {c' c} (h : SingleChain.Like c' c) : Like (.single c') (.single c)
  | plain {c' c} (h : PlainChain.Like c' c) : Like (.plain c') (.plain c)

open Act

namespace SingleChain

variable {c' : SingleChain (Numbered κ) (Instance τ)} {c : SingleChain κ τ} {k : Numbered κ}

omit [Task κ τ] in
theorem Like.with (h : c'.Like c) (spine : Option (Spine (Instance τ))) (outcome : Option Outcome) :
    Like { c' with spine, outcome } { c with spine := spine.map Spine.plain, outcome } :=
  ⟨h.name, h.priority, h.relevance, rfl, rfl⟩

theorem Like.vacate (h : c'.Like c) (taker : Option (Instance τ)) :
    Tracks Happening.plain (c'.vacate taker) (c.vacate (taker.map Instance.task)) k
      fun _ _ => True := by
  unfold SingleChain.vacate
  rw [← h.spine]
  cases c'.spine with
  | none => exact Tracks.pure trivial
  | some s => exact Spine.stopAndDrop_tracks taker s.nodes

theorem Like.isServing (h : c'.Like c) (t : Instance τ) : c'.isServing t = c.isServing t.task := by
  unfold SingleChain.isServing
  rw [← h.spine]
  cases c'.spine <;> rfl

theorem Like.run (h : c'.Like c) (t : Instance τ) :
    Tracks Happening.plain (c'.run t) (c.run t.task) k
      fun r' r => r'.1 = r.1 ∧ r'.2.Like r.2 := by
  refine Tracks.ite (by rw [h.isServing]) (fun _ => Tracks.pure ⟨rfl, h⟩) fun _ => ?_
  refine (h.vacate (some t)).bind fun _ _ k _ => ?_
  refine Tracks.note_bind (by rw [h.name]; rfl) fun _ => ?_
  exact Tracks.pure ⟨rfl, h.with _ _⟩

theorem Like.finish (h : c'.Like c) (s : Spine (Instance τ)) (outcome : Outcome) :
    Tracks Happening.plain (c'.finish s outcome) (c.finish s.plain outcome) k Like := by
  refine Tracks.note_bind (by rw [h.name]; rfl) fun _ => ?_
  refine (Spine.dropAll_tracks s.nodes).bind fun _ _ k _ => ?_
  exact Tracks.pure (h.with none _)

theorem Like.cancel (h : c'.Like c) :
    Tracks Happening.plain c'.cancel c.cancel k fun r' r => r'.1 = r.1 ∧ r'.2.Like r.2 := by
  unfold SingleChain.cancel
  rw [← h.spine]
  cases c'.spine with
  | none => exact Tracks.pure ⟨rfl, h⟩
  | some s =>
      refine (Spine.stop_tracks none s).bind fun s' s k hs => ?_
      subst hs
      refine Tracks.note_bind (by rw [h.name]; rfl) fun _ => ?_
      refine (Spine.dropAll_tracks s'.nodes).bind fun _ _ k _ => ?_
      exact Tracks.pure ⟨rfl, h.with none _⟩

theorem Like.tick (h : c'.Like c) (trace : Trace) :
    Tracks Happening.plain (c'.tick trace) (c.tick trace) k
      fun r' r => r'.1.Like r.1 ∧ r'.2 = r.2 := by
  unfold SingleChain.tick
  rw [← h.spine]
  cases c'.spine with
  | none => exact Tracks.pure ⟨h, rfl⟩
  | some s =>
      dsimp only [Option.map_some]
      rw [show s.plain.root.failureReport = s.root.failureReport from rfl]
      cases s.root.failureReport with
      | some failure =>
          refine (h.finish s _).bind fun c₁' c₁ k hc => ?_
          exact Tracks.pure ⟨hc, rfl⟩
      | none =>
          refine Tracks.get.bind fun k' k₁ k hk => ?_
          subst hk
          refine (Tracks.ofExcept rfl).bind fun done' done k hd => ?_
          subst hd
          refine Tracks.ite Iff.rfl (fun _ => ?_) fun _ => ?_
          · refine (Spine.stop_tracks none s).bind fun s' s k hs => ?_
            subst hs
            refine (h.finish s' _).bind fun c₁' c₁ k hc => ?_
            exact Tracks.pure ⟨hc, rfl⟩
          · refine (Spine.tick_tracks s trace).bind fun r' r k hr => ?_
            subst hr
            dsimp only
            rw [show r'.1.plain.root.failureReport = r'.1.root.failureReport from rfl]
            cases r'.1.root.failureReport with
            | some failure =>
                refine (h.finish r'.1 _).bind fun c₁' c₁ k hc => ?_
                exact Tracks.pure ⟨hc, rfl⟩
            | none =>
                refine Tracks.pure ⟨?_, rfl⟩
                rw [← h.outcome]
                exact h.with _ _

end SingleChain

namespace Lane

variable {l' : Lane (Numbered κ) (Instance τ)} {l : Lane κ τ} {k : Numbered κ}

omit [Task κ τ] in
theorem numbered_like (number : Nat) (l : Lane κ τ) : (l.numbered number).Like l := by
  have h : ∀ spine : Option (Spine τ),
      (spine.map (Spine.numbered number)).map Spine.plain = spine := by
    intro spine
    cases spine with
    | none => rfl
    | some s => exact congrArg some (Spine.plain_numbered number s)
  cases l with
  | single c => exact .single ⟨rfl, fun _ => rfl, fun _ => rfl, h c.spine, rfl⟩
  | plain c => exact .plain ⟨rfl, fun _ _ => rfl, fun _ _ => rfl, h c.spine⟩

theorem Like.spine? (h : l'.Like l) : (Chain.spine? l').map Spine.plain = Chain.spine? l := by
  cases h with
  | single h => exact h.spine
  | plain h => exact h.spine

theorem Like.name (h : l'.Like l) : Chain.name l' = Chain.name l := by
  cases h with
  | single h => exact h.name
  | plain h => exact h.name

theorem Like.mapSpine (h : l'.Like l) (s : Spine (Instance τ)) :
    Like (Chain.mapSpine l' fun _ => s) (Chain.mapSpine l fun _ => s.plain) := by
  cases h with
  | single h =>
      refine .single ⟨h.name, h.priority, h.relevance, ?_, h.outcome⟩
      show (Option.map _ _).map _ = Option.map _ _
      rw [← h.spine, Option.map_map, Option.map_map]
      rfl
  | plain h =>
      refine .plain ⟨h.name, h.priority, h.relevance, ?_⟩
      show (Option.map _ _).map _ = Option.map _ _
      rw [← h.spine, Option.map_map, Option.map_map]
      rfl

theorem Like.claim? (h : l'.Like l) (k : Numbered κ) :
    Arbiter.claim? l' k = Arbiter.claim? l k.context := by
  have hr : Chain.isRelevant l' k = Chain.isRelevant l k.context := by
    cases h with
    | single h =>
        show Except.ok (_ && _) = Except.ok (_ && _)
        rw [h.relevance, SingleChain.hasTask, SingleChain.hasTask, ← h.spine, Option.isSome_map]
    | plain h =>
        show Except.ok (PlainChain.relevance _ _ _) = Except.ok (PlainChain.relevance _ _ _)
        rw [h.relevance, h.spine]
  have hp : Chain.priority l' k = Chain.priority l k.context := by
    cases h with
    | single h => exact h.priority k
    | plain h =>
        show PlainChain.priority _ _ _ = PlainChain.priority _ _ _
        rw [h.priority, h.spine]
  unfold Arbiter.claim?
  rw [hr, hp]

theorem Like.tick (h : l'.Like l) (trace : Trace) :
    Tracks Happening.plain (Chain.tick l' trace) (Chain.tick l trace) k
      fun r' r => r'.1.Like r.1 ∧ r'.2 = r.2 := by
  show Tracks Happening.plain (Lane.tick l' trace) (Lane.tick l trace) k _
  unfold Lane.tick
  cases h with
  | single h =>
      refine (h.tick trace).bind fun r' r k hr => ?_
      exact Tracks.pure ⟨.single hr.1, hr.2⟩
  | @plain c' c h =>
      have hc : Tracks Happening.plain (c'.tick trace) (c.tick trace) k
          fun r' r => r'.1.Like r.1 ∧ r'.2 = r.2 := by
        unfold PlainChain.tick
        rw [← h.spine]
        cases c'.spine with
        | none => exact Tracks.pure ⟨h, rfl⟩
        | some s =>
            refine (Spine.tick_tracks s trace).bind fun r' r k hr => ?_
            subst hr
            exact Tracks.pure ⟨⟨h.name, h.priority, h.relevance, rfl⟩, rfl⟩
      refine hc.bind fun r' r k hr => ?_
      exact Tracks.pure ⟨.plain hr.1, hr.2⟩

theorem Like.run (h : l'.Like l) (t : Instance τ) :
    Tracks Happening.plain (l'.run t) (l.run t.task) k Like := by
  cases h with
  | plain h => exact Tracks.pure (.plain h)
  | single h =>
      refine (h.run t).bind fun r' r k hr => ?_
      exact Tracks.pure (.single hr.2)

theorem Like.cancel (h : l'.Like l) : Tracks Happening.plain l'.cancel l.cancel k Like := by
  cases h with
  | plain h => exact Tracks.pure (.plain h)
  | single h =>
      refine h.cancel.bind fun r' r k hr => ?_
      exact Tracks.pure (.single hr.2)

theorem Like.onSpine (h : l'.Like l)
    {act' : Spine (Instance τ) → Act (Numbered κ) (Happening (Instance τ)) (Spine (Instance τ))}
    {act : Spine τ → Act κ (Happening τ) (Spine τ)}
    (hact : ∀ s k, Tracks Happening.plain (act' s) (act s.plain) k fun s' s => s'.plain = s) :
    Tracks Happening.plain (Chain.onSpine l' act') (Chain.onSpine l act) k Like := by
  unfold Chain.onSpine
  rw [← h.spine?]
  cases Chain.spine? l' with
  | none => exact Tracks.pure h
  | some s =>
      refine (hact s k).bind fun s' s k hs => ?_
      subst hs
      exact Tracks.pure (h.mapSpine s')

theorem Like.stop (h : l'.Like l) :
    Tracks Happening.plain (Chain.stop l') (Chain.stop l) k Like :=
  h.onSpine fun s _ => Spine.stop_tracks none s

theorem Like.interrupt (h : l'.Like l) (next : Option String) :
    Tracks Happening.plain (Chain.interrupt l' next) (Chain.interrupt l next) k Like :=
  Tracks.note_bind (by rw [h.name]) fun _ => h.stop

end Lane

end Arbiter
