import Mathlib.Data.List.Forall2
import Arbiter.Proofs.Numbering.Lane

/-! Runners of numbered instances. Every operation that brings in a task gives it a fresh number,
and a numbered run goes with the plain one from beginning to end. -/

namespace Arbiter

variable {κ τ : Type} [Task κ τ]

/-! ## Operations with numbers -/

namespace Newcomer

def numbered (number : Nat) (c : Newcomer κ τ) : Newcomer (Numbered κ) (Instance τ) where
  lane := c.lane.numbered number
  resting := by
    intro s hs
    have hs : (Chain.spine? c.lane).map (Spine.numbered number) = some s := by
      rw [← hs]
      cases c.lane <;> rfl
    obtain ⟨s', hs', rfl⟩ := Option.map_eq_some_iff.mp hs
    have hr := c.resting s' hs'
    exact ⟨hr.pending, hr.inactive, by simp [Spine.numbered, hr.alone]⟩

end Newcomer

namespace Operation

def numbered (number : Nat) : Operation κ τ → Operation (Numbered κ) (Instance τ)
  | register c => register (c.numbered number)
  | tick => tick
  | enable => enable
  | disable => disable
  | stopCurrent => stopCurrent
  | run place t => run place ⟨t, number⟩
  | cancel place => cancel place
  | stopRoot place taker => stopRoot place (taker.map fun t => ⟨t, number⟩)
  | suspendRoot place taker => suspendRoot place (taker.map fun t => ⟨t, number⟩)
  | failRoot place reason => failRoot place reason
  | change f => change fun s => { s with context := f s.context }

end Operation

namespace Runner

/-- Performs an operation; the task that it brings in gets the next number. -/
def performNumbered (r : Runner (Lane (Numbered κ) (Instance τ))) (op : Operation κ τ) :
    Act (Numbered κ) (Happening (Instance τ)) (Runner (Lane (Numbered κ) (Instance τ))) := do
  let s ← Act.get
  Act.set { s with next := s.next + 1 }
  r.perform (op.numbered s.next)

theorem performNumbered_apply (r : Runner (Lane (Numbered κ) (Instance τ))) (op : Operation κ τ)
    (s : Numbered κ) :
    r.performNumbered op s = r.perform (op.numbered s.next) { s with next := s.next + 1 } := by
  rw [performNumbered]
  simp only [Act.bind_apply, Act.get_apply, Act.set_apply]
  cases r.perform (op.numbered s.next) { s with next := s.next + 1 } <;> simp

def performAllNumbered (r : Runner (Lane (Numbered κ) (Instance τ))) :
    List (Operation κ τ) →
      Act (Numbered κ) (Happening (Instance τ)) (Runner (Lane (Numbered κ) (Instance τ)))
  | [] => pure r
  | op :: rest => do
    let r ← r.performNumbered op
    r.performAllNumbered rest

end Runner

/-! ## Runners that are alike up to numbers -/

open Act

namespace Runner

structure Like (r' : Runner (Lane (Numbered κ) (Instance τ))) (r : Runner (Lane κ τ)) : Prop where
  chains : List.Forall₂ Lane.Like r'.chains r.chains
  current : r'.current = r.current
  enabled : r'.enabled = r.enabled
  trace : r'.trace = r.trace
  sink : r'.sink = r.sink

variable {r' : Runner (Lane (Numbered κ) (Instance τ))} {r : Runner (Lane κ τ)} {k : Numbered κ}

omit [Task κ τ] in
theorem getElem?_like {lanes' : List (Lane (Numbered κ) (Instance τ))} {lanes : List (Lane κ τ)}
    (h : List.Forall₂ Lane.Like lanes' lanes) (i : Nat) :
    lanes'[i]? = none ∧ lanes[i]? = none ∨
      ∃ l' l, lanes'[i]? = some l' ∧ lanes[i]? = some l ∧ l'.Like l := by
  induction h generalizing i with
  | nil => exact Or.inl ⟨rfl, rfl⟩
  | cons hl _ ih =>
      cases i with
      | zero => exact Or.inr ⟨_, _, rfl, rfl, hl⟩
      | succ i => exact ih i

omit [Task κ τ] in
theorem set_like {lanes' : List (Lane (Numbered κ) (Instance τ))} {lanes : List (Lane κ τ)}
    (h : List.Forall₂ Lane.Like lanes' lanes) (i : Nat) {l' : Lane (Numbered κ) (Instance τ)}
    {l : Lane κ τ} (hl : l'.Like l) : List.Forall₂ Lane.Like (lanes'.set i l') (lanes.set i l) := by
  induction h generalizing i with
  | nil => exact .nil
  | cons ha hrest ih =>
      cases i with
      | zero => exact .cons hl hrest
      | succ i => exact .cons ha (ih i)

omit [Task κ τ] in
theorem Like.setChain (h : r'.Like r) (i : Nat) {l' : Lane (Numbered κ) (Instance τ)}
    {l : Lane κ τ} (hl : l'.Like l) : Like (r'.setChain i l') (r.setChain i l) :=
  ⟨set_like h.chains i hl, h.current, h.enabled, h.trace, h.sink⟩

theorem Like.nameAt (h : r'.Like r) (place : Option Nat) : r'.nameAt place = r.nameAt place := by
  cases place with
  | none => rfl
  | some i =>
      show (r'.chains[i]?).map Chain.name = (r.chains[i]?).map Chain.name
      rcases getElem?_like h.chains i with ⟨h₁, h₂⟩ | ⟨l', l, h₁, h₂, hl⟩
      · rw [h₁, h₂]
        rfl
      · rw [h₁, h₂]
        exact congrArg some hl.name

theorem Like.currentName (h : r'.Like r) : r'.currentName = r.currentName := by
  have := h.nameAt r'.current
  rw [h.current] at this
  unfold Runner.currentName Runner.currentChain
  rw [h.current]
  exact this

omit [Task κ τ] in
theorem Like.emit (h : r'.Like r) (e : SinkEvent) :
    Tracks Happening.plain (r'.emit e : Act (Numbered κ) (Happening (Instance τ)) _)
      (r.emit e : Act κ (Happening τ) _) k Like := by
  rw [Runner.emit]
  rw [h.sink]
  refine Tracks.bind (R := fun _ _ => True) ⟨trivial, rfl, rfl⟩ fun _ _ k _ => ?_
  refine (Tracks.tellAll (Happening.map_plain_noted _)).bind fun _ _ k _ => ?_
  exact Tracks.pure ⟨h.chains, h.current, h.enabled, h.trace, rfl⟩

omit [Task κ τ] in
theorem Like.emitAll (h : r'.Like r) (es : List SinkEvent) :
    Tracks Happening.plain (r'.emitAll es : Act (Numbered κ) (Happening (Instance τ)) _)
      (r.emitAll es : Act κ (Happening τ) _) k Like := by
  induction es generalizing r' r k with
  | nil => exact Tracks.pure h
  | cons e es ih => exact (h.emit e).bind fun r₁' r₁ k h₁ => ih h₁

theorem Like.interruptHolder (h : r'.Like r) (next : Option String) :
    Tracks Happening.plain (r'.interruptHolder next) (r.interruptHolder next) k Like := by
  unfold Runner.interruptHolder
  rw [h.current]
  cases r.current with
  | none => exact Tracks.pure h
  | some i =>
      dsimp only
      rcases getElem?_like h.chains i with ⟨h₁, h₂⟩ | ⟨l', l, h₁, h₂, hl⟩
      · rw [h₁, h₂]
        exact Tracks.pure h
      · rw [h₁, h₂]
        refine (hl.interrupt next).bind fun l₁' l₁ k hl₁ => ?_
        exact Tracks.pure (h.setChain i hl₁)

theorem Like.handOver (h : r'.Like r) (selected : Option Nat) :
    Tracks Happening.plain (r'.handOver selected) (r.handOver selected) k Like := by
  rw [Runner.handOver]
  rw [h.nameAt, h.currentName]
  refine (h.interruptHolder _).bind fun r₁' r₁ k h₁ => ?_
  refine (h₁.emit _).bind fun r₂' r₂ k h₂ => ?_
  exact Tracks.pure ⟨h₂.chains, rfl, h₂.enabled, h₂.trace, h₂.sink⟩

theorem Like.grant (h : r'.Like r) (selected : Option Nat) :
    Tracks Happening.plain (r'.grant selected) (r.grant selected) k Like :=
  Tracks.ite (by rw [h.current]) (fun _ => Tracks.pure h) fun _ => h.handOver selected

theorem Like.release (h : r'.Like r) :
    Tracks Happening.plain r'.release r.release k Like :=
  Tracks.ite (by rw [h.current]) (fun _ => h.handOver none) fun _ => Tracks.pure h

theorem Like.tickChain (h : r'.Like r) (selected : Option Nat) :
    Tracks Happening.plain (r'.tickChain selected) (r.tickChain selected) k Like := by
  have hlike : Like { r' with trace := {} } { r with trace := {} } :=
    ⟨h.chains, h.current, h.enabled, rfl, h.sink⟩
  unfold Runner.tickChain
  cases selected with
  | none => exact Tracks.pure hlike
  | some i =>
      dsimp only
      rcases getElem?_like h.chains i with ⟨h₁, h₂⟩ | ⟨l', l, h₁, h₂, hl⟩
      · rw [h₁, h₂]
        exact Tracks.pure hlike
      · rw [h₁, h₂]
        refine (hl.tick {}).bind fun p' p k hp => ?_
        have hset := h.setChain i hp.1
        exact Tracks.pure ⟨hset.chains, hset.current, hset.enabled, hp.2, hset.sink⟩

theorem select_like {lanes' : List (Lane (Numbered κ) (Instance τ))} {lanes : List (Lane κ τ)}
    (h : List.Forall₂ Lane.Like lanes' lanes) (k : Numbered κ) :
    select lanes' k = select lanes k.context := by
  have hfrom : ∀ index best, selectFrom k lanes' index best =
      selectFrom k.context lanes index best := by
    induction h with
    | nil => exact fun _ _ => rfl
    | cons hl _ ih =>
        intro index best
        rw [selectFrom, selectFrom, hl.claim? k]
        simp only [ih]
  unfold select
  rw [hfrom]

theorem Like.tick (h : r'.Like r) : Tracks Happening.plain r'.tick r.tick k Like := by
  refine Tracks.ite (by rw [h.enabled]) (fun _ => ?_) fun _ => Tracks.pure h
  refine Tracks.bind (R := fun s' s => s'.context = s) Tracks.get fun s' s k hs => ?_
  subst hs
  refine (Tracks.ofExcept (select_like h.chains s')).bind fun selected' selected k hsel => ?_
  subst hsel
  refine (h.grant selected').bind fun r₁' r₁ k h₁ => ?_
  refine (h₁.tickChain selected').bind fun r₂' r₂ k h₂ => ?_
  rw [h₂.trace]
  refine (h₂.emitAll _).bind fun r₃' r₃ k h₃ => ?_
  have hreport : r₃'.report = r₃.report := by
    unfold Runner.report
    rw [h₃.currentName, h₃.trace, h₃.enabled]
  rw [hreport]
  exact h₃.emit _

omit [Task κ τ] in
theorem Like.enable (h : r'.Like r) :
    Tracks Happening.plain (r'.enable : Act (Numbered κ) (Happening (Instance τ)) _)
      (r.enable : Act κ (Happening τ) _) k Like := by
  refine Tracks.ite (by rw [h.enabled]) (fun _ => Tracks.pure h) fun _ => ?_
  refine Tracks.note_bind rfl fun _ => ?_
  exact Tracks.pure ⟨h.chains, h.current, rfl, h.trace, h.sink⟩

theorem stopAll_like {lanes' : List (Lane (Numbered κ) (Instance τ))} {lanes : List (Lane κ τ)}
    (h : List.Forall₂ Lane.Like lanes' lanes) :
    Tracks Happening.plain (stopAll lanes') (stopAll lanes) k (List.Forall₂ Lane.Like) := by
  induction h generalizing k with
  | nil => exact Tracks.pure .nil
  | cons hl _ ih =>
      refine hl.stop.bind fun l' l k hl => ?_
      refine ih.bind fun rest' rest k hrest => ?_
      exact Tracks.pure (.cons hl hrest)

theorem Like.disable (h : r'.Like r) : Tracks Happening.plain r'.disable r.disable k Like := by
  refine (stopAll_like h.chains).bind fun lanes' lanes k hl => ?_
  have h₁ : Like { r' with chains := lanes' } { r with chains := lanes } :=
    ⟨hl, h.current, h.enabled, h.trace, h.sink⟩
  refine h₁.release.bind fun r₂' r₂ k h₂ => ?_
  have hend : Like { r₂' with enabled := false, trace := {} }
      { r₂ with enabled := false, trace := {} } := ⟨h₂.chains, h₂.current, rfl, rfl, h₂.sink⟩
  refine Tracks.ite (by rw [h₂.enabled]) (fun _ => ?_) fun _ => Tracks.pure hend
  exact Tracks.note_bind rfl fun _ => Tracks.pure hend

theorem Like.stopCurrent (h : r'.Like r) :
    Tracks Happening.plain r'.stopCurrent r.stopCurrent k Like := by
  unfold Runner.stopCurrent
  rw [h.current]
  cases r.current with
  | none => exact Tracks.pure h
  | some i =>
      dsimp only
      rcases getElem?_like h.chains i with ⟨h₁, h₂⟩ | ⟨l', l, h₁, h₂, hl⟩
      · rw [h₁, h₂]
        exact Tracks.pure h
      · rw [h₁, h₂]
        refine hl.stop.bind fun l₁' l₁ k hl₁ => ?_
        refine ((h.setChain i hl₁).handOver none).bind fun r₂' r₂ k h₂ => ?_
        exact Tracks.pure ⟨h₂.chains, h₂.current, h₂.enabled, rfl, h₂.sink⟩

theorem Like.register (h : r'.Like r) {l' : Lane (Numbered κ) (Instance τ)} {l : Lane κ τ}
    (hl : l'.Like l) :
    Tracks Happening.plain (r'.register l') (r.register l) k fun p' p => p'.2.Like p.2 := by
  refine Tracks.note_bind (by rw [hl.name, h.chains.length_eq]) fun _ => ?_
  refine Tracks.pure ⟨?_, h.current, h.enabled, h.trace, h.sink⟩
  exact List.rel_append h.chains (.cons hl .nil)

omit [Task κ τ] in
theorem Like.onLane (h : r'.Like r) (place : Nat)
    {act' : Lane (Numbered κ) (Instance τ) →
      Act (Numbered κ) (Happening (Instance τ)) (Lane (Numbered κ) (Instance τ))}
    {act : Lane κ τ → Act κ (Happening τ) (Lane κ τ)}
    (hact : ∀ {l' l}, Lane.Like l' l → Tracks Happening.plain (act' l') (act l) k Lane.Like) :
    Tracks Happening.plain (r'.onLane place act') (r.onLane place act) k Like := by
  unfold Runner.onLane
  rcases getElem?_like h.chains place with ⟨h₁, h₂⟩ | ⟨l', l, h₁, h₂, hl⟩
  · rw [h₁, h₂]
    exact Tracks.pure h
  · rw [h₁, h₂]
    refine (hact hl).bind fun l₁' l₁ k hl₁ => ?_
    exact Tracks.pure (h.setChain place hl₁)

/-! ## Runs -/

theorem Like.perform (h : r'.Like r) (op : Operation κ τ) (number : Nat) :
    Tracks Happening.plain (r'.perform (op.numbered number)) (r.perform op) k Like := by
  cases op with
  | register c =>
      refine (h.register (Lane.numbered_like number c.lane)).bind fun p' p k hp => ?_
      exact Tracks.pure hp
  | tick => exact h.tick
  | enable => exact h.enable
  | disable => exact h.disable
  | stopCurrent => exact h.stopCurrent
  | run place t => exact h.onLane place fun hl => hl.run ⟨t, number⟩
  | cancel place => exact h.onLane place fun hl => hl.cancel
  | stopRoot place taker =>
      refine h.onLane place fun hl => hl.onSpine fun s k => ?_
      have := Spine.stop_tracks (k := k) (taker.map fun t => (⟨t, number⟩ : Instance τ)) s
      cases taker <;> exact this
  | suspendRoot place taker =>
      refine h.onLane place fun hl => hl.onSpine fun s k => ?_
      have := Spine.suspend_tracks (k := k) (taker.map fun t => (⟨t, number⟩ : Instance τ)) s
      cases taker <;> exact this
  | failRoot place reason =>
      exact h.onLane place fun hl => hl.onSpine fun s k => Spine.fail_tracks reason s
  | change f =>
      refine Tracks.bind (R := fun _ _ => True) ⟨trivial, rfl, rfl⟩ fun _ _ k _ => ?_
      exact Tracks.pure h

theorem Like.performNumbered (h : r'.Like r) (op : Operation κ τ) :
    Tracks Happening.plain (r'.performNumbered op) (r.perform op) k Like := by
  have := h.perform (k := { k with next := k.next + 1 }) op k.next
  unfold Tracks at this ⊢
  rwa [performNumbered_apply]

theorem Like.performAllNumbered (h : r'.Like r) (ops : List (Operation κ τ)) :
    Tracks Happening.plain (r'.performAllNumbered ops) (r.performAll ops) k Like := by
  induction ops generalizing r' r k with
  | nil => exact Tracks.pure h
  | cons op ops ih => exact (h.performNumbered op).bind fun r₁' r₁ k h₁ => ih h₁

omit [Task κ τ] in
theorem withSink_like (sink : Sink) :
    Like (withSink sink : Runner (Lane (Numbered κ) (Instance τ))) (withSink sink) :=
  ⟨.nil, rfl, rfl, rfl, rfl⟩

end Runner

end Arbiter
