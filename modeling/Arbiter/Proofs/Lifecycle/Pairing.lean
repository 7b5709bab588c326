import Arbiter.Proofs.Lifecycle.Runner
import Arbiter.Proofs.Numbering.Runner

/-! Lifecycles over whole runs. Whatever is done to a runner, in any order, each instance is
started, ticked and stopped in turn, and none is let go while its activation is open. -/

namespace Arbiter

variable {κ τ : Type} [Task κ τ]

/-- A lane that has just got its number holds an instance that is not open, or nothing. -/
theorem Newcomer.keeps_numbered (c : Newcomer κ τ) (number n : Nat) :
    Keeps [(number, false)] n (Chain.lives (c.numbered number).lane) n
      ([] : List (Happening (Instance τ))) := by
  have hr := (c.numbered number).resting
  cases hs : Chain.spine? (c.numbered number).lane with
  | none =>
      rw [Chain.lives_of_none hs]
      exact .forget number n
  | some s =>
      have hnumber : s.root.task.number = number := by
        have hmap : (Chain.spine? c.lane).map (Spine.numbered number) = some s := by
          rw [← hs]
          show _ = Chain.spine? (c.lane.numbered number)
          cases c.lane <;> rfl
        obtain ⟨s', -, rfl⟩ := Option.map_eq_some_iff.mp hmap
        rfl
      have hlives : Chain.lives (c.numbered number).lane = [(number, false)] := by
        rw [Chain.lives_of_some hs, (hr s hs).lives_nodes, Spine.nodes, (hr s hs).alone]
        simp [Spine.ended, hnumber]
      rw [hlives]
      exact .refl _ _

namespace Runner

variable {r : Runner (Lane (Numbered κ) (Instance τ))}

/-- An action that brings in no instance forgets the one that is offered to it. -/
theorem keeps_forget {act : Act (Numbered κ) (Happening (Instance τ))
      (Runner (Lane (Numbered κ) (Instance τ)))} {k : Numbered κ} (number : Nat)
    (h : act.Ensures k fun r' k' t => Keeps r.lives k.next r'.lives k'.next t) :
    act.Ensures k fun r' k' t =>
      Keeps (r.lives ++ [(number, false)]) k.next r'.lives k'.next t := by
  refine h.imp fun r' k' t h => ?_
  have hforget : Keeps (r.lives ++ [(number, false)]) k.next r.lives k.next
      ([] : List (Happening (Instance τ))) := by
    simpa using (Keeps.forget number k.next).append_left r.lives
  exact hforget.trans h

theorem onLane_keeps_forget (hr : r.Orderly) (place number : Nat)
    {act : Lane (Numbered κ) (Instance τ) →
      Act (Numbered κ) (Happening (Instance τ)) (Lane (Numbered κ) (Instance τ))} (k : Numbered κ)
    (hact : ∀ l, Chain.Sound l → (act l).Ensures k fun l' k' t =>
      Keeps (Chain.lives l) k.next (Chain.lives l') k'.next t) :
    (r.onLane place act).Ensures k fun r' k' t =>
      Keeps (r.lives ++ [(number, false)]) k.next r'.lives k'.next t := by
  refine keeps_forget number ((onLane_keeps hr place [] k (.refl _ _) fun l hl => ?_).imp ?_)
  · simpa using hact l hl
  · intro r' k' t h
    simpa using h

/-- An operation leads from an account with the instance that it may bring in to the account after
it. -/
theorem perform_keeps (hr : r.Orderly) (op : Operation κ τ) (number : Nat) (k : Numbered κ) :
    (r.perform (op.numbered number)).Ensures k fun r' k' t =>
      Keeps (r.lives ++ [(number, false)]) k.next r'.lives k'.next t := by
  cases op with
  | register c =>
      refine Act.Meets.bind (P := fun p k' t =>
        Keeps (r.lives ++ [(number, false)]) k.next p.2.lives k'.next t) ?_ ?_
      · refine Act.Meets.note_bind (Act.meets_pure (Keeps.noted ?_ _))
        simpa [lives, livesOf] using (c.keeps_numbered number k.next).append_left r.lives
      · intro p k' t h
        apply Act.meets_pure
        rw [List.append_nil]
        exact h
  | tick => exact keeps_forget number (tick_keeps hr k)
  | enable =>
      apply keeps_forget number
      show (r.enable : Act (Numbered κ) (Happening (Instance τ)) _).Ensures k _
      rw [enable]
      split
      · exact Act.meets_pure (.refl _ _)
      · exact Act.Meets.note_bind (Act.meets_pure ((Keeps.refl _ _).noted _))
  | disable => exact keeps_forget number (disable_keeps hr k)
  | stopCurrent => exact keeps_forget number (stopCurrent_keeps hr k)
  | run place t =>
      exact onLane_keeps hr place _ k (.forget number k.next) fun l hl =>
        Lane.run_keeps hl ⟨t, number⟩ k
  | cancel place => exact onLane_keeps_forget hr place number k fun l hl => Lane.cancel_keeps hl k
  | stopRoot place taker =>
      exact onLane_keeps_forget hr place number k fun l hl =>
        Chain.onSpine_keeps hl k fun s hs => Spine.stop_keeps _ hs k
  | suspendRoot place taker =>
      exact onLane_keeps_forget hr place number k fun l hl =>
        Chain.onSpine_keeps hl k fun s _ => Spine.suspend_keeps _ s k
  | failRoot place reason =>
      exact onLane_keeps_forget hr place number k fun l hl =>
        Chain.onSpine_keeps hl k fun s hs => Spine.fail_keeps reason hs k
  | change f =>
      refine keeps_forget number (Act.Meets.bind (Act.meets_modify
        (Q := fun _ k' t => k'.next = k.next ∧ t = []) ⟨rfl, rfl⟩) ?_)
      intro _ k' t h
      apply Act.meets_pure
      rw [h.1, h.2]
      exact .refl _ _

theorem performNumbered_keeps (hr : r.Orderly) (op : Operation κ τ) (k : Numbered κ) :
    (r.performNumbered op).Ensures k fun r' k' t =>
      r'.Orderly ∧ Keeps r.lives k.next r'.lives k'.next t := by
  rw [performNumbered]
  refine Act.Meets.get_bind (Act.Meets.set_bind ?_)
  apply ((perform_ensures hr _ _).and (perform_keeps hr op k.next _)).imp
  intro r' k' t h
  refine ⟨h.1, ?_⟩
  have hfresh : Keeps r.lives k.next (r.lives ++ [(k.next, false)]) (k.next + 1)
      ([] : List (Happening (Instance τ))) := by
    simpa using (Keeps.fresh k.next).append_left r.lives
  exact hfresh.trans h.2

theorem performAllNumbered_keeps (hr : r.Orderly) (ops : List (Operation κ τ)) (k : Numbered κ) :
    (r.performAllNumbered ops).Ensures k fun r' k' t =>
      r'.Orderly ∧ Keeps r.lives k.next r'.lives k'.next t := by
  induction ops generalizing r k with
  | nil => exact Act.meets_pure ⟨hr, .refl _ _⟩
  | cons op ops ih =>
      apply (performNumbered_keeps hr op k).bind
      intro r' k' t h
      apply (ih h.1 k').imp
      intro r'' k'' u h'
      exact ⟨h'.1, h.2.trans h'.2⟩

theorem performAll_append (r : Runner (Lane κ τ)) (ops later : List (Operation κ τ)) :
    r.performAll (ops ++ later) = r.performAll ops >>= fun r => r.performAll later := by
  induction ops generalizing r with
  | nil => simp [performAll]
  | cons op ops ih => simp [performAll, ih]

theorem enabled_of_disable {sink : Sink} {earlier : List (Operation κ τ)} {k : κ}
    {d : Done κ (Happening τ) (Runner (Lane κ τ))}
    (h : (withSink sink : Runner (Lane κ τ)).performAll (earlier ++ [.disable]) k = .ok d) :
    d.value.enabled = false := by
  have he : ((withSink sink : Runner (Lane κ τ)).performAll (earlier ++ [.disable])).Ensures k
      fun r _ _ => r.enabled = false := by
    rw [performAll_append]
    apply (performAll_ensures (orderly_withSink sink) earlier k).bind
    intro r k' t hr
    apply (hr.disable k').bind
    intro r' k'' u hr'
    exact Act.meets_pure hr'.2
  exact he.of_ok h

/-- While the runner is disabled, no activation is open. -/
theorem Orderly.notMem_lives (hr : r.Orderly) (he : r.enabled = false) (i : Nat) :
    (i, true) ∉ r.lives := by
  intro hm
  obtain ⟨l, hl, hm⟩ := List.mem_flatMap.mp hm
  obtain ⟨j, hj⟩ := List.mem_iff_getElem?.mp hl
  have hrest := hr.resting hj (by simp [hr.halted he])
  cases hs : Chain.spine? l with
  | none =>
      rw [Chain.lives_of_none hs] at hm
      cases hm
  | some s =>
      rw [Chain.lives_of_some hs, (hrest s hs).lives_nodes] at hm
      simp [Spine.ended] at hm

/-- Take any run of operations and number the instances in it. The calls on each instance are
paired, an instance that is dropped has no open activation then, neither has any that is no longer
held, and after a disable none has. -/
theorem lifecycle_paired (sink : Sink) (ops : List (Operation κ τ)) (k : κ)
    (d : Done κ (Happening τ) (Runner (Lane κ τ)))
    (h : (withSink sink : Runner (Lane κ τ)).performAll ops k = .ok d) :
    ∃ d', (withSink sink : Runner (Lane (Numbered κ) (Instance τ))).performAllNumbered ops
        { context := k } = .ok d' ∧
      d'.value.Like d.value ∧ d'.trail.map Happening.plain = d.trail ∧
      (∀ i, Paired i d'.trail) ∧
      (∀ before t after, d'.trail = before ++ .dropped t :: after → Closed t.number before) ∧
      (∀ i, (∀ l ∈ d'.value.chains, ∀ n ∈ Chain.nodes l, n.task.number ≠ i) →
        Closed i d'.trail) ∧
      ∀ earlier, ops = earlier ++ [.disable] → ∀ i, Closed i d'.trail := by
  obtain ⟨d', hd', hlike, -, htrail⟩ :=
    ((withSink_like sink).performAllNumbered (k := { context := k }) ops).of_ok h
  obtain ⟨horderly, hkeeps⟩ :=
    (performAllNumbered_keeps (orderly_withSink sink) ops { context := k }).of_ok hd'
  have hlife := fun i => hkeeps.lifecycle i
  refine ⟨d', hd', hlike, htrail, fun i => (hlife i).1, ?_, ?_, ?_⟩
  · intro before t after ht
    exact (hlife t.number).2.1 before t after ht rfl
  · intro i hi
    refine (hlife i).2.2 fun hm => ?_
    obtain ⟨l, hl, hm⟩ := List.mem_flatMap.mp hm
    obtain ⟨n, hn, hni⟩ := List.mem_map.mp hm
    exact hi l hl n hn (congrArg Prod.fst hni)
  · intro earlier he i
    subst he
    have hdisabled := hlike.enabled.trans (enabled_of_disable h)
    exact (hlife i).2.2 (horderly.notMem_lives hdisabled i)

theorem lifecycle_paired_rest :
    ∃ d d', (withSink .silent : Runner (Lane World Job)).performAll
        [.register (.ofJob "rest" 5 .idle), .tick, .disable] {} = .ok d ∧
      (withSink .silent : Runner (Lane (Numbered World) (Instance Job))).performAllNumbered
        [.register (.ofJob "rest" 5 .idle), .tick, .disable] { context := {} } = .ok d' ∧
      callsOf 0 d'.trail = [.start, .tick, .stop] ∧ Closed 0 d'.trail := by
  obtain ⟨d, hd, -⟩ := Act.exists_ok (m := (withSink .silent : Runner (Lane World Job)).performAll
    [.register (.ofJob "rest" 5 .idle), .tick, .disable]) (k := {}) (p := fun _ => true)
    (by decide +kernel)
  obtain ⟨e, he, hcalls⟩ := Act.exists_ok
    (m := (withSink .silent : Runner (Lane (Numbered World) (Instance Job))).performAllNumbered
      [.register (.ofJob "rest" 5 .idle), .tick, .disable]) (k := { context := {} })
    (p := fun e => callsOf 0 e.trail == [.start, .tick, .stop]) (by decide +kernel)
  obtain ⟨d', hd', -, -, -, -, -, hclosed⟩ := lifecycle_paired _ _ _ d hd
  obtain rfl : e = d' := Except.ok.inj (he.symm.trans hd')
  refine ⟨d, e, hd, he, eq_of_beq hcalls, ?_⟩
  exact hclosed [.register (.ofJob "rest" 5 .idle), .tick] (by simp) 0

end Runner

end Arbiter
