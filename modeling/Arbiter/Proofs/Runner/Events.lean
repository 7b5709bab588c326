import Arbiter.Proofs.Runner.Halt
import Arbiter.Proofs.Runner.Operation
import Arbiter.Proofs.Spine.Trace

/-! The events of a runner. The changes of control that the sink is told of follow on each other
without a gap, and every tick ends with a report, whatever the tasks do and the lanes hold. -/

namespace Arbiter

variable {κ τ : Type} [Task κ τ] {k : κ}

/-! ## Single chains -/

namespace SingleChain

theorem tick_visits (c : SingleChain κ τ) (trace : Trace) :
    (c.tick trace).Keeps k (fun _ => True) Happening.Quiet fun p _ => p.1.name = c.name ∧
      ∃ visits, trace.Visited visits p.2 ∧ ∀ s, p.1.spine = some s → s.Toured visits := by
  have hgone : ∀ {c' : SingleChain κ τ} {visits : List Visit}, c'.spine = none →
      ∀ s, c'.spine = some s → s.Toured visits := by
    intro c' visits hnone s hs
    cases hnone.symm.trans hs
  unfold tick
  split
  · next h => exact Act.keeps_pure ⟨rfl, [], .nil trace, hgone h⟩
  · next s h =>
    split
    · refine (c.finish_quiet s _).bind ?_
      rintro c' _ ⟨hname, hnone⟩
      exact Act.keeps_pure ⟨hname, [], .nil trace, hgone hnone⟩
    · refine Act.Keeps.get_bind (Act.Keeps.ofExcept_bind (fun _ _ => trivial) fun finished _ => ?_)
      split
      · refine (Spine.stop_quiet releases_true none s).bind fun s' _ _ => ?_
        refine (c.finish_quiet s' _).bind ?_
        rintro c' _ ⟨hname, hnone⟩
        exact Act.keeps_pure ⟨hname, [], .nil trace, hgone hnone⟩
      · refine (Spine.tickWithin_visits Spine.depthLimit s trace).bind ?_
        rintro ⟨s', trace'⟩ _ ⟨visits, hvisited, htoured⟩
        dsimp only
        split
        · refine (c.finish_quiet s' _).bind ?_
          rintro c' _ ⟨hname, hnone⟩
          exact Act.keeps_pure ⟨hname, visits, hvisited, hgone hnone⟩
        · refine Act.keeps_pure ⟨rfl, visits, hvisited, ?_⟩
          rintro s'' hs
          cases hs
          exact htoured

end SingleChain

/-! ## Lanes -/

namespace Lane

instance : SteadyChain κ τ (Lane κ τ) where
  spine?_mapSpine l f := by cases l <;> rfl
  name_mapSpine l f := by cases l <;> rfl
  mapSpine_self l s hs := by
    cases l with
    | single c => exact congrArg single (SteadyChain.mapSpine_self c s hs)
    | plain c => exact congrArg plain (SteadyChain.mapSpine_self c s hs)

theorem run_quiet (l : Lane κ τ) (t : τ) :
    (l.run t).Keeps k (fun _ => True) Happening.Quiet fun l' _ => l'.name = l.name := by
  cases l with
  | single c => exact (c.run_quiet releases_true t).bind fun _ _ h => Act.keeps_pure h
  | plain c => exact Act.keeps_pure rfl

theorem cancel_quiet (l : Lane κ τ) :
    l.cancel.Keeps k (fun _ => True) Happening.Quiet fun l' _ => l'.name = l.name := by
  cases l with
  | single c =>
      refine (c.cancel_quiet releases_true).bind ?_
      rintro p _ (⟨-, rfl⟩ | rfl) <;> exact Act.keeps_pure rfl
  | plain c => exact Act.keeps_pure rfl

theorem onSpine_quiet {act : Spine τ → Act κ (Happening τ) (Spine τ)}
    (hact : ∀ s, (act s).Keeps k (fun _ => True) Happening.Quiet fun _ _ => True) (l : Lane κ τ) :
    (Chain.onSpine l act).Keeps k (fun _ => True) Happening.Quiet fun l' _ => l'.name = l.name := by
  rw [Chain.onSpine]
  split
  · exact Act.keeps_pure rfl
  · next s _ =>
    exact (hact s).bind fun _ _ _ => Act.keeps_pure (SteadyChain.name_mapSpine l _)

theorem tick_visits (l : Lane κ τ) (trace : Trace) :
    (Chain.tick l trace).Keeps k (fun _ => True) Happening.Quiet fun p _ => p.1.name = l.name ∧
      ∃ visits, trace.Visited visits p.2 ∧ ∀ s, Chain.spine? p.1 = some s → s.Toured visits := by
  show (l.tick trace).Keeps k _ _ _
  cases l with
  | single c => exact (c.tick_visits trace).bind fun _ _ h => Act.keeps_pure h
  | plain c =>
      refine Act.Keeps.bind (P := fun p _ => p.1.name = c.name ∧ ∃ visits,
        trace.Visited visits p.2 ∧ ∀ s, p.1.spine = some s → s.Toured visits) ?_ fun _ _ h =>
          Act.keeps_pure h
      rw [PlainChain.tick]
      split
      · next h =>
        refine Act.keeps_pure ⟨rfl, [], .nil trace, fun s hs => ?_⟩
        cases h.symm.trans hs
      · next s _ =>
        refine (Spine.tickWithin_visits Spine.depthLimit s trace).bind ?_
        rintro ⟨s', trace'⟩ _ ⟨visits, hvisited, htoured⟩
        refine Act.keeps_pure ⟨rfl, visits, hvisited, fun s'' hs => ?_⟩
        cases hs
        exact htoured

end Lane

/-! ## Changes of control -/

/-- The changes of control among events lead from one holder to another without a gap. -/
def Leads : Option String → List SinkEvent → Option String → Prop
  | a, [], b => a = b
  | a, .chainChanged previous next :: es, b => previous = a ∧ Leads next es b
  | a, .stateChanged _ :: es, b => Leads a es b
  | a, .tickFinished _ :: es, b => Leads a es b

theorem Leads.append {a b c : Option String} {es es' : List SinkEvent} (h : Leads a es b)
    (h' : Leads b es' c) : Leads a (es ++ es') c := by
  induction es generalizing a with
  | nil =>
      obtain rfl : a = b := h
      exact h'
  | cons e es ih =>
      cases e with
      | chainChanged previous next => exact ⟨h.1, ih h.2⟩
      | stateChanged change => exact ih h
      | tickFinished report => exact ih h

namespace Runner

variable {r r' : Runner (Lane κ τ)}

/-- What the sink is told at the end of a tick: the changes of state texts and the report. -/
def closing (r : Runner (Lane κ τ)) : List SinkEvent :=
  r.trace.changes.map .stateChanged ++ [.tickFinished r.report]

theorem leads_closing (r : Runner (Lane κ τ)) (a : Option String) : Leads a r.closing a := by
  rw [closing]
  induction r.trace.changes with
  | nil => exact rfl
  | cons change changes ih => exact ih

/-- The chain in control is there, and without one, or while disabled, nothing is reported. -/
structure Coherent (r : Runner (Lane κ τ)) : Prop where
  present : ∀ i, r.current = some i → i < r.chains.length
  halted : r.enabled = false → r.current = none
  idle : r.current = none → r.trace = {}

/-- What the sink is told in an operation: the change of control, if control moved, and then the
events that close a tick. -/
structure Told (r r' : Runner (Lane κ τ)) (closing : List SinkEvent) (trail : List (Happening τ)) :
    Prop where
  coherent : r'.Coherent
  name : r'.current = r.current → r'.currentName = r.currentName
  events : events trail = r.switch r' ++ closing

theorem Told.leads {closing : List SinkEvent} {trail : List (Happening τ)}
    (h : Told r r' closing trail) (hclosing : ∀ a, Leads a closing a) :
    Leads r.currentName (Arbiter.events trail) r'.currentName := by
  rw [h.events]
  refine Leads.append ?_ (hclosing _)
  rw [switch]
  split
  · next hcur => exact (h.name hcur).symm
  · exact ⟨rfl, rfl⟩

/-! ## Operations -/

/-- Control stays where it is. -/
theorem Told.of_current {trail : List (Happening τ)} (hr' : r'.Coherent)
    (hcur : r'.current = r.current) (hname : r'.currentName = r.currentName)
    (hevents : Arbiter.events trail = []) : Told r r' [] trail :=
  ⟨hr', fun _ => hname, by rw [hevents, switch_self hcur]; rfl⟩

/-- At most the spines of the lanes change. -/
theorem Told.of_lanes {lanes : List (Lane κ τ)} {trail : List (Happening τ)} (hr : r.Coherent)
    (hnames : lanes.map Chain.name = r.chains.map Chain.name)
    (hevents : Arbiter.events trail = []) :
    Told r { r with chains := lanes } [] trail := by
  have hlength : lanes.length = r.chains.length := by simpa using congrArg List.length hnames
  refine .of_current ⟨fun i hi => ?_, hr.halted, hr.idle⟩ rfl (currentName_eq hnames rfl) hevents
  show i < lanes.length
  rw [hlength]
  exact hr.present i hi

theorem register_told (hr : r.Coherent) (l : Lane κ τ) :
    (r.register l).Ensures k fun p _ t => Told r p.2 [] t := by
  rw [register]
  refine Act.Meets.note_bind (Act.meets_pure (.of_current ⟨?_, hr.halted, hr.idle⟩ rfl ?_ rfl))
  · intro i hi
    have := hr.present i hi
    simp only [List.length_append, List.length_singleton]
    omega
  · show Runner.nameAt _ r.current = r.nameAt r.current
    rw [nameAt_eq, nameAt_eq]
    cases hcur : r.current with
    | none => rfl
    | some i =>
        have hi := hr.present i hcur
        simp only [Option.bind_some, List.map_append]
        rw [List.getElem?_append_left (by simpa using hi)]

theorem enable_told (hr : r.Coherent) :
    (r.enable : Act κ (Happening τ) _).Ensures k fun r' _ t => Told r r' [] t := by
  rw [enable]
  split
  · exact Act.meets_pure (.of_lanes hr rfl rfl)
  · exact Act.Meets.note_bind
      (Act.meets_pure (.of_current ⟨hr.present, by simp, hr.idle⟩ rfl rfl rfl))

omit [Task κ τ] in
/-- Without a chain in control the runner is halted or idle. -/
theorem coherent_of_none (hcur : r.current = none) (htrace : r.trace = {}) : r.Coherent :=
  ⟨fun i hi => by simp [hcur] at hi, fun _ => hcur, fun _ => htrace⟩

theorem disable_told (r : Runner (Lane κ τ)) :
    r.disable.Ensures k fun r' _ t => Told r r' [] t := by
  refine (disable_halts releases_true r).imp ?_
  rintro r' _ t ⟨hhalted, hcalmed, hevents⟩
  refine ⟨coherent_of_none hhalted.current hhalted.trace, ?_, by rw [hevents, List.append_nil]⟩
  exact currentName_eq hcalmed.names

theorem stopCurrent_told (hr : r.Coherent) :
    r.stopCurrent.Ensures k fun r' _ t => Told r r' [] t := by
  refine (stopCurrent_meets releases_true r).imp ?_
  rintro r' _ t (⟨-, rfl, rfl⟩ | ⟨hcur, htrace, -, hcalmed, hevents⟩)
  · exact .of_lanes hr rfl rfl
  · refine ⟨coherent_of_none hcur htrace, ?_, by rw [hevents, List.append_nil]⟩
    exact currentName_eq hcalmed.names

theorem onLane_told (hr : r.Coherent) (place : Nat)
    {act : Lane κ τ → Act κ (Happening τ) (Lane κ τ)}
    (hact : ∀ l, (act l).Keeps k (fun _ => True) Happening.Quiet fun l' _ => l'.name = l.name) :
    (r.onLane place act).Ensures k fun r' _ t => Told r r' [] t := by
  rw [onLane]
  split
  · exact Act.meets_pure (.of_lanes hr rfl rfl)
  · next l hl =>
    refine Act.Meets.bind (hact l) ?_
    rintro l' _ t ⟨hquiet, hname⟩
    have hevents : Arbiter.events (t ++ []) = [] := by simp [events_of_quiet hquiet]
    exact Act.meets_pure (.of_lanes hr (Chain.map_set_of_eq hl hname) hevents)

/-! ## Ticks -/

/-- The nodes that a tick visited, root first. Their labels are the reported spine, the changes of
their state texts are those that the sink is told of, and the chain in control holds them. -/
structure Surveyed (r : Runner (Lane κ τ)) (visits : List Visit) : Prop where
  visited : ({} : Trace).Visited visits r.trace
  toured : ∀ l s, r.currentChain = some l → Chain.spine? l = some s → s.Toured visits

theorem tickChain_surveys (r : Runner (Lane κ τ)) :
    (r.tickChain r.current).Keeps k (fun _ => True) Happening.Quiet fun r' _ =>
      r' = { r with chains := r'.chains, trace := r'.trace } ∧
        r'.chains.map Chain.name = r.chains.map Chain.name ∧
          (r.current = none → r'.trace = {}) ∧ ∃ visits, Surveyed r' visits := by
  unfold tickChain
  split
  · next hcur =>
    refine Act.keeps_pure ⟨rfl, rfl, fun _ => rfl, [], .nil {}, fun l s hl => ?_⟩
    simp [currentChain, hcur] at hl
  · next i hcur =>
    split
    · next hi =>
      refine Act.keeps_pure ⟨rfl, rfl, fun _ => rfl, [], .nil {}, fun l s hl => ?_⟩
      simp [currentChain, hcur, hi] at hl
    · next l hl =>
      refine (l.tick_visits {}).bind ?_
      rintro ⟨l', trace⟩ _ ⟨hname, visits, hvisited, htoured⟩
      have hnames := Chain.map_set_of_eq hl hname
      refine Act.keeps_pure ⟨rfl, hnames, fun hnone => ?_, visits, hvisited, ?_⟩
      · simp [hnone] at hcur
      · intro m s hm hs
        have hself : (r.setChain i l').currentChain = some l' := by
          rw [currentChain, show (r.setChain i l').current = some i from hcur]
          exact List.getElem?_set_self (List.getElem?_eq_some_iff.mp hl).1
        obtain rfl := Option.some.inj (hself.symm.trans hm)
        exact htoured s hs

/-- A tick tells the sink of a change of control, then of the changes of state texts from the root
down, then of the report as it is at the end. -/
theorem tick_told (he : r.enabled = true) :
    r.tick.Ensures k fun r' _ t => Told r r' r'.closing t ∧ ∃ visits, Surveyed r' visits := by
  refine (tick_ensures he k).imp ?_
  rintro r' k' t ⟨selected, granted, ticked, reports, h⟩
  have hg := (grant_granted releases_true r selected).of_ok h.grant
  have htick := h.tick
  rw [← hg.current] at htick
  obtain ⟨hquiet, hticked, hnames, hidle, visits, hvisits⟩ :=
    (granted.value.tickChain_surveys (k := granted.context)).of_ok htick
  have hcur : r'.current = granted.value.current := by rw [h.value, hticked]
  have hchains : r'.chains = ticked.value.chains := by rw [h.value]
  have hnames' : r'.chains.map Chain.name = granted.value.chains.map Chain.name :=
    hchains ▸ hnames
  refine ⟨⟨⟨?_, ?_, ?_⟩, ?_, ?_⟩, visits, ?_, ?_⟩
  · intro i hi
    have hlength : r'.chains.length = r.chains.length := by
      simpa using congrArg List.length (hnames'.trans hg.chains.names)
    rw [hlength]
    rw [hcur, hg.current] at hi
    exact select_lt (hi ▸ h.select)
  · intro hdisabled
    have henabled : r'.enabled = r.enabled := by rw [h.value, hticked]; exact hg.enabled
    rw [henabled, he] at hdisabled
    cases hdisabled
  · intro hnone
    have htrace : r'.trace = ticked.value.trace := by rw [h.value]
    rw [htrace]
    exact hidle (hcur ▸ hnone)
  · exact fun hsame => currentName_eq (hnames'.trans hg.chains.names) hsame
  · have hclosing : r'.closing = ticked.value.closing := by rw [h.value]; rfl
    rw [h.trail_eq, events_append, events_append, hg.events, events_of_quiet hquiet, h.events,
      switch_congr hnames' hcur, hclosing]
    rfl
  · rw [h.value]
    exact hvisits.visited
  · intro l s hl hs
    rw [h.value] at hl
    exact hvisits.toured l s hl hs

/-! ## Runs -/

end Runner

/-- What is done with a runner: any lane may be registered, whatever it holds. -/
inductive Dealing (κ τ : Type) [Task κ τ] where
  | adopt (lane : Lane κ τ)
  | operate (op : Operation κ τ)

def Dealing.isTick : Dealing κ τ → Bool
  | operate .tick => true
  | _ => false

namespace Runner

variable {r : Runner (Lane κ τ)}

def deal (r : Runner (Lane κ τ)) : Dealing κ τ → Act κ (Happening τ) (Runner (Lane κ τ))
  | .adopt l => do
    let (_, r) ← r.register l
    pure r
  | .operate op => r.perform op

def dealAll (r : Runner (Lane κ τ)) :
    List (Dealing κ τ) → Act κ (Happening τ) (Runner (Lane κ τ))
  | [] => pure r
  | d :: rest => do
    let r ← r.deal d
    r.dealAll rest

/-- Whether a dealing is a tick that is not passed over. -/
def takesTick (r : Runner (Lane κ τ)) (d : Dealing κ τ) : Bool := d.isTick && r.enabled

theorem deal_told (hr : r.Coherent) (d : Dealing κ τ) :
    (r.deal d).Ensures k fun r' _ t =>
      Told r r' (if r.takesTick d then r'.closing else []) t ∧
        (r.takesTick d = true → ∃ visits, Surveyed r' visits) := by
  have hquiet : ∀ {m : Act κ (Happening τ) (Runner (Lane κ τ))}, r.takesTick d = false →
      (m.Ensures k fun r' _ t => Told r r' [] t) → m.Ensures k fun r' _ t =>
        Told r r' (if r.takesTick d then r'.closing else []) t ∧
          (r.takesTick d = true → ∃ visits, Surveyed r' visits) := by
    intro m hd hm
    rw [hd]
    exact hm.imp fun r' _ t h => ⟨h, nofun⟩
  have hregister : ∀ l : Lane κ τ, (r.register l >>= fun p => pure p.2).Ensures k
      fun r' _ t => Told r r' [] t := fun l =>
    (register_told hr l).bind fun p _ t h => Act.meets_pure (by simpa using h)
  cases d with
  | adopt l => exact hquiet rfl (hregister l)
  | operate op =>
      cases op with
      | tick =>
          by_cases he : r.enabled = true
          · have htakes : r.takesTick (.operate .tick) = true := he
            rw [htakes]
            exact (tick_told he).imp fun r' _ t h => ⟨h.1, fun _ => h.2⟩
          · refine hquiet (by simpa [takesTick, Dealing.isTick] using he) ?_
            show r.tick.Ensures k _
            rw [tick, if_neg he]
            exact Act.meets_pure (.of_lanes hr rfl rfl)
      | register c => exact hquiet rfl (hregister c.lane)
      | enable => exact hquiet rfl (enable_told hr)
      | disable => exact hquiet rfl (disable_told r)
      | stopCurrent => exact hquiet rfl (stopCurrent_told hr)
      | run place t => exact hquiet rfl (onLane_told hr place fun l => l.run_quiet t)
      | cancel place => exact hquiet rfl (onLane_told hr place fun l => l.cancel_quiet)
      | stopRoot place taker =>
          exact hquiet rfl (onLane_told hr place (Lane.onSpine_quiet fun s =>
            (Spine.stop_quiet releases_true taker s).imp fun _ _ _ => trivial))
      | suspendRoot place taker =>
          exact hquiet rfl (onLane_told hr place (Lane.onSpine_quiet fun s =>
            Spine.suspend_quiet releases_true taker s))
      | failRoot place reason =>
          exact hquiet rfl (onLane_told hr place (Lane.onSpine_quiet fun s =>
            (Spine.fail_quiet releases_true reason s).imp fun _ _ _ => trivial))
      | change f =>
          refine hquiet rfl (Act.Meets.bind (P := fun _ _ t => t = []) (Act.meets_modify rfl) ?_)
          rintro _ _ _ rfl
          exact Act.meets_pure (.of_lanes hr rfl rfl)

theorem dealAll_leads (hr : r.Coherent) (ds : List (Dealing κ τ)) :
    (r.dealAll ds).Ensures k fun r' _ t =>
      r'.Coherent ∧ Leads r.currentName (Arbiter.events t) r'.currentName := by
  induction ds generalizing r k with
  | nil => exact Act.meets_pure ⟨hr, rfl⟩
  | cons d ds ih =>
      refine (deal_told hr d).bind ?_
      rintro r₁ k₁ t ⟨htold, -⟩
      refine (ih htold.coherent).imp ?_
      rintro r₂ k₂ t' ⟨hr₂, hleads⟩
      refine ⟨hr₂, ?_⟩
      rw [events_append]
      refine (htold.leads fun a => ?_).append hleads
      split
      · exact r₁.leads_closing a
      · exact rfl

omit [Task κ τ] in
theorem coherent_withSink (sink : Sink) : (withSink sink : Runner (Lane κ τ)).Coherent :=
  coherent_of_none rfl rfl

/-- In every run of a runner the changes of control that the sink is told of lead from nobody to the
chain in control without a gap. Whatever is done next, the sink is told of one change if control
moves, and of none if not; a tick that is taken goes on with the changes of the state texts, in the
order of the reported spine, and ends with the report. Without a chain in control the reported spine
is empty, and a disabled runner has none. -/
theorem events_gap_free (sink : Sink) (ds : List (Dealing κ τ)) (k : κ) :
    ((withSink sink : Runner (Lane κ τ)).dealAll ds).Ensures k fun r k' t =>
      Leads none (Arbiter.events t) r.currentName ∧
        (r.currentChain = none → r.report.spine = []) ∧
        (r.enabled = false → r.current = none) ∧
        ∀ d : Dealing κ τ, (r.deal d).Ensures k' fun r' _ u =>
          Arbiter.events u = (if r'.current = r.current then []
              else [.chainChanged r.currentName r'.currentName]) ++
            (if d.isTick && r.enabled then
              r'.trace.changes.map .stateChanged ++ [.tickFinished r'.report] else []) ∧
          ((d.isTick && r.enabled) = true → ∃ visits : List Visit,
            r'.report.spine = visits.map Visit.label ∧
              r'.trace.changes = visits.filterMap Visit.change ∧
              (∀ v ∈ visits, ∀ c ∈ v.change, v.label = "<" ++ c.label ++ "> " ++ c.state) ∧
              ∀ l s, r'.currentChain = some l → Chain.spine? l = some s → s.Toured visits) := by
  refine (dealAll_leads (coherent_withSink sink) ds).imp ?_
  rintro r k' t ⟨hr, hleads⟩
  refine ⟨hleads, fun hnone => ?_, hr.halted, fun d => (deal_told hr d).imp ?_⟩
  · have hcur : r.current = none := by
      cases hcur : r.current with
      | none => rfl
      | some i =>
          have hi := hr.present i hcur
          simp [currentChain, hcur, hi] at hnone
    show r.trace.spine = []
    rw [hr.idle hcur]
    rfl
  · rintro r' _ u ⟨htold, htoured⟩
    refine ⟨htold.events, fun hticks => ?_⟩
    obtain ⟨visits, hvisits⟩ := htoured hticks
    exact ⟨visits, hvisits.visited.spine, hvisits.visited.changes, hvisits.visited.shown,
      hvisits.toured⟩

/-- A lane takes control from another one that is at work. -/
theorem events_gap_free_tours :
    ∃ d e, (withSink .silent).dealAll
        [.adopt (Newcomer.ofJob "Errands" 1 (.gotoTarget ⟨5, 0⟩)).lane, .operate .tick,
          .adopt (Newcomer.ofJob "Tours" 2 (.gotoTarget ⟨0, 5⟩)).lane] {} = .ok d ∧
      d.value.deal (.operate .tick) d.context = .ok e ∧
      Leads none (Arbiter.events d.trail) (some "Errands") ∧
      Arbiter.events e.trail =
        [.chainChanged (some "Errands") (some "Tours")] ++
          (e.value.trace.changes.map .stateChanged ++ [.tickFinished e.value.report]) ∧
      e.value.report.spine.length = 2 := by
  obtain ⟨d, hd, hp⟩ := Act.exists_ok
    (m := (withSink .silent).dealAll
      [.adopt (Newcomer.ofJob "Errands" 1 (.gotoTarget ⟨5, 0⟩)).lane, .operate .tick,
        .adopt (Newcomer.ofJob "Tours" 2 (.gotoTarget ⟨0, 5⟩)).lane])
    (k := ({} : World))
    (p := fun d => decide (d.value.currentName = some "Errands" ∧ d.value.enabled = true) &&
      (d.value.deal (.operate .tick)).passes d.context fun e =>
        decide (e.value.current ≠ d.value.current ∧ e.value.currentName = some "Tours" ∧
          e.value.report.spine.length = 2))
    (by decide +kernel)
  simp only [Bool.and_eq_true, decide_eq_true_eq] at hp
  obtain ⟨⟨hname, henabled⟩, hp⟩ := hp
  obtain ⟨e, he, hp⟩ := Act.exists_ok hp
  obtain ⟨hmoved, hname', hlength⟩ := of_decide_eq_true hp
  obtain ⟨hleads, -, -, hnext⟩ := (events_gap_free .silent _ _).of_ok hd
  have hevents := ((hnext (.operate .tick)).of_ok he).1
  rw [hname] at hleads
  rw [if_neg hmoved, hname, hname', henabled] at hevents
  exact ⟨d, e, hd, he, hleads, hevents, hlength⟩

end Runner

end Arbiter
