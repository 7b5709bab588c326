import Arbiter.Proofs.Numbering.Spine
import Arbiter.Proofs.Spine.Lasting
import Arbiter.Proofs.Spine.Sound

/-! Continuity. When a task that works asks for a sub-task, what is held below its node goes on,
outlasts the candidate, or is stopped as a whole before the candidate begins. A candidate that is
refused is never heard of again. -/

namespace Arbiter

variable {κ τ : Type}

/-- Nothing but log records. -/
def Noted (trail : List (Happening τ)) : Prop := ∀ h ∈ trail, ∃ r, h = .noted r

theorem noted_nil : Noted ([] : List (Happening τ)) := by simp [Noted]

theorem Noted.called {P : κ → τ → Prop} {k : κ} {trail : List (Happening τ)} (h : Noted trail) :
    Called P k trail := by
  apply called_of_none
  intro x hx
  obtain ⟨r, rfl⟩ := h x hx
  rfl

theorem noted_single (r : Record) : Noted [(.noted r : Happening τ)] := by simp [Noted]

/-- The hook that comes first when a trail goes on. -/
theorem head?_hooks_append {t : List (Happening τ)} {h : Happening τ}
    (ht : (hooks t).head? = some h) (u : List (Happening τ)) :
    (hooks (t ++ u)).head? = some h := by
  rw [hooks_append, List.head?_append, ht, Option.some_or]

/-- The first hook of a node that is ticked. -/
def Node.opening (n : Node τ) : Happening τ := if n.pending then .started n.task else .ticked n.task

namespace Spine

variable [Task κ τ]

/-! ## The rule -/

/-- What becomes of the nodes below a node whose task asks for the candidate: the nodes that are
held then, with the context and the trail that led there, and the candidate if it is refused. -/
inductive Settled (k : κ) (below : List (Node τ)) (candidate : Option τ) :
    List (Node τ) → κ → List (Happening τ) → List τ → Prop where
  /-- Nothing is held. -/
  | free (hbelow : below = []) :
      Settled k below candidate (candidate.toList.map Node.fresh) k [] []
  /-- The candidate is for the same unit of work as the node that is held. -/
  | equal {n : Node τ} {c : τ} (hheld : below.head? = some n) (hcandidate : candidate = some c)
      (hequal : Task.isEqual c n.task = true) :
      Settled k below candidate below k [] [c]
  /-- A node on the spine that is held refuses to make room. -/
  | forced {n : Node τ} {trail : List (Happening τ)}
      (hother : ∀ m ∈ below.head?, ∀ c ∈ candidate, Task.isEqual c m.task = false)
      (hn : n ∈ below) (hrefuses : n.refuses k candidate = true) (hnoted : Noted trail) :
      Settled k below candidate below k trail candidate.toList
  /-- The spine that is held is stopped from the root down, and then all of it is dropped. -/
  | exchanged {k' : κ} {trail : List (Happening τ)} {dropped : List τ} (hbelow : below ≠ [])
      (hother : ∀ m ∈ below.head?, ∀ c ∈ candidate, Task.isEqual c m.task = false)
      (hyields : ∀ m ∈ below, m.refuses k candidate = false)
      (hstop : stopAndDrop candidate below k = .ok ⟨(), k', trail ++ dropped.map .dropped⟩)
      (hhooks : hooks trail = stops candidate below) (hdropped : dropped.length = below.length) :
      Settled k below candidate (candidate.toList.map Node.fresh) k'
        (trail ++ dropped.map .dropped) []

/-- The root starts if its start is pending, and its task takes a turn that leads to the context
`k'`. What is held below stays. -/
def TurnTaken (s : Spine τ) (k : κ) (root : Node τ) (turn : Turn τ) (k' : κ)
    (trail : List (Happening τ)) : Prop :=
  ∃ s₁ k₁ t₁ records, s.ready k = .ok ⟨s₁, k₁, t₁⟩ ∧ s₁.root.stopped = false ∧
    s₁.below = s.below ∧ Task.onTick s₁.root.task s₁.root.control k₁ = .ok ⟨turn, k', records⟩ ∧
      root = turned s₁.root turn ∧ trail = t₁ ++ .ticked s₁.root.task :: records.map .noted

/-- A tick of a spine, on every level that is reached: the spine, the context and the trail that it
leads to, and the candidates that were refused. -/
inductive Ticked : Spine τ → κ → Spine τ → κ → List (Happening τ) → List τ → Prop where
  /-- The root gives up at its start. -/
  | gaveUp {s s' : Spine τ} {k k' : κ} {trail : List (Happening τ)}
      (hready : s.ready k = .ok ⟨s', k', trail⟩) (hstopped : s'.root.stopped = true) :
      Ticked s k s' k' trail []
  /-- The task of the root fails in its turn. -/
  | failed {s s' : Spine τ} {k k₁ k' : κ} {root : Node τ} {turn : Turn τ}
      {t₁ t₂ : List (Happening τ)} {reason : String} (htaken : s.TurnTaken k root turn k₁ t₁)
      (hreason : turn.reply.failure = some reason)
      (hfail : ({ s with root } : Spine τ).fail reason k₁ = .ok ⟨s', k', t₂⟩) :
      Ticked s k s' k' (t₁ ++ t₂) []
  /-- Nothing is held below the root any more. -/
  | alone {s : Spine τ} {k k₁ k' : κ} {root : Node τ} {turn : Turn τ}
      {t₁ notes t₂ : List (Happening τ)} {state : String} {refused : List τ}
      (htaken : s.TurnTaken k root turn k₁ t₁) (hreason : turn.reply.failure = none)
      (hnotes : Noted notes) (hsettled : Settled k₁ s.below turn.candidate [] k' t₂ refused) :
      Ticked s k { root := { root with reportedState := state } } k' (t₁ ++ (notes ++ t₂)) refused
  /-- The node that is held below the root from now on is ticked. -/
  | onward {s sub s' : Spine τ} {k k₁ k₂ k₃ k' : κ} {root m : Node τ} {rest : List (Node τ)}
      {turn : Turn τ} {t₁ notes t₂ t₃ t₄ : List (Happening τ)} {state : String}
      {refused refused' : List τ} (htaken : s.TurnTaken k root turn k₁ t₁)
      (hreason : turn.reply.failure = none) (hnotes : Noted notes)
      (hsettled : Settled k₁ s.below turn.candidate (m :: rest) k₂ t₂ refused)
      (hsub : Ticked { root := m, below := rest } k₂ sub k₃ t₃ refused')
      (hopening : (hooks t₃).head? = some (Node.opening m))
      (hrejoin : rejoin { root with reportedState := state } sub k₃ = .ok ⟨s', k', t₄⟩) :
      Ticked s k s' k' (t₁ ++ (notes ++ (t₂ ++ (t₃ ++ t₄)))) (refused ++ refused')

/-! ## Roots that are reset -/

/-- A root may have been reset, with what is held below it still at work. -/
structure Kempt (s : Spine τ) : Prop where
  root : s.root.Sound
  held : ∀ n ∈ s.below, n.Held
  pending : s.below.Pairwise fun a b => a.pending = true → b.pending = true

variable {s : Spine τ} {k : κ}

omit [Task κ τ] in
theorem Sound.kempt (hs : s.Sound) : s.Kempt :=
  ⟨hs.root, hs.held, (List.pairwise_cons.mp hs.pending).2⟩

omit [Task κ τ] in
theorem Kempt.withRoot (hs : s.Kempt) {n : Node τ} (hn : n.Started) :
    ({ s with root := n } : Spine τ).Sound := by
  refine ⟨hn.toHeld.sound, fun h => by simp [hn.active] at h, hs.held, ?_⟩
  refine List.pairwise_cons.mpr ⟨fun b _ hp => ?_, hs.pending⟩
  simp [hn.started] at hp

omit [Task κ τ] in
theorem Kempt.sound (hs : s.Kempt) (hp : s.root.pending = false) : s.Sound :=
  hs.withRoot (hs.root.started hp)

theorem Kempt.ready_ensures (hs : s.Kempt) (k : κ) :
    s.ready.Ensures k fun s' _ _ => s'.Sound ∧
      (s'.root.Started ∧ s'.below = s.below ∨ s'.root.stopped = true ∧ s'.root.failure ≠ none) := by
  rw [ready]
  split
  · -- a start reads no flag of the root
    have hsame : s.start = ({ s with root := { s.root with
        pending := false, stopped := false, active := true, failure := none } } : Spine τ).start :=
      rfl
    rw [hsame]
    exact (start_ensures (hs.withRoot ⟨⟨rfl, rfl, rfl⟩, rfl⟩) k).imp fun _ _ _ h => h.2
  · next hp =>
    have hp : s.root.pending = false := by simpa using hp
    exact Act.meets_pure ⟨hs.sound hp, Or.inl ⟨hs.root.started hp, rfl⟩⟩

/-! ## Every tick keeps to the rule -/

theorem haltAll_length (taker : Option τ) (above nodes : List (Node τ)) (k : κ)
    (h : ∀ n ∈ nodes, n.active = true) :
    (haltAll taker above nodes).Ensures k fun halted _ _ =>
      halted.length = above.length + nodes.length := by
  induction nodes generalizing above k with
  | nil => exact Act.meets_pure rfl
  | cons n rest ih =>
      rw [haltAll, if_pos (h n List.mem_cons_self)]
      apply (Act.ensures_true _ k).bind
      intro m k' _ _
      apply (ih (m :: above) k' fun b hb => h b (List.mem_cons_of_mem n hb)).imp
      intro halted _ _ hlength
      rw [hlength, List.length_cons, List.length_cons, Nat.add_right_comm, Nat.add_assoc]

/-- All nodes are dropped, after the last of them was stopped. -/
theorem stopAndDrop_dropped (taker : Option τ) (nodes : List (Node τ)) (k : κ)
    (h : ∀ n ∈ nodes, n.active = true) :
    (stopAndDrop taker nodes).Ensures k fun _ _ t => ∃ trail, ∃ dropped : List τ,
      t = trail ++ dropped.map .dropped ∧ hooks trail = stops taker nodes ∧
        dropped.length = nodes.length := by
  rw [stopAndDrop]
  apply ((haltAll_ensures taker [] nodes k h).and (haltAll_length taker [] nodes k h)).bind
  intro halted k' trail hhalted
  refine Act.meets_tellAll ⟨trail, halted.map Node.task, by simp, hhalted.1.1, ?_⟩
  rw [List.length_map, hhalted.2, List.length_nil, Nat.zero_add]

/-- An exchange: nodes that make room for the candidate are stopped and dropped. -/
theorem exchange_settled {n : Node τ} {rest : List (Node τ)} {candidate : Option τ} {k : κ}
    (hheld : ∀ m ∈ n :: rest, m.Held)
    (hother : ∀ m ∈ (n :: rest).head?, ∀ d ∈ candidate, Task.isEqual d m.task = false)
    (hyields : ¬ vetoed k (n :: rest) candidate = true) :
    (stopAndDrop candidate (n :: rest) >>= fun _ =>
      (pure (candidate.toList.map Node.fresh) : Act κ (Happening τ) (List (Node τ)))).Ensures k
        fun ms k' t => ∃ refused, Settled k (n :: rest) candidate ms k' t refused := by
  have hyields : ∀ m ∈ n :: rest, m.refuses k candidate = false := by
    simpa [vetoed] using hyields
  have hstop := stopAndDrop_dropped candidate (n :: rest) k fun m hm => (hheld m hm).active
  apply hstop.ran.bind
  rintro _ k' _ ⟨hran, trail, dropped, rfl, hhooks, hlength⟩
  apply Act.meets_pure
  rw [List.append_nil]
  exact ⟨[], .exchanged (List.cons_ne_nil n rest) hother hyields hran hhooks hlength⟩

/-- The cases are those of the candidate and of what is held. -/
theorem settle_settled (parent : Node τ) {below : List (Node τ)} (hheld : ∀ n ∈ below, n.Held)
    (candidate : Option τ) (k : κ) :
    (settle parent below candidate).Ensures k fun ms k' t =>
      ∃ refused, Settled k below candidate ms k' t refused := by
  have hforced : ∀ {ns : List (Node τ)} {c : Option τ}, vetoed k ns c = true →
      ∃ n ∈ ns, n.refuses k c = true := by
    intro ns c h
    simpa [vetoed] using h
  unfold settle
  split
  · exact Act.meets_pure ⟨[], .free rfl⟩
  · exact Act.meets_pure ⟨[], .free rfl⟩
  · next n rest c =>
    split
    · next hequal => exact Act.meets_pure ⟨[c], .equal rfl rfl hequal⟩
    · next hother =>
      have hother : ∀ m ∈ (n :: rest).head?, ∀ d ∈ some c, Task.isEqual d m.task = false := by
        simpa using hother
      apply Act.Meets.get_bind
      split
      · next hveto =>
        obtain ⟨m, hm, hrefuses⟩ := hforced hveto
        apply Act.Meets.note_bind
        exact Act.meets_pure ⟨[c], .forced hother hm hrefuses (noted_single _)⟩
      · next hyields => exact exchange_settled hheld hother hyields
  · next n rest =>
    have hother : ∀ m ∈ (n :: rest).head?, ∀ d ∈ (none : Option τ),
        Task.isEqual d m.task = false := by simp
    apply Act.Meets.get_bind
    split
    · next hveto =>
      obtain ⟨m, hm, hrefuses⟩ := hforced hveto
      exact Act.meets_pure ⟨[], .forced hother hm hrefuses noted_nil⟩
    · next hyields => exact exchange_settled hheld hother hyields

theorem reportState_noted (n : Node τ) (trace : Trace) (k : κ) :
    (reportState n trace).Ensures k fun _ _ t => Noted t := by
  rw [reportState]
  split
  · exact Act.meets_pure noted_nil
  · exact Act.Meets.note_bind (Act.meets_pure (noted_single _))

/-- A root whose start is pending calls its start hook first; any other is ready at once. -/
def Opens (s s' : Spine τ) (t : List (Happening τ)) : Prop :=
  s.root.pending = true ∧ (hooks t).head? = some (.started s.root.task) ∨
    s.root.pending = false ∧ s' = s ∧ t = []

theorem ready_opens (s : Spine τ) (k : κ) :
    s.ready.Ensures k fun s' _ t => Opens s s' t := by
  rw [ready]
  split
  · next hp =>
    rw [start]
    apply Act.Meets.note_bind
    apply Act.Meets.bind (Act.Meets.call (R := fun _ _ t =>
      (hooks t).head? = some (.started s.root.task)) ((Act.ensures_true _ _).imp ?_))
    · intro r k₁ t ht
      dsimp only
      split
      · exact Act.meets_pure (Or.inl ⟨hp, by simpa using ht⟩)
      · apply (Act.ensures_true _ _).imp
        intro _ _ u _
        exact Or.inl ⟨hp, by simp [List.head?_append, ht]⟩
    · intro _ _ _ _
      rfl
  · next hp => exact Act.meets_pure (Or.inr ⟨by simpa using hp, rfl, rfl⟩)

omit [Task κ τ] in
/-- A root that gives up was just started. -/
theorem Opens.of_stopped {s s' : Spine τ} {t : List (Happening τ)} (h : Opens s s' t)
    (hs : s.Kempt) (hstopped : s'.root.stopped = true) :
    (hooks t).head? = some s.root.opening := by
  cases h with
  | inl h => rw [h.2, Node.opening, if_pos h.1]
  | inr h =>
      have hunstopped := (hs.root.started h.1).unstopped
      rw [h.2.1, hunstopped] at hstopped
      cases hstopped

omit [Task κ τ] in
theorem Opens.turn {s s' : Spine τ} {t : List (Happening τ)} (h : Opens s s' t)
    (rest : List (Happening τ)) :
    (hooks (t ++ .ticked s'.root.task :: rest)).head? = some s.root.opening := by
  cases h with
  | inl h =>
      apply head?_hooks_append
      rw [h.2, Node.opening, if_pos h.1]
  | inr h =>
      rw [h.2.2, h.2.1, Node.opening, if_neg (by simp [h.1])]
      rfl

/-- By induction on the levels of delegation: what is held below a node that works is kempt, so its
own tick keeps to the rule. -/
theorem tickWithin_ticked (depth : Nat) {s : Spine τ} (hs : s.Kempt) (trace : Trace) (k : κ) :
    (tickWithin depth s trace).Ensures k fun r k' t =>
      r.1.Sound ∧ (r.1.root.failure = none → r.1.root.Started) ∧
        (hooks t).head? = some s.root.opening ∧ ∃ refused, Ticked s k r.1 k' t refused := by
  induction depth generalizing s trace k with
  | zero => exact Act.meets_abort trivial
  | succ depth ih =>
      rw [tickWithin]
      apply ((hs.ready_ensures k).and (ready_opens s k)).ran.bind
      intro s₁ k₁ t₁ h₁
      obtain ⟨hready, ⟨hs₁, hcase⟩, hopens⟩ := h₁
      split
      case isTrue hstopped =>
        have hroot : s₁.root.failure ≠ none := by
          cases hcase with
          | inl h => simp [h.1.unstopped] at hstopped
          | inr h => exact h.2
        have hopening := hopens.of_stopped hs hstopped
        refine Act.meets_pure
          ⟨hs₁, fun hf => absurd hf hroot, head?_hooks_append hopening [], [], ?_⟩
        rw [List.append_nil]
        exact .gaveUp hready hstopped
      case isFalse hstopped =>
        obtain ⟨hn₁, hbelow⟩ := hcase.resolve_right fun h => hstopped h.1
        apply (Act.ensures_call _ _ k₁).bind
        intro turn k₂ t₂ h₂
        obtain ⟨records, hran, ht₂⟩ := h₂
        have htaken : s.TurnTaken k (turned s₁.root turn) turn k₂ (t₁ ++ t₂) :=
          ⟨s₁, k₁, t₁, records, hready, hn₁.unstopped, hbelow, hran, rfl, by rw [ht₂]⟩
        have hopening : (hooks (t₁ ++ t₂)).head? = some s.root.opening := by
          rw [ht₂]
          exact hopens.turn _
        have hn := turned_started hn₁ turn
        dsimp only
        split
        · next reason hreason =>
          apply (fail_ensures reason (hs₁.restarted hn) k₂).ran.bind
          intro s₃ k₃ t₃ h₃
          obtain ⟨hfail, hrest, -, hf, -⟩ := h₃
          rw [hbelow] at hfail
          refine Act.meets_pure ⟨hrest.sound, fun h => by simp [hf] at h, ?_, [], ?_⟩
          · simpa using head?_hooks_append hopening t₃
          · have hticked := Ticked.failed htaken hreason hfail
            simpa using hticked
        · next hreason =>
          apply ((reportState_meets _ _ k₂).and (reportState_noted _ _ k₂)).bind
          intro r k₃ t₃ h₃
          obtain ⟨⟨⟨state, hr⟩, rfl, -⟩, hnotes⟩ := h₃
          have hstarted : r.1.Started := by
            rw [hr]
            exact ⟨⟨hn.active, hn.unstopped, hn.unfailed⟩, hn.started⟩
          apply ((settle_ensures (hs₁.restarted hstarted) turn.candidate k₃).and
            (settle_settled r.1 hs₁.held turn.candidate k₃)).bind
          intro ms k₄ t₄ h₄
          obtain ⟨⟨-, hms⟩, refused, hsettled⟩ := h₄
          rw [hbelow] at hsettled
          split
          · refine Act.meets_pure ⟨sound_alone hstarted.toHeld.sound, fun _ => hstarted, ?_,
              refused, ?_⟩
            · simpa using head?_hooks_append hopening (t₃ ++ t₄)
            · have hticked : Ticked s k
                  { root := { turned s₁.root turn with reportedState := state } } k₄
                  (t₁ ++ t₂ ++ (t₃ ++ t₄)) refused := .alone htaken hreason hnotes hsettled
              rw [hr]
              simpa using hticked
          · next m rest =>
            have hm := hms m rest rfl
            apply (ih hm.kempt _ k₄).bind
            intro r₅ k₅ t₅ h₅
            obtain ⟨hsub, hroot, hfirst, refused', hticked⟩ := h₅
            apply (rejoin_ensures hstarted hsub hroot k₅).ran.bind
            intro s₆ k₆ t₆ h₆
            obtain ⟨hrejoin, hs₆, hn₆, -⟩ := h₆
            rw [hr] at hrejoin
            refine Act.meets_pure ⟨hs₆, fun _ => hn₆, ?_, refused ++ refused', ?_⟩
            · simpa using head?_hooks_append hopening (t₃ ++ (t₄ ++ (t₅ ++ t₆)))
            · have hticked := Ticked.onward htaken hreason hnotes hsettled hticked hfirst hrejoin
              simpa using hticked

/-- What is held after a settlement can be ticked. -/
theorem Settled.kempt {k k' : κ} {below : List (Node τ)} {candidate : Option τ} {m : Node τ}
    {rest : List (Node τ)} {trail : List (Happening τ)} {refused : List τ}
    (h : Settled k below candidate (m :: rest) k' trail refused) (hheld : ∀ n ∈ below, n.Held)
    (hpending : below.Pairwise fun a b => a.pending = true → b.pending = true) :
    ({ root := m, below := rest } : Spine τ).Kempt := by
  have hfresh : m :: rest = candidate.toList.map Node.fresh →
      ({ root := m, below := rest } : Spine τ).Kempt := by
    intro heq
    cases candidate with
    | none => cases heq
    | some c =>
        obtain ⟨rfl, rfl⟩ := List.cons.inj heq
        exact (resting_ofTask c).sound.kempt
  have hkept : below = m :: rest → ({ root := m, below := rest } : Spine τ).Kempt := by
    intro heq
    rw [heq] at hheld hpending
    exact ⟨(hheld m List.mem_cons_self).sound, fun n hn => hheld n (List.mem_cons_of_mem m hn),
      (List.pairwise_cons.mp hpending).2⟩
  generalize hms : m :: rest = ms at h
  cases h with
  | free => exact hfresh hms
  | equal => exact hkept hms.symm
  | forced => exact hkept hms.symm
  | exchanged => exact hfresh hms

/-! ## What lasts through a tick -/

section Lasting

variable {P : κ → τ → Prop} {k k' : κ} {s s' : Spine τ} {below ms : List (Node τ)}
  {trail : List (Happening τ)} {candidate : Option τ} {refused : List τ} {root : Node τ}
  {turn : Turn τ}

theorem Settled.lasts (hP : Lasting P) (h : Settled k below candidate ms k' trail refused)
    (hbelow : Have P k below) (hcandidate : ∀ c ∈ candidate, P k c) :
    Onward P k k' ∧ Called P k' trail ∧ Have P k' ms := by
  have hfresh : ∀ {j}, Onward P k j → Have P j (candidate.toList.map Node.fresh) := by
    intro j hj n hn
    obtain ⟨c, hc, rfl⟩ := List.mem_map.mp hn
    exact hj c (hcandidate c (Option.mem_toList.mp hc))
  cases h with
  | free hnil => exact ⟨fun _ => id, called_of_none (by simp), hfresh fun _ => id⟩
  | equal => exact ⟨fun _ => id, called_of_none (by simp), hbelow⟩
  | forced hother hn hrefuses hnoted => exact ⟨fun _ => id, hnoted.called, hbelow⟩
  | exchanged hne hother hyields hstop =>
      obtain ⟨hk, hcalled, -⟩ := (stopAndDrop_lasts hP candidate hbelow).of_ok hstop
      exact ⟨hk, hcalled, hfresh hk⟩

theorem TurnTaken.lasts (hP : Lasting P) (h : s.TurnTaken k root turn k' trail)
    (hs : Have P k s.nodes) :
    Onward P k k' ∧ Called P k' trail ∧ P k' root.task ∧ Have P k' s.below ∧
      ∀ c ∈ turn.candidate, P k' c := by
  obtain ⟨s₁, k₁, t₁, records, hready, -, hbelow, hturn, rfl, rfl⟩ := h
  obtain ⟨hk, hcalled, h₁⟩ := (ready_lasts hP hs).of_ok hready
  rw [nodes, have_cons, hbelow] at h₁
  obtain ⟨hk', hroot, hcandidate⟩ := (hP.tick h₁.1 _).of_ok hturn
  have hticked : Called P k' (.ticked s₁.root.task :: records.map .noted) := by
    refine Called.cons ?_ (called_noted records)
    simpa [Happening.callee?] using hk' _ h₁.1
  exact ⟨fun t ht => hk' t (hk t ht), called_append.mpr ⟨hcalled.onward hk', hticked⟩, hroot,
    h₁.2.onward hk', hcandidate⟩

/-- By induction on the levels of the tick. -/
theorem Ticked.lasts (hP : Lasting P) (h : Ticked s k s' k' trail refused)
    (hs : Have P k s.nodes) : Onward P k k' ∧ Called P k' trail ∧ Have P k' s'.nodes := by
  induction h with
  | gaveUp hready => exact (ready_lasts hP hs).of_ok hready
  | @failed s s' k k₁ k' root turn t₁ t₂ reason htaken hreason hfail =>
      obtain ⟨hk, hcalled, hroot, hbelow, -⟩ := htaken.lasts hP hs
      have hnodes : Have P k₁ ({ s with root } : Spine τ).nodes := have_cons.mpr ⟨hroot, hbelow⟩
      obtain ⟨hk', hcalled', hnodes⟩ := (fail_lasts hP reason hnodes).of_ok hfail
      exact ⟨fun t ht => hk' t (hk t ht),
        called_append.mpr ⟨hcalled.onward hk', hcalled'⟩, hnodes⟩
  | alone htaken hreason hnotes hsettled =>
      obtain ⟨hk, hcalled, hroot, hbelow, hcandidate⟩ := htaken.lasts hP hs
      obtain ⟨hk', hcalled', -⟩ := hsettled.lasts hP hbelow hcandidate
      refine ⟨fun t ht => hk' t (hk t ht), ?_, have_cons.mpr ⟨hk' _ hroot, have_nil⟩⟩
      exact called_append.mpr ⟨hcalled.onward hk', called_append.mpr ⟨hnotes.called, hcalled'⟩⟩
  | @onward s sub s' k k₁ k₂ k₃ k' root m rest turn t₁ notes t₂ t₃ t₄ state _ _ htaken hreason
      hnotes hsettled hsub hopening hrejoin ih =>
      obtain ⟨hk, hcalled, hroot, hbelow, hcandidate⟩ := htaken.lasts hP hs
      obtain ⟨hk₂, hcalled₂, hms⟩ := hsettled.lasts hP hbelow hcandidate
      obtain ⟨hk₃, hcalled₃, hsub⟩ := ih hms
      have hroot : P k₃ ({ root with reportedState := state } : Node τ).task :=
        hk₃ _ (hk₂ _ hroot)
      obtain ⟨hk₄, hcalled₄, hnodes⟩ := (rejoin_lasts hroot hsub).of_ok hrejoin
      have hk₂₄ := fun t ht => hk₄ t (hk₃ t ht)
      refine ⟨fun t ht => hk₂₄ t (hk₂ t (hk t ht)), ?_, hnodes⟩
      simp only [called_append]
      exact ⟨(hcalled.onward hk₂).onward hk₂₄, hnotes.called, hcalled₂.onward hk₂₄,
        hcalled₃.onward hk₄, hcalled₄⟩

end Lasting

end Spine

end Arbiter
