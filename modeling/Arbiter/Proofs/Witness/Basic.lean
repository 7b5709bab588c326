import Arbiter.Proofs.Spine.Refusal
import Arbiter.Proofs.Witness.Ledger

/-! Witnesses. Every task that comes up in a run gets a number of its own and enters the calls of
its hooks in a ledger. It does all else as before, so a run of the plain tasks is one of
witnesses. -/

namespace Arbiter

variable {κ ω τ α : Type}

structure Witness (τ : Type) where
  task : τ
  number : Nat

/-- A context with the first number that is free and the ledger. -/
structure Witnessed (κ : Type) where
  context : κ
  next : Nat := 1
  ledger : Ledger := []

namespace Witnessed

/-- Runs an action that knows nothing of the ledger. -/
def inside (m : Act κ ω α) : Act (Witnessed κ) ω α :=
  m.within context fun k s => { s with context := k }

def enter (e : Entry) : Act (Witnessed κ) ω Unit :=
  Act.modify fun s => { s with ledger := e :: s.ledger }

/-- Gives a task the next number, if there is a task. -/
def draw : Option τ → Act (Witnessed κ) ω (Option (Witness τ))
  | none => pure none
  | some t => do
    let s ← Act.get
    Act.set { s with next := s.next + 1 }
    pure (some ⟨t, s.next⟩)

instance [Task κ τ] : Task (Witnessed κ) (Witness τ) where
  onStart i c := do
    let r ← inside (Task.onStart i.task c)
    enter (.started i.number c r.2)
    pure ({ i with task := r.1 }, r.2)
  onTick i c := do
    let turn ← inside (Task.onTick i.task c)
    let candidate ← draw turn.candidate
    enter (.ticked i.number c turn.reply (Task.label turn.task) (candidate.map Witness.number))
    pure { task := { i with task := turn.task }, reply := turn.reply, candidate }
  onStop i taker := do
    let task ← inside (Task.onStop i.task (taker.map Witness.task))
    enter (.stopped i.number (Task.label task))
    pure { i with task }
  isFinished i s := Task.isFinished i.task s.context
  isEqual i j := Task.isEqual i.task j.task
  label i := Task.label i.task
  veto? i := (Task.veto? i.task).map fun veto s candidate =>
    veto s.context (candidate.map Witness.task)

end Witnessed

open Act

/-! ## Without the ledger -/

section Guise

variable {k : Witnessed κ} {m : Act κ ω α}

theorem inside_matches (m : Act κ ω α) :
    Matches Witnessed.context id (Witnessed.inside m) m k Eq := by
  unfold Matches Witnessed.inside within
  cases m k.context with
  | error e => rfl
  | ok d => exact ⟨rfl, rfl, List.map_id _⟩

/-- An entry in the ledger is nothing to the plain run. -/
theorem enter_matches {β γ : Type} {e : Entry} {f : Unit → Act (Witnessed κ) ω β}
    {n : Act κ ω γ} {R : β → γ → Prop}
    (h : ∀ k, Matches Witnessed.context id (f ()) n k R) :
    Matches Witnessed.context id (Witnessed.enter e >>= f) n k R := by
  rw [← pure_bind () fun _ => n]
  exact Matches.bind (R := fun _ _ => True) ⟨trivial, rfl, rfl⟩ fun _ _ k _ => h k

theorem draw_matches (t : Option τ) :
    Matches Witnessed.context id (Witnessed.draw t : Act (Witnessed κ) ω _)
      (pure t : Act κ ω _) k fun c t => c.map Witness.task = t := by
  cases t with
  | none => exact Matches.pure rfl
  | some t => exact ⟨rfl, rfl, rfl⟩

variable [Task κ τ]

/-- Witnesses are tasks in a guise. -/
def Witnessed.guise : Guise (Witnessed κ) (Witness τ) κ τ where
  context := Witnessed.context
  task := Witness.task
  onStart i c k := by
    rw [← bind_pure (Task.onStart i.task c)]
    refine (inside_matches _).bind fun r' r k h => enter_matches fun k => ?_
    exact Matches.pure h
  onTick i c k := by
    have hplain : Task.onTick i.task c = Task.onTick i.task c >>= fun turn =>
        pure turn.candidate >>= fun candidate => pure { turn with candidate } := by
      simp
    rw [hplain]
    refine (inside_matches _).bind fun r' r k h => ?_
    subst h
    refine (draw_matches r'.candidate).bind fun c' c k h => enter_matches fun k => ?_
    exact Matches.pure (by rw [← h]; rfl)
  onStop i taker k := by
    rw [← bind_pure (Task.onStop i.task _)]
    refine (inside_matches _).bind fun r' r k h => enter_matches fun k => ?_
    exact Matches.pure h
  isEqual _ _ := rfl
  label _ := rfl
  veto i k c := by
    show _ = Option.map _ (Option.map _ _)
    rw [Option.map_map]
    rfl

end Guise

/-! ## What the hooks enter -/

section Hooks

variable [Task κ τ] (i : Witness τ) (k : Witnessed κ)

theorem inside_keeps (m : Act κ ω α) :
    (Witnessed.inside m).Ensures k fun _ k' _ => k'.next = k.next ∧ k'.ledger = k.ledger :=
  Meets.within ((ensures_true m _).imp fun _ _ _ _ => ⟨rfl, rfl⟩)

/-- What comes after an entry comes from the longer ledger. -/
theorem enter_bind {β : Type} {e : Entry} {f : Unit → Act (Witnessed κ) ω β}
    {Q : β → Witnessed κ → List ω → Prop}
    (h : (f ()).Ensures { k with ledger := e :: k.ledger } Q) :
    (Witnessed.enter e >>= f).Ensures k Q :=
  Meets.bind (P := fun _ k' t => k' = { k with ledger := e :: k.ledger } ∧ t = [])
    (meets_modify ⟨rfl, rfl⟩) fun _ _ _ h' => by rw [h'.1, h'.2]; exact h

theorem onStart_enters (c : Control) :
    (Task.onStart i c).Ensures k fun r k' _ => r.1.number = i.number ∧ k'.next = k.next ∧
      k'.ledger = .started i.number c r.2 :: k.ledger := by
  apply (inside_keeps k _).bind
  intro r k₁ t h
  apply enter_bind
  exact meets_pure ⟨rfl, h.1, by rw [h.2]⟩

/-- A sub-task that is asked for gets the next number. -/
theorem onTick_enters (c : Control) :
    (Task.onTick i c).Ensures k fun turn k' _ => turn.task.number = i.number ∧
      k'.ledger = .ticked i.number c turn.reply (Task.label turn.task)
        (turn.candidate.map Witness.number) :: k.ledger ∧ k.next ≤ k'.next ∧
      ∀ s ∈ turn.candidate, s.number = k.next ∧ k.next < k'.next := by
  apply (inside_keeps k _).bind
  intro turn k₁ t h
  have hdraw : (Witnessed.draw turn.candidate : Act (Witnessed κ) Record _).Ensures k₁
      fun candidate k' _ => k'.ledger = k₁.ledger ∧ k₁.next ≤ k'.next ∧
        ∀ s ∈ candidate, s.number = k₁.next ∧ k₁.next < k'.next := by
    cases turn.candidate with
    | none => exact meets_pure (by simp)
    | some s => exact Meets.get_bind (Meets.set_bind (meets_pure (by simp)))
  apply hdraw.bind
  intro candidate k₂ u h'
  apply enter_bind
  rw [h.1] at h'
  refine meets_pure ⟨rfl, ?_, h'.2⟩
  rw [h'.1, h.2]
  rfl

theorem onStop_enters (taker : Option (Witness τ)) :
    (Task.onStop i taker).Ensures k fun i' k' _ => i'.number = i.number ∧ k'.next = k.next ∧
      k'.ledger = .stopped i.number (Task.label i') :: k.ledger := by
  apply (inside_keeps k _).bind
  intro t k₁ u h
  apply enter_bind
  refine meets_pure ⟨rfl, h.1, ?_⟩
  rw [h.2]
  rfl

end Hooks

/-! ## How the ledger grows -/

/-- Calls on nodes with numbers from `r` on were entered, and the sub-tasks that were asked for got
numbers that were free. -/
structure Grows (r : Nat) (k k' : Witnessed κ) : Prop where
  next_le : k.next ≤ k'.next
  entries : ∃ es, k'.ledger = es ++ k.ledger ∧
    ∀ e ∈ es, r ≤ e.number ∧ e.number < k'.next ∧ ∀ c ∈ e.candidate?, k.next ≤ c

namespace Grows

variable {r : Nat} {k k' k'' : Witnessed κ}

theorem refl (r : Nat) (k : Witnessed κ) : Grows r k k := ⟨Nat.le_refl _, [], rfl, by simp⟩

theorem trans (h : Grows r k k') (h' : Grows r k' k'') : Grows r k k'' := by
  obtain ⟨es, hes, hall⟩ := h.entries
  obtain ⟨es', hes', hall'⟩ := h'.entries
  refine ⟨Nat.le_trans h.next_le h'.next_le, es' ++ es, ?_, ?_⟩
  · rw [hes', hes, List.append_assoc]
  · intro e he
    rcases List.mem_append.mp he with he | he
    · obtain ⟨hr, hlt, hc⟩ := hall' e he
      exact ⟨hr, hlt, fun c hm => Nat.le_trans h.next_le (hc c hm)⟩
    · obtain ⟨hr, hlt, hc⟩ := hall e he
      exact ⟨hr, Nat.lt_of_lt_of_le hlt h'.next_le, hc⟩

theorem single {e : Entry} (hnext : k.next ≤ k'.next) (hledger : k'.ledger = e :: k.ledger)
    (hr : r ≤ e.number) (hlt : e.number < k.next) (hc : ∀ c ∈ e.candidate?, k.next ≤ c) :
    Grows r k k' := by
  refine ⟨hnext, [e], hledger, ?_⟩
  intro x hx
  rw [List.mem_singleton.mp hx]
  exact ⟨hr, Nat.lt_of_lt_of_le hlt hnext, hc⟩

theorem parent? (h : Grows r k k') {c : Nat} (hc : c < k.next) :
    Ledger.parent? c k'.ledger = Ledger.parent? c k.ledger := by
  obtain ⟨es, hes, hall⟩ := h.entries
  rw [hes]
  apply Ledger.parent?_append
  intro e he hcandidate
  exact Nat.not_le_of_lt hc ((hall e he).2.2 c hcandidate)

theorem isOpen (h : Grows r k k') {i : Nat} (hi : i < r) :
    Ledger.isOpen i k'.ledger = Ledger.isOpen i k.ledger := by
  obtain ⟨es, hes, hall⟩ := h.entries
  rw [hes]
  apply Ledger.isOpen_append
  intro e he heq
  exact Nat.not_le_of_lt hi (heq ▸ (hall e he).1)

/-- The ledger has grown since the context `base`, and the node has one of the numbers from `r` on
that were drawn. -/
def Among (r : Nat) (base k : Witnessed κ) (i : Witness τ) : Prop :=
  Grows r base k ∧ r ≤ i.number ∧ i.number < k.next

theorem lasting_among [Task κ τ] (r : Nat) (base : Witnessed κ) :
    Lasting (Among r base : Witnessed κ → Witness τ → Prop) := by
  have honward : ∀ {k k' : Witnessed κ}, Grows r k k' →
      Onward (τ := Witness τ) (Among r base) k k' := by
    intro k k' hgrows j hj
    exact ⟨hj.1.trans hgrows, hj.2.1, Nat.lt_of_lt_of_le hj.2.2 hgrows.next_le⟩
  have hsame : ∀ {k k' : Witnessed κ} {i j : Witness τ}, Among r base k i → Grows r k k' →
      j.number = i.number → Onward (τ := Witness τ) (Among r base) k k' ∧ Among r base k' j := by
    intro k k' i j hi hgrows hnumber
    refine ⟨honward hgrows, ?_⟩
    rw [Among, hnumber]
    exact honward hgrows i hi
  refine ⟨fun {k i} hi c => ?_, fun {k i} hi c => ?_, fun {k i} hi taker => ?_⟩
  · apply (onStart_enters i k c).imp
    intro r' k' _ h
    obtain ⟨hnumber, hnext, hledger⟩ := h
    exact hsame hi (.single (Nat.le_of_eq hnext.symm) hledger hi.2.1 hi.2.2 (by nofun)) hnumber
  · apply (onTick_enters i k c).imp
    intro turn k' _ h
    obtain ⟨hnumber, hledger, hnext, hdraws⟩ := h
    have hgrows : Grows r k k' := by
      refine .single hnext hledger hi.2.1 hi.2.2 ?_
      intro c hc
      obtain ⟨s, hs, rfl⟩ := Option.map_eq_some_iff.mp hc
      exact Nat.le_of_eq (hdraws s hs).1.symm
    obtain ⟨honward, htask⟩ := hsame hi hgrows hnumber
    refine ⟨honward, htask, fun s hs => ?_⟩
    obtain ⟨hs, hlt⟩ := hdraws s hs
    refine ⟨htask.1, ?_, hs ▸ hlt⟩
    rw [hs]
    exact Nat.le_of_lt (Nat.lt_of_le_of_lt hi.2.1 hi.2.2)
  · apply (onStop_enters i k taker).imp
    intro i' k' _ h
    obtain ⟨hnumber, hnext, hledger⟩ := h
    exact hsame hi (.single (Nat.le_of_eq hnext.symm) hledger hi.2.1 hi.2.2 (by nofun)) hnumber

end Grows

/-! ## Teardown -/

/-- The stop hooks of the started ones among the nodes have been called, and no other hook. -/
structure Stopped (nodes : List (Node (Witness τ))) (k k' : Witnessed κ) : Prop where
  next_eq : k'.next = k.next
  entries : ∃ es, k'.ledger = es ++ k.ledger ∧ (∀ e ∈ es, e.isStop = true) ∧
    (∀ e ∈ es, ∃ n ∈ nodes, n.task.number = e.number) ∧
    ∀ n ∈ nodes, n.pending = false → ∃ e ∈ es, e.number = n.task.number

namespace Stopped

variable {nodes above : List (Node (Witness τ))} {k k' k'' : Witnessed κ}

theorem nil (k : Witnessed κ) : Stopped ([] : List (Node (Witness τ))) k k :=
  ⟨rfl, [], rfl, by simp, by simp, by simp⟩

theorem single {n : Node (Witness τ)} {label : String} (hnext : k'.next = k.next)
    (hledger : k'.ledger = .stopped n.task.number label :: k.ledger) : Stopped [n] k k' :=
  ⟨hnext, [_], hledger, by simp [Entry.isStop], by simp [Entry.number], by simp [Entry.number]⟩

theorem append (h : Stopped above k k') (h' : Stopped nodes k' k'') :
    Stopped (above ++ nodes) k k'' := by
  obtain ⟨es, hes, hstop, hsome, hall⟩ := h.entries
  obtain ⟨es', hes', hstop', hsome', hall'⟩ := h'.entries
  refine ⟨h'.next_eq.trans h.next_eq, es' ++ es, ?_, ?_, ?_, ?_⟩
  · rw [hes', hes, List.append_assoc]
  · intro e he
    exact (List.mem_append.mp he).elim (hstop' e) (hstop e)
  · intro e he
    rcases List.mem_append.mp he with he | he
    · obtain ⟨n, hn, hnumber⟩ := hsome' e he
      exact ⟨n, List.mem_append_right _ hn, hnumber⟩
    · obtain ⟨n, hn, hnumber⟩ := hsome e he
      exact ⟨n, List.mem_append_left _ hn, hnumber⟩
  · intro n hn hp
    rcases List.mem_append.mp hn with hn | hn
    · obtain ⟨e, he, hnumber⟩ := hall n hn hp
      exact ⟨e, List.mem_append_right _ he, hnumber⟩
    · obtain ⟨e, he, hnumber⟩ := hall' n hn hp
      exact ⟨e, List.mem_append_left _ he, hnumber⟩

end Stopped

namespace Spine

variable [Task κ τ] {k : Witnessed κ} {n : Node (Witness τ)} {nodes : List (Node (Witness τ))}
  {s : Spine (Witness τ)}

/-- The numbers of nodes, in their order. -/
def numbers (nodes : List (Node (Witness τ))) : List Nat := nodes.map fun n => n.task.number

/-- What no teardown changes: the number of a node and the state text that was reported last. -/
def mark (n : Node (Witness τ)) : Nat × String := (n.task.number, n.reportedState)

omit [Task κ τ] in
theorem numbers_eq (nodes : List (Node (Witness τ))) :
    numbers nodes = (nodes.map mark).map Prod.fst := by
  rw [List.map_map]
  rfl

/-- The stop of a started node is entered with the label that its task has after it. -/
theorem leave_enters (taker : Option (Witness τ)) (hp : n.pending = false) :
    (leave taker n).Ensures k fun m k' _ => mark m = mark n ∧ k'.next = k.next ∧
      k'.ledger = .stopped n.task.number (Task.label m.task) :: k.ledger := by
  rw [leave, if_neg (by simp [hp])]
  apply (Meets.called (onStop_enters n.task k taker)).bind
  intro i k' _ h
  obtain ⟨hnumber, hnext, hledger⟩ := h
  exact meets_pure ⟨congrArg (·, n.reportedState) hnumber, hnext, hledger⟩

theorem leave_stopped (taker : Option (Witness τ)) (n : Node (Witness τ)) :
    (leave taker n).Ensures k fun m k' _ => mark m = mark n ∧ Stopped [n] k k' := by
  cases hp : n.pending with
  | true =>
      rw [leave, if_pos hp]
      exact meets_pure ⟨rfl, rfl, [], rfl, by simp, by simp, by simp [hp]⟩
  | false =>
      apply (leave_enters taker hp).imp
      intro m k' _ h
      obtain ⟨hmark, hnext, hledger⟩ := h
      exact ⟨hmark, .single hnext hledger⟩

theorem halt_stopped (taker : Option (Witness τ)) (n : Node (Witness τ)) :
    (halt taker n).Ensures k fun m k' _ => mark m = mark n ∧ Stopped [n] k k' :=
  Meets.note_bind (leave_stopped taker n)

theorem pause_stopped (taker : Option (Witness τ)) (n : Node (Witness τ)) :
    (pause taker n).Ensures k fun m k' _ => mark m = mark n ∧ Stopped [n] k k' := by
  apply Meets.note_bind
  apply (leave_stopped taker n).bind
  exact fun m k' _ h => meets_pure h

theorem haltAll_stopped (taker : Option (Witness τ)) (above : List (Node (Witness τ)))
    (h : ∀ n ∈ nodes, n.active = true) :
    (haltAll taker above nodes).Ensures k fun _ k' _ => Stopped nodes k k' := by
  induction nodes generalizing above k with
  | nil => exact meets_pure (.nil k)
  | cons n rest ih =>
      rw [List.forall_mem_cons] at h
      rw [haltAll, if_pos h.1]
      apply (halt_stopped taker n).bind
      intro m k₁ _ hn
      apply (ih (m :: above) h.2).imp
      exact fun _ k₂ _ hrest => hn.2.append hrest

theorem stopAndDrop_stopped (taker : Option (Witness τ)) (h : ∀ n ∈ nodes, n.active = true) :
    (stopAndDrop taker nodes).Ensures k fun _ k' _ => Stopped nodes k k' := by
  apply (haltAll_stopped taker [] h).bind
  intro halted k₁ _ hstopped
  apply (dropAll_meets halted k₁).imp
  intro _ k₂ _ hk
  rw [hk.1]
  exact hstopped

/-- The nodes below an active root are stopped with it, and it is left alone. -/
theorem stop_stopped (taker : Option (Witness τ)) (hbelow : ∀ n ∈ s.below, n.active = true) :
    (s.stop taker).Ensures k fun s' k' _ => s' = s ∧ k' = k ∨
      mark s'.root = mark s.root ∧ s'.root.pending = true ∧ s'.below = [] ∧
        Stopped s.nodes k k' := by
  rw [stop]
  split
  · apply (halt_stopped taker s.root).bind
    intro n k₁ _ hn
    apply (stopAndDrop_stopped taker hbelow).bind
    intro _ k₂ _ hrest
    exact meets_pure (Or.inr ⟨hn.1, rfl, rfl, hn.2.append hrest⟩)
  · exact meets_pure (Or.inl ⟨rfl, rfl⟩)

theorem suspendBelow_stopped (taker : Option (Witness τ)) (h : ∀ n ∈ nodes, n.Held) :
    (suspendBelow taker nodes).Ensures k fun ms k' _ =>
      ms.map mark = nodes.map mark ∧ (∀ m ∈ ms, m.pending = true) ∧ Stopped nodes k k' := by
  induction nodes generalizing k with
  | nil => exact meets_pure ⟨rfl, by simp, .nil k⟩
  | cons n rest ih =>
      rw [List.forall_mem_cons] at h
      rw [suspendBelow, if_pos (by simp [h.1.active, h.1.unstopped])]
      apply ((pause_stopped taker n).and (pause_ensures taker n k)).bind
      intro m k₁ _ hn
      obtain ⟨⟨hmark, hstopped⟩, hm, -⟩ := hn
      apply (ih h.2).bind
      intro ms k₂ _ hrest
      obtain ⟨hmarks, hp, hstopped'⟩ := hrest
      refine meets_pure ⟨congrArg₂ List.cons hmark hmarks, ?_, hstopped.append hstopped'⟩
      exact List.forall_mem_cons.mpr ⟨by rw [hm], hp⟩

/-- The nodes of an active root are suspended with it. -/
theorem suspend_stopped (taker : Option (Witness τ)) (hbelow : ∀ n ∈ s.below, n.Held) :
    (s.suspend taker).Ensures k fun s' k' _ => s' = s ∧ k' = k ∨
      s'.nodes.map mark = s.nodes.map mark ∧ (∀ n ∈ s'.nodes, n.pending = true) ∧
        Stopped s.nodes k k' := by
  rw [suspend]
  split
  · apply ((pause_stopped taker s.root).and (pause_ensures taker s.root k)).bind
    intro root k₁ _ hroot
    obtain ⟨⟨hmark, hstopped⟩, hroot, -⟩ := hroot
    apply (suspendBelow_stopped taker hbelow).bind
    intro below k₂ _ hbelow
    obtain ⟨hmarks, hp, hstopped'⟩ := hbelow
    refine meets_pure (Or.inr ⟨congrArg₂ List.cons hmark hmarks, ?_, hstopped.append hstopped'⟩)
    exact List.forall_mem_cons.mpr ⟨by rw [hroot], hp⟩
  · exact meets_pure (Or.inl ⟨rfl, rfl⟩)

/-- A started root that fails is stopped first of all nodes. -/
theorem fail_enters (reason : String) (hroot : s.root.Started)
    (hbelow : ∀ n ∈ s.below, n.active = true) :
    (s.fail reason).Ensures k fun s' k' _ => ∃ label k₁, mark s'.root = mark s.root ∧
      s'.root.pending = true ∧ s'.below = [] ∧
      s'.root.failureReport = some { task := label, reason } ∧ k₁.next = k.next ∧
      k₁.ledger = .stopped s.root.task.number label :: k.ledger ∧ Stopped s.below k₁ k' := by
  rw [fail, stop, if_pos hroot.active]
  have hhalt : (halt none s.root).Ensures k fun m k' _ => mark m = mark s.root ∧
      k'.next = k.next ∧
        k'.ledger = .stopped s.root.task.number (Task.label m.task) :: k.ledger :=
    Meets.note_bind (leave_enters none hroot.started)
  rw [bind_assoc]
  apply hhalt.bind
  intro m k₁ _ hm
  obtain ⟨hmark, hnext, hledger⟩ := hm
  rw [bind_assoc]
  apply (stopAndDrop_stopped none hbelow).bind
  intro _ k₂ _ hrest
  rw [pure_bind]
  apply Meets.note_bind
  exact meets_pure ⟨_, k₁, hmark, rfl, rfl, rfl, hnext, hledger, hrest⟩

/-! ## Starts -/

/-- The start hook of the root has been called, and the root is the node `n` now. -/
structure Opened (s : Spine (Witness τ)) (k : Witnessed κ) (n : Node (Witness τ)) (reply : Reply)
    (k' : Witnessed κ) : Prop where
  started : n.Started
  mark_eq : mark n = mark s.root
  forgotten : n.control.childFailure = none
  next_eq : k'.next = k.next
  ledger : ∃ given, given.childFailure = none ∧
    k'.ledger = .started s.root.task.number given reply :: k.ledger

/-- How a root gets ready. -/
inductive MadeReady (s : Spine (Witness τ)) (k : Witnessed κ) :
    Spine (Witness τ) → Witnessed κ → Prop where
  | already (hp : s.root.pending = false) : MadeReady s k s k
  | started {n : Node (Witness τ)} {reply : Reply} {k' : Witnessed κ}
      (hopened : Opened s k n reply k') (hwell : reply.failure = none) :
      MadeReady s k { s with root := n } k'
  /-- The root gives up at its start. -/
  | gaveUp {n : Node (Witness τ)} {reply : Reply} {reason : String} {s' : Spine (Witness τ)}
      {k₁ k' : Witnessed κ} {trail : List (Happening (Witness τ))}
      (hopened : Opened s k n reply k₁) (hreason : reply.failure = some reason)
      (hfail : ({ s with root := n } : Spine (Witness τ)).fail reason k₁ = .ok ⟨s', k', trail⟩) :
      MadeReady s k s' k'

theorem ready_made (s : Spine (Witness τ)) (k : Witnessed κ) :
    s.ready.Ensures k fun s' k' _ => MadeReady s k s' k' := by
  rw [ready]
  split
  · rw [start]
    apply Meets.note_bind
    apply (Meets.called (onStart_enters s.root.task k _)).bind
    intro r k₁ _ hr
    obtain ⟨hnumber, hnext, hledger⟩ := hr
    dsimp only
    generalize hroot : ({ s.root with
      task := r.1, control := _, pending := false, stopped := false, active := true,
      failure := none } : Node (Witness τ)) = n
    have hopened : Opened s k n r.2 k₁ := by
      rw [← hroot]
      exact ⟨⟨⟨rfl, rfl, rfl⟩, rfl⟩, congrArg (·, s.root.reportedState) hnumber, ite_self _, hnext,
        _, rfl, hledger⟩
    split
    · next hwell => exact meets_pure (.started hopened hwell)
    · next reason hreason =>
      apply (ensures_run _ k₁).imp
      exact fun _ _ _ hfail => .gaveUp hopened hreason hfail
  · next hp => exact meets_pure (.already (by simpa using hp))

end Spine

end Arbiter
