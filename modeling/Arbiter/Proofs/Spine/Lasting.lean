import Arbiter.Proofs.Contract
import Arbiter.Spine.Tick

/-! Properties that hooks pass on. What every single hook leaves to its task, to all others and to
the sub-task that it asks for, whole spines keep, whatever the flags of their nodes say. -/

namespace Arbiter

variable {κ τ α β : Type}

/-- The task whose hook is called. -/
def Happening.callee? : Happening τ → Option τ
  | started t => some t
  | ticked t => some t
  | stopped t _ => some t
  | _ => none

/-- What a task has in the one context it has in the other. -/
def Onward (P : κ → τ → Prop) (k k' : κ) : Prop := ∀ t, P k t → P k' t

/-- A property of tasks in their context that lasts: a hook of a task that has it takes it from no
task, and a sub-task that is asked for has it. -/
structure Lasting [Task κ τ] (P : κ → τ → Prop) : Prop where
  start : ∀ {k t}, P k t → ∀ c, (Task.onStart t c).Ensures k fun r k' _ =>
    Onward P k k' ∧ P k' r.1
  tick : ∀ {k t}, P k t → ∀ c, (Task.onTick t c).Ensures k fun turn k' _ =>
    Onward P k k' ∧ P k' turn.task ∧ ∀ s ∈ turn.candidate, P k' s
  stop : ∀ {k t}, P k t → ∀ taker, (Task.onStop t taker).Ensures k fun t' k' _ =>
    Onward P k k' ∧ P k' t'

/-- Only hooks of tasks with the property are called. -/
def Called (P : κ → τ → Prop) (k : κ) (trail : List (Happening τ)) : Prop :=
  ∀ h ∈ trail, ∀ t ∈ h.callee?, P k t

section Called

variable {P : κ → τ → Prop} {k k' : κ} {s t : List (Happening τ)}

theorem called_append : Called P k (s ++ t) ↔ Called P k s ∧ Called P k t := by
  simp only [Called, List.mem_append, or_imp, forall_and]

theorem called_of_none (h : ∀ x ∈ t, x.callee? = none) : Called P k t := by
  intro x hx u hu
  rw [h x hx] at hu
  cases hu

theorem called_noted (rs : List Record) : Called P k (rs.map .noted) := by
  apply called_of_none
  intro x hx
  obtain ⟨r, -, rfl⟩ := List.mem_map.mp hx
  rfl

theorem Called.cons {h : Happening τ} (hh : ∀ u ∈ h.callee?, P k u) (ht : Called P k t) :
    Called P k (h :: t) := by
  intro x hx
  cases List.mem_cons.mp hx with
  | inl hx => exact hx ▸ hh
  | inr hx => exact ht x hx

theorem Called.mono {Q : κ → τ → Prop} (h : Called P k t) (hPQ : ∀ u, P k u → Q k' u) :
    Called Q k' t :=
  fun x hx u hu => hPQ u (h x hx u hu)

theorem Called.onward (h : Called P k t) (hk : Onward P k k') : Called P k' t := h.mono hk

end Called

/-! ## Actions that pass a property on -/

namespace Act

variable {P : κ → τ → Prop} {k : κ} {m : Act κ (Happening τ) α} {Q R : α → κ → Prop}

/-- The action takes the property from no task, calls hooks of tasks with the property only, and
leaves a value and a context that satisfy `Q`. -/
def Lasts (P : κ → τ → Prop) (m : Act κ (Happening τ) α) (k : κ) (Q : α → κ → Prop) : Prop :=
  m.Meets k (fun _ => True) fun a k' trail => Onward P k k' ∧ Called P k' trail ∧ Q a k'

theorem lasts_pure {a : α} (h : Q a k) : (pure a : Act κ (Happening τ) α).Lasts P k Q :=
  meets_pure ⟨fun _ => id, called_of_none (by simp), h⟩

theorem Lasts.bind {f : α → Act κ (Happening τ) β} {S : β → κ → Prop} (hm : m.Lasts P k Q)
    (hf : ∀ a k', Onward P k k' → Q a k' → (f a).Lasts P k' S) : (m >>= f).Lasts P k S := by
  apply Meets.bind hm
  intro a k' trail h
  apply Meets.imp (hf a k' h.1 h.2.2)
  intro b k'' trail' h'
  have hcalled := called_append.mpr ⟨h.2.1.onward h'.1, h'.2.1⟩
  exact ⟨fun t ht => h'.1 t (h.1 t ht), hcalled, h'.2.2⟩

theorem Lasts.note_bind {s : Severity} {message : String} {fields : List (String × String)}
    {f : Unit → Act κ (Happening τ) β} {S : β → κ → Prop} (h : (f ()).Lasts P k S) :
    (note s message fields >>= f).Lasts P k S := by
  apply Meets.note_bind
  apply Meets.imp h
  intro b k' trail h
  exact ⟨h.1, h.2.1.cons (by simp [Happening.callee?]), h.2.2⟩

/-- A call of a hook of a task with the property. -/
theorem lasts_call {hook : Act κ Record α} {c : Happening τ} (hc : ∀ t ∈ c.callee?, P k t)
    (hm : hook.Ensures k fun a k' _ => Onward P k k' ∧ Q a k') : (call c hook).Lasts P k Q := by
  apply Meets.call
  apply Meets.imp hm
  intro a k' records h
  exact ⟨h.1, (called_noted records).cons fun t ht => h.1 t (hc t ht), h.2⟩

end Act

/-! ## Spines -/

namespace Spine

open Act

variable {P : κ → τ → Prop} {k k' : κ} {s : Spine τ} {nodes : List (Node τ)} {n : Node τ}

/-- The tasks of the nodes have the property. -/
def Have (P : κ → τ → Prop) (k : κ) (nodes : List (Node τ)) : Prop := ∀ n ∈ nodes, P k n.task

theorem have_nil : Have P k [] := by simp [Have]

theorem have_cons : Have P k (n :: nodes) ↔ P k n.task ∧ Have P k nodes := by
  simp [Have]

theorem Have.mono {Q : κ → τ → Prop} (h : Have P k nodes) (hPQ : ∀ t, P k t → Q k' t) :
    Have Q k' nodes :=
  fun n hn => hPQ n.task (h n hn)

theorem Have.onward (h : Have P k nodes) (hk : Onward P k k') : Have P k' nodes := h.mono hk

theorem dropAll_lasts (nodes : List (Node τ)) :
    (dropAll nodes : Act κ (Happening τ) Unit).Lasts P k fun _ _ => True := by
  refine meets_tellAll ⟨fun _ => id, called_of_none ?_, trivial⟩
  intro x hx
  obtain ⟨n, -, rfl⟩ := List.mem_map.mp hx
  rfl

variable [Task κ τ]

/-! ### Teardown -/

theorem leave_lasts (hP : Lasting P) (taker : Option τ) (hn : P k n.task) :
    (leave taker n).Lasts P k fun m k' => P k' m.task := by
  rw [leave]
  split
  · exact lasts_pure hn
  · have hcallee : ∀ t ∈ (Happening.stopped n.task taker).callee?, P k t := by
      simpa [Happening.callee?] using hn
    apply (lasts_call hcallee (hP.stop hn taker)).bind
    exact fun task k' _ ht => lasts_pure ht

theorem halt_lasts (hP : Lasting P) (taker : Option τ) (hn : P k n.task) :
    (halt taker n).Lasts P k fun m k' => P k' m.task :=
  Lasts.note_bind (leave_lasts hP taker hn)

theorem pause_lasts (hP : Lasting P) (taker : Option τ) (hn : P k n.task) :
    (pause taker n).Lasts P k fun m k' => P k' m.task := by
  apply Lasts.note_bind
  apply (leave_lasts hP taker hn).bind
  exact fun m k' _ hm => lasts_pure hm

theorem haltAll_lasts (hP : Lasting P) (taker : Option τ) (above : List (Node τ))
    (h : Have P k nodes) : (haltAll taker above nodes).Lasts P k fun _ _ => True := by
  induction nodes generalizing above k with
  | nil => exact lasts_pure trivial
  | cons n rest ih =>
      rw [have_cons] at h
      rw [haltAll]
      split
      · apply (halt_lasts hP taker h.1).bind
        exact fun m k' hk _ => ih (m :: above) (h.2.onward hk)
      · apply (dropAll_lasts (n :: rest)).bind
        exact fun _ _ _ _ => lasts_pure trivial

theorem stopAndDrop_lasts (hP : Lasting P) (taker : Option τ) (h : Have P k nodes) :
    (stopAndDrop taker nodes).Lasts P k fun _ _ => True := by
  apply (haltAll_lasts hP taker [] h).bind
  exact fun halted _ _ _ => dropAll_lasts halted

theorem stop_lasts (hP : Lasting P) (taker : Option τ) (h : Have P k s.nodes) :
    (s.stop taker).Lasts P k fun s' k' => Have P k' s'.nodes := by
  rw [nodes, have_cons] at h
  rw [stop]
  split
  · apply (halt_lasts hP taker h.1).bind
    intro n k₁ hk hn
    apply (stopAndDrop_lasts hP taker (h.2.onward hk)).bind
    intro _ k₂ hk' _
    exact lasts_pure (have_cons.mpr ⟨hk' _ hn, have_nil⟩)
  · exact lasts_pure (have_cons.mpr h)

theorem suspendBelow_lasts (hP : Lasting P) (taker : Option τ) (h : Have P k nodes) :
    (suspendBelow taker nodes).Lasts P k fun ms k' => Have P k' ms := by
  induction nodes generalizing k with
  | nil => exact lasts_pure have_nil
  | cons n rest ih =>
      rw [suspendBelow]
      split
      · rw [have_cons] at h
        apply (pause_lasts hP taker h.1).bind
        intro m k₁ hk hm
        apply (ih (h.2.onward hk)).bind
        exact fun ms k₂ hk' hms => lasts_pure (have_cons.mpr ⟨hk' _ hm, hms⟩)
      · exact lasts_pure h

theorem suspend_lasts (hP : Lasting P) (taker : Option τ) (h : Have P k s.nodes) :
    (s.suspend taker).Lasts P k fun s' k' => Have P k' s'.nodes := by
  rw [suspend]
  split
  · rw [nodes, have_cons] at h
    apply (pause_lasts hP taker h.1).bind
    intro m k₁ hk hm
    apply (suspendBelow_lasts hP taker (h.2.onward hk)).bind
    exact fun ms k₂ hk' hms => lasts_pure (have_cons.mpr ⟨hk' _ hm, hms⟩)
  · exact lasts_pure h

theorem fail_lasts (hP : Lasting P) (reason : String) (h : Have P k s.nodes) :
    (s.fail reason).Lasts P k fun s' k' => Have P k' s'.nodes := by
  apply (stop_lasts hP none h).bind
  intro s' k' _ hs'
  rw [nodes, have_cons] at hs'
  exact Lasts.note_bind (lasts_pure (have_cons.mpr hs'))

/-! ### Parts of a tick -/

theorem ready_lasts (hP : Lasting P) (h : Have P k s.nodes) :
    s.ready.Lasts P k fun s' k' => Have P k' s'.nodes := by
  rw [ready]
  split
  · rw [nodes, have_cons] at h
    rw [start]
    apply Lasts.note_bind
    have hcallee : ∀ t ∈ (Happening.started s.root.task).callee?, P k t := by
      simpa [Happening.callee?] using h.1
    apply (lasts_call hcallee (hP.start h.1 _)).bind
    intro r k₁ hk hr
    have hnodes : ∀ n : Node τ, n.task = r.1 → Have P k₁ (n :: s.below) :=
      fun n hn => have_cons.mpr ⟨hn ▸ hr, h.2.onward hk⟩
    dsimp only
    split
    · exact lasts_pure (hnodes _ rfl)
    · exact fail_lasts hP _ (hnodes _ rfl)
  · exact lasts_pure h

theorem rejoin_lasts {sub : Spine τ} (hn : P k n.task) (hsub : Have P k sub.nodes) :
    (rejoin n sub : Act κ (Happening τ) _).Lasts P k fun s' k' => Have P k' s'.nodes := by
  rw [rejoin]
  split
  · exact lasts_pure (have_cons.mpr ⟨hn, hsub⟩)
  · apply (dropAll_lasts sub.nodes).bind
    exact fun _ k' hk _ => lasts_pure (have_cons.mpr ⟨hk _ hn, have_nil⟩)

end Spine

end Arbiter
