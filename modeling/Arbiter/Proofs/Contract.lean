import Arbiter.Task.Happening

/-! Contracts of actions: which faults may end one, and what one that goes through leaves. Sequences
are reasoned about part by part, each from the context that the part before it left. -/

namespace Arbiter.Act

variable {κ σ ω ν τ α β : Type}

/-- From the context `k`, a fault that ends the action satisfies `F`, and an action that goes
through leaves a value, a context and a trail that satisfy `Q`. -/
def Meets (m : Act κ ω α) (k : κ) (F : Fault → Prop) (Q : α → κ → List ω → Prop) : Prop :=
  match m k with
  | .error e => F e
  | .ok d => Q d.value d.context d.trail

/-- The contract of an action of which only the result is of interest. -/
abbrev Ensures (m : Act κ ω α) (k : κ) (Q : α → κ → List ω → Prop) : Prop :=
  m.Meets k (fun _ => True) Q

variable {k : κ} {F G : Fault → Prop} {m : Act κ ω α} {P Q : α → κ → List ω → Prop}

theorem Meets.of_ok {d : Done κ ω α} (hm : m.Meets k F Q) (h : m k = .ok d) :
    Q d.value d.context d.trail := by
  rw [Meets] at hm
  rwa [h] at hm

/-- A contract without faults is one of success. -/
theorem Meets.ok (hm : m.Meets k (fun _ => False) Q) :
    ∃ d, m k = .ok d ∧ Q d.value d.context d.trail := by
  rw [Meets] at hm
  cases h : m k with
  | error e => rw [h] at hm; exact hm.elim
  | ok d => rw [h] at hm; exact ⟨d, rfl, hm⟩

/-- Whether an action goes through, and with a result that passes a test. -/
def passes (m : Act κ ω α) (k : κ) (p : Done κ ω α → Bool) : Bool :=
  match m k with
  | .error _ => false
  | .ok d => p d

theorem exists_ok {p : Done κ ω α → Bool} (h : m.passes k p = true) :
    ∃ d, m k = .ok d ∧ p d = true := by
  rw [passes] at h
  split at h
  · cases h
  · next d hd => exact ⟨d, hd, h⟩

/-- Whether an action ends with a fault. -/
def fails (m : Act κ ω α) (k : κ) (f : Fault) : Bool :=
  match m k with
  | .error e => e = f
  | .ok _ => false

theorem error_of_fails {f : Fault} (h : m.fails k f = true) : m k = .error f := by
  rw [fails] at h
  split at h
  · next e he => rw [he, of_decide_eq_true h]
  · cases h

theorem Meets.mono (hm : m.Meets k F P) (hf : ∀ e, F e → G e) (h : ∀ a k' t, P a k' t → Q a k' t) :
    m.Meets k G Q := by
  unfold Meets at hm ⊢
  split at hm
  · exact hf _ hm
  · exact h _ _ _ hm

theorem Meets.imp (hm : m.Meets k F P) (h : ∀ a k' t, P a k' t → Q a k' t) : m.Meets k F Q :=
  hm.mono (fun _ hf => hf) h

theorem Meets.and (hm : m.Meets k F P) (hm' : m.Meets k F Q) :
    m.Meets k F fun a k' t => P a k' t ∧ Q a k' t := by
  unfold Meets at hm hm' ⊢
  split at hm
  · exact hm
  · next h =>
    rw [h] at hm'
    exact ⟨hm, hm'⟩

/-- Beside what a contract says of the result, it is the result of this run. -/
theorem Meets.ran (hm : m.Meets k F Q) :
    m.Meets k F fun a k' t => m k = .ok ⟨a, k', t⟩ ∧ Q a k' t := by
  unfold Meets at hm ⊢
  cases h : m k with
  | error e => rw [h] at hm; exact hm
  | ok d => rw [h] at hm; exact ⟨rfl, hm⟩

/-- An action of which nothing is known ends as it ends. -/
theorem meets_run (m : Act κ ω α) (k : κ) :
    m.Meets k (fun e => m k = .error e) fun a k' t => m k = .ok ⟨a, k', t⟩ := by
  unfold Meets
  cases m k <;> rfl

theorem ensures_run (m : Act κ ω α) (k : κ) :
    m.Ensures k fun a k' t => m k = .ok ⟨a, k', t⟩ :=
  (meets_run m k).mono (fun _ _ => trivial) fun _ _ _ h => h

theorem ensures_true (m : Act κ ω α) (k : κ) : m.Ensures k fun _ _ _ => True :=
  (ensures_run m k).imp fun _ _ _ _ => trivial

/-! ### The parts of an action -/

theorem Meets.bind {f : α → Act κ ω β} {R : β → κ → List ω → Prop} (hm : m.Meets k F P)
    (hf : ∀ a k' t, P a k' t → (f a).Meets k' F fun b k'' u => R b k'' (t ++ u)) :
    (m >>= f).Meets k F R := by
  unfold Meets at hm ⊢
  rw [bind_apply]
  cases h : m k with
  | error e => rw [h] at hm; exact hm
  | ok a =>
      rw [h] at hm
      have hb := hf _ _ _ hm
      rw [Meets] at hb
      cases hg : f a.value a.context with
      | error e => simpa only [hg] using hb
      | ok b => simpa only [hg] using hb

theorem meets_pure {a : α} (h : Q a k []) : (pure a : Act κ ω α).Meets k F Q := h

theorem meets_get {Q : κ → κ → List ω → Prop} (h : Q k k []) : (get : Act κ ω κ).Meets k F Q := h

theorem meets_set {j : κ} {Q : Unit → κ → List ω → Prop} (h : Q () j []) :
    (set j : Act κ ω Unit).Meets k F Q := h

theorem meets_modify {f : κ → κ} {Q : Unit → κ → List ω → Prop} (h : Q () (f k) []) :
    (modify f : Act κ ω Unit).Meets k F Q := h

theorem meets_tell {w : ω} {Q : Unit → κ → List ω → Prop} (h : Q () k [w]) :
    (tell w : Act κ ω Unit).Meets k F Q := h

theorem meets_tellAll {ws : List ω} {Q : Unit → κ → List ω → Prop} (h : Q () k ws) :
    (tellAll ws : Act κ ω Unit).Meets k F Q := h

theorem meets_abort {e : Fault} (h : F e) : (abort e : Act κ ω α).Meets k F Q := h

theorem meets_note {s : Severity} {message : String} {fields : List (String × String)}
    {Q : Unit → κ → List (Happening τ) → Prop} (h : Q () k [.noted ⟨s, message, fields⟩]) :
    (note s message fields : Act κ (Happening τ) Unit).Meets k F Q := h

theorem meets_ofExcept {x : Except Fault α} (he : ∀ e, x = .error e → F e)
    (h : ∀ a, x = .ok a → Q a k []) : (ofExcept x : Act κ ω α).Meets k F Q := by
  unfold Meets ofExcept
  cases hx : x with
  | error e => exact he e hx
  | ok a => exact h a hx

theorem Meets.mapTrail {f : ω → ν} {R : α → κ → List ν → Prop}
    (hm : m.Meets k F fun a k' t => R a k' (t.map f)) : (mapTrail f m).Meets k F R := by
  unfold Meets at hm ⊢
  rw [Act.mapTrail]
  cases h : m k with
  | error e => rw [h] at hm; exact hm
  | ok d => rw [h] at hm; exact hm

theorem Meets.within {part : σ → κ} {replace : κ → σ → σ} {s : σ} {R : α → σ → List ω → Prop}
    (hm : m.Meets (part s) F fun a k' t => R a (replace k' s) t) :
    (within part replace m).Meets s F R := by
  unfold Meets at hm ⊢
  rw [Act.within]
  cases h : m (part s) with
  | error e => rw [h] at hm; exact hm
  | ok d => rw [h] at hm; exact hm

theorem Meets.call {hook : Act κ Record α} {c : Happening τ}
    {R : α → κ → List (Happening τ) → Prop}
    (hm : hook.Meets k F fun a k' t => R a k' (c :: t.map .noted)) :
    (call c hook).Meets k F R := by
  rw [Act.call]
  exact Meets.bind (meets_tell (Q := fun _ k' t => k' = k ∧ t = [c]) ⟨rfl, rfl⟩) fun _ _ _ h => by
    rw [h.1, h.2]
    exact Meets.mapTrail hm

/-- A call of a hook, as far as its value and the context are concerned. -/
theorem Meets.called {hook : Act κ Record α} {c : Happening τ} {R : α → κ → Prop}
    (hm : hook.Meets k F fun a k' _ => R a k') :
    (Act.call c hook).Meets k F fun a k' _ => R a k' := Meets.call hm

/-- The call of a hook is on the trail before the records that the hook writes. -/
theorem ensures_call (c : Happening τ) (hook : Act κ Record α) (k : κ) :
    (call c hook).Ensures k fun a k' t => ∃ records, hook k = .ok ⟨a, k', records⟩ ∧
      t = c :: records.map .noted :=
  Meets.call ((ensures_run hook k).imp fun _ _ records h => ⟨records, h, rfl⟩)

/-! ### Sequences that begin with a simple part -/

variable {R : β → κ → List ω → Prop}

theorem Meets.get_bind {f : κ → Act κ ω β} (h : (f k).Meets k F R) : (get >>= f).Meets k F R :=
  Meets.bind (P := fun a k' t => a = k ∧ k' = k ∧ t = [])
    (meets_get ⟨rfl, rfl, rfl⟩) fun _ _ _ h' =>
    by rw [h'.1, h'.2.1, h'.2.2]; exact h

theorem Meets.set_bind {j : κ} {f : Unit → Act κ ω β} (h : (f ()).Meets j F R) :
    (set j >>= f).Meets k F R :=
  Meets.bind (P := fun _ k' t => k' = j ∧ t = []) (meets_set ⟨rfl, rfl⟩) fun _ _ _ h' =>
    by rw [h'.1, h'.2]; exact h

theorem Meets.ofExcept_bind {x : Except Fault α} {f : α → Act κ ω β}
    (he : ∀ e, x = .error e → F e) (h : ∀ a, x = .ok a → (f a).Meets k F R) :
    (ofExcept x >>= f).Meets k F R :=
  Meets.bind (P := fun a k' t => x = .ok a ∧ k' = k ∧ t = [])
    (meets_ofExcept he fun _ ha => ⟨ha, rfl, rfl⟩) fun a _ _ h' =>
    by rw [h'.2.1, h'.2.2]; exact h a h'.1

theorem Meets.note_bind {s : Severity} {message : String} {fields : List (String × String)}
    {f : Unit → Act κ (Happening τ) β} {R : β → κ → List (Happening τ) → Prop}
    (h : (f ()).Meets k F fun b k' t => R b k' (.noted ⟨s, message, fields⟩ :: t)) :
    (note s message fields >>= f).Meets k F R :=
  Meets.bind (P := fun _ k' t => k' = k ∧ t = [.noted ⟨s, message, fields⟩])
    (meets_note ⟨rfl, rfl⟩) fun _ _ _ h' => by rw [h'.1, h'.2]; exact h

/-- What every single run of an action passes on holds after any number of them. -/
theorem Meets.times {m : Act κ ω Unit} {I : Nat → κ → Prop} {n : Nat}
    (hm : ∀ i < n, ∀ k, I i k → m.Meets k F fun _ k' _ => I (i + 1) k') {k : κ} (h : I 0 k) :
    (times n m).Meets k F fun _ k' _ => I n k' := by
  induction n generalizing I k with
  | zero => exact h
  | succ n ih =>
      rw [times_succ]
      refine (hm 0 (by omega) k h).bind fun _ k' _ h' => ?_
      exact ih (I := fun i => I (i + 1)) (fun i hi => hm (i + 1) (by omega)) h'

/-! ### Contracts on every entry of the trail -/

/-- From the context `k`, a fault that ends the action satisfies `F`, and an action that goes
through leaves a value and a context that satisfy `Q`, and only entries `T` on its trail. -/
def Keeps (m : Act κ ω α) (k : κ) (F : Fault → Prop) (T : ω → Prop) (Q : α → κ → Prop) : Prop :=
  m.Meets k F fun a k' t => (∀ x ∈ t, T x) ∧ Q a k'

section Keeps

variable {T : ω → Prop} {P Q : α → κ → Prop} {R : β → κ → Prop}

theorem Keeps.mono {S : ω → Prop} (hm : m.Keeps k F T P) (hf : ∀ e, F e → G e)
    (ht : ∀ x, T x → S x) (h : ∀ a k', P a k' → Q a k') : m.Keeps k G S Q :=
  Meets.mono hm hf fun _ _ _ hp => ⟨fun x hx => ht x (hp.1 x hx), h _ _ hp.2⟩

theorem Keeps.imp (hm : m.Keeps k F T P) (h : ∀ a k', P a k' → Q a k') : m.Keeps k F T Q :=
  hm.mono (fun _ hf => hf) (fun _ ht => ht) h

theorem keeps_pure {a : α} (h : Q a k) : (pure a : Act κ ω α).Keeps k F T Q :=
  meets_pure ⟨by simp, h⟩

theorem keeps_modify {f : κ → κ} {Q : Unit → κ → Prop} (h : Q () (f k)) :
    (modify f : Act κ ω Unit).Keeps k F T Q :=
  meets_modify ⟨by simp, h⟩

theorem keeps_set {j : κ} {Q : Unit → κ → Prop} (h : Q () j) :
    (set j : Act κ ω Unit).Keeps k F T Q :=
  meets_set ⟨by simp, h⟩

theorem keeps_tell {w : ω} {Q : Unit → κ → Prop} (hw : T w) (h : Q () k) :
    (tell w : Act κ ω Unit).Keeps k F T Q :=
  meets_tell ⟨by simpa using hw, h⟩

theorem keeps_tellAll {ws : List ω} {Q : Unit → κ → Prop} (hw : ∀ w ∈ ws, T w) (h : Q () k) :
    (tellAll ws : Act κ ω Unit).Keeps k F T Q :=
  meets_tellAll ⟨hw, h⟩

theorem keeps_ofExcept {x : Except Fault α} (he : ∀ e, x = .error e → F e)
    (h : ∀ a, x = .ok a → Q a k) : (ofExcept x : Act κ ω α).Keeps k F T Q :=
  meets_ofExcept he fun a ha => ⟨by simp, h a ha⟩

theorem Keeps.bind {f : α → Act κ ω β} (hm : m.Keeps k F T P)
    (hf : ∀ a k', P a k' → (f a).Keeps k' F T R) : (m >>= f).Keeps k F T R := by
  refine Meets.bind hm fun a k' t h => Meets.imp (hf a k' h.2) fun b k'' u hu => ⟨?_, hu.2⟩
  intro x hx
  rcases List.mem_append.mp hx with hx | hx
  · exact h.1 x hx
  · exact hu.1 x hx

theorem Keeps.get_bind {f : κ → Act κ ω β} (h : (f k).Keeps k F T R) :
    (get >>= f).Keeps k F T R :=
  Meets.get_bind h

theorem Keeps.set_bind {j : κ} {f : Unit → Act κ ω β} (h : (f ()).Keeps j F T R) :
    (set j >>= f).Keeps k F T R :=
  Meets.set_bind h

theorem Keeps.ofExcept_bind {x : Except Fault α} {f : α → Act κ ω β}
    (he : ∀ e, x = .error e → F e) (h : ∀ a, x = .ok a → (f a).Keeps k F T R) :
    (ofExcept x >>= f).Keeps k F T R :=
  Meets.ofExcept_bind he h

theorem Keeps.tell_bind {w : ω} {f : Unit → Act κ ω β} (hw : T w) (h : (f ()).Keeps k F T R) :
    (tell w >>= f).Keeps k F T R :=
  Keeps.bind (P := fun _ k' => k' = k) (keeps_tell hw rfl) fun _ _ hk => by rw [hk]; exact h

theorem Keeps.tellAll_bind {ws : List ω} {f : Unit → Act κ ω β} (hw : ∀ w ∈ ws, T w)
    (h : (f ()).Keeps k F T R) : (tellAll ws >>= f).Keeps k F T R :=
  Keeps.bind (P := fun _ k' => k' = k) (keeps_tellAll hw rfl) fun _ _ hk => by rw [hk]; exact h

theorem Keeps.within {part : σ → κ} {replace : κ → σ → σ} {s : σ} {R : α → σ → Prop}
    (hm : m.Keeps (part s) F T fun a k' => R a (replace k' s)) :
    (within part replace m).Keeps s F T R :=
  Meets.within hm

theorem Keeps.mapTrail {f : ω → ν} {S : ν → Prop} (hm : m.Keeps k F (fun x => S (f x)) P) :
    (mapTrail f m).Keeps k F S P := by
  refine Meets.mapTrail (Meets.imp hm fun a k' t h => ⟨?_, h.2⟩)
  simpa using h.1

end Keeps

end Arbiter.Act

namespace Arbiter

/-! ### Contracts of calculations -/

section Calculations

variable {α β : Type} {F G : Fault → Prop} {P Q : α → Prop} {R : β → Prop}

/-- A fault that ends the calculation satisfies `F`, and a result satisfies `Q`. -/
def Yields (x : Except Fault α) (F : Fault → Prop) (Q : α → Prop) : Prop :=
  match x with
  | .error e => F e
  | .ok a => Q a

theorem Yields.error {x : Except Fault α} {e : Fault} (h : Yields x F Q) (hx : x = .error e) :
    F e := by
  rw [hx] at h
  exact h

theorem Yields.ok {x : Except Fault α} {a : α} (h : Yields x F Q) (hx : x = .ok a) : Q a := by
  rw [hx] at h
  exact h

theorem yields_iff {x : Except Fault α} :
    Yields x F Q ↔ (∀ e, x = .error e → F e) ∧ ∀ a, x = .ok a → Q a := by
  cases x <;> simp [Yields]

theorem yields_pure {a : α} (h : Q a) : Yields (pure a) F Q := h

theorem Yields.mono {x : Except Fault α} (hx : Yields x F P) (hf : ∀ e, F e → G e)
    (h : ∀ a, P a → Q a) : Yields x G Q := by
  cases x with
  | error e => exact hf e hx
  | ok a => exact h a hx

theorem Yields.bind {x : Except Fault α} {f : α → Except Fault β} (hx : Yields x F P)
    (hf : ∀ a, P a → Yields (f a) F R) : Yields (x >>= f) F R := by
  cases x with
  | error e => exact hx
  | ok a => exact hf a hx

theorem Yields.keeps {κ ω : Type} {x : Except Fault α} {k : κ} {T : ω → Prop} (hx : Yields x F P) :
    (Act.ofExcept x : Act κ ω α).Keeps k F T fun a k' => P a ∧ k' = k :=
  Act.keeps_ofExcept (fun _ h => hx.error h) fun _ h => ⟨hx.ok h, rfl⟩

end Calculations

/-! ### Contracts of hook calls -/

/-- All that is written to the log satisfies `T`. -/
def Happening.Notes {τ : Type} (T : Record → Prop) : Happening τ → Prop
  | noted r => T r
  | _ => True

namespace Act

variable {κ τ α β : Type} {k : κ} {F : Fault → Prop} {T : Record → Prop}

theorem Keeps.note_bind {s : Severity} {message : String} {fields : List (String × String)}
    {f : Unit → Act κ (Happening τ) β} {R : β → κ → Prop} (hr : T ⟨s, message, fields⟩)
    (h : (f ()).Keeps k F (Happening.Notes T) R) :
    (note s message fields >>= f).Keeps k F (Happening.Notes T) R :=
  Keeps.tell_bind hr h

/-- A hook is called with what it writes to the log. -/
theorem Keeps.called {hook : Act κ Record α} {c : Happening τ} {R : α → κ → Prop}
    (hc : c.Notes T) (hm : hook.Keeps k F T R) :
    (call c hook).Keeps k F (Happening.Notes T) R :=
  Keeps.tell_bind hc (Keeps.mapTrail hm)

end Act

end Arbiter
