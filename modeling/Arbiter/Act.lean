import Arbiter.Fault

/-!
Actions over a context. An action reads and changes the context, leaves a trail of what
happened, and may end in a fault. The trail only grows: no action can see or erase it.
-/

namespace Arbiter

/-- What an action that went through leaves behind. -/
structure Done (κ ω α : Type) where
  value : α
  context : κ
  trail : List ω

/-- An action on a context `κ` whose trail holds `ω`. -/
def Act (κ ω α : Type) : Type := κ → Except Fault (Done κ ω α)

namespace Act

variable {κ σ ω ν α β : Type}

def joined (s t : List ω) : List ω :=
  match t with
  | [] => s
  | t => s ++ t

theorem joined_eq_append (s t : List ω) : joined s t = s ++ t := by
  cases t <;> simp [joined]

protected def pure (a : α) : Act κ ω α := fun k => .ok ⟨a, k, []⟩

/-- Runs `m`, then `f` on its value; the two trails are joined in this order. -/
protected def bind (m : Act κ ω α) (f : α → Act κ ω β) : Act κ ω β := fun k =>
  match m k with
  | .error e => .error e
  | .ok a =>
    match f a.value a.context with
    | .error e => .error e
    | .ok b => .ok ⟨b.value, b.context, joined a.trail b.trail⟩

instance : Monad (Act κ ω) where
  pure := Act.pure
  bind := Act.bind

theorem ext {m n : Act κ ω α} (h : ∀ k, m k = n k) : m = n := funext h

theorem pure_apply (a : α) (k : κ) : (pure a : Act κ ω α) k = .ok ⟨a, k, []⟩ := rfl

theorem bind_apply (m : Act κ ω α) (f : α → Act κ ω β) (k : κ) :
    (m >>= f) k =
      match m k with
      | .error e => .error e
      | .ok a =>
        match f a.value a.context with
        | .error e => .error e
        | .ok b => .ok ⟨b.value, b.context, a.trail ++ b.trail⟩ := by
  show Act.bind m f k = _
  simp only [Act.bind, joined_eq_append]

instance : LawfulMonad (Act κ ω) := LawfulMonad.mk' (Act κ ω)
  (fun m => by
    apply ext; intro k
    show Act.bind m (fun a => Act.pure (id a)) k = m k
    unfold Act.bind Act.pure
    cases m k <;> simp [joined_eq_append])
  (fun a f => by
    apply ext; intro k
    show Act.bind (Act.pure a) f k = f a k
    unfold Act.bind Act.pure
    cases h : f a k <;> simp [h, joined_eq_append])
  (fun m f g => by
    apply ext; intro k
    show Act.bind (Act.bind m f) g k = Act.bind m (fun a => Act.bind (f a) g) k
    unfold Act.bind
    cases m k with
    | error e => rfl
    | ok a =>
      cases hf : f a.value a.context with
      | error e => simp [hf]
      | ok b =>
        cases hg : g b.value b.context <;> simp [hf, hg, joined_eq_append])

/-- A sequence goes through exactly if both of its parts do. -/
theorem bind_eq_ok_iff {m : Act κ ω α} {f : α → Act κ ω β} {k : κ} {d : Done κ ω β} :
    (m >>= f) k = .ok d ↔
      ∃ a b, m k = .ok a ∧ f a.value a.context = .ok b ∧
        d = ⟨b.value, b.context, a.trail ++ b.trail⟩ := by
  rw [bind_apply]
  cases m k with
  | error e => simp
  | ok a => cases hf : f a.value a.context <;> simp [hf, eq_comm]

def get : Act κ ω κ := fun k => .ok ⟨k, k, []⟩

def set (k : κ) : Act κ ω Unit := fun _ => .ok ⟨(), k, []⟩

def modify (f : κ → κ) : Act κ ω Unit := fun k => .ok ⟨(), f k, []⟩

def tell (w : ω) : Act κ ω Unit := fun k => .ok ⟨(), k, [w]⟩

def tellAll (ws : List ω) : Act κ ω Unit := fun k => .ok ⟨(), k, ws⟩

def abort (e : Fault) : Act κ ω α := fun _ => .error e

/-- A calculation that neither changes the context nor leaves a trail. -/
def ofExcept (x : Except Fault α) : Act κ ω α := fun k =>
  match x with
  | .error e => .error e
  | .ok a => .ok ⟨a, k, []⟩

instance : MonadLift (Except Fault) (Act κ ω) := ⟨ofExcept⟩

/-- The same action with every entry of its trail renamed. -/
def mapTrail (f : ω → ν) (m : Act κ ω α) : Act κ ν α := fun k =>
  match m k with
  | .error e => .error e
  | .ok a => .ok ⟨a.value, a.context, a.trail.map f⟩

/-- Runs an action on one part of a larger context. -/
def within (part : σ → κ) (replace : κ → σ → σ) (m : Act κ ω α) : Act σ ω α := fun s =>
  match m (part s) with
  | .error e => .error e
  | .ok a => .ok ⟨a.value, replace a.context s, a.trail⟩

/-- Runs an action `n` times; the trails of the runs so far are given latest first. -/
def repeatFrom (m : Act κ ω Unit) : Nat → κ → List (List ω) → Except Fault (Done κ ω Unit)
  | 0, k, trails => .ok ⟨(), k, trails.reverse.flatten⟩
  | n + 1, k, trails =>
    match m k with
    | .error e => .error e
    | .ok d => repeatFrom m n d.context (if d.trail.isEmpty then trails else d.trail :: trails)

def times (n : Nat) (m : Act κ ω Unit) : Act κ ω Unit := fun k => repeatFrom m n k []

/-! ### From a context -/

theorem get_apply (k : κ) : (get : Act κ ω κ) k = .ok ⟨k, k, []⟩ := rfl

theorem set_apply (k j : κ) : (set k : Act κ ω Unit) j = .ok ⟨(), k, []⟩ := rfl

theorem modify_apply (f : κ → κ) (k : κ) :
    (modify f : Act κ ω Unit) k = .ok ⟨(), f k, []⟩ := rfl

theorem tell_apply (w : ω) (k : κ) : (tell w : Act κ ω Unit) k = .ok ⟨(), k, [w]⟩ := rfl

theorem tellAll_apply (ws : List ω) (k : κ) :
    (tellAll ws : Act κ ω Unit) k = .ok ⟨(), k, ws⟩ := rfl

theorem ofExcept_eq_ok_iff {x : Except Fault α} {k : κ} {d : Done κ ω α} :
    (ofExcept x : Act κ ω α) k = .ok d ↔ ∃ a, x = .ok a ∧ d = ⟨a, k, []⟩ := by
  cases x <;> simp [ofExcept, eq_comm]

theorem mapTrail_eq_ok_iff {f : ω → ν} {m : Act κ ω α} {k : κ} {d : Done κ ν α} :
    mapTrail f m k = .ok d ↔
      ∃ a, m k = .ok a ∧ d = ⟨a.value, a.context, a.trail.map f⟩ := by
  unfold mapTrail
  cases m k <;> simp [eq_comm]

theorem within_eq_ok_iff {part : σ → κ} {replace : κ → σ → σ} {m : Act κ ω α} {s : σ}
    {d : Done σ ω α} :
    within part replace m s = .ok d ↔
      ∃ a, m (part s) = .ok a ∧ d = ⟨a.value, replace a.context s, a.trail⟩ := by
  unfold within
  cases m (part s) <;> simp [eq_comm]

theorem repeatFrom_eq (m : Act κ ω Unit) (n : Nat) (k : κ) (trails : List (List ω)) :
    repeatFrom m n k trails =
      match times n m k with
      | .error e => .error e
      | .ok d => .ok ⟨(), d.context, trails.reverse.flatten ++ d.trail⟩ := by
  unfold times
  induction n generalizing k trails with
  | zero => simp [repeatFrom]
  | succ n ih =>
    cases hm : m k with
    | error e => simp [repeatFrom, hm]
    | ok d =>
      simp only [repeatFrom, hm]
      rw [ih, ih d.context (if d.trail.isEmpty then [] else [d.trail])]
      cases repeatFrom m n d.context [] with
      | error e => rfl
      | ok a => cases ht : d.trail <;> simp

/-- Once more is first once and then the rest. -/
theorem times_succ (n : Nat) (m : Act κ ω Unit) : times (n + 1) m = m >>= fun _ => times n m := by
  apply ext; intro k
  rw [bind_apply, times, repeatFrom]
  cases hm : m k with
  | error e => rfl
  | ok d =>
    simp only
    rw [repeatFrom_eq]
    cases times n m d.context with
    | error e => rfl
    | ok a => cases ht : d.trail <;> simp

end Act

end Arbiter
