import Arbiter.Proofs.Lifecycle.Instance

/-! Who is held, and with an open activation or not. A trail keeps such an account if the watch over
each instance passes it; accounts of different instances go side by side. -/

namespace Arbiter

/-- The instances that are held, by number, each with whether its activation is open. -/
abbrev Lives := List (Nat × Bool)

namespace Lives

/-- No instance is held twice, and no number is in use that is still free. -/
structure Fits (l : Lives) (next : Nat) : Prop where
  nodup : (l.map Prod.fst).Nodup
  lt : ∀ p ∈ l, p.1 < next

def isOpen (l : Lives) (i : Nat) : Bool := decide ((i, true) ∈ l)

theorem Fits.perm {l m : Lives} {n : Nat} (h : l.Fits n) (hp : l.Perm m) : m.Fits n :=
  ⟨(hp.map _).nodup_iff.mp h.nodup, fun p hm => h.lt p (hp.mem_iff.mpr hm)⟩

theorem isOpen_perm {l m : Lives} (hp : l.Perm m) (i : Nat) : l.isOpen i = m.isOpen i := by
  simp only [isOpen, hp.mem_iff]

theorem isOpen_concat_self {f : Lives} {i : Nat} {o : Bool} {n : Nat} (h : Fits (f ++ [(i, o)]) n) :
    isOpen (f ++ [(i, o)]) i = o := by
  have hi : (i, true) ∉ f := by
    intro hm
    have hn := h.nodup
    rw [List.map_append, List.nodup_append] at hn
    exact hn.2.2 i (List.mem_map_of_mem hm) i (by simp) rfl
  cases o <;> simp [isOpen, hi]

theorem isOpen_concat_ne {f : Lives} {i j : Nat} (h : j ≠ i) (o : Bool) :
    isOpen (f ++ [(i, o)]) j = isOpen f j := by
  simp [isOpen, h]

end Lives

open Lives

section

variable {τ : Type}

/-- The trail leads from the account `l` to the account `l'`, whatever other instances are held. -/
def Keeps (l : Lives) (n : Nat) (l' : Lives) (n' : Nat) (trail : List (Happening (Instance τ))) :
    Prop :=
  ∀ frame, Fits (frame ++ l) n → Fits (frame ++ l') n' ∧
    ∀ i, watch i (isOpen (frame ++ l) i) trail = some (isOpen (frame ++ l') i)

namespace Keeps

variable {l l' m m' : Lives} {n n' n'' : Nat} {s t : List (Happening (Instance τ))}

/-! ## Accounts side by side and in turn -/

theorem refl (l : Lives) (n : Nat) : Keeps l n l n ([] : List (Happening (Instance τ))) :=
  fun _ hf => ⟨hf, fun _ => rfl⟩

theorem trans (h : Keeps l n m n' s) (h' : Keeps m n' l' n'' t) : Keeps l n l' n'' (s ++ t) := by
  intro frame hf
  obtain ⟨hf', hs⟩ := h frame hf
  obtain ⟨hf'', ht⟩ := h' frame hf'
  refine ⟨hf'', fun i => ?_⟩
  rw [watch_append, hs i]
  exact ht i

theorem perm_left (h : Keeps l n l' n' t) (hp : m.Perm l) : Keeps m n l' n' t := by
  intro frame hf
  have hp' := hp.append_left frame
  obtain ⟨hf', ht⟩ := h frame (hf.perm hp')
  refine ⟨hf', fun i => ?_⟩
  rw [isOpen_perm hp']
  exact ht i

theorem perm_right (h : Keeps l n l' n' t) (hp : l'.Perm m') : Keeps l n m' n' t := by
  intro frame hf
  have hp' := hp.append_left frame
  obtain ⟨hf', ht⟩ := h frame hf
  refine ⟨hf'.perm hp', fun i => ?_⟩
  rw [← isOpen_perm hp']
  exact ht i

theorem append_left (h : Keeps l n l' n' t) (a : Lives) : Keeps (a ++ l) n (a ++ l') n' t := by
  intro frame hf
  simp only [← List.append_assoc] at hf ⊢
  exact h (frame ++ a) hf

theorem append_right (h : Keeps l n l' n' t) (b : Lives) : Keeps (l ++ b) n (l' ++ b) n' t :=
  ((h.append_left b).perm_left List.perm_append_comm).perm_right List.perm_append_comm

/-! ## What may happen -/

/-- Happenings that concern no instance change no account. -/
theorem quiet (h : ∀ e ∈ t, ∀ i o, watchOne i o e = some o) (l : Lives) (n : Nat) :
    Keeps l n l n t := by
  intro frame hf
  refine ⟨hf, fun i => ?_⟩
  generalize isOpen (frame ++ l) i = o
  induction t with
  | nil => rfl
  | cons e t ih =>
      rw [watch, List.foldlM_cons, h e (by simp) i o]
      exact ih fun b hb => h b (by simp [hb])

theorem quiet_noted (rs : List Record) (l : Lives) (n : Nat) :
    Keeps l n l n (rs.map (Happening.noted : Record → Happening (Instance τ))) := by
  refine quiet ?_ l n
  intro e he i o
  obtain ⟨r, -, rfl⟩ := List.mem_map.mp he
  rfl

theorem noted (h : Keeps l n l' n' t) (r : Record) : Keeps l n l' n' (.noted r :: t) :=
  (quiet_noted [r] l n).trans h

/-- What happens to one instance changes its own entry. -/
theorem single {i : Nat} {o o' : Bool} {e : Happening (Instance τ)}
    (he : watchOne i o e = some o') (hne : ∀ j, j ≠ i → ∀ b, watchOne j b e = some b) (n : Nat) :
    Keeps [(i, o)] n [(i, o')] n [e] := by
  intro frame hf
  have hf' : Fits (frame ++ [(i, o')]) n := by
    refine ⟨by simpa using hf.nodup, ?_⟩
    intro p hp
    rcases List.mem_append.mp hp with hp | hp
    · exact hf.lt p (by simp [hp])
    · obtain rfl := List.mem_singleton.mp hp
      exact hf.lt (i, o) (by simp)
  refine ⟨hf', fun j => ?_⟩
  rw [watch, List.foldlM_cons]
  by_cases hj : j = i
  · subst hj
    rw [isOpen_concat_self hf, isOpen_concat_self hf', he]
    rfl
  · rw [isOpen_concat_ne hj, isOpen_concat_ne hj, hne j hj]
    rfl

theorem started (t : Instance τ) (n : Nat) :
    Keeps [(t.number, false)] n [(t.number, true)] n [.started t] := by
  refine single (by simp [watchOne]) ?_ n
  intro j hj b
  simp [watchOne, Ne.symm hj]

theorem ticked (t : Instance τ) (n : Nat) :
    Keeps [(t.number, true)] n [(t.number, true)] n [.ticked t] := by
  refine single (by simp [watchOne]) ?_ n
  intro j hj b
  simp [watchOne, Ne.symm hj]

theorem stopped (t : Instance τ) (taker : Option (Instance τ)) (n : Nat) :
    Keeps [(t.number, true)] n [(t.number, false)] n [.stopped t taker] := by
  refine single (by simp [watchOne]) ?_ n
  intro j hj b
  simp [watchOne, Ne.symm hj]

/-- A hook call and the records that the hook writes. -/
theorem hook {c : Happening (Instance τ)} (h : Keeps l n l' n [c]) (rs : List Record) :
    Keeps l n l' n (c :: rs.map .noted) := h.trans (quiet_noted rs l' n)

/-- An instance that is not open can be left out of account. -/
theorem forget (i n : Nat) : Keeps [(i, false)] n [] n ([] : List (Happening (Instance τ))) := by
  intro frame hf
  refine ⟨⟨?_, ?_⟩, fun j => ?_⟩
  · have hn := hf.nodup
    rw [List.map_append, List.nodup_append] at hn
    simpa using hn.1
  · intro p hp
    exact hf.lt p (List.mem_append_left _ (by simpa using hp))
  · simp [isOpen, watch]

theorem dropped (t : Instance τ) (n : Nat) :
    Keeps [(t.number, false)] n [] n [.dropped t] := by
  have hs : Keeps [(t.number, false)] n [(t.number, false)] n [.dropped t] := by
    refine single (by simp [watchOne]) ?_ n
    intro j hj b
    simp [watchOne, Ne.symm hj]
  exact hs.trans (forget t.number n)

/-- A fresh number is that of an instance that is not open. -/
theorem fresh (n : Nat) : Keeps [] n [(n, false)] (n + 1) ([] : List (Happening (Instance τ))) := by
  intro frame hf
  have hlt : ∀ p ∈ frame, p.1 < n := fun p hp => hf.lt p (by simp [hp])
  refine ⟨⟨?_, ?_⟩, fun j => ?_⟩
  · rw [List.map_append, List.nodup_append]
    refine ⟨by simpa using hf.nodup, by simp, ?_⟩
    intro a ha b hb
    obtain ⟨p, hp, rfl⟩ := List.mem_map.mp ha
    have := hlt p hp
    simp at hb
    omega
  · intro p hp
    rcases List.mem_append.mp hp with hp | hp
    · exact Nat.lt_succ_of_lt (hlt p hp)
    · simp_all
  · simp [isOpen, watch]

end Keeps

/-! ## From a whole run -/

/-- What a run from nothing shows of every instance: its calls are paired, it is closed when it is
dropped, and at the end it is closed unless it is held with an open activation. -/
theorem Keeps.lifecycle {l : Lives} {n : Nat} {trail : List (Happening (Instance τ))}
    (h : Keeps [] 0 l n trail) (i : Nat) :
    Paired i trail ∧
      (∀ before t after, trail = before ++ .dropped t :: after → t.number = i →
        Closed i before) ∧
      ((i, true) ∉ l → Closed i trail) := by
  have hw := (h [] ⟨List.nodup_nil, nofun⟩).2 i
  refine ⟨paired_of_watch hw, ?_, fun hi => ?_⟩
  · intro before t after ht hn
    subst ht hn
    exact closed_of_dropped hw
  · refine closed_of_watch (hw.trans ?_)
    simp [isOpen, hi]

end

/-! ## What the hooks of an instance do -/

namespace Instance

variable {κ τ : Type} [Task κ τ]

theorem inside_ensures {ω α : Type} (m : Act κ ω α) (s : Numbered κ) :
    (Numbered.inside m).Ensures s fun _ s' _ => s'.next = s.next :=
  Act.Meets.within ((Act.ensures_true m s.context).imp fun _ _ _ _ => rfl)

theorem onStart_ensures (i : Instance τ) (c : Control) (s : Numbered κ) :
    (Task.onStart i c).Ensures s fun r s' _ => r.1.number = i.number ∧ s'.next = s.next := by
  apply (inside_ensures _ s).bind
  intro r s' t h
  exact Act.meets_pure ⟨rfl, h⟩

theorem onStop_ensures (i : Instance τ) (taker : Option (Instance τ)) (s : Numbered κ) :
    (Task.onStop i taker).Ensures s fun j s' _ => j.number = i.number ∧ s'.next = s.next := by
  apply (inside_ensures _ s).bind
  intro r s' t h
  exact Act.meets_pure ⟨rfl, h⟩

/-- The account of a candidate. -/
def offered : Option (Instance τ) → Lives
  | none => []
  | some c => [(c.number, false)]

omit [Task κ τ] in
theorem draw_ensures (t : Option τ) (s : Numbered κ) :
    (Numbered.draw t : Act (Numbered κ) Record _).Ensures s fun c s' _ =>
      Keeps [] s.next (offered c) s'.next ([] : List (Happening (Instance τ))) := by
  cases t with
  | none => exact Act.meets_pure (.refl [] s.next)
  | some t => exact Act.Meets.get_bind (Act.Meets.set_bind (Act.meets_pure (.fresh s.next)))

theorem onTick_ensures (i : Instance τ) (c : Control) (s : Numbered κ) :
    (Task.onTick i c).Ensures s fun turn s' _ => turn.task.number = i.number ∧
      Keeps [] s.next (offered turn.candidate) s'.next ([] : List (Happening (Instance τ))) := by
  apply (inside_ensures _ s).bind
  intro r s' t h
  apply (draw_ensures r.candidate s').bind
  intro candidate s'' u hc
  rw [h] at hc
  exact Act.meets_pure ⟨rfl, hc⟩

end Instance

end Arbiter
