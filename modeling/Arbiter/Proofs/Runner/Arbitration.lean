import Arbiter.Proofs.Number.Order
import Arbiter.Proofs.Ticks

/-! Arbitration. The chain that is selected has the greatest of all claims and is the first that
does, and a chain that makes no claim might as well not be there. -/

namespace Arbiter

open Number

variable {κ τ χ : Type} [Chain κ τ χ] {k : κ}

/-! ## Claims -/

/-- A chain claims control this urgently: it is relevant, and its priority is a number. -/
structure Claims (k : κ) (c : χ) (urgency : Binary32.Extended) : Prop where
  relevant : Chain.isRelevant c k = .ok true
  number : (Chain.priority c k).isNaN = false
  value : (Chain.priority c k).value = urgency

/-- All chains tell whether they are relevant. -/
def Answering (k : κ) (chains : List χ) : Prop :=
  ∀ c ∈ chains, ∃ relevant, Chain.isRelevant c k = .ok relevant

/-- The chain at a place claims control this urgently, those before it less so, and those after it
no more so. -/
def Foremost (k : κ) (chains : List χ) (i : Nat) (urgency : Binary32.Extended) : Prop :=
  (∃ c, chains[i]? = some c ∧ Claims k c urgency) ∧
    ∀ j b p, chains[j]? = some b → Claims k b p → (j < i → p < urgency) ∧ (i < j → p ≤ urgency)

section Claims

variable {c : χ} {claim : Option Binary32} {p q : Binary32.Extended}

theorem Claims.unique (hp : Claims k c p) (hq : Claims k c q) : p = q :=
  hp.value.symm.trans hq.value

theorem claim?_ok (h : claim? c k = .ok claim) :
    ∃ relevant, Chain.isRelevant c k = .ok relevant := by
  rw [claim?] at h
  cases hr : Chain.isRelevant c k with
  | error e => rw [hr] at h; cases h
  | ok relevant => exact ⟨relevant, rfl⟩

theorem claim?_nan (hc : Chain.isRelevant c k = .ok true)
    (hp : (Chain.priority c k).isNaN = true) : claim? c k = .ok none := by
  rw [claim?, hc]
  simp [hp]

theorem claims_of_claim? {x : Binary32} (h : claim? c k = .ok (some x)) :
    x.isNaN = false ∧ Claims k c x.value := by
  obtain rfl := claim?_eq_some h
  obtain ⟨relevant, hr⟩ := claim?_ok h
  cases relevant with
  | false => cases h.symm.trans (claim?_irrelevant hr)
  | true =>
      cases hp : (Chain.priority c k).isNaN with
      | true => cases h.symm.trans (claim?_nan hr hp)
      | false => exact ⟨rfl, hr, hp, rfl⟩

theorem claim?_of_claims (h : Claims k c p) : claim? c k = .ok (some (Chain.priority c k)) :=
  claim?_relevant h.relevant h.number

theorem claim?_eq_none_iff :
    claim? c k = .ok none ↔
      (∃ relevant, Chain.isRelevant c k = .ok relevant) ∧ ∀ p, ¬Claims k c p := by
  constructor
  · intro h
    refine ⟨claim?_ok h, fun p hp => ?_⟩
    cases h.symm.trans (claim?_of_claims hp)
  · intro h
    obtain ⟨⟨relevant, hr⟩, hnone⟩ := h
    cases hc : claim? c k with
    | error e => cases hr.symm.trans (claim?_error hc)
    | ok claim =>
        cases claim with
        | none => rfl
        | some x => exact absurd (claims_of_claim? hc).2 (hnone _)

end Claims

/-! ## The best claim so far -/

section Best

variable {chains : List χ} {c : χ} {i j : Nat} {p q : Binary32.Extended}

theorem getElem?_snoc {b : χ} (h : (chains ++ [c])[j]? = some b) :
    chains[j]? = some b ∨ j = chains.length ∧ b = c := by
  by_cases hj : j < chains.length
  · rw [List.getElem?_append_left hj] at h
    exact Or.inl h
  · rw [List.getElem?_append_right (Nat.le_of_not_lt hj), List.getElem?_singleton] at h
    split at h
    · next hzero => exact Or.inr ⟨by omega, (Option.some.inj h).symm⟩
    · cases h

theorem Foremost.lt_length (h : Foremost k chains i p) : i < chains.length := by
  obtain ⟨⟨c, hc, -⟩, -⟩ := h
  exact (List.getElem?_eq_some_iff.mp hc).1

theorem Foremost.le (h : Foremost k chains i p) {b : χ} (hb : b ∈ chains) (hq : Claims k b q) :
    q ≤ p := by
  obtain ⟨⟨c, hc, hp⟩, hothers⟩ := h
  obtain ⟨j, hj⟩ := List.mem_iff_getElem?.mp hb
  rcases Nat.lt_trichotomy j i with hlt | rfl | hgt
  · exact le_of_lt ((hothers j b q hj hq).1 hlt)
  · obtain rfl : c = b := Option.some.inj (hc.symm.trans hj)
    exact le_of_eq (hq.unique hp)
  · exact (hothers j b q hj hq).2 hgt

/-- There is only one place with the first of the greatest claims. -/
theorem Foremost.unique (hi : Foremost k chains i p) (hj : Foremost k chains j q) : i = j := by
  obtain ⟨⟨b, hb, hp⟩, hbest⟩ := hi
  obtain ⟨⟨c, hc, hq⟩, hbest'⟩ := hj
  rcases Nat.lt_trichotomy i j with hlt | heq | hgt
  · have hpq : p < q := (hbest' i b p hb hp).1 hlt
    exact absurd hpq (not_lt_of_ge ((hbest j c q hc hq).2 hlt))
  · exact heq
  · have hqp : q < p := (hbest j c q hc hq).1 hgt
    exact absurd hqp (not_lt_of_ge ((hbest' i b p hb hp).2 hgt))

/-- A chain whose claim is no greater changes nothing. -/
theorem Foremost.snoc (h : Foremost k chains i p) (hc : ∀ q, Claims k c q → q ≤ p) :
    Foremost k (chains ++ [c]) i p := by
  have hlt := h.lt_length
  obtain ⟨⟨b, hb, hp⟩, hothers⟩ := h
  refine ⟨⟨b, ?_, hp⟩, fun j d q hd hq => ?_⟩
  · rw [List.getElem?_append_left hlt]
    exact hb
  · rcases getElem?_snoc hd with hd | ⟨rfl, rfl⟩
    · exact hothers j d q hd hq
    · exact ⟨fun hj => by omega, fun _ => hc q hq⟩

/-- A chain whose claim exceeds all others is foremost. -/
theorem foremost_snoc (hchains : ∀ b ∈ chains, ∀ q, Claims k b q → q < p) (hc : Claims k c p) :
    Foremost k (chains ++ [c]) chains.length p := by
  refine ⟨⟨c, List.getElem?_concat_length, hc⟩, fun j b q hb hq => ?_⟩
  rcases getElem?_snoc hb with hb | ⟨rfl, rfl⟩
  · have hj := (List.getElem?_eq_some_iff.mp hb).1
    exact ⟨fun _ => hchains b (List.mem_of_getElem? hb) q hq, fun _ => by omega⟩
  · exact ⟨fun hj => by omega, fun hj => by omega⟩

/-- The best claim so far belongs to the foremost of the chains that were asked. -/
structure Best (k : κ) (asked : List χ) (best : Option (Nat × Binary32)) : Prop where
  answering : Answering k asked
  foremost : ∀ i x, best = some (i, x) → x.isNaN = false ∧ Foremost k asked i x.value
  nobody : best = none → ∀ c ∈ asked, ∀ p, ¬Claims k c p

theorem best_nil : Best k ([] : List χ) none :=
  ⟨nofun, nofun, fun _ => nofun⟩

theorem better_eq_none_iff {best : Option (Nat × Binary32)} {claim : Option Binary32} :
    better best i claim = none ↔ best = none ∧ claim = none := by
  cases claim with
  | none => simp [better]
  | some x =>
      cases best with
      | none => simp [better]
      | some top =>
          simp only [better]
          split <;> simp

theorem Best.answering_snoc {asked : List χ} {best : Option (Nat × Binary32)}
    {claim : Option Binary32} (h : Best k asked best) (hc : claim? c k = .ok claim) :
    Answering k (asked ++ [c]) := by
  intro b hb
  rcases List.mem_append.mp hb with hb | hb
  · exact h.answering b hb
  · rw [List.mem_singleton.mp hb]
    exact claim?_ok hc

/-- A further chain is asked and makes no claim. -/
theorem Best.pass {asked : List χ} {best : Option (Nat × Binary32)} (h : Best k asked best)
    (hc : claim? c k = .ok none) : Best k (asked ++ [c]) best := by
  have hnone := (claim?_eq_none_iff.mp hc).2
  refine ⟨h.answering_snoc hc, fun i x hbest => ?_, fun hbest b hb p hp => ?_⟩
  · obtain ⟨hx, hforemost⟩ := h.foremost i x hbest
    exact ⟨hx, hforemost.snoc fun q hq => absurd hq (hnone q)⟩
  · rcases List.mem_append.mp hb with hb | hb
    · exact h.nobody hbest b hb p hp
    · rw [List.mem_singleton.mp hb] at hp
      exact hnone p hp

/-- A further chain is asked and claims control. -/
theorem Best.contend {asked : List χ} {best : Option (Nat × Binary32)} {x : Binary32}
    (h : Best k asked best) (hc : claim? c k = .ok (some x)) :
    Best k (asked ++ [c]) (better best asked.length (some x)) := by
  obtain ⟨hx, hclaims⟩ := claims_of_claim? hc
  refine ⟨h.answering_snoc hc, fun i y hbest => ?_, fun hnone => ?_⟩
  · cases best with
    | none =>
        cases hbest
        exact ⟨hx, foremost_snoc (fun b hb q hq => absurd hq (h.nobody rfl b hb q)) hclaims⟩
    | some top =>
        obtain ⟨j, z⟩ := top
        obtain ⟨hz, hforemost⟩ := h.foremost j z rfl
        rw [better] at hbest
        split at hbest
        · next hless =>
          have hlt := (Binary32.less_iff.mp hless).2.2
          cases hbest
          refine ⟨hx, foremost_snoc (fun b hb q hq => ?_) hclaims⟩
          exact lt_of_le_of_lt (hforemost.le hb hq) hlt
        · next hless =>
          cases hbest
          refine ⟨hz, hforemost.snoc fun q hq => ?_⟩
          obtain rfl := hq.unique hclaims
          exact le_of_not_gt fun hlt => hless (Binary32.less_iff.mpr ⟨hz, hx, hlt⟩)
  · cases (better_eq_none_iff.mp hnone).2

/-- A further chain is asked. -/
theorem Best.step {asked : List χ} {best : Option (Nat × Binary32)} {claim : Option Binary32}
    (h : Best k asked best) (hc : claim? c k = .ok claim) :
    Best k (asked ++ [c]) (better best asked.length claim) := by
  cases claim with
  | none => exact h.pass hc
  | some x => exact h.contend hc

/-- All remaining chains are asked. -/
theorem Best.run {asked : List χ} {best result : Option (Nat × Binary32)} (h : Best k asked best)
    (hr : selectFrom k chains asked.length best = .ok result) :
    Best k (asked ++ chains) result := by
  induction chains generalizing asked best with
  | nil =>
      cases hr
      rw [List.append_nil]
      exact h
  | cons c chains ih =>
      rw [selectFrom] at hr
      cases hc : claim? c k with
      | error e => rw [hc] at hr; cases hr
      | ok claim =>
          rw [hc] at hr
          have hlength : (asked ++ [c]).length = asked.length + 1 := by simp
          have hrest := ih (h.step hc) (hlength ▸ hr)
          rwa [List.append_assoc] at hrest

theorem select_best {selected : Option Nat} (h : select chains k = .ok selected) :
    ∃ best, selectFrom k chains 0 none = .ok best ∧ Best k chains best ∧
      selected = best.map Prod.fst := by
  rw [select] at h
  cases hr : selectFrom k chains 0 none with
  | error e => rw [hr] at h; cases h
  | ok best =>
      rw [hr] at h
      exact ⟨best, rfl, best_nil.run hr, (Except.ok.inj h).symm⟩

/-- Somebody is selected, or nobody is, as soon as all chains answer. -/
theorem exists_select_iff : (∃ selected, select chains k = .ok selected) ↔ Answering k chains := by
  constructor
  · intro h
    obtain ⟨selected, h⟩ := h
    obtain ⟨best, -, hbest, -⟩ := select_best h
    exact hbest.answering
  · intro h
    rw [select]
    cases hr : selectFrom k chains 0 none with
    | ok best => exact ⟨_, rfl⟩
    | error e =>
        obtain ⟨c, hc, he⟩ := selectFrom_error hr
        obtain ⟨relevant, hrelevant⟩ := h c hc
        cases hrelevant.symm.trans he

theorem foremost_of_select (h : select chains k = .ok (some i)) : ∃ p, Foremost k chains i p := by
  obtain ⟨best, -, hbest, hfst⟩ := select_best h
  cases best with
  | none => cases hfst
  | some top =>
      obtain ⟨j, x⟩ := top
      cases hfst
      exact ⟨x.value, (hbest.foremost j x rfl).2⟩

theorem nobody_of_select (h : select chains k = .ok none) : ∀ c ∈ chains, ∀ p, ¬Claims k c p := by
  obtain ⟨best, -, hbest, hfst⟩ := select_best h
  cases best with
  | none => exact hbest.nobody rfl
  | some top => cases hfst

theorem select_eq_some_iff :
    select chains k = .ok (some i) ↔ Answering k chains ∧ ∃ p, Foremost k chains i p := by
  constructor
  · intro h
    exact ⟨exists_select_iff.mp ⟨_, h⟩, foremost_of_select h⟩
  · intro h
    obtain ⟨hanswering, p, hp⟩ := h
    obtain ⟨selected, hselected⟩ := exists_select_iff.mpr hanswering
    cases selected with
    | none =>
        obtain ⟨⟨c, hc, hclaims⟩, -⟩ := hp
        exact absurd hclaims (nobody_of_select hselected c (List.mem_of_getElem? hc) p)
    | some j =>
        obtain ⟨q, hq⟩ := foremost_of_select hselected
        rw [hselected, hp.unique hq]

theorem select_eq_none_iff :
    select chains k = .ok none ↔ Answering k chains ∧ ∀ c ∈ chains, ∀ p, ¬Claims k c p := by
  constructor
  · intro h
    exact ⟨exists_select_iff.mp ⟨_, h⟩, nobody_of_select h⟩
  · intro h
    obtain ⟨hanswering, hnobody⟩ := h
    obtain ⟨selected, hselected⟩ := exists_select_iff.mpr hanswering
    cases selected with
    | none => exact hselected
    | some i =>
        obtain ⟨p, ⟨c, hc, hclaims⟩, -⟩ := foremost_of_select hselected
        exact absurd hclaims (hnobody c (List.mem_of_getElem? hc) p)

end Best

/-! ## Chains that make no claim -/

section Bystander

variable {n index : Nat} {best : Option (Nat × Binary32)}

/-- Where the chain at a place is once one more is at place `n`. -/
def shifted (n i : Nat) : Nat :=
  if i < n then i else i + 1

theorem getElem?_shifted (before after : List χ) (c : χ) (i : Nat) :
    (before ++ c :: after)[shifted before.length i]? = (before ++ after)[i]? := by
  rw [shifted]
  split
  · next hlt => rw [List.getElem?_append_left hlt, List.getElem?_append_left hlt]
  · next hle =>
    have hle := Nat.le_of_not_lt hle
    rw [List.getElem?_append_right (Nat.le_succ_of_le hle), List.getElem?_append_right hle,
      Nat.succ_sub hle, List.getElem?_cons_succ]

theorem better_shifted (h : n ≤ index) (claim : Option Binary32) :
    better (best.map (Prod.map (shifted n) id)) (index + 1) claim =
      (better best index claim).map (Prod.map (shifted n) id) := by
  have hshifted : shifted n index = index + 1 := if_neg (Nat.not_lt_of_le h)
  cases claim with
  | none => rfl
  | some x =>
      cases best with
      | none => simp [better, hshifted]
      | some top =>
          by_cases hless : top.2.less x = true
          · simp [better, hless, hshifted]
          · simp [better, hless]

theorem selectFrom_shifted (h : n ≤ index) (chains : List χ) :
    selectFrom k chains (index + 1) (best.map (Prod.map (shifted n) id)) =
      (selectFrom k chains index best).map (Option.map (Prod.map (shifted n) id)) := by
  induction chains generalizing index best with
  | nil => rfl
  | cons c chains ih =>
      rw [selectFrom, selectFrom]
      cases claim? c k with
      | error e => rfl
      | ok claim =>
          show selectFrom k chains (index + 1 + 1) _ = _
          rw [better_shifted h]
          exact ih (by omega)

theorem selectFrom_append (before after : List χ) :
    selectFrom k (before ++ after) index best =
      selectFrom k before index best >>= selectFrom k after (index + before.length) := by
  induction before generalizing index best with
  | nil => rfl
  | cons c before ih =>
      rw [List.cons_append, selectFrom, selectFrom]
      cases claim? c k with
      | error e => rfl
      | ok claim =>
          rw [List.length_cons, Nat.add_comm before.length 1, ← Nat.add_assoc]
          exact ih

/-- Whether a chain that makes no claim is there or not, the same chain is selected. -/
theorem select_bystander (before after : List χ) {c : χ} (h : claim? c k = .ok none) :
    select (before ++ c :: after) k =
      (select (before ++ after) k).map (Option.map (shifted before.length)) := by
  rw [select, select, selectFrom_append, selectFrom_append]
  cases hbefore : selectFrom k before 0 none with
  | error e => rfl
  | ok best =>
      have hbest : Best k before best := best_nil.run hbefore
      -- who is best so far stays in place
      have hstays : best.map (Prod.map (shifted before.length) id) = best := by
        cases best with
        | none => rfl
        | some top =>
            have hlt := (hbest.foremost top.1 top.2 rfl).2.lt_length
            simp [shifted, hlt, Prod.map]
      have hafter : selectFrom k (c :: after) before.length best =
          (selectFrom k after before.length best).map
            (Option.map (Prod.map (shifted before.length) id)) := by
        rw [← selectFrom_shifted (Nat.le_refl _) after, hstays, selectFrom, h]
        rfl
      show selectFrom k (c :: after) (0 + before.length) best >>= _ =
        Except.map _ (selectFrom k after (0 + before.length) best >>= _)
      rw [Nat.zero_add, hafter]
      cases selectFrom k after before.length best with
      | error e => rfl
      | ok best' => cases best' <;> rfl

end Bystander

/-- Of any chains, the one is selected that has the greatest of all claims and is the first that
does, and no chain is selected exactly if none claims control. Numbers compare by what they stand
for, so the two zeros are equally urgent, and an infinity is a claim like any other. A chain that is
irrelevant or whose priority is not a number can be put in or taken away at any place, and the same
chain is selected. Arbitration fails only if a chain cannot tell whether it is relevant. -/
theorem selects_most_urgent (chains : List χ) (k : κ) :
    ((∃ selected, select chains k = .ok selected) ↔ Answering k chains) ∧
      (∀ i, select chains k = .ok (some i) ↔
        Answering k chains ∧ ∃ urgency, Foremost k chains i urgency) ∧
      (select chains k = .ok none ↔
        Answering k chains ∧ ∀ c ∈ chains, ∀ urgency, ¬Claims k c urgency) ∧
      ∀ before c after, chains = before ++ c :: after →
        (∃ relevant, Chain.isRelevant c k = .ok relevant) → (∀ urgency, ¬Claims k c urgency) →
          select chains k =
              (select (before ++ after) k).map (Option.map (shifted before.length)) ∧
            ∀ i, chains[shifted before.length i]? = (before ++ after)[i]? := by
  refine ⟨exists_select_iff, fun i => select_eq_some_iff, select_eq_none_iff, ?_⟩
  intro before c after hchains hanswers hnone
  have hclaim := claim?_eq_none_iff.mpr ⟨hanswers, hnone⟩
  rw [hchains]
  exact ⟨select_bystander before after hclaim, getElem?_shifted before after c⟩

end Arbiter
