import Mathlib.Data.List.Chain
import Arbiter.Proofs.Witness.Basic

/-! Nodes in accord with the ledger. A started node holds the failure that it is due, and no hooks
of a node are open that is not held. A tick keeps it so on every level, and tells a parent of the
failure of its sub-task before it hears of anything else. -/

namespace Arbiter

variable {κ τ : Type}

namespace Spine

open Ledger

variable {b : Nat} {k k' : Witnessed κ} {n n' m : Node (Witness τ)} {s s' : Spine (Witness τ)}
  {nodes nodes' below : List (Node (Witness τ))} {e : Entry} {l₀ l calls : Ledger}

/-! ## Nodes in accord with the ledger -/

/-- Each node was asked for by the one above it, a started node holds the failure that it is due,
and of the nodes with numbers above `b` only those that are held and have started are open. -/
structure Accord (b : Nat) (k : Witnessed κ) (nodes : List (Node (Witness τ))) : Prop where
  drawn : ∀ i ∈ numbers nodes, b ≤ i ∧ i < k.next
  linked : (numbers nodes).IsChain fun p c => p < c ∧ parent? c k.ledger = some p
  due : ∀ n ∈ nodes, n.pending = false → n.control.childFailure = due n.task.number k.ledger
  opened : ∀ j > b, isOpen j k.ledger = true →
    ∃ n ∈ nodes, n.task.number = j ∧ n.pending = false

namespace Accord

theorem first (h : Accord b k (n :: nodes)) : b ≤ n.task.number ∧ n.task.number < k.next :=
  h.drawn _ List.mem_cons_self

theorem second (h : Accord b k (n :: m :: nodes)) :
    n.task.number < m.task.number ∧ parent? m.task.number k.ledger = some n.task.number :=
  (List.isChain_cons_cons.mp h.linked).1

theorem lt_of_mem (h : Accord b k (n :: nodes)) (hm : m ∈ nodes) :
    n.task.number < m.task.number := by
  have hpairwise : (numbers (n :: nodes)).Pairwise (· < ·) :=
    (h.linked.imp fun _ _ h => h.1).pairwise
  exact (List.pairwise_cons.mp hpairwise).1 _ (List.mem_map_of_mem hm)

theorem tail (h : Accord b k (n :: nodes)) : Accord n.task.number k nodes := by
  have hn := h.first
  refine ⟨?_, h.linked.tail, fun m hm => h.due m (List.mem_cons_of_mem n hm), ?_⟩
  · intro i hi
    obtain ⟨m, hm, rfl⟩ := List.mem_map.mp hi
    exact ⟨Nat.le_of_lt (h.lt_of_mem hm), (h.drawn _ (List.mem_cons_of_mem _ hi)).2⟩
  · intro j hj hopen
    obtain ⟨m, hm, hnumber, hp⟩ := h.opened j (Nat.lt_of_le_of_lt hn.1 hj) hopen
    rcases List.mem_cons.mp hm with rfl | hm
    · exact absurd hnumber (Nat.ne_of_lt hj)
    · exact ⟨m, hm, hnumber, hp⟩

theorem stopped (h : Accord b k nodes) (hstopped : Stopped nodes k k')
    (hnumbers : numbers nodes' <+: numbers nodes) (hp : ∀ n ∈ nodes', n.pending = true) :
    Accord b k' nodes' := by
  obtain ⟨hnext, es, hes, hstop, -, hall⟩ := hstopped
  refine ⟨?_, ?_, fun n hn hn' => ?_, fun j hj hopen => ?_⟩
  · rw [hnext]
    exact fun i hi => h.drawn i (hnumbers.subset hi)
  · rw [hes]
    simp only [parent?_stops hstop]
    exact h.linked.prefix hnumbers
  · rw [hp n hn] at hn'
    cases hn'
  · rw [hes] at hopen
    obtain ⟨hopen, hnone⟩ := isOpen_stops hstop hopen
    obtain ⟨n, hn, hnumber, hn'⟩ := h.opened j hj hopen
    obtain ⟨e, he, heq⟩ := hall n hn hn'
    exact absurd (heq.trans hnumber) (hnone e he)

theorem called (h : Accord b k (n :: below)) (hledger : k'.ledger = e :: k.ledger)
    (hnext : k.next ≤ k'.next) (he : e.number = n.task.number) (hcall : e.isStop = false)
    (hfree : ∀ c ∈ e.candidate?, k.next ≤ c) (hnumber : n'.task.number = n.task.number)
    (hp : n'.pending = false)
    (hdue : n'.control.childFailure =
      if e.keeps then Ledger.due n.task.number k.ledger else none) :
    Accord b k' (n' :: below) := by
  have hnumbers : numbers (n' :: below) = numbers (n :: below) := by simp [numbers, hnumber]
  refine ⟨?_, ?_, ?_, ?_⟩
  · rw [hnumbers]
    exact fun i hi => ⟨(h.drawn i hi).1, Nat.lt_of_lt_of_le (h.drawn i hi).2 hnext⟩
  · rw [hnumbers]
    rw [hledger]
    refine h.linked.imp_of_mem_imp fun p c _ hc hpc => ⟨hpc.1, ?_⟩
    rw [parent?_cons_of_ne fun heq => Nat.not_le_of_lt (h.drawn c hc).2 (hfree c heq)]
    exact hpc.2
  · intro m hm hm'
    rw [hledger]
    rcases List.mem_cons.mp hm with rfl | hm
    · rw [hnumber, hdue, ← he, due_cons_self]
    · have hne : e.number ≠ m.task.number := by
        rw [he]
        exact Nat.ne_of_lt (h.lt_of_mem hm)
      rw [due_cons_of_ne hne (blame_of_call hcall)]
      exact h.due m (List.mem_cons_of_mem n hm) hm'
  · intro j hj hopen
    by_cases hj' : n.task.number = j
    · exact ⟨n', List.mem_cons_self, hnumber.trans hj', hp⟩
    · rw [hledger, isOpen_cons, he, if_neg hj'] at hopen
      obtain ⟨m, hm, hm', hmp⟩ := h.opened j hj hopen
      rcases List.mem_cons.mp hm with rfl | hm
      · exact absurd hm' hj'
      · exact ⟨m, List.mem_cons_of_mem n' hm, hm', hmp⟩

end Accord

/-! ## Ways through a tick -/

/-- A spine that a tick has reached, since the ledger `l₀`. Nobody has given up, and the parent of
the root has nothing new to hear. -/
structure Attuned (b : Nat) (l₀ : Ledger) (k : Witnessed κ) (s : Spine (Witness τ)) : Prop where
  accord : Accord b k s.nodes
  quiet : Quiet k.ledger
  told : Told k.ledger
  above : ∀ p, parent? s.root.task.number k.ledger = some p →
    p < s.root.task.number ∧ news p k.ledger = none
  due : ∀ j < s.root.task.number, due j k.ledger = due j l₀
  calls : ∃ calls, k.ledger = calls ++ l₀ ∧ ∀ e ∈ calls, e.failure? = none

/-- In the calls, the node `c` gives up with the failure `f`, and is stopped at once. All calls
after that are stops, and nobody else gives up. -/
def GaveUp (c : Nat) (f : Failure) (calls : Ledger) : Prop :=
  ∃ stops e earlier, calls = stops ++ .stopped c f.task :: e :: earlier ∧
    (∀ x ∈ stops, x.isStop = true) ∧ e.number = c ∧ e.failure? = some f.reason ∧
    ∀ x ∈ earlier, x.failure? = none

variable [Task κ τ]

/-- How a tick ends, given its calls and the ledger after it. -/
inductive Fate (s : Spine (Witness τ)) (l calls : Ledger) : Prop where
  | goesOn (hcalls : ∀ e ∈ calls, e.failure? = none) (hstarted : ∀ n ∈ s.nodes, n.Started)
  /-- The root gives up, and nothing is held below it. -/
  | rootFails {f : Failure} (hgives : GaveUp s.root.task.number f calls)
      (hreport : s.root.failureReport = some f) (hp : s.root.pending = true)
      (hbelow : s.below = [])
      (hnews : ∀ p, parent? s.root.task.number l = some p → news p l = some f)
  /-- A sub-task gives up and is no longer held. Its parent is the last node that is held. -/
  | subFails {c : Nat} {f : Failure} {held : List (Node (Witness τ))} {p : Node (Witness τ)}
      (hgives : GaveUp c f calls) (hstarted : ∀ n ∈ s.nodes, n.Started)
      (hnodes : s.nodes = held ++ [p]) (hparent : parent? c l = some p.task.number)
      (hcontrol : p.control.childFailure = some f) (hnews : news p.task.number l = some f)
      (hlt : ∀ n ∈ s.nodes, n.task.number < c)

/-- A spine after a tick, since the ledger `l₀`. -/
structure Passed (b : Nat) (l₀ : Ledger) (k : Witnessed κ) (s : Spine (Witness τ)) : Prop where
  accord : Accord b k s.nodes
  quiet : Quiet k.ledger
  told : Told k.ledger
  above : ∀ p, parent? s.root.task.number k.ledger = some p → p < s.root.task.number
  due : ∀ j < s.root.task.number,
    s.root.failure = none ∨ parent? s.root.task.number k.ledger ≠ some j →
      due j k.ledger = due j l₀
  fate : ∃ calls, k.ledger = calls ++ l₀ ∧ Fate s k.ledger calls

omit [Task κ τ] in
theorem GaveUp.append {c : Nat} {f : Failure} {earlier : Ledger} (h : GaveUp c f calls)
    (hearlier : ∀ e ∈ earlier, e.failure? = none) : GaveUp c f (calls ++ earlier) := by
  obtain ⟨stops, e, before, rfl, hstops, hnumber, hreason, hbefore⟩ := h
  refine ⟨stops, e, before ++ earlier, by simp, hstops, hnumber, hreason, ?_⟩
  intro x hx
  exact (List.mem_append.mp hx).elim (hbefore x) (hearlier x)

omit [Task κ τ] in
theorem GaveUp.stopped {c : Nat} {f : Failure} (h : GaveUp c f calls) :
    Entry.stopped c f.task ∈ calls := by
  obtain ⟨stops, e, earlier, rfl, -⟩ := h
  simp

omit [Task κ τ] in
/-- Nobody else gives up. -/
theorem GaveUp.unique {c : Nat} {f : Failure} (h : GaveUp c f calls) {e : Entry} (he : e ∈ calls)
    {reason : String} (hreason : e.failure? = some reason) : e.number = c ∧ f.reason = reason := by
  obtain ⟨stops, e', earlier, rfl, hstops, hnumber, hreason', hearlier⟩ := h
  rcases List.mem_append.mp he with he | he
  · rw [Entry.failure?_of_isStop (hstops e he)] at hreason
    cases hreason
  · rcases List.mem_cons.mp he with rfl | he
    · cases hreason
    · rcases List.mem_cons.mp he with rfl | he
      · exact ⟨hnumber, Option.some.inj (hreason'.symm.trans hreason)⟩
      · rw [hearlier e he] at hreason
        cases hreason

omit [Task κ τ] in
theorem GaveUp.exists_call {c : Nat} {f : Failure} (h : GaveUp c f calls) :
    ∃ e ∈ calls, e.number = c ∧ e.failure? = some f.reason := by
  obtain ⟨stops, e, earlier, rfl, -, hnumber, hreason, -⟩ := h
  exact ⟨e, by simp, hnumber, hreason⟩

/-! ### The root answers a call -/

/-- A spine whose root has answered a call of its start or tick hook. -/
structure Answered (b : Nat) (l₀ : Ledger) (e : Entry) (k : Witnessed κ) (s : Spine (Witness τ)) :
    Prop where
  accord : Accord b k s.nodes
  told : Told k.ledger
  above : ∀ p, parent? s.root.task.number k.ledger = some p →
    p < s.root.task.number ∧ news p k.ledger = none
  due : ∀ j < s.root.task.number, Ledger.due j k.ledger = Ledger.due j l₀
  number : e.number = s.root.task.number
  calls : ∃ calls, k.ledger = e :: (calls ++ l₀) ∧ Quiet (calls ++ l₀) ∧
    ∀ e ∈ calls, e.failure? = none

omit [Task κ τ] in
theorem Attuned.answered (h : Attuned b l₀ k s) (hledger : k'.ledger = e :: k.ledger)
    (hfits : Fits k.ledger e) (hnext : k.next ≤ k'.next) (he : e.number = s.root.task.number)
    (hcall : e.isStop = false) (hfree : ∀ c ∈ e.candidate?, k.next ≤ c)
    (hnumber : n.task.number = s.root.task.number) (hp : n.pending = false)
    (hdue : n.control.childFailure =
      if e.keeps then Ledger.due s.root.task.number k.ledger else none) :
    Answered b l₀ e k' { s with root := n } := by
  have hother : ∀ j < s.root.task.number, e.number ≠ j := by
    intro j hj
    rw [he]
    exact (Nat.ne_of_lt hj).symm
  have hroot := h.accord.first.2
  refine ⟨h.accord.called hledger hnext he hcall hfree hnumber hp hdue, ?_, ?_, ?_,
    he.trans hnumber.symm, ?_⟩
  · rw [hledger]
    exact ⟨hfits, h.told⟩
  · show ∀ p, parent? n.task.number k'.ledger = some p → _
    rw [hnumber]
    rw [hledger]
    rw [parent?_cons_of_ne fun heq => Nat.not_le_of_lt hroot (hfree _ heq)]
    intro p hp
    obtain ⟨hlt, hnews⟩ := h.above p hp
    exact ⟨hlt, (news_cons_of_ne (hother p hlt) (blame_of_call hcall)).trans hnews⟩
  · intro j hj
    have hj : j < s.root.task.number := hnumber ▸ hj
    rw [hledger, due_cons_of_ne (hother j hj) (blame_of_call hcall)]
    exact h.due j hj
  · obtain ⟨calls, hcalls, hquiet⟩ := h.calls
    rw [hledger, hcalls]
    exact ⟨calls, rfl, hcalls ▸ h.quiet, hquiet⟩

omit [Task κ τ] in
theorem Answered.attuned (h : Answered b l₀ e k s) (hnone : e.failure? = none) :
    Attuned b l₀ k s := by
  obtain ⟨calls, hledger, hquiet, hcalls⟩ := h.calls
  refine ⟨h.accord, ?_, h.told, h.above, h.due, e :: calls, hledger, ?_⟩
  · intro i
    rw [hledger, giving_cons]
    split
    · exact hnone
    · exact hquiet i
  · exact List.forall_mem_cons.mpr ⟨hnone, hcalls⟩

/-- A root that gives up in its answer is stopped, and its parent is told. -/
theorem Answered.fail (h : Answered b l₀ e k s) {reason : String}
    (hreason : e.failure? = some reason) (hroot : s.root.Started) (hbelow : ∀ n ∈ s.below, n.Held) :
    (s.fail reason).Ensures k fun s' k' _ =>
      s'.root.task.number = s.root.task.number ∧ s'.root.failure ≠ none ∧ Passed b l₀ k' s' := by
  apply (fail_enters reason hroot fun n hn => (hbelow n hn).active).imp
  intro s' k' _ hfail
  obtain ⟨label, k₁, hmark, hp, halone, hreport, hnext, hledger, hstopped⟩ := hfail
  have hnumber := congrArg Prod.fst hmark
  dsimp only [mark] at hnumber
  obtain ⟨calls, hcalls, hquiet, hnone⟩ := h.calls
  have hfailed : s'.root.failure ≠ none := by
    intro hnone
    rw [Node.failureReport, hnone] at hreport
    cases hreport
  -- the stop of the root
  have hquiet₁ : Quiet k₁.ledger := by
    rw [hledger, hcalls, ← h.number]
    exact hquiet.givenUp label
  have htold₁ : Told k₁.ledger := by
    rw [hledger]
    exact ⟨fun p f hf => (h.above p (parent?_of_blame hf)).2, h.told⟩
  have hdue₁ : ∀ j < s.root.task.number, parent? s.root.task.number k.ledger ≠ some j →
      Ledger.due j k₁.ledger = Ledger.due j k.ledger := by
    intro j hj hparent
    rw [hledger]
    exact due_cons_of_ne (Nat.ne_of_gt hj) (by simp [blame, hparent])
  have hnews₁ : ∀ p, parent? s.root.task.number k.ledger = some p →
      news p k₁.ledger = some { task := label, reason } := by
    intro p hparent
    have hne : (Entry.stopped s.root.task.number label).number ≠ p :=
      Nat.ne_of_gt (h.above p hparent).1
    have hgiving : giving s.root.task.number k.ledger = some reason := by
      rw [hcalls, giving_cons, if_pos h.number, hreason]
    rw [hledger, news, if_neg hne]
    simp [blame, hparent, hgiving]
  have haccord : Accord b k' s'.nodes := by
    refine h.accord.stopped ((Stopped.single hnext hledger).append hstopped) ?_ ?_
    · rw [nodes, halone]
      simp [numbers, nodes, hnumber]
    · rw [nodes, halone]
      simpa using hp
  -- the stops below it
  obtain ⟨-, es, hes, hstops, hsome, -⟩ := hstopped
  have hparent : parent? s.root.task.number k'.ledger = parent? s.root.task.number k.ledger := by
    rw [hes, parent?_stops hstops, hledger, parent?_cons_of_ne (by simp [Entry.candidate?])]
  have hnew : ∀ j < s.root.task.number, ∀ x ∈ es, x.number ≠ j := by
    intro j hj x hx
    obtain ⟨m, hm, hmx⟩ := hsome x hx
    rw [← hmx]
    exact Nat.ne_of_gt (Nat.lt_trans hj (h.accord.lt_of_mem hm))
  rw [← hnumber] at hdue₁ hnews₁ hparent
  refine ⟨hnumber, hfailed, haccord, ?_, ?_, ?_, ?_,
    es ++ .stopped s.root.task.number label :: e :: calls, ?_,
    .rootFails ⟨es, e, calls, by rw [hnumber], hstops, hnumber ▸ h.number, hreason, hnone⟩
      hreport hp halone ?_⟩
  · rw [hes]
    exact hquiet₁.stops hstops
  · rw [hes]
    exact htold₁.stops hstops hquiet₁
  · intro p hp
    exact hnumber ▸ (h.above p (by rw [← hnumber, ← hparent, hp])).1
  · intro j hj hcase
    rw [hes, due_stops hstops hquiet₁ (hnew j (hnumber ▸ hj)),
      hdue₁ j hj (hparent ▸ hcase.resolve_left hfailed)]
    exact h.due j (hnumber ▸ hj)
  · rw [hes, hledger, hcalls]
    simp
  · intro p hp
    rw [hparent] at hp
    rw [hes, news_stops hstops hquiet₁ (hnew p (h.above p (hnumber ▸ hp)).1), hnews₁ p hp]

/-! ### Steps of a tick -/

theorem Attuned.ready (h : Attuned b l₀ k s) (hs : s.Kempt) :
    s.ready.Ensures k fun s' k' _ => s'.root.task.number = s.root.task.number ∧
      (s'.root.failure = none ∧ Attuned b l₀ k' s' ∨
        s'.root.failure ≠ none ∧ Passed b l₀ k' s') := by
  have hanswered : ∀ {n : Node (Witness τ)} {reply : Reply} {k₁ : Witnessed κ},
      Opened s k n reply k₁ → n.task.number = s.root.task.number ∧
        ∃ e, e.failure? = reply.failure ∧ Answered b l₀ e k₁ { s with root := n } := by
    intro n reply k₁ hopened
    obtain ⟨given, hgiven, hledger⟩ := hopened.ledger
    have hnumber : n.task.number = s.root.task.number := congrArg Prod.fst hopened.mark_eq
    exact ⟨hnumber, _, rfl, h.answered hledger hgiven (Nat.le_of_eq hopened.next_eq.symm) rfl rfl
      (by nofun) hnumber hopened.started.started hopened.forgotten⟩
  apply (ready_made s k).imp
  intro s' k' _ hready
  cases hready with
  | already hp => exact ⟨rfl, Or.inl ⟨(hs.root.started hp).unfailed, h⟩⟩
  | started hopened hwell =>
      obtain ⟨hnumber, e, he, hanswered⟩ := hanswered hopened
      exact ⟨hnumber, Or.inl ⟨hopened.started.unfailed, hanswered.attuned (he.trans hwell)⟩⟩
  | gaveUp hopened hreason hfail =>
      obtain ⟨hnumber, e, he, hanswered⟩ := hanswered hopened
      obtain ⟨hnumber', hcase⟩ :=
        (hanswered.fail (he.trans hreason) hopened.started hs.held).of_ok hfail
      exact ⟨hnumber'.trans hnumber, Or.inr hcase⟩

theorem TurnTaken.answered {root : Node (Witness τ)} {turn : Turn (Witness τ)}
    {trail : List (Happening (Witness τ))} (ht : s.TurnTaken k root turn k' trail) (hs : s.Kempt)
    (h : Attuned b l₀ k s) : root.Started ∧ root.task.number = s.root.task.number ∧
      news root.task.number k'.ledger = none ∧
      (∀ c ∈ turn.candidate, root.task.number < c.number ∧ c.number < k'.next ∧
        parent? c.number k'.ledger = some root.task.number) ∧
      ∃ e, e.failure? = turn.reply.failure ∧ Answered b l₀ e k' { s with root } := by
  obtain ⟨s₁, k₁, t₁, records, hready, hstopped, hbelow, hturn, rfl, rfl⟩ := ht
  obtain ⟨-, hcase⟩ := (hs.ready_ensures k).of_ok hready
  obtain ⟨hn₁, -⟩ := hcase.resolve_right fun h => by simp [hstopped] at h
  obtain ⟨hnumber₁, hcase⟩ := (h.ready hs).of_ok hready
  obtain ⟨-, hattuned⟩ := hcase.resolve_right fun h => h.1 hn₁.unfailed
  obtain ⟨hnumber, hledger, hnext, hdraws⟩ := (onTick_enters _ k₁ _).of_ok hturn
  have hroot : (turned s₁.root turn).task.number = s₁.root.task.number := hnumber
  have hdrawn := hattuned.accord.first.2
  have hdue := hattuned.accord.due s₁.root List.mem_cons_self hn₁.started
  have hfree : ∀ c ∈ turn.candidate.map Witness.number, k₁.next ≤ c := by
    intro c hc
    obtain ⟨t, ht, rfl⟩ := Option.map_eq_some_iff.mp hc
    exact Nat.le_of_eq (hdraws t ht).1.symm
  have hanswered := hattuned.answered (n := turned s₁.root turn) hledger hdue hnext rfl rfl hfree
    hroot hn₁.started (hdue ▸ Entry.childFailure_apply ..)
  rw [hbelow] at hanswered
  refine ⟨turned_started hn₁ turn, hroot.trans hnumber₁, ?_, ?_, _, rfl, hanswered⟩
  · rw [hroot, hledger]
    exact news_cons_self
  · intro c hc
    obtain ⟨hcn, hlt⟩ := hdraws c hc
    rw [hroot]
    refine ⟨hcn ▸ hdrawn, hcn ▸ hlt, ?_⟩
    rw [hledger, parent?_cons, if_pos (by rw [show turn.candidate = some c from hc]; rfl)]
    rfl

omit [Task κ τ] in
theorem Attuned.alone (h : Attuned b l₀ k { root := n, below }) (hstopped : Stopped below k k') :
    Attuned b l₀ k' { root := n } := by
  obtain ⟨hnext, es, hes, hstops, hsome, hall⟩ := hstopped
  have hn := h.accord.first
  have hnew : ∀ j ≤ n.task.number, ∀ x ∈ es, x.number ≠ j := by
    intro j hj x hx
    obtain ⟨m, hm, hmx⟩ := hsome x hx
    rw [← hmx]
    exact Nat.ne_of_gt (Nat.lt_of_le_of_lt hj (h.accord.lt_of_mem hm))
  refine ⟨⟨?_, .singleton _, ?_, ?_⟩, ?_, ?_, ?_, ?_, ?_⟩
  · simpa [numbers, nodes, hnext] using hn
  · intro m hm hp
    obtain rfl := List.mem_singleton.mp hm
    rw [hes, due_stops hstops h.quiet (hnew _ (Nat.le_refl _))]
    exact h.accord.due m List.mem_cons_self hp
  · intro j hj hopen
    rw [hes] at hopen
    obtain ⟨hopen, hnone⟩ := isOpen_stops hstops hopen
    obtain ⟨m, hm, hnumber, hp⟩ := h.accord.opened j hj hopen
    rcases List.mem_cons.mp hm with rfl | hm
    · exact ⟨m, List.mem_cons_self, hnumber, hp⟩
    · obtain ⟨e, he, heq⟩ := hall m hm hp
      exact absurd (heq.trans hnumber) (hnone e he)
  · rw [hes]
    exact h.quiet.stops hstops
  · rw [hes]
    exact h.told.stops hstops h.quiet
  · intro p hp
    rw [hes] at hp ⊢
    rw [parent?_stops hstops] at hp
    obtain ⟨hlt, hnews⟩ := h.above p hp
    exact ⟨hlt, news_stops_of_none hstops h.quiet hnews⟩
  · intro j hj
    rw [hes, due_stops hstops h.quiet (hnew j (Nat.le_of_lt hj))]
    exact h.due j hj
  · obtain ⟨calls, hcalls, hnone⟩ := h.calls
    refine ⟨es ++ calls, by rw [hes, hcalls, List.append_assoc], ?_⟩
    intro e he
    exact (List.mem_append.mp he).elim (fun he => e.failure?_of_isStop (hstops e he)) (hnone e)

omit [Task κ τ] in
theorem Attuned.delegating (h : Attuned b l₀ k { root := n }) {candidate : Option (Witness τ)}
    (hc : ∀ c ∈ candidate, n.task.number < c.number ∧ c.number < k.next ∧
      parent? c.number k.ledger = some n.task.number) :
    Attuned b l₀ k { root := n, below := candidate.toList.map Node.fresh } := by
  cases candidate with
  | none => exact h
  | some c =>
      obtain ⟨hlt, hnext, hparent⟩ := hc c rfl
      have hn := h.accord.first
      refine ⟨⟨?_, ?_, ?_, ?_⟩, h.quiet, h.told, h.above, h.due, h.calls⟩
      · intro i hi
        rcases List.mem_cons.mp hi with rfl | hi
        · exact hn
        · obtain rfl := List.mem_singleton.mp hi
          exact ⟨Nat.le_of_lt (Nat.lt_of_le_of_lt hn.1 hlt), hnext⟩
      · exact List.isChain_pair.mpr ⟨hlt, hparent⟩
      · intro m hm hp
        rcases List.mem_cons.mp hm with rfl | hm
        · exact h.accord.due m List.mem_cons_self hp
        · obtain rfl := List.mem_singleton.mp hm
          cases hp
      · intro j hj hopen
        obtain ⟨m, hm, hm'⟩ := h.accord.opened j hj hopen
        exact ⟨m, List.mem_cons.mpr (Or.inl (List.mem_singleton.mp hm)), hm'⟩

/-- A settlement tells nobody of a failure. -/
theorem Settled.attuned {candidate : Option (Witness τ)} {trail : List (Happening (Witness τ))}
    {refused : List (Witness τ)} (hsettled : Settled k below candidate nodes k' trail refused)
    (hheld : ∀ m ∈ below, m.Held) (h : Attuned b l₀ k { root := n, below })
    (hnews : news n.task.number k.ledger = none)
    (hc : ∀ c ∈ candidate, n.task.number < c.number ∧ c.number < k.next ∧
      parent? c.number k.ledger = some n.task.number) :
    Attuned b l₀ k' { root := n, below := nodes } ∧ news n.task.number k'.ledger = none := by
  cases hsettled with
  | free hbelow =>
      subst hbelow
      exact ⟨h.delegating hc, hnews⟩
  | equal => exact ⟨h, hnews⟩
  | forced => exact ⟨h, hnews⟩
  | exchanged hne hother hyields hstop =>
      have hstopped := (stopAndDrop_stopped candidate fun m hm => (hheld m hm).active).of_ok hstop
      have hattuned := h.alone hstopped
      obtain ⟨hnext, es, hes, hstops, -⟩ := hstopped
      have hnext : k'.next = k.next := hnext
      have hes : k'.ledger = es ++ k.ledger := hes
      refine ⟨hattuned.delegating ?_, ?_⟩
      · rw [hnext, hes]
        simp only [parent?_stops hstops]
        exact hc
      · rw [hes]
        exact news_stops_of_none hstops h.quiet hnews

omit [Task κ τ] in
theorem Attuned.sub {rest : List (Node (Witness τ))}
    (h : Attuned b l₀ k { root := n, below := m :: rest })
    (hnews : news n.task.number k.ledger = none) :
    Attuned n.task.number k.ledger k { root := m, below := rest } := by
  obtain ⟨hlt, hparent⟩ := h.accord.second
  refine ⟨h.accord.tail, h.quiet, h.told, fun p hp => ?_, fun _ _ => rfl, [], rfl, by simp⟩
  obtain rfl := Option.some.inj (hparent.symm.trans hp)
  exact ⟨hlt, hnews⟩

omit [Task κ τ] in
theorem Accord.regained {rest : List (Node (Witness τ))} (h : Accord b k (n :: m :: rest))
    (hgrows : Grows m.task.number k k') (hnodes : Accord n.task.number k' nodes)
    (hhead : ∀ i ∈ (numbers nodes).head?, i = m.task.number)
    (hnumber : n'.task.number = n.task.number) (hp : n.pending = false)
    (hp' : n'.pending = false)
    (hdue : n'.control.childFailure = Ledger.due n.task.number k'.ledger) :
    Accord b k' (n' :: nodes) := by
  obtain ⟨hlt, hparent⟩ := h.second
  have hn := h.first
  have hm := h.tail.first.2
  have hnumbers : numbers (n' :: nodes) = n.task.number :: numbers nodes :=
    congrArg (· :: numbers nodes) hnumber
  refine ⟨?_, ?_, ?_, ?_⟩
  · rw [hnumbers]
    intro i hi
    rcases List.mem_cons.mp hi with rfl | hi
    · exact ⟨hn.1, Nat.lt_of_lt_of_le hn.2 hgrows.next_le⟩
    · obtain ⟨hle, hlt'⟩ := hnodes.drawn i hi
      exact ⟨Nat.le_trans hn.1 hle, hlt'⟩
  · rw [hnumbers]
    refine List.isChain_cons.mpr ⟨fun i hi => ?_, hnodes.linked⟩
    obtain rfl := hhead i hi
    rw [hgrows.parent? hm]
    exact ⟨hlt, hparent⟩
  · intro a ha hap
    rcases List.mem_cons.mp ha with rfl | ha
    · rw [hdue, hnumber]
    · exact hnodes.due a ha hap
  · intro j hj hopen
    by_cases hjn : n.task.number < j
    · obtain ⟨a, ha, ha'⟩ := hnodes.opened j hjn hopen
      exact ⟨a, List.mem_cons_of_mem n' ha, ha'⟩
    · -- what is ticked below is new to the nodes up to the root
      have hjn := Nat.le_of_not_lt hjn
      rw [hgrows.isOpen (Nat.lt_of_le_of_lt hjn hlt)] at hopen
      obtain ⟨a, ha, ha', -⟩ := h.opened j hj hopen
      rcases List.mem_cons.mp ha with rfl | ha
      · exact ⟨n', List.mem_cons_self, hnumber.trans ha', hp'⟩
      · exact absurd (h.lt_of_mem ha) (Nat.not_lt_of_le (ha' ▸ hjn))

section Rejoin

variable {rest : List (Node (Witness τ))} {sub : Spine (Witness τ)}

theorem Attuned.frame (h : Attuned b l₀ k { root := n, below := m :: rest })
    (hsub : Passed n.task.number k.ledger k' sub)
    (hnumber : sub.root.task.number = m.task.number) (hgrows : Grows m.task.number k k') :
    n.task.number < sub.root.task.number ∧
      parent? sub.root.task.number k'.ledger = some n.task.number ∧
      (∀ p, parent? n.task.number k'.ledger = some p → p < n.task.number) ∧
      ∀ j < n.task.number, Ledger.due j k'.ledger = Ledger.due j l₀ := by
  obtain ⟨hlt, hparent⟩ := h.accord.second
  have hparent' : parent? sub.root.task.number k'.ledger = some n.task.number := by
    rw [hnumber, hgrows.parent? h.accord.tail.first.2]
    exact hparent
  refine ⟨hnumber ▸ hlt, hparent', fun p hp => ?_, fun j hj => ?_⟩
  · rw [hgrows.parent? h.accord.first.2] at hp
    exact (h.above p hp).1
  · rw [hsub.due j (hnumber ▸ Nat.lt_trans hj hlt) (Or.inr ?_)]
    · exact h.due j hj
    · rw [hparent']
      exact fun heq => Nat.ne_of_gt hj (Option.some.inj heq)

/-- The root goes on with a sub-task that has not failed. -/
theorem Attuned.rejoined_kept (h : Attuned b l₀ k { root := n, below := m :: rest })
    (hn : n.Started) (hsub : Passed n.task.number k.ledger k' sub)
    (hnumber : sub.root.task.number = m.task.number) (hgrows : Grows m.task.number k k')
    (hunfailed : sub.root.failure = none) :
    Passed b l₀ k' { root := n, below := sub.nodes } := by
  obtain ⟨hlt, -, habove, hdue⟩ := h.frame hsub hnumber hgrows
  obtain ⟨calls₀, hcalls₀, hnone⟩ := h.calls
  obtain ⟨calls, hcalls, hfate⟩ := hsub.fate
  have haccord : Accord b k' (n :: sub.nodes) := by
    refine h.accord.regained hgrows hsub.accord ?_ rfl hn.started hn.started ?_
    · intro i hi
      exact (Option.some.inj hi).symm.trans hnumber
    · rw [hsub.due n.task.number hlt (Or.inl hunfailed)]
      exact h.accord.due n List.mem_cons_self hn.started
  refine ⟨haccord, hsub.quiet, hsub.told, habove, fun j hj _ => hdue j hj, calls ++ calls₀, ?_, ?_⟩
  · rw [hcalls, hcalls₀, List.append_assoc]
  cases hfate with
  | goesOn hquiet hstarted =>
      refine .goesOn ?_ (List.forall_mem_cons.mpr ⟨hn, hstarted⟩)
      exact fun e he => (List.mem_append.mp he).elim (hquiet e) (hnone e)
  | rootFails hgives hreport =>
      rw [Node.failureReport, hunfailed] at hreport
      cases hreport
  | @subFails c f held p hgives hstarted hnodes hparent hcontrol hnews hlt' =>
      have hnodes : n :: sub.nodes = (n :: held) ++ [p] := congrArg (n :: ·) hnodes
      refine .subFails (hgives.append hnone) (List.forall_mem_cons.mpr ⟨hn, hstarted⟩) hnodes
        hparent hcontrol hnews ?_
      exact List.forall_mem_cons.mpr ⟨Nat.lt_trans hlt (hlt' _ List.mem_cons_self), hlt'⟩

theorem Attuned.rejoined_failed (h : Attuned b l₀ k { root := n, below := m :: rest })
    (hn : n.Started) (hsub : Passed n.task.number k.ledger k' sub)
    (hnumber : sub.root.task.number = m.task.number) (hgrows : Grows m.task.number k k')
    {f : Failure} (hreport : sub.root.failureReport = some f) :
    Passed b l₀ k'
      { root := { n with control := { n.control with childFailure := some f } } } := by
  obtain ⟨hlt, hparent, habove, hdue⟩ := h.frame hsub hnumber hgrows
  obtain ⟨calls₀, hcalls₀, hnone⟩ := h.calls
  obtain ⟨calls, hcalls, hfate⟩ := hsub.fate
  have hunfailed : ¬∀ a ∈ sub.nodes, a.Started := by
    intro hstarted
    rw [Node.failureReport, (hstarted sub.root List.mem_cons_self).unfailed] at hreport
    cases hreport
  cases hfate with
  | goesOn hquiet hstarted => exact absurd hstarted hunfailed
  | subFails hgives hstarted => exact absurd hstarted hunfailed
  | @rootFails g hgives hreport' hp hbelow hnews =>
      obtain rfl : f = g := Option.some.inj (hreport.symm.trans hreport')
      have hnews := hnews n.task.number hparent
      have hnil : Accord n.task.number k' ([] : List (Node (Witness τ))) := by
        refine ⟨by simp [numbers], .nil, by simp, fun j hj hopen => ?_⟩
        obtain ⟨a, ha, -, hap⟩ := hsub.accord.opened j hj hopen
        rw [nodes, hbelow] at ha
        obtain rfl := List.mem_singleton.mp ha
        rw [hp] at hap
        cases hap
      have haccord :
          Accord b k' [{ n with control := { n.control with childFailure := some f } }] :=
        h.accord.regained hgrows hnil (by simp [numbers]) rfl hn.started hn.started
          (due_of_news hnews).symm
      refine ⟨haccord, hsub.quiet, hsub.told, habove, fun j hj _ => hdue j hj, calls ++ calls₀, ?_,
        .subFails (hgives.append hnone) ?_ (List.nil_append _).symm hparent rfl hnews ?_⟩
      · rw [hcalls, hcalls₀, List.append_assoc]
      · intro a ha
        obtain rfl := List.mem_singleton.mp ha
        exact ⟨⟨hn.active, hn.unstopped, hn.unfailed⟩, hn.started⟩
      · intro a ha
        obtain rfl := List.mem_singleton.mp ha
        exact hlt

theorem Attuned.rejoined (h : Attuned b l₀ k { root := n, below := m :: rest }) (hn : n.Started)
    (hsub : Passed n.task.number k.ledger k' sub)
    (hnumber : sub.root.task.number = m.task.number) (hgrows : Grows m.task.number k k') :
    (rejoin n sub).Ensures k' fun s' k'' _ =>
      s'.root.task.number = n.task.number ∧ Passed b l₀ k'' s' := by
  rw [rejoin]
  split
  · next hnone =>
    have hunfailed : sub.root.failure = none := Option.map_eq_none_iff.mp hnone
    exact Act.meets_pure ⟨rfl, h.rejoined_kept hn hsub hnumber hgrows hunfailed⟩
  · next f hreport =>
    apply (dropAll_meets sub.nodes k').bind
    intro _ k'' _ hk
    rw [hk.1]
    exact Act.meets_pure ⟨rfl, h.rejoined_failed hn hsub hnumber hgrows hreport⟩

end Rejoin

/-! ### Whole ticks -/

omit [Task κ τ] in
theorem Accord.among {rest : List (Node (Witness τ))} (h : Accord b k (m :: rest)) :
    Have (Grows.Among m.task.number k) k (m :: rest) := by
  intro a ha
  refine ⟨.refl _ k, ?_, (h.drawn _ (List.mem_map_of_mem ha)).2⟩
  rcases List.mem_cons.mp ha with rfl | ha
  · exact Nat.le_refl _
  · exact Nat.le_of_lt (h.lt_of_mem ha)

omit [Task κ τ] in
theorem started_reporting (hn : n.Started) (state : String) :
    Node.Started { n with reportedState := state } :=
  ⟨⟨hn.active, hn.unstopped, hn.unfailed⟩, hn.started⟩

omit [Task κ τ] in
theorem Attuned.reporting (h : Attuned b l₀ k { root := n, below }) (state : String) :
    Attuned b l₀ k { root := { n with reportedState := state }, below } := by
  have haccord : Accord b k ({ n with reportedState := state } :: below) := by
    refine ⟨h.accord.drawn, h.accord.linked, ?_, ?_⟩
    · intro a ha hp
      rcases List.mem_cons.mp ha with rfl | ha
      · exact h.accord.due n List.mem_cons_self hp
      · exact h.accord.due a (List.mem_cons_of_mem n ha) hp
    · intro j hj hopen
      obtain ⟨a, ha, ha'⟩ := h.accord.opened j hj hopen
      rcases List.mem_cons.mp ha with rfl | ha
      · exact ⟨_, List.mem_cons_self, ha'⟩
      · exact ⟨a, List.mem_cons_of_mem _ ha, ha'⟩
  exact ⟨haccord, h.quiet, h.told, h.above, h.due, h.calls⟩

/-- By induction on the levels of the tick. -/
theorem Ticked.passed {trail : List (Happening (Witness τ))} {refused : List (Witness τ)}
    (h : Ticked s k s' k' trail refused) (hs : s.Kempt) (hp : Attuned b l₀ k s) :
    s'.root.task.number = s.root.task.number ∧ Passed b l₀ k' s' := by
  induction h generalizing b l₀ with
  | @gaveUp s s' k k' trail hready hstopped =>
      obtain ⟨-, hcase⟩ := (hs.ready_ensures k).of_ok hready
      obtain ⟨hnumber, hcase'⟩ := (hp.ready hs).of_ok hready
      have hfailed := (hcase.resolve_left fun h =>
        Bool.false_ne_true (h.1.unstopped.symm.trans hstopped)).2
      exact ⟨hnumber, (hcase'.resolve_left fun h => hfailed h.1).2⟩
  | failed htaken hreason hfail =>
      obtain ⟨hstarted, hnumber, -, -, e, he, hanswered⟩ := htaken.answered hs hp
      obtain ⟨hnumber', -, hpassed⟩ :=
        (hanswered.fail (he.trans hreason) hstarted hs.held).of_ok hfail
      exact ⟨hnumber'.trans hnumber, hpassed⟩
  | @alone s k k₁ k' root turn t₁ notes t₂ state refused htaken hreason hnotes hsettled =>
      obtain ⟨hstarted, hnumber, hnews, hc, e, he, hanswered⟩ := htaken.answered hs hp
      have hattuned := (hanswered.attuned (he.trans hreason)).reporting state
      obtain ⟨hattuned, -⟩ := hsettled.attuned hs.held hattuned hnews hc
      obtain ⟨calls, hcalls, hquiet⟩ := hattuned.calls
      refine ⟨hnumber, hattuned.accord, hattuned.quiet, hattuned.told,
        fun p hp => (hattuned.above p hp).1, fun j hj _ => hattuned.due j hj, calls, hcalls,
        .goesOn hquiet ?_⟩
      intro n hn
      obtain rfl := List.mem_singleton.mp hn
      exact started_reporting hstarted state
  | @onward s sub s' k k₁ k₂ k₃ k' root m rest turn t₁ notes t₂ t₃ t₄ state _ _ htaken hreason
      hnotes hsettled hsub hopening hrejoin ih =>
      obtain ⟨hstarted, hnumber, hnews, hc, e, he, hanswered⟩ := htaken.answered hs hp
      have hattuned := (hanswered.attuned (he.trans hreason)).reporting state
      obtain ⟨hattuned, hnews⟩ := hsettled.attuned hs.held hattuned hnews hc
      have hkempt := hsettled.kempt hs.held hs.pending
      obtain ⟨hsubNumber, hpassed⟩ := ih hkempt (hattuned.sub hnews)
      have hgrows := (hsub.lasts (Grows.lasting_among _ _) hattuned.accord.tail.among).2.2
      obtain ⟨hnumber', hpassed'⟩ := (hattuned.rejoined (started_reporting hstarted state) hpassed
        hsubNumber (hgrows _ List.mem_cons_self).1).of_ok hrejoin
      exact ⟨hnumber'.trans hnumber, hpassed'⟩

end Spine

end Arbiter
