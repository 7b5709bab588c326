import Arbiter.Proofs.Spine.Trace
import Arbiter.Proofs.Witness.Handover

/-! The reports of state texts. A tick reports the state text of a node exactly if its tick hook
went well and left another text than the one that was reported last for this node. -/

namespace Arbiter

variable {κ τ : Type}

/-! ## Reports in the ledger -/

/-- What can be seen after a tick hook that goes well: the label of its task and the state text. -/
def Entry.shown? : Entry → Option (Nat × StateChange)
  | .ticked i _ reply label _ =>
    if reply.failure = none then some (i, { label, state := reply.state }) else none
  | _ => none

namespace Ledger

/-- What can be seen after the calls. -/
def seen (l : Ledger) : List (Nat × StateChange) := l.filterMap Entry.shown?

def ticks (l : Ledger) : List Nat :=
  l.filterMap fun
    | .ticked i _ _ _ _ => some i
    | _ => none

/-- The state text in the latest report on the node, and the empty text before the first one. -/
def lastState (i : Nat) (reports : List (Nat × StateChange)) : String :=
  ((reports.find? fun r => r.1 = i).map fun r => r.2.state).getD ""

/-- Those of the state texts that differ from what was reported last on their nodes. -/
def changed (reports seen : List (Nat × StateChange)) : List (Nat × StateChange) :=
  seen.filter fun r => r.2.state ≠ lastState r.1 reports

/-- The reports that are due, each with its node, the latest first. -/
def reports : Ledger → List (Nat × StateChange)
  | [] => []
  | e :: l => changed (reports l) e.shown?.toList ++ reports l

variable {i : Nat} {e : Entry} {l calls es : Ledger} {rs rs' new : List (Nat × StateChange)}
  {r : Nat × StateChange}

theorem seen_cons : seen (e :: l) = e.shown?.toList ++ seen l := by
  rw [seen, List.filterMap_cons]
  cases e.shown? <;> rfl

theorem seen_append (s t : Ledger) : seen (s ++ t) = seen s ++ seen t := List.filterMap_append

theorem ticks_append (s t : Ledger) : ticks (s ++ t) = ticks s ++ ticks t :=
  List.filterMap_append

theorem lastState_append (h : ∀ r ∈ new, r.1 ≠ i) : lastState i (new ++ rs) = lastState i rs := by
  have hnone : new.find? (fun r => r.1 = i) = none := by simpa using h
  rw [lastState, List.find?_append, hnone, Option.none_or, lastState]

theorem lastState_cons_self (c : StateChange) : lastState i ((i, c) :: rs) = c.state := by
  simp [lastState]

theorem mem_changed : r ∈ changed rs new ↔ r ∈ new ∧ r.2.state ≠ lastState r.1 rs := by
  simp [changed]

theorem changed_congr (h : ∀ r ∈ new, lastState r.1 rs = lastState r.1 rs') :
    changed rs new = changed rs' new := by
  apply List.filter_congr
  intro r hr
  rw [h r hr]

theorem number_of_shown (h : e.shown? = some r) : r.1 = e.number := by
  cases e with
  | ticked j given reply label candidate =>
      rw [Entry.shown?] at h
      split at h
      · cases h
        rfl
      · cases h
  | _ => cases h

theorem exists_of_mem_reports (h : r ∈ reports l) : ∃ e ∈ l, e.number = r.1 := by
  induction l with
  | nil => cases h
  | cons e l ih =>
      rcases List.mem_append.mp h with h | h
      · have hshown := Option.mem_toList.mp (mem_changed.mp h).1
        exact ⟨e, List.mem_cons_self, (number_of_shown hshown).symm⟩
      · obtain ⟨e', he', hnumber⟩ := ih h
        exact ⟨e', List.mem_cons_of_mem e he', hnumber⟩

/-- Nothing was reported on a node that is new. -/
theorem lastState_of_fresh (h : ∀ e ∈ l, e.number < i) : lastState i (reports l) = "" := by
  have hnone : (reports l).find? (fun r => r.1 = i) = none := by
    rw [List.find?_eq_none]
    intro r hr heq
    obtain ⟨e, he, hnumber⟩ := exists_of_mem_reports hr
    have hlt := h e he
    rw [hnumber, of_decide_eq_true heq] at hlt
    exact Nat.lt_irrefl i hlt
  rw [lastState, hnone]
  rfl

theorem mem_ticks_of_seen (h : r ∈ seen l) : r.1 ∈ ticks l := by
  obtain ⟨e, he, hshown⟩ := List.mem_filterMap.mp h
  rw [number_of_shown hshown]
  cases e with
  | ticked => exact List.mem_filterMap.mpr ⟨_, he, rfl⟩
  | _ => cases hshown

theorem seen_of_ticks (h : ticks l = []) : seen l = [] := by
  rw [List.eq_nil_iff_forall_not_mem]
  intro r hr
  have hmem := mem_ticks_of_seen hr
  rw [h] at hmem
  cases hmem

theorem exists_of_mem_ticks (h : i ∈ ticks l) : ∃ e ∈ l, e.number = i := by
  obtain ⟨e, he, heq⟩ := List.mem_filterMap.mp h
  cases e with
  | ticked j => exact ⟨_, he, Option.some.inj heq⟩
  | _ => cases heq

/-- If no node is ticked twice, what is due after each call does not depend on the calls before. -/
theorem reports_append (h : (ticks calls).Nodup) :
    reports (calls ++ l) = changed (reports l) (seen calls) ++ reports l := by
  induction calls with
  | nil => rfl
  | cons e calls ih =>
      have h : (ticks [e] ++ ticks calls).Nodup := ticks_append [e] calls ▸ h
      obtain ⟨-, hnodup, hapart⟩ := List.nodup_append.mp h
      have hsame : changed (reports (calls ++ l)) e.shown?.toList =
          changed (reports l) e.shown?.toList := by
        apply changed_congr
        intro r hr
        rw [ih hnodup]
        apply lastState_append
        intro r' hr' heq
        have hmem : r.1 ∈ ticks [e] := by
          apply mem_ticks_of_seen
          rw [seen_cons]
          exact List.mem_append_left _ hr
        have hmem' := mem_ticks_of_seen (mem_changed.mp hr').1
        exact hapart _ hmem _ hmem' heq.symm
      rw [List.cons_append, reports, hsame, ih hnodup, seen_cons, changed, changed, changed,
        List.filter_append, List.append_assoc]

theorem reports_append_of_ticks (h : ticks es = []) : reports (es ++ l) = reports l := by
  rw [reports_append (by rw [h]; exact .nil), seen_of_ticks h]
  rfl

/-- Of two reports in a row on one node the later one shows another state text. -/
theorem isChain_reports (i : Nat) (l : Ledger) :
    ((reports l).filter fun r => r.1 = i).IsChain fun r r' => r.2.state ≠ r'.2.state := by
  induction l with
  | nil => exact .nil
  | cons e l ih =>
      rw [reports]
      cases e.shown? with
      | none => exact ih
      | some r =>
          rw [Option.toList_some]
          by_cases hstate : r.2.state = lastState r.1 (reports l)
          · have hnone : changed (reports l) [r] = [] := by simp [changed, hstate]
            rw [hnone]
            exact ih
          · have hone : changed (reports l) [r] = [r] := by simp [changed, hstate]
            rw [hone, List.singleton_append, List.filter_cons]
            split
            · next hi =>
              obtain rfl : r.1 = i := by simpa using hi
              refine List.isChain_cons.mpr ⟨fun r' hr' => ?_, ih⟩
              have hlast : lastState r.1 (reports l) = r'.2.state := by
                rw [List.head?_filter] at hr'
                simp [lastState, Option.mem_def.mp hr']
              exact hlast ▸ hstate
            · exact ih

end Ledger

/-! ## Reports in a tick -/

namespace Spine

open Ledger

variable {k k' k'' : Witnessed κ} {n n' m : Node (Witness τ)} {s s' : Spine (Witness τ)}
  {nodes nodes' below : List (Node (Witness τ))} {r r' : Nat}
  {changes changes' changes'' : List StateChange} {calls calls' : Ledger}
  {new new' : List (Nat × StateChange)}

/-- The nodes know which state texts were reported last for them. Their numbers were drawn, and rise
from the root down. -/
structure Noticed (k : Witnessed κ) (nodes : List (Node (Witness τ))) : Prop where
  entered : ∀ e ∈ k.ledger, e.number < k.next
  drawn : ∀ i ∈ numbers nodes, i < k.next
  ordered : (numbers nodes).Pairwise (· < ·)
  reported : ∀ n ∈ nodes, n.reportedState = lastState n.task.number (reports k.ledger)

/-- The calls on nodes with numbers from `r` on that lead from one context to the other, and the
reports that were due in them. The changes in the record of the tick, the latest first, are extended
by these reports. -/
structure Adds (r : Nat) (k : Witnessed κ) (changes : List StateChange) (k' : Witnessed κ)
    (changes' : List StateChange) (calls : Ledger) (new : List (Nat × StateChange)) : Prop where
  next_le : k.next ≤ k'.next
  ledger : k'.ledger = calls ++ k.ledger
  onward : ∀ e ∈ calls, r ≤ e.number ∧ e.number < k'.next
  due : reports k'.ledger = new ++ reports k.ledger
  made : changes' = new.map Prod.snd ++ changes

namespace Adds

theorem refl (r : Nat) (k : Witnessed κ) (changes : List StateChange) :
    Adds r k changes k changes [] [] :=
  ⟨Nat.le_refl _, rfl, by simp, rfl, rfl⟩

theorem trans (h : Adds r k changes k' changes' calls new)
    (h' : Adds r' k' changes' k'' changes'' calls' new') (hr : r ≤ r') :
    Adds r k changes k'' changes'' (calls' ++ calls) (new' ++ new) := by
  refine ⟨Nat.le_trans h.next_le h'.next_le, ?_, ?_, ?_, ?_⟩
  · rw [h'.ledger, h.ledger, List.append_assoc]
  · intro e he
    rcases List.mem_append.mp he with he | he
    · exact ⟨Nat.le_trans hr (h'.onward e he).1, (h'.onward e he).2⟩
    · exact ⟨(h.onward e he).1, Nat.lt_of_lt_of_le (h.onward e he).2 h'.next_le⟩
  · rw [h'.due, h.due, List.append_assoc]
  · rw [h'.made, h.made, List.map_append, List.append_assoc]

theorem single {e : Entry} (hnext : k.next ≤ k'.next) (hledger : k'.ledger = e :: k.ledger)
    (hr : e.number = r) (hlt : r < k.next)
    (hnew : changed (reports k.ledger) e.shown?.toList = new) :
    Adds r k changes k' (new.map Prod.snd ++ changes) [e] new := by
  refine ⟨hnext, hledger, ?_, ?_, rfl⟩
  · intro x hx
    rw [List.mem_singleton.mp hx, hr]
    exact ⟨Nat.le_refl _, Nat.lt_of_lt_of_le hlt hnext⟩
  · rw [hledger, reports, hnew]

theorem entered (h : Adds r k changes k' changes' calls new)
    (hentered : ∀ e ∈ k.ledger, e.number < k.next) : ∀ e ∈ k'.ledger, e.number < k'.next := by
  rw [h.ledger]
  intro e he
  rcases List.mem_append.mp he with he | he
  · exact (h.onward e he).2
  · exact Nat.lt_of_lt_of_le (hentered e he) h.next_le

end Adds

def Idles (r : Nat) (k k' : Witnessed κ) : Prop :=
  ∀ changes, ∃ calls, Adds r k changes k' changes calls [] ∧ ticks calls = []

theorem Idles.refl (r : Nat) (k : Witnessed κ) : Idles r k k :=
  fun changes => ⟨[], .refl r k changes, rfl⟩

theorem Idles.trans (h : Idles r k k') (h' : Idles r k' k'') : Idles r k k'' := by
  intro changes
  obtain ⟨calls, hadds, hticks⟩ := h changes
  obtain ⟨calls', hadds', hticks'⟩ := h' changes
  refine ⟨calls' ++ calls, hadds.trans hadds' (Nat.le_refl r), ?_⟩
  rw [ticks_append, hticks', hticks, List.append_nil]

theorem Idles.reports (h : Idles r k k') : Ledger.reports k'.ledger = Ledger.reports k.ledger := by
  obtain ⟨calls, hadds, -⟩ := h []
  exact hadds.due

theorem idles_of_stopped (h : Stopped nodes k k') (hr : ∀ i ∈ numbers nodes, r ≤ i ∧ i < k.next) :
    Idles r k k' := by
  obtain ⟨hnext, es, hes, hstops, hsome, -⟩ := h
  have hticks : ticks es = [] := by
    rw [ticks, List.filterMap_eq_nil_iff]
    intro e he
    have hstop := hstops e he
    cases e <;> first | rfl | cases hstop
  refine fun changes => ⟨es, ⟨Nat.le_of_eq hnext.symm, hes, ?_, ?_, rfl⟩, hticks⟩
  · intro e he
    obtain ⟨n, hn, heq⟩ := hsome e he
    rw [hnext, ← heq]
    exact hr _ (List.mem_map_of_mem hn)
  · rw [hes, reports_append_of_ticks hticks]
    rfl

namespace Noticed

theorem tail (h : Noticed k (n :: nodes)) : Noticed k nodes :=
  ⟨h.entered, fun i hi => h.drawn i (List.mem_cons_of_mem _ hi),
    (List.pairwise_cons.mp h.ordered).2, fun m hm => h.reported m (List.mem_cons_of_mem n hm)⟩

theorem onward (h : Noticed k (n :: nodes)) :
    ∀ i ∈ numbers (n :: nodes), n.task.number ≤ i ∧ i < k.next := by
  intro i hi
  refine ⟨?_, h.drawn i hi⟩
  rcases List.mem_cons.mp hi with rfl | hi'
  · exact Nat.le_refl _
  · exact Nat.le_of_lt ((List.pairwise_cons.mp h.ordered).1 i hi')

/-- Nothing is reported, and the nodes keep their marks. -/
theorem unreported (h : Noticed k nodes) (hadds : Adds r k changes k' changes' calls [])
    (hmarks : (nodes'.map mark).Sublist (nodes.map mark)) : Noticed k' nodes' := by
  have hnumbers : (numbers nodes').Sublist (numbers nodes) := by
    rw [numbers_eq, numbers_eq]
    exact hmarks.map _
  refine ⟨hadds.entered h.entered, ?_, h.ordered.sublist hnumbers, ?_⟩
  · exact fun i hi => Nat.lt_of_lt_of_le (h.drawn i (hnumbers.subset hi)) hadds.next_le
  · intro n hn
    obtain ⟨m, hm, heq⟩ := List.mem_map.mp (hmarks.subset (List.mem_map_of_mem hn))
    obtain ⟨hnumber, hstate⟩ := Prod.mk.inj heq
    rw [← hstate, ← hnumber, hadds.due]
    exact h.reported m hm

theorem kept (h : Noticed k nodes) (hidles : Idles r k k')
    (hmarks : (nodes'.map mark).Sublist (nodes.map mark)) : Noticed k' nodes' := by
  obtain ⟨calls, hadds, -⟩ := hidles []
  exact h.unreported hadds hmarks

theorem withRoot (h : Noticed k s.nodes) (hmark : mark n = mark s.root) :
    Noticed k ({ s with root := n } : Spine (Witness τ)).nodes := by
  refine h.kept (.refl 0 k) ?_
  rw [nodes, nodes, List.map_cons, List.map_cons, hmark]

end Noticed

/-! ### Steps of a tick -/

variable [Task κ τ]

theorem fail_idles (reason : String) (hroot : s.root.Started) (hbelow : ∀ n ∈ s.below, n.Held)
    (h : Noticed k s.nodes) :
    (s.fail reason).Ensures k fun s' k' _ => s'.root.task.number = s.root.task.number ∧
      Noticed k' s'.nodes ∧ Idles s.root.task.number k k' := by
  apply (fail_enters reason hroot fun n hn => (hbelow n hn).active).imp
  intro s' k' _ hfail
  obtain ⟨label, k₁, hmark, -, halone, -, hnext, hledger, hstopped⟩ := hfail
  have hidles : Idles s.root.task.number k k' :=
    idles_of_stopped ((Stopped.single hnext hledger).append hstopped) h.onward
  refine ⟨congrArg Prod.fst hmark, h.kept hidles ?_, hidles⟩
  rw [nodes, halone, List.map_cons, hmark]
  exact List.cons_sublist_cons.mpr (List.nil_sublist _)

theorem ready_idles (hs : s.Kempt) (h : Noticed k s.nodes) :
    s.ready.Ensures k fun s' k' _ => s'.root.task.number = s.root.task.number ∧
      Noticed k' s'.nodes ∧ Idles s.root.task.number k k' := by
  have hidles : ∀ {n : Node (Witness τ)} {reply : Reply} {k₁ : Witnessed κ},
      Opened s k n reply k₁ → n.task.number = s.root.task.number ∧
        Noticed k₁ (n :: s.below) ∧ Idles s.root.task.number k k₁ := by
    intro n reply k₁ hopened
    obtain ⟨given, -, hledger⟩ := hopened.ledger
    have hidles : Idles s.root.task.number k k₁ := fun changes =>
      ⟨[_], .single (Nat.le_of_eq hopened.next_eq.symm) hledger rfl
        (h.drawn _ List.mem_cons_self) rfl, rfl⟩
    have hnoticed := (h.withRoot hopened.mark_eq).kept hidles (.refl _)
    exact ⟨congrArg Prod.fst hopened.mark_eq, hnoticed, hidles⟩
  apply (ready_made s k).imp
  intro s' k' _ hready
  cases hready with
  | already => exact ⟨rfl, h, .refl _ _⟩
  | started hopened => exact hidles hopened
  | @gaveUp n reply reason s' k₁ k' trail hopened hreason hfail =>
      obtain ⟨hnumber, hnoticed, hidles⟩ := hidles hopened
      obtain ⟨hnumber', hnoticed', hidles'⟩ := (fail_idles reason (s := { s with root := n })
        hopened.started hs.held hnoticed).of_ok hfail
      exact ⟨hnumber'.trans hnumber, hnoticed', hidles.trans (hnumber ▸ hidles')⟩

/-- The state text is told if it differs from the one that was reported last. -/
theorem reportState_made (n : Node (Witness τ)) (trace : Trace) (k : Witnessed κ) :
    (reportState n trace).Ensures k fun p k' _ =>
      p.1 = { n with reportedState := n.control.state } ∧ k' = k ∧
        p.2.latestChanges = (if n.control.state = n.reportedState then []
          else [{ label := Task.label n.task, state := n.control.state }]) ++
            trace.latestChanges := by
  rw [reportState]
  split
  · next h => exact Act.meets_pure ⟨by rw [h], rfl, rfl⟩
  · exact Act.Meets.note_bind (Act.meets_pure ⟨rfl, rfl, rfl⟩)

section Turn

variable {c : Control} {reply : Reply} {label : String} {candidate : Option Nat}

omit [Task κ τ] in
/-- A report is due after a tick hook that goes well if the node has not reported its text yet. -/
theorem Noticed.report (h : Noticed k (n :: below)) (hwell : reply.failure = none) :
    changed (reports k.ledger)
        (Entry.ticked n.task.number c reply label candidate).shown?.toList =
      if reply.state = n.reportedState then []
      else [(n.task.number, { label, state := reply.state })] := by
  rw [h.reported n List.mem_cons_self, Entry.shown?, if_pos hwell]
  split
  · next hstate => simp [changed, hstate]
  · next hstate => simp [changed, hstate]

omit [Task κ τ] in
theorem Noticed.reporting (h : Noticed k (n :: below))
    (hledger : k'.ledger = .ticked n.task.number c reply label candidate :: k.ledger)
    (hnext : k.next ≤ k'.next) (hwell : reply.failure = none)
    (hmark : mark n' = (n.task.number, reply.state)) : Noticed k' (n' :: below) := by
  obtain ⟨hnumber, hstate⟩ := Prod.mk.inj hmark
  have hnumbers : numbers (n' :: below) = numbers (n :: below) :=
    congrArg (· :: numbers below) hnumber
  have hadds : Adds n.task.number k [] k' _ _ _ :=
    .single hnext hledger rfl (h.drawn _ List.mem_cons_self) (h.report hwell)
  refine ⟨hadds.entered h.entered, ?_, hnumbers ▸ h.ordered, ?_⟩
  · rw [hnumbers]
    exact fun i hi => Nat.lt_of_lt_of_le (h.drawn i hi) hnext
  · intro m hm
    rw [hadds.due]
    rcases List.mem_cons.mp hm with rfl | hm
    · rw [hstate, hnumber]
      split
      · next heq =>
        rw [heq]
        exact h.reported n List.mem_cons_self
      · exact (lastState_cons_self { label, state := reply.state }).symm
    · have hlt : n.task.number < m.task.number :=
        (List.pairwise_cons.mp h.ordered).1 _ (List.mem_map_of_mem hm)
      rw [lastState_append]
      · exact h.reported m (List.mem_cons_of_mem n hm)
      · intro p hp
        split at hp
        · cases hp
        · rw [List.mem_singleton.mp hp]
          exact Nat.ne_of_lt hlt

end Turn

/-- The sub-task is newer than the node `r`, and nothing was reported on it. -/
structure Unheard (r : Nat) (k : Witnessed κ) (c : Witness τ) : Prop where
  newer : r < c.number
  drawn : c.number < k.next
  unreported : lastState c.number (reports k.ledger) = ""

omit [Task κ τ] in
theorem Noticed.unheard {e : Entry} {candidate : Option (Witness τ)} (h : Noticed k (n :: below))
    (hledger : k'.ledger = e :: k.ledger) (he : e.number = n.task.number)
    (hdraws : ∀ c ∈ candidate, c.number = k.next ∧ k.next < k'.next) :
    ∀ c ∈ candidate, Unheard n.task.number k' c := by
  intro c hc
  obtain ⟨hdrawn, hlt⟩ := hdraws c hc
  have hroot := h.drawn n.task.number List.mem_cons_self
  refine ⟨hdrawn ▸ hroot, hdrawn ▸ hlt, lastState_of_fresh ?_⟩
  rw [hledger, hdrawn]
  exact List.forall_mem_cons.mpr ⟨he ▸ hroot, h.entered⟩

omit [Task κ τ] in
/-- A node gets the sub-task that it has asked for. -/
theorem Noticed.delegating (h : Noticed k [n]) {candidate : Option (Witness τ)}
    (hc : ∀ c ∈ candidate, Unheard n.task.number k c) :
    Noticed k (n :: candidate.toList.map Node.fresh) := by
  cases candidate with
  | none => exact h
  | some c =>
      obtain ⟨hlt, hnext, hlast⟩ := hc c rfl
      refine ⟨h.entered, ?_, ?_, ?_⟩
      · intro i hi
        rcases List.mem_cons.mp hi with rfl | hi
        · exact h.drawn _ List.mem_cons_self
        · obtain rfl := List.mem_singleton.mp hi
          exact hnext
      · exact List.pairwise_pair.mpr hlt
      · intro m hm
        rcases List.mem_cons.mp hm with rfl | hm
        · exact h.reported m List.mem_cons_self
        · obtain rfl := List.mem_singleton.mp hm
          exact hlast.symm

theorem Settled.noticed {candidate : Option (Witness τ)} {trail : List (Happening (Witness τ))}
    {refused : List (Witness τ)} (hsettled : Settled k below candidate nodes k' trail refused)
    (hheld : ∀ m ∈ below, m.Held) (h : Noticed k (n :: below))
    (hc : ∀ c ∈ candidate, Unheard n.task.number k c) :
    Noticed k' (n :: nodes) ∧ Idles n.task.number k k' := by
  cases hsettled with
  | free hbelow =>
      subst hbelow
      exact ⟨h.delegating hc, .refl _ k⟩
  | equal => exact ⟨h, .refl _ k⟩
  | forced => exact ⟨h, .refl _ k⟩
  | exchanged hne hother hyields hstop =>
      have hstopped := (stopAndDrop_stopped candidate fun m hm => (hheld m hm).active).of_ok hstop
      have hidles : Idles n.task.number k k' :=
        idles_of_stopped hstopped fun i hi => h.onward i (List.mem_cons_of_mem _ hi)
      have halone : Noticed k' [n] :=
        h.kept hidles (List.cons_sublist_cons.mpr (List.nil_sublist _))
      obtain ⟨calls, hadds, -⟩ := hidles []
      refine ⟨halone.delegating fun c hmem => ?_, hidles⟩
      obtain ⟨hlt, hnext, hlast⟩ := hc c hmem
      exact ⟨hlt, Nat.lt_of_lt_of_le hnext hadds.next_le, by rw [hadds.due]; exact hlast⟩

/-! ### Whole ticks -/

/-- The node has reported its state text, and can be seen with it under this label. -/
structure Shows (n : Node (Witness τ)) (seen : Nat × StateChange) : Prop where
  number : n.task.number = seen.1
  label : Task.label n.task = seen.2.label
  state : n.control.state = seen.2.state
  reported : n.reportedState = seen.2.state

/-- A tick of the node `r` and what it holds, from the changes that were made before. -/
structure Recorded (r : Nat) (k : Witnessed κ) (changes : List StateChange)
    (s : Spine (Witness τ)) (k' : Witnessed κ) (changes' : List StateChange) (calls : Ledger)
    (new : List (Nat × StateChange)) : Prop where
  number : s.root.task.number = r
  noticed : Noticed k' s.nodes
  adds : Adds r k changes k' changes' calls new
  once : (ticks calls).Nodup
  /-- The reports come from the root down. -/
  downward : (new.map Prod.fst).reverse.Sublist (numbers s.nodes)
  shown : ∀ c ∈ seen calls, ∃ n ∈ s.nodes, Shows n c
  failed : s.root.failure ≠ none → seen calls = []

/-- The own part of the node `n` in a tick, under its number `r`: its tick hook is called, and a
report on it may be due. -/
structure Own (r : Nat) (n : Node (Witness τ)) (k : Witnessed κ) (changes : List StateChange)
    (k' : Witnessed κ) (changes' : List StateChange) (calls : Ledger)
    (new : List (Nat × StateChange)) : Prop where
  number : n.task.number = r
  adds : Adds r k changes k' changes' calls new
  ticked : ticks calls = [r]
  downward : (new.map Prod.fst).reverse.Sublist [r]
  shown : ∀ c ∈ seen calls, Shows n c

theorem Adds.new_eq (h : Adds r k changes k' changes' calls new) (honce : (ticks calls).Nodup) :
    new = changed (reports k.ledger) (seen calls) := by
  apply List.append_cancel_right
  rw [← h.due, h.ledger, reports_append honce]

namespace Recorded

theorem of_idles (h : Noticed k' s.nodes) (hidles : Idles s.root.task.number k k')
    (changes : List StateChange) :
    ∃ calls new, Recorded s.root.task.number k changes s k' changes calls new := by
  obtain ⟨calls, hadds, hticks⟩ := hidles changes
  refine ⟨calls, [], rfl, h, hadds, by rw [hticks]; exact .nil, List.nil_sublist _, ?_,
    fun _ => seen_of_ticks hticks⟩
  rw [seen_of_ticks hticks]
  nofun

/-- Calls in which no node is ticked come first. -/
theorem after (h : ∃ calls new, Recorded r k' changes s' k'' changes' calls new)
    (hidles : Idles r k k') : ∃ calls new, Recorded r k changes s' k'' changes' calls new := by
  obtain ⟨calls, new, h⟩ := h
  obtain ⟨idle, hadds, hticks⟩ := hidles changes
  have hseen : seen (calls ++ idle) = seen calls := by
    rw [seen_append, seen_of_ticks hticks, List.append_nil]
  refine ⟨calls ++ idle, new, h.number, h.noticed, ?_, ?_, h.downward, hseen ▸ h.shown,
    hseen ▸ h.failed⟩
  · have hadds := hadds.trans h.adds (Nat.le_refl r)
    rwa [List.append_nil] at hadds
  · rw [ticks_append, hticks, List.append_nil]
    exact h.once

end Recorded

section Turn

variable {turn : Turn (Witness τ)} {c : Control} {candidate : Option Nat}

theorem Recorded.failing {label reason : String} (hs : s.Sound) (hstarted : s.root.Started)
    (h : Noticed k s.nodes) (hnumber : turn.task.number = s.root.task.number)
    (hledger : k'.ledger = .ticked s.root.task.number c turn.reply label candidate :: k.ledger)
    (hnext : k.next ≤ k'.next) (hfailure : turn.reply.failure = some reason) :
    (({ s with root := turned s.root turn } : Spine (Witness τ)).fail reason).Ensures k'
      fun s' k'' _ => ∀ changes, ∃ calls new,
        Recorded s.root.task.number k changes s' k'' changes calls new := by
  generalize he : Entry.ticked s.root.task.number c turn.reply label candidate = e at hledger
  have hshown : e.shown? = none := by
    rw [← he, Entry.shown?, if_neg (by simp [hfailure])]
  have hnone : changed (reports k.ledger) e.shown?.toList = [] := by
    rw [hshown]
    rfl
  have hadds : ∀ changes : List StateChange,
      Adds s.root.task.number k changes k' changes [e] [] := fun changes =>
    .single hnext hledger (he ▸ rfl) (h.drawn _ List.mem_cons_self) hnone
  have hmark : mark (turned s.root turn) = mark s.root :=
    congrArg (·, s.root.reportedState) hnumber
  have hnoticed : Noticed k' ({ s with root := turned s.root turn } : Spine (Witness τ)).nodes :=
    (h.withRoot hmark).unreported (hadds []) (.refl _)
  apply (fail_idles reason (s := { s with root := turned s.root turn })
    (turned_started hstarted turn) hs.held hnoticed).imp
  intro s' k'' _ h' changes
  obtain ⟨hnumber', hnoticed', hidles⟩ := h'
  obtain ⟨idle, hidle, hticks⟩ := hidles changes
  have hseen : seen (idle ++ [e]) = [] := by
    rw [seen_append, seen_of_ticks hticks, seen_cons, hshown]
    rfl
  refine ⟨_, _, hnumber'.trans hnumber, hnoticed',
    (hadds changes).trans hidle (Nat.le_of_eq hnumber.symm), ?_, List.nil_sublist _, ?_,
    fun _ => hseen⟩
  · rw [ticks_append, hticks, ← he]
    simp [ticks]
  · rw [hseen]
    nofun

theorem reportState_own (h : Noticed k (n :: below)) (hnumber : turn.task.number = n.task.number)
    (hledger : k'.ledger =
      .ticked n.task.number c turn.reply (Task.label turn.task) candidate :: k.ledger)
    (hnext : k.next ≤ k'.next) (hwell : turn.reply.failure = none) (trace : Trace) :
    (reportState (turned n turn) trace).Ensures k' fun p k'' _ =>
      p.1 = { turned n turn with reportedState := turn.reply.state } ∧ k'' = k' ∧
        Noticed k' (p.1 :: below) ∧ ∃ calls new,
          Own n.task.number p.1 k trace.latestChanges k' p.2.latestChanges calls new := by
  apply (reportState_made _ trace k').imp
  intro p k'' _ hmade
  obtain ⟨hp, hk, hchanges⟩ := hmade
  have hshows : Shows p.1
      (n.task.number, { label := Task.label turn.task, state := turn.reply.state }) := by
    rw [hp]
    exact ⟨hnumber, rfl, rfl, rfl⟩
  have hnoticed := h.reporting hledger hnext hwell (congrArg₂ Prod.mk hshows.number hshows.reported)
  have hadds : Adds n.task.number k trace.latestChanges k' _ _ _ :=
    .single hnext hledger rfl (h.drawn _ List.mem_cons_self) (h.report hwell)
  have hshown : ∀ r ∈
      seen [.ticked n.task.number c turn.reply (Task.label turn.task) candidate], Shows p.1 r := by
    rw [seen_cons, Entry.shown?, if_pos hwell]
    exact fun r hr => List.mem_singleton.mp hr ▸ hshows
  have hchanges : p.2.latestChanges = (if turn.reply.state = n.reportedState then []
      else [{ label := Task.label turn.task, state := turn.reply.state }]) ++
        trace.latestChanges := hchanges
  refine ⟨hp, hk, hnoticed, ?_⟩
  rw [hchanges]
  by_cases hstate : turn.reply.state = n.reportedState
  · rw [if_pos hstate] at hadds ⊢
    exact ⟨_, [], hshows.number, hadds, rfl, List.nil_sublist _, hshown⟩
  · rw [if_neg hstate] at hadds ⊢
    exact ⟨_, _, hshows.number, hadds, rfl, .refl _, hshown⟩

end Turn

namespace Own

/-- Calls in which no node is ticked come after it. -/
theorem idles (h : Own r n k changes k' changes' calls new) (hidles : Idles r k' k'') :
    ∃ calls', Own r n k changes k'' changes' calls' new := by
  obtain ⟨idle, hadds, hticks⟩ := hidles changes'
  refine ⟨idle ++ calls, h.number, h.adds.trans hadds (Nat.le_refl _), ?_, h.downward, ?_⟩
  · rw [ticks_append, hticks, h.ticked, List.nil_append]
  · rw [seen_append, seen_of_ticks hticks]
    exact h.shown

theorem alone (h : Own r n k changes k' changes' calls new) (hfailure : n.failure = none)
    (hnoticed : Noticed k' [n]) : Recorded r k changes { root := n } k' changes' calls new := by
  obtain ⟨rfl, hadds, hticked, hdownward, hshown⟩ := h
  refine ⟨rfl, hnoticed, hadds, by simp [hticked], hdownward, ?_, fun hne => absurd hfailure hne⟩
  exact fun c hc => ⟨n, List.mem_cons_self, hshown c hc⟩

/-- The root's own part and the tick of the node that it holds, which is held further unless it has
failed. -/
theorem onward {rest : List (Node (Witness τ))} {sub : Spine (Witness τ)} {control : Control}
    (h : Own r n k changes k' changes' calls new) (hnoticed : Noticed k' (n :: m :: rest))
    (hsub : Recorded m.task.number k' changes' sub k'' changes'' calls' new')
    (hfailure : n.failure = none) (hcontrol : control.state = n.control.state)
    (hnodes : nodes = sub.nodes ∨ sub.root.failure ≠ none ∧ nodes = []) :
    Recorded r k changes { root := { n with control }, below := nodes } k'' changes''
      (calls' ++ calls) (new' ++ new) := by
  obtain ⟨rfl, hown, hticked, hownDownward, hownShown⟩ := h
  have hlt : n.task.number < m.task.number :=
    (List.pairwise_cons.mp hnoticed.ordered).1 _ List.mem_cons_self
  have hkept : (numbers nodes).Sublist (numbers sub.nodes) ∧
      (new'.map Prod.fst).reverse.Sublist (numbers nodes) ∧
        ∀ c ∈ seen calls', ∃ a ∈ nodes, Shows a c := by
    rcases hnodes with rfl | ⟨hne, rfl⟩
    · exact ⟨.refl _, hsub.downward, hsub.shown⟩
    · have hfailed := hsub.failed hne
      have hnone : new' = [] := by
        rw [hsub.adds.new_eq hsub.once, hfailed]
        rfl
      refine ⟨List.nil_sublist _, by rw [hnone]; exact .refl _, ?_⟩
      rw [hfailed]
      nofun
  obtain ⟨hsublist, hdownward, hshown⟩ := hkept
  have hbeyond : ∀ i ∈ numbers nodes, n.task.number < i := by
    intro i hi
    have hle := (hsub.noticed.onward i (hsublist.subset hi)).1
    rw [hsub.number] at hle
    exact Nat.lt_of_lt_of_le hlt hle
  refine ⟨rfl, ⟨hsub.noticed.entered, ?_, ?_, ?_⟩, hown.trans hsub.adds (Nat.le_of_lt hlt), ?_, ?_,
    ?_, fun hne => absurd hfailure hne⟩
  · intro i hi
    rcases List.mem_cons.mp hi with rfl | hi
    · exact Nat.lt_of_lt_of_le (hnoticed.drawn _ List.mem_cons_self) hsub.adds.next_le
    · exact hsub.noticed.drawn i (hsublist.subset hi)
  · exact List.pairwise_cons.mpr ⟨hbeyond, hsub.noticed.ordered.sublist hsublist⟩
  · intro a ha
    rcases List.mem_cons.mp ha with rfl | ha
    · -- the reports below are on other nodes
      have hothers : ∀ p ∈ new', p.1 ≠ n.task.number := by
        intro p hp
        refine Nat.ne_of_gt (hbeyond p.1 (hdownward.subset ?_))
        exact List.mem_reverse.mpr (List.mem_map_of_mem hp)
      rw [hsub.adds.due, lastState_append hothers]
      exact hnoticed.reported n List.mem_cons_self
    · rcases hnodes with rfl | ⟨-, rfl⟩
      · exact hsub.noticed.reported a ha
      · cases ha
  · rw [ticks_append, hticked, List.nodup_append]
    refine ⟨hsub.once, by simp, ?_⟩
    intro i hi j hj heq
    obtain ⟨e, he, hei⟩ := exists_of_mem_ticks hi
    have hle := (hsub.adds.onward e he).1
    rw [hei, heq, List.mem_singleton.mp hj] at hle
    exact Nat.not_le_of_lt hlt hle
  · rw [List.map_append, List.reverse_append]
    exact hownDownward.append hdownward
  · intro c hc
    rcases List.mem_append.mp (seen_append calls' calls ▸ hc) with hc | hc
    · obtain ⟨a, ha, hshows⟩ := hshown c hc
      exact ⟨a, List.mem_cons_of_mem _ ha, hshows⟩
    · have hshows := hownShown c hc
      exact ⟨_, List.mem_cons_self, hshows.number, hshows.label, hcontrol.trans hshows.state,
        hshows.reported⟩

theorem rejoin {rest : List (Node (Witness τ))} {sub : Spine (Witness τ)}
    (h : Own r n k changes k' changes' calls new) (hnoticed : Noticed k' (n :: m :: rest))
    (hsub : Recorded m.task.number k' changes' sub k'' changes'' calls' new')
    (hfailure : n.failure = none) :
    (Spine.rejoin n sub).Ensures k'' fun s' k₃ _ =>
      Recorded r k changes s' k₃ changes'' (calls' ++ calls) (new' ++ new) := by
  rw [Spine.rejoin]
  split
  · exact Act.meets_pure (h.onward hnoticed hsub hfailure rfl (Or.inl rfl))
  · next f hreport =>
    have hfailed : sub.root.failure ≠ none := by
      intro hnone
      rw [Node.failureReport, hnone] at hreport
      cases hreport
    apply (dropAll_meets sub.nodes k'').bind
    intro _ k₃ _ hk
    rw [hk.1]
    exact Act.meets_pure (h.onward hnoticed hsub hfailure rfl (Or.inr ⟨hfailed, rfl⟩))

end Own

/-- By induction on the levels of delegation: the root first, then what it holds. -/
theorem tickWithin_recorded (depth : Nat) (hs : s.Kempt) (h : Noticed k s.nodes) (trace : Trace) :
    (tickWithin depth s trace).Ensures k fun p k' _ => ∃ calls new,
      Recorded s.root.task.number k trace.latestChanges p.1 k' p.2.latestChanges calls new := by
  induction depth generalizing s trace k with
  | zero => exact Act.meets_abort trivial
  | succ depth ih =>
      rw [tickWithin]
      apply ((hs.ready_ensures k).and (ready_idles hs h)).bind
      intro s₁ k₁ t₁ h₁
      obtain ⟨⟨hs₁, hcase⟩, hnumber, hnoticed, hidles⟩ := h₁
      rw [← hnumber] at hidles ⊢
      split
      · exact Act.meets_pure (Recorded.of_idles hnoticed hidles trace.latestChanges)
      · next hstopped =>
        obtain ⟨hn₁, -⟩ := hcase.resolve_right fun h => hstopped h.1
        apply (Act.Meets.called (onTick_enters s₁.root.task k₁ s₁.root.control)).bind
        intro turn k₂ t₂ hturn
        obtain ⟨hturned, hledger, hnext, hdraws⟩ := hturn
        have hn := turned_started hn₁ turn
        dsimp only
        split
        · next reason hreason =>
          apply (Recorded.failing hs₁ hn₁ hnoticed hturned hledger hnext hreason).bind
          intro s₂ k₃ t₃ h₃
          exact Act.meets_pure (Recorded.after (h₃ trace.latestChanges) hidles)
        · next hreason =>
          have hunheard := hnoticed.unheard hledger rfl hdraws
          apply (reportState_own hnoticed hturned hledger hnext hreason _).bind
          intro p k₃ t₃ h₃
          obtain ⟨hp, rfl, hnoticed₂, calls, new, hown⟩ := h₃
          have hstarted : p.1.Started := hp ▸ started_reporting hn _
          apply ((settle_ensures (hs₁.restarted hstarted) turn.candidate k₃).and
            (settle_settled p.1 hs₁.held turn.candidate k₃)).bind
          intro ms k₄ t₄ h₄
          obtain ⟨⟨-, hms⟩, refused, hsettled⟩ := h₄
          rw [← hown.number] at hunheard
          obtain ⟨hnoticed₄, hidles₄⟩ := hsettled.noticed hs₁.held hnoticed₂ hunheard
          obtain ⟨calls, hown⟩ := hown.idles (hown.number ▸ hidles₄)
          cases ms with
          | nil =>
              have hrecorded := hown.alone hstarted.unfailed hnoticed₄
              exact Act.meets_pure (Recorded.after ⟨_, _, hrecorded⟩ hidles)
          | cons m rest =>
              apply (ih (hms m rest rfl).kempt hnoticed₄.tail _).bind
              intro sub k₅ t₅ h₅
              obtain ⟨calls', new', hsub⟩ := h₅
              apply (hown.rejoin hnoticed₄ hsub hstarted.unfailed).bind
              intro s' k₆ t₆ hrecorded
              exact Act.meets_pure (Recorded.after ⟨_, _, hrecorded⟩ hidles)

end Spine

end Arbiter
