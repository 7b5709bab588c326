import Mathlib.Data.List.Basic
import Arbiter.Status.Report

/-! When the text of a report tells all that the report says. Labels are joined without escapes and
lose the blanks at their ends, so a label can be read back if it opens with its only mark and ends
in a way that shows whether a blank is missing. -/

namespace Arbiter

/-! ## Texts -/

namespace Text

theorem toList_trimEnd {s : String} {cs blanks : List Char} {c : Char}
    (h : s.toList = cs ++ c :: blanks) (hc : isBlank c = false)
    (hblanks : ∀ b ∈ blanks, isBlank b = true) : (trimEnd s).toList = cs ++ [c] := by
  have hdrop : ∀ b ∈ blanks.reverse, isBlank b = true := by simpa using hblanks
  simp [trimEnd, h, List.dropWhile_append_of_pos hdrop, hc]

/-- A character parts a text at the first place where it stands. -/
theorem parted_at {c : Char} {a b x y : List Char} (ha : c ∉ a) (hb : c ∉ b)
    (h : a ++ c :: x = b ++ c :: y) : a = b ∧ x = y := by
  induction a generalizing b with
  | nil =>
      cases b with
      | nil => exact ⟨rfl, (List.cons.inj h).2⟩
      | cons d b => exact absurd (List.cons.inj h).1 (List.ne_of_not_mem_cons hb)
  | cons d a ih =>
      cases b with
      | nil => exact absurd (List.cons.inj h).1.symm (List.ne_of_not_mem_cons ha)
      | cons e b =>
          obtain ⟨rfl, htail⟩ := List.cons.inj h
          obtain ⟨rfl, rfl⟩ := ih (List.not_mem_of_not_mem_cons ha)
            (List.not_mem_of_not_mem_cons hb) htail
          exact ⟨rfl, rfl⟩

end Text

/-! ## Labels -/

namespace Label

def mark : Char := '<'

/-- No label begins inside the text. -/
def Unmarked (s : String) : Prop := mark ∉ s.toList

instance (s : String) : Decidable (Unmarked s) := inferInstanceAs (Decidable (mark ∉ s.toList))

@[simp]
theorem unmarked_append {s t : String} : Unmarked (s ++ t) ↔ Unmarked s ∧ Unmarked t := by
  simp [Unmarked]

/-- A character that trimming does not take away and that does not end the name of a task. -/
def IsEnd (c : Char) : Prop := Text.isBlank c = false ∧ c ≠ '>'

/-- A state text that a label can show: it holds no mark, and its end, if it has one, cannot be
taken for that of the name before it. -/
structure Plain (state : String) : Prop where
  unmarked : Unmarked state
  ending : ∀ c ∈ state.toList.getLast?, IsEnd c

theorem plain_empty : Plain "" := ⟨by decide, by simp⟩

def ofTask (name state : String) : String := "<" ++ name ++ "> " ++ state

theorem toList_ofTask (name state : String) :
    (ofTask name state).toList = mark :: (name.toList ++ '>' :: ' ' :: state.toList) := by
  simp [ofTask, mark]

/-- A label that can be read back from a line. -/
inductive Legible : String → Prop
  | ofTask {name state : String} (hname : Unmarked name) (hstate : Plain state) :
      Legible (ofTask name state)

/-- What stands behind the mark of a trimmed label, with the blank that it lost. Only a name without
a state behind it loses one. -/
def restored (body : List Char) : List Char :=
  if body.getLast? = some '>' then body ++ [' '] else body

/-- A legible label stays whole when it is trimmed, up to a blank that can be restored. -/
theorem Legible.trimmed {label : String} (h : Legible label) :
    ∃ body, (Text.trimEnd label).toList = mark :: body ∧ mark ∉ body ∧
      label.toList = mark :: restored body := by
  obtain @⟨name, state, hname, hunmarked, hending⟩ := h
  have hname : mark ∉ name.toList := hname
  have hunmarked : mark ∉ state.toList := hunmarked
  have hlabel := toList_ofTask name state
  rcases List.eq_nil_or_concat' state.toList with hnil | ⟨cs, c, hcs⟩
  · rw [hnil] at hlabel
    refine ⟨name.toList ++ ['>'], ?_, ?_, ?_⟩
    · have hblank : ∀ b ∈ [' '], Text.isBlank b = true := by simp [Text.isBlank]
      exact Text.toList_trimEnd (hlabel.trans List.cons_append.symm) rfl hblank
    · simpa [mark] using hname
    · simp [restored, hlabel]
  · obtain ⟨hblank, hclose⟩ := hending c (by simp [hcs])
    have hlast : (name.toList ++ '>' :: ' ' :: (cs ++ [c])).getLast? = some c := by
      rw [show name.toList ++ '>' :: ' ' :: (cs ++ [c]) = (name.toList ++ '>' :: ' ' :: cs) ++ [c]
        by simp, List.getLast?_concat]
    rw [hcs] at hlabel hunmarked
    refine ⟨name.toList ++ '>' :: ' ' :: (cs ++ [c]), ?_, ?_, ?_⟩
    · have hend : (Label.ofTask name state).toList =
          (mark :: (name.toList ++ '>' :: ' ' :: cs)) ++ [c] := hlabel.trans (by simp)
      simpa using Text.toList_trimEnd hend hblank (by simp)
    · simpa [mark] using And.intro hname hunmarked
    · rw [restored, hlast, if_neg (by simpa using hclose), hlabel]

end Label

/-! ## Lines -/

namespace Report

open Label

def arrows (spine : List String) : String :=
  String.join (spine.map fun l => " -> " ++ Text.trimEnd l)

theorem toList_arrows_cons (l : String) (spine : List String) :
    (arrows (l :: spine)).toList =
      " -> ".toList ++ (Text.trimEnd l).toList ++ (arrows spine).toList := by
  simp [arrows]

theorem mark_mem_arrows {l : String} (hl : Label.Legible l) (rest : List String) :
    mark ∈ (arrows (l :: rest)).toList := by
  obtain ⟨body, hbody, -⟩ := hl.trimmed
  simp [toList_arrows_cons, hbody]

/-- Labels behind different beginnings can be told apart: the first mark ends the beginning, and
what follows it is the beginning of the rest. -/
theorem arrows_inj {spine spine' : List String} (hs : ∀ l ∈ spine, Label.Legible l)
    (hs' : ∀ l ∈ spine', Label.Legible l) {a b : List Char} (ha : mark ∉ a) (hb : mark ∉ b)
    (h : a ++ (arrows spine).toList = b ++ (arrows spine').toList) : a = b ∧ spine = spine' := by
  induction spine generalizing spine' a b with
  | nil =>
      have h : a = b ++ (arrows spine').toList := by simpa [arrows] using h
      cases spine' with
      | nil => exact ⟨by simpa [arrows] using h, rfl⟩
      | cons m rest' =>
          have hm := List.mem_append_right b (mark_mem_arrows (hs' m List.mem_cons_self) rest')
          exact absurd (h ▸ hm) ha
  | cons l rest ih =>
      cases spine' with
      | nil =>
          have h : b = a ++ (arrows (l :: rest)).toList := by simpa [arrows] using h.symm
          have hl := List.mem_append_right a (mark_mem_arrows (hs l List.mem_cons_self) rest)
          exact absurd (h ▸ hl) hb
      | cons m rest' =>
          obtain ⟨body, htrim, hbody, hl⟩ := (hs l List.mem_cons_self).trimmed
          obtain ⟨body', htrim', hbody', hm⟩ := (hs' m List.mem_cons_self).trimmed
          rw [toList_arrows_cons, toList_arrows_cons, htrim, htrim'] at h
          have harrow : mark ∉ " -> ".toList := by decide
          obtain ⟨hhead, htail⟩ := Text.parted_at (a := a ++ " -> ".toList)
            (b := b ++ " -> ".toList) (by simpa using And.intro ha harrow)
            (by simpa using And.intro hb harrow) (by simpa using h)
          obtain ⟨rfl, rfl⟩ := ih (fun x hx => hs x (List.mem_cons_of_mem l hx))
            (fun x hx => hs' x (List.mem_cons_of_mem m hx)) hbody hbody' htail
          refine ⟨List.append_cancel_right hhead, ?_⟩
          rw [String.toList_inj.mp (hl.trans hm.symm)]

/-! ## Reports -/

def idleText : String := "(idle)"

def disabledText : String := "(disabled)"

structure Heading (name : String) : Prop where
  unmarked : Unmarked name
  ne_empty : name ≠ ""
  ne_idle : name ≠ idleText
  ne_disabled : name ≠ disabledText

instance (name : String) : Decidable (Heading name) :=
  decidable_of_iff (Unmarked name ∧ name ≠ "" ∧ name ≠ idleText ∧ name ≠ disabledText)
    ⟨fun h => ⟨h.1, h.2.1, h.2.2.1, h.2.2.2⟩,
      fun h => ⟨h.unmarked, h.ne_empty, h.ne_idle, h.ne_disabled⟩⟩

/-- A report that can be read back from its text: without a chain there is nothing to tell of a
spine, and when no ticks run there is no chain. -/
structure Legible (r : Report) : Prop where
  chain : ∀ name ∈ r.chain, Heading name
  spine : ∀ l ∈ r.spine, Label.Legible l
  idle : r.chain = none → r.spine = []
  disabled : r.enabled = false → r.chain = none

def head (r : Report) : String := if r.enabled then r.chain.getD idleText else disabledText

inductive Headed (r : Report) : Prop
  | disabled (hhead : r.head = disabledText) (he : r.enabled = false) (hc : r.chain = none)
  | idle (hhead : r.head = idleText) (he : r.enabled = true) (hc : r.chain = none)
  | chain (hname : Heading r.head) (he : r.enabled = true) (hc : r.chain = some r.head)

variable {r s : Report}

theorem Legible.headed (hr : r.Legible) : r.Headed := by
  cases he : r.enabled with
  | false => exact .disabled (by simp [head, he]) he (hr.disabled he)
  | true =>
      cases hc : r.chain with
      | none => exact .idle (by simp [head, he, hc]) he hc
      | some name =>
          have hhead : r.head = name := by simp [head, he, hc]
          exact .chain (hhead ▸ hr.chain name hc) he (by rw [hhead, hc])

theorem Legible.text_eq (hr : r.Legible) : r.text = r.head ++ arrows r.spine := by
  unfold text head
  split
  · cases hc : r.chain with
    | none => rw [hr.idle hc]; rfl
    | some name => rfl
  · next he => rw [hr.idle (hr.disabled (by simpa using he))]; rfl

theorem Headed.unmarked (hr : r.Headed) : Unmarked r.head := by
  cases hr with
  | disabled hhead => rw [hhead]; decide
  | idle hhead => rw [hhead]; decide
  | chain hname => exact hname.unmarked

theorem Headed.ne_empty (hr : r.Headed) : r.head ≠ "" := by
  cases hr with
  | disabled hhead => rw [hhead]; decide
  | idle hhead => rw [hhead]; decide
  | chain hname => exact hname.ne_empty

theorem Headed.inj (hr : r.Headed) (hs : s.Headed) (h : r.head = s.head) :
    r.chain = s.chain ∧ r.enabled = s.enabled := by
  have hne : idleText ≠ disabledText := by decide
  cases hr with
  | disabled hhead he hc =>
      cases hs with
      | disabled _ he' hc' => exact ⟨hc.trans hc'.symm, he.trans he'.symm⟩
      | idle hhead' => exact absurd (hhead'.symm.trans (h.symm.trans hhead)) hne
      | chain hname => exact absurd (h.symm.trans hhead) hname.ne_disabled
  | idle hhead he hc =>
      cases hs with
      | disabled hhead' => exact absurd (hhead.symm.trans (h.trans hhead')) hne
      | idle _ he' hc' => exact ⟨hc.trans hc'.symm, he.trans he'.symm⟩
      | chain hname => exact absurd (h.symm.trans hhead) hname.ne_idle
  | chain hname he hc =>
      cases hs with
      | disabled hhead' => exact absurd (h.trans hhead') hname.ne_disabled
      | idle hhead' => exact absurd (h.trans hhead') hname.ne_idle
      | chain _ he' hc' => exact ⟨by rw [hc, hc', h], he.trans he'.symm⟩

/-- Reports that can be read back differ in their texts. -/
theorem Legible.text_inj (hr : r.Legible) (hs : s.Legible) (h : r.text = s.text) : r = s := by
  rw [hr.text_eq, hs.text_eq] at h
  have h : r.head.toList ++ (arrows r.spine).toList = s.head.toList ++ (arrows s.spine).toList := by
    simpa using congrArg String.toList h
  obtain ⟨hhead, hspine⟩ := arrows_inj hr.spine hs.spine hr.headed.unmarked hs.headed.unmarked h
  obtain ⟨hchain, henabled⟩ := hr.headed.inj hs.headed (String.toList_inj.mp hhead)
  cases r
  cases s
  simp_all

theorem Legible.text_ne_empty (hr : r.Legible) : r.text ≠ "" := by
  rw [hr.text_eq, ne_eq, String.append_eq_empty_iff]
  exact fun h => hr.headed.ne_empty h.1

def shownText (last : Option Report) : String := last.elim "" text

/-- The text tells whether a report is the one that was shown last. -/
theorem Legible.text_eq_shownText_iff (hr : r.Legible) {last : Option Report}
    (hlast : ∀ s ∈ last, s.Legible) : r.text = shownText last ↔ last = some r := by
  cases last with
  | none => simpa [shownText] using hr.text_ne_empty
  | some s =>
      constructor
      · intro h
        rw [hr.text_inj (hlast s rfl) h]
      · rintro ⟨⟩
        rfl

end Report

end Arbiter
