import Arbiter.Act
import Arbiter.Journal
import Arbiter.Grid.Area
import Arbiter.World.Frames
import Arbiter.World.Inventory

/-!
The world of one agent: where it stands, how it fares, what it carries, what surrounds it, and
the deeds that its tasks did.
-/

namespace Arbiter

structure Mob where
  id : Nat
  position : Position
  health : Nat
  deriving DecidableEq, Repr

/-- What a task did to the world. -/
inductive Deed where
  | move (source target : Position)
  /-- A move into a blocked tile. -/
  | bump (place : Position) (direction : Direction)
  | attack (mob : Nat)
  | eat (item : Item)
  deriving DecidableEq, Repr

def Deed.shown : Deed → String
  | move a b => Text.fields "Move" [("from", a.shown), ("to", b.shown)]
  | bump p d => Text.fields "Bump" [("at", p.shown), ("direction", d.name)]
  | attack m => Text.fields "Attack" [("mob", toString m)]
  | eat i => Text.wrapped "Eat" i.shown

/-! ### The log of deeds -/

namespace World

def deedCapacity : Nat := 256

/-- Adds a deed to those that are remembered. The oldest one makes room for it. -/
def remember (log : List Deed) (d : Deed) : List Deed :=
  (if log.length = deedCapacity then log.tail else log) ++ [d]

theorem length_remember_le {log : List Deed} (h : log.length ≤ deedCapacity) (d : Deed) :
    (remember log d).length ≤ deedCapacity := by
  unfold remember
  split
  · simp only [List.length_append, List.length_tail, List.length_singleton]
    unfold deedCapacity at *
    omega
  · simp only [List.length_append, List.length_singleton]
    omega

end World

/-- The deeds of a world: those that are remembered, and those that are not any more. -/
structure DeedLog where
  /-- The oldest one first. -/
  recent : List Deed
  /-- The latest one first. Nothing in the world depends on them. -/
  past : List Deed
  fits : recent.length ≤ World.deedCapacity
  /-- A deed is forgotten only to make room. -/
  full : past = [] ∨ recent.length = World.deedCapacity
  deriving DecidableEq, Repr

namespace DeedLog

def empty : DeedLog := ⟨[], [], by decide, by decide⟩

def push (l : DeedLog) (d : Deed) : DeedLog where
  recent := World.remember l.recent d
  past := if l.recent.length = World.deedCapacity then l.recent.take 1 ++ l.past else l.past
  fits := World.length_remember_le l.fits d
  full := by
    unfold World.remember
    by_cases h : l.recent.length = World.deedCapacity
    · right
      rw [if_pos h, List.length_append, List.length_tail, h]
      rfl
    · left
      rw [if_neg h]
      exact l.full.resolve_right h

/-- All deeds, the latest one first. -/
def history (l : DeedLog) : List Deed := l.recent.reverse ++ l.past

@[simp] theorem history_push (l : DeedLog) (d : Deed) : (l.push d).history = d :: l.history := by
  obtain ⟨recent, past, fits, full⟩ := l
  simp only [history, push, World.remember]
  split
  · cases recent with
    | nil => simp_all [World.deedCapacity]
    | cons first rest => simp
  · simp

/-- What is remembered are the latest deeds. -/
theorem recent_eq_take (l : DeedLog) : l.recent = (l.history.take World.deedCapacity).reverse := by
  rw [history]
  rcases l.full with h | h
  · rw [h, List.append_nil, List.take_of_length_le (by simpa using l.fits), List.reverse_reverse]
  · rw [List.take_append_of_le_length (by simp [h]), List.take_of_length_le (by simp [h]),
      List.reverse_reverse]

end DeedLog

/-! ### The world -/

structure Rules where
  /-- Ticks between two points of hunger; zero for none. -/
  hungerInterval : Nat := 40
  /-- Damage for each tick on a hazard. -/
  hazardDamage : Nat := 1
  /-- Damage of each attack. -/
  attackDamage : Nat := 4
  deriving DecidableEq, Repr

def maxHealth : Nat := 20

def maxHunger : Nat := 20

structure World where
  tick : Nat := 0
  position : Position := Position.origin
  health : Nat := maxHealth
  /-- Zero is full. -/
  hunger : Nat := 0
  inventory : Inventory := {}
  /-- The mobs, in the order in which they came. -/
  mobs : List Mob := []
  hazards : Area := {}
  blocked : Area := {}
  /-- Moves in a row that went nowhere. -/
  stuck : Nat := 0
  frames : Frames := []
  log : DeedLog := .empty
  /-- The number of all deeds. -/
  deedCount : Nat := 0
  rules : Rules := {}
  deriving DecidableEq, Repr

namespace World

def isBlocked (w : World) (p : Position) : Bool := w.blocked.contains p

def isHazard (w : World) (p : Position) : Bool := w.hazards.contains p

def onHazard (w : World) : Bool := w.isHazard w.position

def mob? (w : World) (id : Nat) : Option Mob := w.mobs.find? fun m => m.id == id

def deeds (w : World) : List Deed := w.log.recent

def history (w : World) : List Deed := w.log.history

/-- The deeds since the count was `before`, as far as they are remembered. -/
def deedsSince (w : World) (before : Nat) : List Deed :=
  w.deeds.drop (w.deeds.length - (w.deedCount - before))

end World

def World.note (severity : Severity) (message : String) (fields : List (String × String)) :
    Act World Record Unit :=
  Act.tell ⟨severity, message, fields⟩

end Arbiter
