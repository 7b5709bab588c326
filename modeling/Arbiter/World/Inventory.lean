import Arbiter.Fault
import Arbiter.World.Item

/-! How many units of each item are carried. -/

namespace Arbiter

structure Inventory where
  bread : Nat := 0
  apple : Nat := 0
  cookedBeef : Nat := 0
  cobblestone : Nat := 0
  torch : Nat := 0
  deriving DecidableEq, Repr

namespace Inventory

def count (v : Inventory) : Item → Nat
  | .bread => v.bread
  | .apple => v.apple
  | .cookedBeef => v.cookedBeef
  | .cobblestone => v.cobblestone
  | .torch => v.torch

def setCount (v : Inventory) (n : Nat) : Item → Inventory
  | .bread => { v with bread := n }
  | .apple => { v with apple := n }
  | .cookedBeef => { v with cookedBeef := n }
  | .cobblestone => { v with cobblestone := n }
  | .torch => { v with torch := n }

def add (v : Inventory) (i : Item) (n : Nat) : Except Fault Inventory := do
  let total ← count32 (v.count i + n)
  pure (v.setCount total i)

def take? (v : Inventory) (i : Item) : Option Inventory :=
  if 0 < v.count i then some (v.setCount (v.count i - 1) i) else none

/-- The units of food, summed item by item. -/
def foodCount (v : Inventory) : Except Fault Nat :=
  Item.foods.foldlM (fun sum i => count32 (sum + v.count i)) 0

/-- The most nourishing food that is carried. -/
def bestFood? (v : Inventory) : Option Item := Item.foods.find? fun i => 0 < v.count i

def toList (v : Inventory) : List (Item × Nat) :=
  (Item.all.map fun i => (i, v.count i)).filter fun e => 0 < e.2

@[simp] theorem count_setCount (v : Inventory) (n : Nat) (i j : Item) :
    (v.setCount n i).count j = if j = i then n else v.count j := by
  cases i <;> cases j <;> rfl

theorem take?_eq_some_iff {v w : Inventory} {i : Item} :
    v.take? i = some w ↔ 0 < v.count i ∧ v.setCount (v.count i - 1) i = w := by
  unfold take?
  split <;> simp [*]

end Inventory

end Arbiter
