/-! What an agent can carry. -/

namespace Arbiter

inductive Item where
  | bread
  | apple
  | cookedBeef
  | cobblestone
  | torch
  deriving DecidableEq, Repr

namespace Item

def all : List Item := [bread, apple, cookedBeef, cobblestone, torch]

def name : Item → String
  | bread => "bread"
  | apple => "apple"
  | cookedBeef => "cooked_beef"
  | cobblestone => "cobblestone"
  | torch => "torch"

def shown : Item → String
  | bread => "Bread"
  | apple => "Apple"
  | cookedBeef => "CookedBeef"
  | cobblestone => "Cobblestone"
  | torch => "Torch"

def rank : Item → Nat
  | bread => 0
  | apple => 1
  | cookedBeef => 2
  | cobblestone => 3
  | torch => 4

/-- The hunger that one unit takes away. -/
def nourishment : Item → Nat
  | cookedBeef => 8
  | bread => 5
  | apple => 4
  | cobblestone | torch => 0

def isFood (i : Item) : Bool := 0 < i.nourishment

/-- The food items, the most nourishing first. -/
def foods : List Item := [cookedBeef, bread, apple]

inductive ParseError where
  | unknownName
  deriving DecidableEq, Repr

def ParseError.message : ParseError → String
  | unknownName => "Matching variant not found"

/-- Reads an item's name; the case of its letters does not matter. -/
def parse (s : String) : Except ParseError Item :=
  match all.find? fun i => i.name.toList == s.toList.map Char.toLower with
  | some i => .ok i
  | none => .error .unknownName

end Item

end Arbiter
