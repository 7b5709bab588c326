import Arbiter.World.Item

/-!
Behaviour frames. A task opens a frame while it runs; the items that the frame protects are
protected until it is closed.
-/

namespace Arbiter

structure Frame where
  label : String
  protectedItems : List Item := []
  deriving DecidableEq, Repr

abbrev Frames := List Frame

namespace Frames

def opened (fs : Frames) (label : String) : Frames := { label } :: fs

/-- Protects items in the latest frame, if one is open. -/
def protect? (fs : Frames) (items : List Item) : Option Frames :=
  match fs with
  | [] => none
  | f :: rest => some ({ f with protectedItems := f.protectedItems ++ items } :: rest)

def protects (fs : Frames) (i : Item) : Bool := fs.any fun f => f.protectedItems.contains i

/-- A new frame protects nothing. -/
theorem protects_opened (fs : Frames) (label : String) (i : Item) :
    (fs.opened label).protects i = fs.protects i := rfl

theorem protects_of_protect? {fs gs : Frames} {items : List Item}
    (h : fs.protect? items = some gs) (i : Item) :
    gs.protects i = (items.contains i || fs.protects i) := by
  cases fs with
  | nil => cases h
  | cons f rest =>
    cases h
    simp [protects, Bool.or_comm, Bool.or_assoc]

end Frames

end Arbiter
