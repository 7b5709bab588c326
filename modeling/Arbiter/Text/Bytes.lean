/-! Texts in bytes, as UTF-8 writes them. -/

namespace Arbiter.Text

def bytes (s : String) : List UInt8 := s.toUTF8.data.toList

def ofBytes? (b : List UInt8) : Option String := String.fromUTF8? ⟨b.toArray⟩

theorem ofBytes?_bytes (s : String) : ofBytes? (bytes s) = some s := by
  simp only [ofBytes?, bytes, Array.toArray_toList, String.fromUTF8?,
    String.toUTF8_eq_toByteArray, dif_pos s.isValidUTF8]
  rfl

/-- The pieces of a row of bytes between the marks in it. -/
def pieces (mark : UInt8) : List UInt8 → List (List UInt8)
  | [] => [[]]
  | c :: rest =>
    if c = mark then [] :: pieces mark rest
    else
      match pieces mark rest with
      | [] => [[c]]
      | p :: ps => (c :: p) :: ps

theorem pieces_ne_nil (mark : UInt8) (b : List UInt8) : pieces mark b ≠ [] := by
  cases b with
  | nil => simp [pieces]
  | cons c rest =>
    rw [pieces]
    split
    · simp
    · split <;> simp

/-- The pieces with the marks between them are the whole. -/
theorem intercalate_pieces (mark : UInt8) (b : List UInt8) :
    [mark].intercalate (pieces mark b) = b := by
  induction b with
  | nil => rfl
  | cons c rest ih =>
    rw [pieces]
    cases hp : pieces mark rest with
    | nil => exact absurd hp (pieces_ne_nil mark rest)
    | cons p ps =>
      rw [hp] at ih
      split
      · rename_i hc
        rw [hc, ← ih]
        rfl
      · rw [← ih]
        cases ps <;> rfl

end Arbiter.Text
