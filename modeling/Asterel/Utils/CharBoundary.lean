import Asterel.Transport.Chunker

/-!
# Character boundaries

Places in a text are given in bytes of its UTF-8 encoding, and a text is only cut
between two characters. Here such a place is the number of characters before it.
-/

namespace Asterel.CharBoundary

open Chunker (byteLength)

/-- `floor_char_boundary`: how many characters end at or before a byte. -/
def floorCharBoundary : List Char → Nat → Nat
  | [], _ => 0
  | char :: rest, index =>
    if char.utf8Size ≤ index then floorCharBoundary rest (index - char.utf8Size) + 1 else 0

@[simp] theorem byteLength_append (front back : List Char) :
    byteLength (front ++ back) = byteLength front + byteLength back := by
  induction front with
  | nil => exact (Nat.zero_add _).symm
  | cons char rest ih =>
    rw [List.cons_append, byteLength, byteLength, ih, Nat.add_assoc]

/-- A text of ASCII characters has as many bytes as characters. -/
theorem byteLength_ascii {text : List Char} (ascii : ∀ char ∈ text, char.utf8Size = 1) :
    byteLength text = text.length := by
  induction text with
  | nil => rfl
  | cons char rest ih =>
    rw [byteLength, ascii char List.mem_cons_self,
      ih fun other member => ascii other (List.mem_cons_of_mem _ member),
      List.length_cons, Nat.add_comm]

/-- A boundary does not lie behind a place that the byte does not lie behind. -/
theorem floorCharBoundary_le {front back : List Char} {index : Nat}
    (before : index ≤ byteLength front) : floorCharBoundary (front ++ back) index ≤ front.length := by
  induction front generalizing index with
  | nil =>
    have start : index = 0 := Nat.le_zero.mp before
    cases back with
    | nil => exact Nat.le_refl _
    | cons char rest =>
      have positive := char.utf8Size_pos
      rw [List.nil_append, floorCharBoundary, if_neg (by omega)]
      exact Nat.zero_le _
  | cons char rest ih =>
    rw [byteLength] at before
    rw [List.cons_append, floorCharBoundary]
    split
    · have shorter := @ih (index - char.utf8Size) (by omega)
      rw [List.length_cons]
      omega
    · exact Nat.zero_le _

/-- What stands before the boundary ends at or before the byte. -/
theorem byteLength_floorCharBoundary (text : List Char) (index : Nat) :
    byteLength (text.take (floorCharBoundary text index)) ≤ index := by
  induction text generalizing index with
  | nil => exact Nat.zero_le _
  | cons char rest ih =>
    rw [floorCharBoundary]
    split
    · have shorter := ih (index - char.utf8Size)
      rw [List.take_succ_cons, byteLength]
      omega
    · exact Nat.zero_le _

end Asterel.CharBoundary
