import Asterel.Security.Scrub

/-!
# PEM blocks under scrubbing

The blocks are removed last, from a text the other passes have rewritten. A block
is removed whole when none of those passes takes a dash of its two delimiters for
the end of a token and no earlier END line shares its dashes with the BEGIN line.
What is left of the text then comes from before the block and from behind its body.
-/

namespace Asterel.Scrub

variable {before body delimiter kind marker rest text : List Char}

open Library List

/-- A PEM block of the given kind. -/
def block (kind body : List Char) : List Char :=
  pemBegin ++ kind ++ pemLineSuffix ++ body ++ endMarker kind

/-- Whether a dash behind the text belongs to a marker or to the token behind one. -/
def takesDash (text : List Char) : Bool :=
  passes.any fun marker => (text ++ ['-']).tails.any fun tail =>
    marker.isPrefixOf tail && (tail.drop marker.length).all isSecretChar

/-- The delimiters of a block stay whole in all passes, and no END line which begins
before the block lacks its own dashes. -/
structure Sheltered (before kind body : List Char) : Prop where
  kindNonempty : kind ≠ []
  kindPlain : '-' ∉ kind
  bodyOpen : ¬ pemLineSuffix <:+: body
  beforeFree : takesDash before = false
  kindFree : takesDash kind = false
  bodyFree : takesDash body = false
  endsClosed : ∀ lead rest, before = lead ++ (pemEndMarker ++ rest) →
    ∃ front back, rest = front ++ (pemLineSuffix ++ back) ∧ takesDash front = false

theorem scrub_cons (nonempty : marker ≠ []) {char : Char} (later : ¬ marker <+: char :: rest) :
    scrubAfterMarker marker (char :: rest) = char :: scrubAfterMarker marker rest := by
  have step := find_cons later
  cases found : find marker rest with
  | none =>
    rw [found] at step
    rw [scrub_none step, scrub_none found]
  | some parts =>
    obtain ⟨before, content⟩ := parts
    rw [found] at step
    rw [scrub_some nonempty step, scrub_some nonempty found]
    split
    · rfl
    · rfl

theorem scrub_begins (nonempty : marker ≠ []) (content : List Char) :
    scrubAfterMarker marker (marker ++ content) =
      if content.takeWhile isSecretChar = [] then marker ++ scrubAfterMarker marker content
      else redacted ++ scrubAfterMarker marker (content.dropWhile isSecretChar) := by
  have found := find_of_isPrefix (prefix_append marker content)
  rw [drop_left] at found
  rw [scrub_some nonempty found]
  simp

theorem scrub_nil (marker : List Char) : scrubAfterMarker marker [] = [] := by
  by_cases empty : marker = []
  · rw [scrubAfterMarker, dif_pos empty]
  · exact scrub_none (by simp [find, empty])

theorem takeWhile_append_of_not_all (other : List Char) (mixed : text.all isSecretChar = false) :
    (text ++ other).takeWhile isSecretChar = text.takeWhile isSecretChar ∧
      (text ++ other).dropWhile isSecretChar = text.dropWhile isSecretChar ++ other := by
  induction text with
  | nil => cases mixed
  | cons char rest ih =>
    cases secret : isSecretChar char with
    | false => simp [secret]
    | true =>
      have restMixed : rest.all isSecretChar = false := by simpa [secret] using mixed
      obtain ⟨taken, dropped⟩ := ih restMixed
      simp [secret, taken, dropped]

theorem scrub_ne_nil (nonempty : text ≠ []) :
    scrubAfterMarker marker text ≠ [] := by
  have rewrites := scrub_rewrites marker text
  intro empty
  rw [empty] at rewrites
  generalize out : ([] : List Char) = result at rewrites
  cases rewrites with
  | same => exact nonempty out.symm
  | @replace before old new rest tail allowed later =>
    rw [allowed.1] at out
    have empties := List.append_eq_nil_iff.mp (List.append_eq_nil_iff.mp out.symm).1
    exact absurd empties.2 (by decide)

end Asterel.Scrub
