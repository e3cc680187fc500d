import Mathlib.Data.Option.Basic

/-!
# Calls that can fail

A sequence of two calls succeeds when the first one does and the second one does on its
value.
-/

namespace Library

theorem bind_eq_ok {ε α β : Type} {first : Except ε α} {next : α → Except ε β} {result : β} :
    (first >>= next) = .ok result ↔ ∃ value, first = .ok value ∧ next value = .ok result := by
  cases first with
  | error error =>
    constructor
    · intro impossible
      cases impossible
    · rintro ⟨value, impossible, -⟩
      cases impossible
  | ok value =>
    constructor
    · exact fun found => ⟨value, rfl, found⟩
    · rintro ⟨other, same, found⟩
      cases same
      exact found

end Library
