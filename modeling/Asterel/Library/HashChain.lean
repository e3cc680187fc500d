import Mathlib.Data.List.Chain

/-!
# Chains of records linked by digests

Every record carries the digest of the record before it, and its own digest
covers that link. Two chains of one length that end in the same digest then
agree from the end backwards, as far as equal digests make the links equal. The
digest covers several texts written one after the other between delimiters;
these are recovered when none of them contains the delimiter.
-/

namespace Library.HashChain

open List

universe u v

section Links

variable {ε : Type u} {δ : Type v} (digest previous : ε → δ)

/-- Every record but the first carries the digest of its predecessor. -/
def Linked (records : List ε) : Prop :=
  records.IsChain fun earlier later => previous later = digest earlier

variable {digest previous} {records others : List ε}

theorem linked_concat {record : ε} :
    Linked digest previous (records ++ [record]) ↔ Linked digest previous records ∧
        ∀ last ∈ records.getLast?, previous record = digest last := by
  simp [Linked, isChain_append]

/-- Chains of one length with equal last digests have equal digests throughout,
when equal digests make the preceding digests equal. -/
theorem digests_agree (linked : Linked digest previous records)
    (otherLinked : Linked digest previous others) (length : records.length = others.length)
    (pinned : ∀ record ∈ records, ∀ other ∈ others, ∀ before ∈ records, ∀ otherBefore ∈ others,
      previous record = digest before → previous other = digest otherBefore →
        digest record = digest other → digest before = digest otherBefore)
    (ending : records.getLast?.map digest = others.getLast?.map digest) :
    Forall₂ (fun record other => digest record = digest other) records others := by
  induction records using reverseRecOn generalizing others with
  | nil =>
    have empty : others = [] := length_eq_zero_iff.mp length.symm
    rw [empty]
    exact Forall₂.nil
  | append_singleton rest record ih =>
    obtain empty | ⟨otherRest, other, rfl⟩ := eq_nil_or_concat' others
    · simp [empty] at length
    · simp only [getLast?_append, getLast?_singleton, Option.some_or, Option.map_some,
        Option.some.injEq] at ending
      simp only [length_append, length_singleton, Nat.add_right_cancel_iff] at length
      obtain ⟨restLinked, link⟩ := linked_concat.mp linked
      obtain ⟨otherRestLinked, otherLink⟩ := linked_concat.mp otherLinked
      have restEnding : rest.getLast?.map digest = otherRest.getLast?.map digest := by
        cases lastFound : rest.getLast? with
        | none =>
          have empty : otherRest = [] := by
            apply length_eq_zero_iff.mp
            rw [← length, getLast?_eq_none_iff.mp lastFound, length_nil]
          simp [empty]
        | some last =>
          cases otherFound : otherRest.getLast? with
          | none =>
            rw [getLast?_eq_none_iff.mp otherFound, length_nil, length_eq_zero_iff] at length
            simp [length] at lastFound
          | some otherLast =>
            have inRest := mem_of_getLast? lastFound
            have inOther := mem_of_getLast? otherFound
            have same := pinned record (by simp) other (by simp) last (by simp [inRest]) otherLast
              (by simp [inOther]) (link last lastFound) (otherLink otherLast otherFound) ending
            simp [same]
      have agreed := ih restLinked otherRestLinked length
        (fun r inR o inO b inB ob inOb =>
          pinned r (by simp [inR]) o (by simp [inO]) b (by simp [inB]) ob (by simp [inOb]))
        restEnding
      exact rel_append agreed (Forall₂.cons ending Forall₂.nil)

end Links

section Delimited

variable {α : Type u} {delimiter : α}
variable {after fields otherAfter : List (List α)} {field other : List α}

/-- The text before the first delimiter is determined. -/
theorem first_field_eq {rest otherRest : List α} (clear : delimiter ∉ field)
    (otherClear : delimiter ∉ other)
    (same : field ++ delimiter :: rest = other ++ delimiter :: otherRest) :
    field = other ∧ rest = otherRest := by
  induction field generalizing other with
  | nil =>
    cases other with
    | nil => exact ⟨rfl, (List.cons.inj same).2⟩
    | cons symbol others =>
      have first : delimiter = symbol := (List.cons.inj same).1
      exact absurd (first ▸ mem_cons_self) otherClear
  | cons symbol symbols ih =>
    cases other with
    | nil =>
      have first : symbol = delimiter := (List.cons.inj same).1
      exact absurd (first ▸ mem_cons_self) clear
    | cons otherSymbol otherSymbols =>
      obtain ⟨rfl, tails⟩ := List.cons.inj same
      obtain ⟨rfl, restSame⟩ := ih (not_mem_of_not_mem_cons clear)
        (not_mem_of_not_mem_cons otherClear) tails
      exact ⟨rfl, restSame⟩

/-- The text after the last delimiter is determined. -/
theorem last_field_eq {before otherBefore : List α} (clear : delimiter ∉ field)
    (otherClear : delimiter ∉ other)
    (same : before ++ delimiter :: field = otherBefore ++ delimiter :: other) :
    field = other ∧ before = otherBefore := by
  have reversed : field.reverse ++ delimiter :: before.reverse =
      other.reverse ++ delimiter :: otherBefore.reverse := by
    simpa using congrArg List.reverse same
  obtain ⟨fields, befores⟩ := first_field_eq (by simpa using clear) (by simpa using otherClear)
    reversed
  exact ⟨reverse_inj.mp fields, reverse_inj.mp befores⟩

variable [DecidableEq α]

variable (delimiter) in
/-- Between two fields there is one delimiter at least. -/
theorem length_le_count (fields : List (List α)) :
    fields.length ≤ ([delimiter].intercalate fields).count delimiter + 1 := by
  induction fields with
  | nil => simp
  | cons field rest ih =>
    cases rest with
    | nil => simp
    | cons next others =>
      rw [intercalate_cons_cons]
      simp only [length_cons, count_append, count_cons_self, count_nil] at ih ⊢
      omega

/-- With no more delimiters than between the fields, no field contains one. -/
theorem clear_of_count
    (few : ([delimiter].intercalate fields).count delimiter + 1 ≤ fields.length) :
    ∀ field ∈ fields, delimiter ∉ field := by
  induction fields with
  | nil => simp
  | cons field rest ih =>
    cases rest with
    | nil =>
      have none : field.count delimiter = 0 := by simpa using few
      simpa using count_eq_zero.mp none
    | cons next others =>
      have least := length_le_count delimiter (next :: others)
      rw [intercalate_cons_cons] at few
      simp only [length_cons, count_append, count_cons_self, count_nil] at few least ih
      have none : field.count delimiter = 0 := by omega
      rw [forall_mem_cons]
      exact ⟨count_eq_zero.mp none, ih (by omega)⟩

/-- Fields without the delimiter have exactly the delimiters between them. -/
theorem count_of_clear (some : fields ≠ []) (clear : ∀ field ∈ fields, delimiter ∉ field) :
    ([delimiter].intercalate fields).count delimiter + 1 = fields.length := by
  induction fields with
  | nil => exact absurd rfl some
  | cons field rest ih =>
    obtain ⟨fieldClear, restClear⟩ := forall_mem_cons.mp clear
    have none := count_eq_zero.mpr fieldClear
    cases rest with
    | nil => simp [none]
    | cons next others =>
      have counted := ih (by simp) restClear
      rw [intercalate_cons_cons]
      simp only [length_cons, count_append, count_cons_self, count_nil] at counted ⊢
      omega

/-- Equal texts of equally many fields have equal fields, when those of one of
them are free of the delimiter. -/
theorem fields_eq {others : List (List α)} (length : fields.length = others.length)
    (clear : ∀ field ∈ others, delimiter ∉ field)
    (same : [delimiter].intercalate fields = [delimiter].intercalate others) :
    fields = others := by
  by_cases empty : others = []
  · rw [empty, length_nil, length_eq_zero_iff] at length
    rw [length, empty]
  · have some : fields ≠ [] := by
      rintro rfl
      exact empty (length_eq_zero_iff.mp length.symm)
    have counted := count_of_clear empty clear
    have fieldsClear : ∀ field ∈ fields, delimiter ∉ field :=
      clear_of_count (by rw [same, counted, length])
    have split := splitOn_intercalate delimiter fieldsClear some
    rw [same, splitOn_intercalate delimiter clear empty] at split
    exact split.symm

omit [DecidableEq α] in
theorem intercalate_concat (first : List α) (fields : List (List α)) (last : List α) :
    [delimiter].intercalate (first :: (fields ++ [last])) =
      [delimiter].intercalate (first :: fields) ++ delimiter :: last := by
  induction fields generalizing first with
  | nil =>
    rw [nil_append, intercalate_cons_cons, intercalate_singleton,
      intercalate_singleton, append_assoc, singleton_append]
  | cons next rest ih =>
    rw [cons_append, intercalate_cons_cons, ih, intercalate_cons_cons]
    simp only [append_assoc]

omit [DecidableEq α] in
/-- A first field with delimiters is determined in front of fields without. -/
theorem fields_eq_behind
    (length : after.length = otherAfter.length) (clear : ∀ text ∈ after, delimiter ∉ text)
    (otherClear : ∀ text ∈ otherAfter, delimiter ∉ text)
    (same : [delimiter].intercalate (field :: after) =
      [delimiter].intercalate (other :: otherAfter)) :
    field :: after = other :: otherAfter := by
  induction after using reverseRecOn generalizing otherAfter with
  | nil =>
    rw [length_nil, eq_comm, length_eq_zero_iff] at length
    subst length
    rw [intercalate_singleton, intercalate_singleton] at same
    rw [same]
  | append_singleton rest last ih =>
    obtain empty | ⟨otherRest, otherLast, rfl⟩ := eq_nil_or_concat' otherAfter
    · rw [empty] at length
      simp at length
    · rw [intercalate_concat, intercalate_concat] at same
      rw [length_append, length_append, length_singleton, length_singleton,
        Nat.add_right_cancel_iff] at length
      obtain ⟨rfl, fronts⟩ := last_field_eq (clear last (by simp)) (otherClear otherLast (by simp))
        same
      have fields := ih length (fun text member => clear text (by simp [member]))
        (fun text member => otherClear text (by simp [member])) fronts
      rw [← cons_append, fields, cons_append]

omit [DecidableEq α] in
/-- One field with delimiters is determined between fields without. -/
theorem fields_eq_around {before otherBefore : List (List α)}
    (front : before.length = otherBefore.length) (back : after.length = otherAfter.length)
    (clear : ∀ text ∈ before ++ after, delimiter ∉ text)
    (otherClear : ∀ text ∈ otherBefore ++ otherAfter, delimiter ∉ text)
    (same : [delimiter].intercalate (before ++ field :: after) =
      [delimiter].intercalate (otherBefore ++ other :: otherAfter)) :
    before ++ field :: after = otherBefore ++ other :: otherAfter := by
  induction before generalizing otherBefore with
  | nil =>
    rw [length_nil, eq_comm, length_eq_zero_iff] at front
    subst front
    exact fields_eq_behind back clear otherClear same
  | cons first rest ih =>
    cases otherBefore with
    | nil => cases front
    | cons otherFirst otherRest =>
      rw [cons_append, cons_append,
        intercalate_cons_of_ne_nil (append_ne_nil_of_right_ne_nil _ (cons_ne_nil _ _)),
        intercalate_cons_of_ne_nil (append_ne_nil_of_right_ne_nil _ (cons_ne_nil _ _)),
        append_assoc, append_assoc, singleton_append, singleton_append] at same
      obtain ⟨rfl, later⟩ := first_field_eq (clear first (by simp))
        (otherClear otherFirst (by simp)) same
      have fields := ih (Nat.succ.inj front)
        (fun text member => clear text (mem_cons_of_mem _ member))
        (fun text member => otherClear text (mem_cons_of_mem _ member)) later
      rw [cons_append, fields, cons_append]

end Delimited

section Known

/-- A digest with given values on some texts, and longer than any of them elsewhere. -/
def digestWith : List (List UInt8 × List UInt8) → List UInt8 → List UInt8
  | [], bytes => replicate 33 0 ++ bytes
  | (text, digest) :: rest, bytes => if bytes = text then digest else digestWith rest bytes

theorem digestWith_cases (known : List (List UInt8 × List UInt8)) (bytes : List UInt8) :
    digestWith known bytes ∈ known.map Prod.snd ∨ 32 < (digestWith known bytes).length := by
  induction known with
  | nil =>
    refine Or.inr ?_
    rw [digestWith, length_append, length_replicate]
    omega
  | cons entry rest ih =>
    rw [digestWith, map_cons]
    split
    · exact Or.inl mem_cons_self
    · exact ih.imp_left (mem_cons_of_mem _)

theorem digestWith_injective {known : List (List UInt8 × List UInt8)}
    (distinct : (known.map Prod.snd).Nodup)
    (short : ∀ digest ∈ known.map Prod.snd, digest.length ≤ 32) :
    Function.Injective (digestWith known) := by
  induction known with
  | nil => exact fun _ _ same => append_cancel_left same
  | cons entry rest ih =>
    obtain ⟨text, digest⟩ := entry
    obtain ⟨fresh, distinct⟩ := nodup_cons.mp distinct
    obtain ⟨digestShort, short⟩ := forall_mem_cons.mp short
    have apart : ∀ bytes, digest ≠ digestWith rest bytes := by
      intro bytes same
      rcases digestWith_cases rest bytes with member | long
      · exact fresh (same ▸ member)
      · exact absurd digestShort (Nat.not_le_of_lt (same ▸ long))
    intro bytes other same
    rw [digestWith, digestWith] at same
    split at same
    · split at same
      · simp only [*]
      · exact absurd same (apart other)
    · split at same
      · exact absurd same.symm (apart bytes)
      · exact ih distinct short same

end Known

end Library.HashChain
