import Mathlib.Data.List.Induction
import Mathlib.Data.List.Nodup
import Mathlib.Data.List.Perm.Basic

/-!
# Chains of sealed records

Every record stores the digest of the record before it, the first one a fixed start,
and the digest of that link together with its own text. A verifier walks the records
and compares both. If the digest separates what it is taken of, one digest commits to
all texts up to it, so a verified list with a known last digest is known as a whole.
-/

namespace Library.SealedChain

open List

universe u v

/-- What one record stores. -/
structure Link (δ : Type u) (τ : Type v) where
  previous : δ
  text : τ
  digest : δ

variable {δ : Type u} {τ : Type v} (digestOf : δ → τ → δ)

/-- The digest of a history. -/
def tip (start : δ) (texts : List τ) : δ := texts.foldl digestOf start

/-- The records that sealing the texts in order stores. -/
def chain : δ → List τ → List (Link δ τ)
  | _, [] => []
  | previous, text :: rest =>
    ⟨previous, text, digestOf previous text⟩ :: chain (digestOf previous text) rest

/-- Every record is linked to the one before it and stores its own digest. -/
def Verified : δ → List (Link δ τ) → Prop
  | _, [] => True
  | expected, link :: rest =>
    link.previous = expected ∧ link.digest = digestOf link.previous link.text ∧
      Verified link.digest rest

/-- The digest separates links and texts, and no sealed record looks like the start.
Links that are not clean do not occur in a chain. -/
structure Separates (start : δ) (clean : δ → Prop) : Prop where
  start_clean : clean start
  digest_clean : ∀ previous text, clean (digestOf previous text)
  digest_ne_start : ∀ previous text, digestOf previous text ≠ start
  digest_injective : ∀ {previous other : δ} {text otherText : τ}, clean previous → clean other →
    digestOf previous text = digestOf other otherText → previous = other ∧ text = otherText

variable {digestOf}

section

variable (start : δ)

@[simp] theorem tip_nil : tip digestOf start [] = start := rfl

@[simp] theorem tip_concat (texts : List τ) (text : τ) :
    tip digestOf start (texts ++ [text]) = digestOf (tip digestOf start texts) text := by
  rw [tip, foldl_concat, tip]

theorem chain_length (texts : List τ) :
    (chain digestOf start texts).length = texts.length := by
  induction texts generalizing start with
  | nil => rfl
  | cons text rest ih =>
    rw [chain, length_cons, ih, length_cons]

theorem chain_getLast? {texts : List τ} (nonempty : 0 < texts.length) :
    ∃ last, (chain digestOf start texts).getLast? = some last := by
  rw [getLast?_eq_getElem?]
  refine ⟨_, List.getElem?_eq_getElem ?_⟩
  rw [chain_length]
  exact Nat.sub_one_lt_of_lt nonempty

theorem chain_concat (texts : List τ) (text : τ) :
    chain digestOf start (texts ++ [text]) = chain digestOf start texts ++
        [⟨tip digestOf start texts, text, digestOf (tip digestOf start texts) text⟩] := by
  induction texts generalizing start with
  | nil => rfl
  | cons first rest ih =>
    rw [cons_append, chain, ih, chain, cons_append]
    rfl

/-- A record in a chain is what the history up to it seals. -/
theorem chain_getElem? (texts : List τ) (index : Nat) :
    (chain digestOf start texts)[index]? = texts[index]?.map fun text =>
      ⟨tip digestOf start (texts.take index), text, tip digestOf start (texts.take (index + 1))⟩ := by
  induction texts generalizing start index with
  | nil => rfl
  | cons first rest ih =>
    cases index with
    | zero => rfl
    | succ index =>
      rw [chain, List.getElem?_cons_succ, ih, List.getElem?_cons_succ]
      rfl

/-- The lists that verify are the chains. -/
theorem verified_iff (links : List (Link δ τ)) :
    Verified digestOf start links ↔ links = chain digestOf start (links.map Link.text) := by
  induction links generalizing start with
  | nil => exact iff_of_true trivial rfl
  | cons link rest ih =>
    obtain ⟨previous, text, digest⟩ := link
    rw [Verified, map_cons, chain, ih]
    simp only [List.cons.injEq, Link.mk.injEq, true_and, and_assoc]
    constructor
    · rintro ⟨rfl, rfl, same⟩
      exact ⟨rfl, rfl, same⟩
    · rintro ⟨rfl, rfl, same⟩
      exact ⟨rfl, rfl, same⟩

theorem chain_take (texts : List τ) (count : Nat) :
    chain digestOf start (texts.take count) = (chain digestOf start texts).take count := by
  induction texts generalizing start count with
  | nil => rw [take_nil, chain, take_nil]
  | cons text rest ih =>
    cases count with
    | zero => rfl
    | succ count =>
      rw [take_succ_cons, chain, ih, chain, take_succ_cons]

theorem chain_texts (texts : List τ) :
    (chain digestOf start texts).map Link.text = texts := by
  induction texts generalizing start with
  | nil => rfl
  | cons text rest ih => rw [chain, map_cons, ih]

theorem chain_verified (texts : List τ) :
    Verified digestOf start (chain digestOf start texts) := by
  rw [verified_iff, chain_texts]

end

theorem digest_of_verified {start : δ} {links : List (Link δ τ)}
    (verified : Verified digestOf start links) :
    ∀ link ∈ links, link.digest = digestOf link.previous link.text := by
  induction links generalizing start with
  | nil => nofun
  | cons first rest ih =>
    obtain ⟨_, digest, later⟩ := verified
    exact forall_mem_cons.mpr ⟨digest, ih later⟩

section Commitment

variable {start : δ} {clean : δ → Prop} (separates : Separates digestOf start clean)
variable {last link : Link δ τ} {links : List (Link δ τ)} {texts : List τ} {index : Nat}

include separates

theorem tip_clean (texts : List τ) : clean (tip digestOf start texts) := by
  cases texts using reverseRecOn with
  | nil => exact separates.start_clean
  | append_singleton before text =>
    rw [tip_concat]
    exact separates.digest_clean _ _

/-- A digest commits to the history behind it. -/
theorem tip_injective {others : List τ}
    (same : tip digestOf start texts = tip digestOf start others) : texts = others := by
  induction texts using reverseRecOn generalizing others with
  | nil =>
    cases others using reverseRecOn with
    | nil => rfl
    | append_singleton before text =>
      rw [tip_nil, tip_concat] at same
      exact absurd same.symm (separates.digest_ne_start _ _)
  | append_singleton before text ih =>
    cases others using reverseRecOn with
    | nil =>
      rw [tip_nil, tip_concat] at same
      exact absurd same (separates.digest_ne_start _ _)
    | append_singleton otherBefore otherText =>
      rw [tip_concat, tip_concat] at same
      obtain ⟨tips, rfl⟩ := separates.digest_injective (tip_clean separates before)
        (tip_clean separates otherBefore) same
      rw [ih tips]

/-- The records of a chain are distinct. -/
theorem chain_nodup (texts : List τ) : (chain digestOf start texts).Nodup := by
  rw [List.nodup_iff_getElem?_ne_getElem?]
  intro first second before inside same
  rw [chain_length] at inside
  have earlier := List.getElem?_eq_getElem (Nat.lt_trans before inside)
  rw [chain_getElem?, chain_getElem?, List.getElem?_eq_getElem inside, earlier,
    Option.map_some, Option.map_some, Option.some.injEq, Link.mk.injEq] at same
  have histories := congrArg List.length (tip_injective separates same.2.2)
  rw [length_take, length_take] at histories
  omega

/-- A verified list whose last digest occurs in a chain is the chain up to there. -/
theorem verified_eq_take
    (verified : Verified digestOf start links) (ending : links.getLast? = some last)
    (found : (chain digestOf start texts)[index]? = some link) (same : last.digest = link.digest) :
    links = (chain digestOf start texts).take (index + 1) := by
  rw [verified_iff] at verified
  generalize links.map Link.text = others at verified
  subst verified
  rw [chain_getElem?, Option.map_eq_some_iff] at found
  obtain ⟨text, _, rfl⟩ := found
  cases others using reverseRecOn with
  | nil => cases ending
  | append_singleton before newest =>
    rw [chain_concat, getLast?_concat, Option.some.injEq] at ending
    subst ending
    have tips := (tip_concat start before newest).trans same
    rw [tip_injective separates tips, chain_take]

/-- A verified list with the last digest of a chain is the chain. -/
theorem verified_eq_chain
    (verified : Verified digestOf start links) (ending : links.getLast? = some last)
    (newest : (chain digestOf start texts).getLast? = some link)
    (same : last.digest = link.digest) : links = chain digestOf start texts := by
  rw [getLast?_eq_getElem?] at newest
  rw [verified_eq_take separates verified ending newest same]
  exact take_of_length_le (by omega)

/-- One record of a chain cannot be replaced, unless it is the last one and sealed again. -/
theorem eq_of_set {original : Link δ τ}
    (found : (chain digestOf start texts)[index]? = some original)
    (kept : index + 1 < texts.length ∨ link.digest = original.digest ∨
      link.previous = original.previous ∧ link.text = original.text)
    (verified : Verified digestOf start ((chain digestOf start texts).set index link)) :
    link = original := by
  obtain ⟨inside, _⟩ := List.getElem?_eq_some_iff.mp found
  have length := @chain_length δ τ digestOf start texts
  have replaced : (chain digestOf start texts).set index link = chain digestOf start texts := by
    by_cases newest : index + 1 < texts.length
    · have differs : index ≠ (chain digestOf start texts).length - 1 := by omega
      obtain ⟨last, ending⟩ := @chain_getLast? δ τ digestOf start texts (by omega)
      refine verified_eq_chain separates verified ?_ ending rfl
      rw [getLast?_eq_getElem?, length_set, List.getElem?_set_ne differs,
        ← getLast?_eq_getElem?, ending]
    · have position : (chain digestOf start texts).length - 1 = index := by omega
      have digest : link.digest = original.digest := by
        rcases kept.resolve_left newest with digest | ⟨previous, text⟩
        · exact digest
        · rw [digest_of_verified verified link (mem_set inside _), previous, text]
          exact (digest_of_verified (chain_verified start texts) original
            (mem_of_getElem? found)).symm
      refine verified_eq_chain separates verified ?_ ?_ digest
      · rw [getLast?_eq_getElem?, length_set, position, List.getElem?_set_self inside]
      · rw [getLast?_eq_getElem?, position, found]
  have here := congrArg (fun links => links[index]?) replaced
  rw [List.getElem?_set_self inside, found] at here
  exact Option.some.inj here

/-- A record before the last one cannot be taken out. -/
theorem not_verified_eraseIdx (before : index + 1 < texts.length) :
    ¬ Verified digestOf start ((chain digestOf start texts).eraseIdx index) := by
  intro verified
  have length := @chain_length δ τ digestOf start texts
  obtain ⟨last, ending⟩ := @chain_getLast? δ τ digestOf start texts (by omega)
  have shorter := length_eraseIdx_of_lt (show index < (chain digestOf start texts).length by
    omega)
  have same : (chain digestOf start texts).eraseIdx index = chain digestOf start texts := by
    refine verified_eq_chain separates verified ?_ ending rfl
    rw [getLast?_eq_getElem?, shorter, List.getElem?_eraseIdx_of_ge (by omega),
      ← ending, getLast?_eq_getElem?]
    congr 1
    omega
  rw [same] at shorter
  omega

/-- The records of a chain are only accepted in their order. -/
theorem eq_of_perm
    (perm : links.Perm (chain digestOf start texts)) (verified : Verified digestOf start links) :
    links = chain digestOf start texts := by
  cases ending : links.getLast? with
  | none =>
    rw [getLast?_eq_none_iff] at ending
    subst ending
    exact (nil_perm.mp perm).symm
  | some last =>
    obtain ⟨index, found⟩ := mem_iff_getElem?.mp
      (perm.subset (mem_of_getLast? ending))
    have part := verified_eq_take separates verified ending found rfl
    have lengths := perm.length_eq
    rw [part, length_take] at lengths
    rw [part]
    exact take_of_length_le (by omega)

end Commitment

end Library.SealedChain
