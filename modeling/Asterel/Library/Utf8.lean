import Mathlib.Algebra.GroupWithZero.Nat
import Mathlib.Data.List.Basic

/-!
# Lossy decoding of UTF-8

The decoder reads one byte at a time. Between two characters it waits for a lead
byte, and inside of one for a continuation byte in a range that the lead byte sets.
Bytes that do not go on as they should are replaced: each maximal part that could
have begun a character by one replacement character.

Decoding inverts encoding. A text that is cut into parts and decoded part by part
comes out the same exactly if no cut falls inside a character, and the replacement
characters tell: a cut inside a character leaves at least two where there was at
most one.
-/

namespace Library.Utf8

open List

/-- The character that stands for bytes that are no character. -/
def replacement : Char := '\uFFFD'

/-- What the decoder has read of a character: the bits so far, the number of bytes
to come, and the range of the next one. -/
inductive State where
  | between
  | inside (bits left low high : Nat)
deriving DecidableEq

/-- The bytes that begin a character. -/
def lead (byte : Nat) : List Char × State :=
  if byte < 0x80 then ([Char.ofNat byte], .between)
  else if 0xC2 ≤ byte ∧ byte ≤ 0xDF then ([], .inside (byte - 0xC0) 1 0x80 0xBF)
  else if byte = 0xE0 then ([], .inside 0 2 0xA0 0xBF)
  else if byte = 0xED then ([], .inside 0xD 2 0x80 0x9F)
  else if 0xE1 ≤ byte ∧ byte ≤ 0xEF then ([], .inside (byte - 0xE0) 2 0x80 0xBF)
  else if byte = 0xF0 then ([], .inside 0 3 0x90 0xBF)
  else if 0xF1 ≤ byte ∧ byte ≤ 0xF3 then ([], .inside (byte - 0xF0) 3 0x80 0xBF)
  else if byte = 0xF4 then ([], .inside 4 3 0x80 0x8F)
  else ([replacement], .between)

/-- The characters that a byte completes, and the state after it. A byte that does not
go on with the character is read again as a lead byte. -/
def step (state : State) (byte : Nat) : List Char × State :=
  match state with
  | .between => lead byte
  | .inside bits left low high =>
    if low ≤ byte ∧ byte ≤ high then
      let more := bits * 64 + (byte - 0x80)
      if left ≤ 1 then ([Char.ofNat more], .between) else ([], .inside more (left - 1) 0x80 0xBF)
    else (replacement :: (lead byte).1, (lead byte).2)

/-- Decode from a state on. A character that is not complete at the end is replaced. -/
def decodeFrom : State → List UInt8 → List Char
  | .between, [] => []
  | .inside _ _ _ _, [] => [replacement]
  | state, byte :: rest => (step state byte.toNat).1 ++ decodeFrom (step state byte.toNat).2 rest

def decodeLossy (bytes : List UInt8) : List Char := decodeFrom .between bytes

def encode (text : List Char) : List UInt8 := text.flatMap String.utf8EncodeChar

section Characters

variable {bits value : Nat}

/-- From the state on, the bytes are exactly one character, and silent up to the last. -/
inductive Spells (char : Char) : State → List UInt8 → Prop where
  | last {state : State} {byte : UInt8} (complete : step state byte.toNat = ([char], .between)) :
    Spells char state [byte]
  | more {state : State} {byte : UInt8} {rest : List UInt8} {bits left low high : Nat}
      (silent : step state byte.toNat = ([], .inside bits left low high))
      (later : Spells char (.inside bits left low high) rest) : Spells char state (byte :: rest)

/-- A byte that only goes on with a character. -/
def Continues (byte : UInt8) : Prop := 0x80 ≤ byte.toNat ∧ byte.toNat ≤ 0xBF

theorem toNat_ofNat (small : value < 256) : (UInt8.ofNat value).toNat = value := by
  rw [UInt8.toNat_ofNat']
  exact Nat.mod_eq_of_lt small

theorem ofNat_code {char : Char} {code : Nat} (same : code = char.val.toNat) :
    Char.ofNat code = char := by
  rw [same]
  exact Char.ofNat_toNat char

variable {char : Char}

theorem code_cases (char : Char) :
    char.val.toNat < 0xD800 ∨ 0xDFFF < char.val.toNat ∧ char.val.toNat < 0x110000 :=
  char.valid

/-- The encoding of a character by the number of its bytes. -/
theorem encode_cases (char : Char) :
    (char.val.toNat ≤ 0x7F ∧ String.utf8EncodeChar char = [UInt8.ofNat char.val.toNat]) ∨
      (0x7F < char.val.toNat ∧ char.val.toNat ≤ 0x7FF ∧ String.utf8EncodeChar char =
        [UInt8.ofNat (0xC0 + char.val.toNat / 64), UInt8.ofNat (0x80 + char.val.toNat % 64)]) ∨
      (0x7FF < char.val.toNat ∧ char.val.toNat ≤ 0xFFFF ∧ String.utf8EncodeChar char =
        [UInt8.ofNat (0xE0 + char.val.toNat / 4096), UInt8.ofNat (0x80 + char.val.toNat / 64 % 64),
          UInt8.ofNat (0x80 + char.val.toNat % 64)]) ∨
      (0xFFFF < char.val.toNat ∧ char.val.toNat ≤ 0x10FFFF ∧ String.utf8EncodeChar char =
        [UInt8.ofNat (0xF0 + char.val.toNat / 262144),
          UInt8.ofNat (0x80 + char.val.toNat / 4096 % 64),
          UInt8.ofNat (0x80 + char.val.toNat / 64 % 64),
          UInt8.ofNat (0x80 + char.val.toNat % 64)]) := by
  have valid := code_cases char
  simp only [String.utf8EncodeChar]
  split_ifs with one two three
  · exact .inl ⟨one, rfl⟩
  · refine .inr (.inl ⟨by omega, two, ?_⟩)
    rw [Nat.mod_eq_of_lt (show char.val.toNat / 64 < 0x20 by omega), Nat.add_comm,
      Nat.add_comm (_ % _)]
  · refine .inr (.inr (.inl ⟨by omega, three, ?_⟩))
    rw [Nat.mod_eq_of_lt (show char.val.toNat / 4096 < 0x10 by omega), Nat.add_comm,
      Nat.add_comm (_ % _), Nat.add_comm (_ % _)]
  · refine .inr (.inr (.inr ⟨by omega, by omega, ?_⟩))
    rw [Nat.mod_eq_of_lt (show char.val.toNat / 262144 < 0x08 by omega), Nat.add_comm,
      Nat.add_comm (_ % _), Nat.add_comm (_ % _), Nat.add_comm (_ % _)]

/-- The last byte of a character. -/
theorem spells_last {low high : Nat} (above : low ≤ 0x80 + value)
    (below : 0x80 + value ≤ high) (small : value < 64) (same : bits * 64 + value = char.val.toNat) :
    Spells char (.inside bits 1 low high) [UInt8.ofNat (0x80 + value)] := by
  apply Spells.last
  rw [toNat_ofNat (by omega), step]
  simp [above, below, ofNat_code same]

/-- A byte before the last one. -/
theorem spells_more {left low high : Nat} {rest : List UInt8}
    (above : low ≤ 0x80 + value) (below : 0x80 + value ≤ high) (small : value < 64)
    (later : Spells char (.inside (bits * 64 + value) (left + 1) 0x80 0xBF) rest) :
    Spells char (.inside bits (left + 2) low high) (UInt8.ofNat (0x80 + value) :: rest) := by
  refine Spells.more ?_ later
  rw [toNat_ofNat (by omega), step]
  simp [above, below]

theorem lead_three (small : bits < 16) :
    lead (0xE0 + bits) = ([], .inside bits 2 (if bits = 0 then 0xA0 else 0x80)
      (if bits = 13 then 0x9F else 0xBF)) := by
  revert bits
  decide

theorem lead_four (small : bits < 5) :
    lead (0xF0 + bits) = ([], .inside bits 3 (if bits = 0 then 0x90 else 0x80)
      (if bits = 4 then 0x8F else 0xBF)) := by
  revert bits
  decide

theorem step_between (small : value < 256) :
    step .between (UInt8.ofNat value).toNat = lead value := by
  rw [toNat_ofNat small, step]

/-- The encoding of a character spells it. -/
theorem spells_encode (char : Char) : Spells char .between (String.utf8EncodeChar char) := by
  have valid := code_cases char
  rcases encode_cases char with ⟨small, same⟩ | ⟨above, small, same⟩ | ⟨above, small, same⟩ |
    ⟨above, small, same⟩
  · rw [same]
    apply Spells.last
    rw [step_between (by omega), lead, if_pos (by omega), ofNat_code rfl]
  · have begins : lead (0xC0 + char.val.toNat / 64) =
        ([], .inside (char.val.toNat / 64) 1 0x80 0xBF) := by
      rw [lead, if_neg (by omega), if_pos (by omega), Nat.add_sub_cancel_left]
    rw [same]
    refine Spells.more ((step_between (by omega)).trans begins) ?_
    exact spells_last (by omega) (by omega) (by omega) (by omega)
  · rw [same]
    refine Spells.more ((step_between (by omega)).trans (lead_three (by omega))) ?_
    refine spells_more ?_ ?_ (by omega) ?_
    · split_ifs <;> omega
    · split_ifs <;> omega
    · exact spells_last (by omega) (by omega) (by omega) (by omega)
  · rw [same]
    refine Spells.more ((step_between (by omega)).trans (lead_four (by omega))) ?_
    refine spells_more ?_ ?_ (by omega) ?_
    · split_ifs <;> omega
    · split_ifs <;> omega
    · refine spells_more (by omega) (by omega) (by omega) ?_
      exact spells_last (by omega) (by omega) (by omega) (by omega)

theorem continues_ofNat (value : Nat) : Continues (UInt8.ofNat (0x80 + value % 64)) := by
  rw [Continues, toNat_ofNat (by omega)]
  omega

/-- All bytes of a character but the first only go on with it. -/
theorem encode_tail (char : Char) :
    ∃ first tail, String.utf8EncodeChar char = first :: tail ∧ ∀ byte ∈ tail, Continues byte := by
  rcases encode_cases char with ⟨_, same⟩ | ⟨_, _, same⟩ | ⟨_, _, same⟩ | ⟨_, _, same⟩
  · exact ⟨_, _, same, forall_mem_nil _⟩
  · exact ⟨_, _, same, forall_mem_singleton.mpr (continues_ofNat _)⟩
  · refine ⟨_, _, same, forall_mem_cons.mpr ⟨continues_ofNat _, ?_⟩⟩
    exact forall_mem_singleton.mpr (continues_ofNat _)
  · refine ⟨_, _, same, forall_mem_cons.mpr ⟨continues_ofNat _, ?_⟩⟩
    refine forall_mem_cons.mpr ⟨continues_ofNat _, ?_⟩
    exact forall_mem_singleton.mpr (continues_ofNat _)

end Characters

section Decoding

variable {char : Char} {state : State}
variable (text : List Char) {bytes front : List UInt8}

/-- The bytes of a character decode to it, whatever comes behind them. -/
theorem decodeFrom_spelled (spells : Spells char state bytes)
    (rest : List UInt8) : decodeFrom state (bytes ++ rest) = char :: decodeFrom .between rest := by
  induction spells with
  | last complete =>
    rw [singleton_append, decodeFrom, complete]
    rfl
  | more silent _ ih =>
    rw [cons_append, decodeFrom, silent, ih]
    rfl

/-- A part of a character that is not all of it is replaced by one character. -/
theorem decodeFrom_cut {back : List UInt8} (spells : Spells char state bytes)
    (cut : bytes = front ++ back) (some : front ≠ []) (more : back ≠ []) :
    decodeFrom state front = [replacement] := by
  induction spells generalizing front with
  | last complete =>
    cases front with
    | nil => exact absurd rfl some
    | cons first others =>
      obtain ⟨_, none⟩ := List.cons.inj cut
      exact absurd (append_eq_nil_iff.mp none.symm).2 more
  | more silent later ih =>
    cases front with
    | nil => exact absurd rfl some
    | cons first others =>
      obtain ⟨rfl, behind⟩ := List.cons.inj cut
      rw [decodeFrom, silent]
      cases others with
      | nil => rfl
      | cons second others => exact ih behind nofun

theorem decodeLossy_encode_append (rest : List UInt8) :
    decodeLossy (encode text ++ rest) = text ++ decodeLossy rest := by
  induction text with
  | nil => rfl
  | cons char text ih =>
    rw [encode, flatMap_cons, append_assoc, decodeLossy, decodeFrom_spelled (spells_encode char)]
    exact congrArg (char :: ·) ih

/-- Decoding inverts encoding. -/
theorem decodeLossy_encode : decodeLossy (encode text) = text := by
  have whole := decodeLossy_encode_append text []
  have empty : decodeLossy [] = [] := rfl
  rwa [append_nil, empty, append_nil] at whole

/-- Decoding that refuses bytes that are no text. -/
def decode (bytes : List UInt8) : Option (List Char) :=
  if encode (decodeLossy bytes) = bytes then some (decodeLossy bytes) else none

theorem decode_encode : decode (encode text) = some text := by
  rw [decode, decodeLossy_encode, if_pos rfl]

/-- Bytes that only go on with a character are replaced one by one. -/
theorem decodeLossy_continues (rest : List UInt8) (only : ∀ byte ∈ front, Continues byte) :
    decodeLossy (front ++ rest) = replicate front.length replacement ++ decodeLossy rest := by
  induction front with
  | nil => rfl
  | cons byte front ih =>
    obtain ⟨above, below⟩ := only byte mem_cons_self
    have unread : step .between byte.toNat = ([replacement], .between) := by
      rw [step, lead]
      split_ifs <;> first | rfl | omega
    rw [cons_append, decodeLossy, decodeFrom, unread]
    exact congrArg (replacement :: ·)
      (ih fun other member => only other (mem_cons_of_mem _ member))

end Decoding

section Cuts

variable {char : Char} {parts : List (List UInt8)} {text : List Char} {front lead tail : List UInt8}

/-- Bytes that are a text of their own. -/
def Valid (bytes : List UInt8) : Prop := ∃ text, bytes = encode text

/-- How many characters a part is decoded to that stand for none. -/
def replaced (bytes : List UInt8) : Nat := (decodeLossy bytes).count replacement

theorem encode_cons (char : Char) (text : List Char) :
    encode (char :: text) = String.utf8EncodeChar char ++ encode text := flatMap_cons

/-- A cut falls between two characters or inside of one. -/
theorem encode_eq_append {back : List UInt8} (cut : encode text = front ++ back) :
    (∃ before after, text = before ++ after ∧ front = encode before ∧ back = encode after) ∨
      ∃ before char after lead tail, text = before ++ char :: after ∧
        String.utf8EncodeChar char = lead ++ tail ∧ lead ≠ [] ∧ tail ≠ [] ∧
        front = encode before ++ lead ∧ back = tail ++ encode after := by
  induction text generalizing front with
  | nil =>
    obtain ⟨rfl, rfl⟩ := append_eq_nil_iff.mp cut.symm
    exact .inl ⟨[], [], rfl, rfl, rfl⟩
  | cons char text ih =>
    rw [encode_cons] at cut
    rcases append_eq_append_iff.mp cut with ⟨gap, frontEq, textEq⟩ | ⟨gap, charEq, backEq⟩
    · rcases ih textEq with ⟨before, after, same, gapEq, backEq⟩ |
        ⟨before, other, after, lead, tail, same, whole, some, more, gapEq, backEq⟩
      · refine .inl ⟨char :: before, after, by rw [same]; rfl, ?_, backEq⟩
        rw [frontEq, gapEq, encode_cons]
      · refine .inr ⟨char :: before, other, after, lead, tail, by rw [same]; rfl, whole, some, more,
          ?_, backEq⟩
        rw [frontEq, gapEq, encode_cons, append_assoc]
    · by_cases none : front = []
      · subst none
        exact .inl ⟨[], char :: text, rfl, rfl, by rw [encode_cons, charEq, backEq]; rfl⟩
      · by_cases whole : gap = []
        · subst whole
          rw [append_nil] at charEq
          exact .inl ⟨[char], text, rfl, by simp [encode, charEq], by simpa using backEq⟩
        · exact .inr ⟨[], char, text, front, gap, rfl, charEq, none, whole, rfl, backEq⟩

theorem replaced_encode_append (text : List Char) (rest : List UInt8) :
    replaced (encode text ++ rest) = text.count replacement + replaced rest := by
  rw [replaced, decodeLossy_encode_append, count_append, replaced]

theorem replaced_continues (rest : List UInt8) (only : ∀ byte ∈ front, Continues byte) :
    replaced (front ++ rest) = front.length + replaced rest := by
  rw [replaced, decodeLossy_continues rest only, count_append, count_replicate_self, replaced]

/-- The bytes behind a cut inside a character only go on with it. -/
theorem continues_of_cut (whole : String.utf8EncodeChar char = lead ++ tail) (some : lead ≠ []) :
    ∀ byte ∈ tail, Continues byte := by
  obtain ⟨first, others, same, only⟩ := encode_tail char
  cases lead with
  | nil => exact absurd rfl some
  | cons byte lead =>
    rw [same] at whole
    intro other member
    exact only other ((List.cons.inj whole).2 ▸ mem_append_right _ member)

theorem replaced_lead
    (whole : String.utf8EncodeChar char = lead ++ tail) (some : lead ≠ []) (more : tail ≠ []) :
    replaced lead = 1 := by
  rw [replaced, decodeLossy, decodeFrom_cut (spells_encode char) whole some more]
  rfl

/-- The parts of a text, the first of which may begin inside a character, are decoded to
at least as many replacement characters as the text has, and to more unless every part
is a text. -/
theorem replaced_parts :
    ∀ {open_ : List UInt8} {text : List Char}, parts.flatten = open_ ++ encode text →
      (∀ byte ∈ open_, Continues byte) →
      text.count replacement ≤ (parts.map replaced).sum ∧
        ((parts.map replaced).sum = text.count replacement →
          open_ = [] ∧ ∀ part ∈ parts, Valid part) := by
  induction parts with
  | nil =>
    intro open_ text whole _
    obtain ⟨rfl, textEq⟩ := append_eq_nil_iff.mp whole.symm
    have empty : text = [] := by
      rw [← decodeLossy_encode text, textEq]
      rfl
    subst empty
    exact ⟨Nat.le_refl _, fun _ => ⟨rfl, forall_mem_nil _⟩⟩
  | cons part rest ih =>
    intro open_ text whole only
    rw [flatten_cons] at whole
    rw [map_cons, sum_cons]
    have none : replaced [] = 0 := rfl
    rcases append_eq_append_iff.mp whole with ⟨gap, openEq, restEq⟩ | ⟨gap, partEq, textEq⟩
    · -- The part ends inside the character that is open.
      have onlyPart : ∀ byte ∈ part, Continues byte :=
        fun byte member => only byte (openEq ▸ mem_append_left _ member)
      have onlyGap : ∀ byte ∈ gap, Continues byte :=
        fun byte member => only byte (openEq ▸ mem_append_right _ member)
      obtain ⟨atLeast, exact_⟩ := ih restEq onlyGap
      have count := replaced_continues [] onlyPart
      rw [append_nil, none, Nat.add_zero] at count
      refine ⟨by omega, ?_⟩
      intro same
      have empty : part = [] := eq_nil_of_length_eq_zero (by omega)
      obtain ⟨closed, valid⟩ := exact_ (by omega)
      rw [openEq, empty, closed]
      exact ⟨rfl, forall_mem_cons.mpr ⟨⟨[], rfl⟩, valid⟩⟩
    · rcases encode_eq_append textEq with ⟨before, after, same, gapEq, restEq⟩ |
        ⟨before, char, after, lead, tail, same, charEq, some, more, gapEq, restEq⟩
      · -- The part ends between two characters.
        obtain ⟨atLeast, exact_⟩ := @ih [] _ restEq (forall_mem_nil _)
        have count : replaced part = open_.length + before.count replacement := by
          have text := replaced_encode_append before []
          rw [append_nil, none, Nat.add_zero] at text
          rw [partEq, replaced_continues _ only, gapEq, text]
        rw [same, count_append]
        refine ⟨by omega, ?_⟩
        intro equal
        have closed : open_ = [] := eq_nil_of_length_eq_zero (by omega)
        obtain ⟨_, valid⟩ := exact_ (by omega)
        refine ⟨closed, forall_mem_cons.mpr ⟨⟨before, ?_⟩, valid⟩⟩
        rw [partEq, closed, gapEq, nil_append]
      · -- The part ends inside a character, which is replaced on both sides of the cut.
        obtain ⟨atLeast, exact_⟩ := ih restEq (continues_of_cut charEq some)
        have count : replaced part = open_.length + before.count replacement + 1 := by
          rw [partEq, replaced_continues _ only, gapEq, replaced_encode_append,
            replaced_lead charEq some more, Nat.add_assoc]
        have strict : (rest.map replaced).sum ≠ after.count replacement :=
          fun equal => more (exact_ equal).1
        have one : [char].count replacement ≤ 1 := count_le_length
        rw [same, append_cons, count_append, count_append]
        refine ⟨by omega, ?_⟩
        intro equal
        omega

/-- The parts of a text are decoded to as many replacement characters as the text has
only if every part is a text. -/
theorem valid_of_replaced (whole : parts.flatten = encode text)
    (same : (parts.map replaced).sum = text.count replacement) : ∀ part ∈ parts, Valid part :=
  ((@replaced_parts _ [] _ whole (forall_mem_nil _)).2 same).2

/-- Parts that are texts are decoded to the parts of the text. -/
theorem decodeLossy_flatten (valid : ∀ part ∈ parts, Valid part) :
    (parts.map decodeLossy).flatten = decodeLossy parts.flatten := by
  induction parts with
  | nil => rfl
  | cons part rest ih =>
    obtain ⟨text, same⟩ := valid part mem_cons_self
    rw [map_cons, flatten_cons, flatten_cons, same, decodeLossy_encode_append,
      decodeLossy_encode, ih fun other member =>
        valid other (mem_cons_of_mem _ member)]

end Cuts

end Library.Utf8
