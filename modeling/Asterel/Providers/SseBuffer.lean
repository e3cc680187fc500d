import Asterel.Library.Framing
import Asterel.Library.Search
import Asterel.Library.Text
import Asterel.Library.Utf8

/-!
# The reader of server-sent events

The bytes of a response arrive in chunks. The reader decodes every chunk, keeps what
it has not given out in a buffer, and gives out the event blocks of the buffer: each
up to its first blank line.

The search for blank lines does not depend on the chunks. The decoding does: it takes
every chunk for a text of its own, so a character that is cut by a chunk boundary is
replaced on both sides of it.
-/

namespace Asterel.Sse

open Library Library.Text Library.Utf8 List

def lfBoundary : List Char := "\n\n".toList

def crlfBoundary : List Char := "\r\n\r\n".toList

/-- The place of the first separator and its length. -/
def findEventBoundary (buffer : List Char) : Option (Nat × Nat) :=
  let lf := (find lfBoundary buffer).map fun parts => (parts.1.length, 2)
  let crlf := (find crlfBoundary buffer).map fun parts => (parts.1.length, 4)
  match lf, crlf with
  | some left, some right => some (if left.1 ≤ right.1 then left else right)
  | some boundary, none => some boundary
  | none, some boundary => some boundary
  | none, none => none

def pushChunk (buffer : List Char) (chunk : List UInt8) : List Char := buffer ++ decodeLossy chunk

/-- The next block with its separator, and the buffer behind it. -/
def nextEventBlock (buffer : List Char) : Option (List Char × List Char) :=
  (findEventBoundary buffer).map fun found =>
    (buffer.take (found.1 + found.2), buffer.drop (found.1 + found.2))

/-- The block that the end of the stream leaves, and the buffer behind it. -/
def finishEventBlock (buffer : List Char) : Option (List Char) × List Char :=
  if trim buffer = [] then (none, []) else (some buffer, [])

section Boundaries

variable {buffer : List Char} {found : Nat × Nat}

/-- A separator that is found fits into the buffer. -/
theorem find_length {pattern before after : List Char}
    (found : find pattern buffer = some (before, after)) :
    before.length + pattern.length ≤ buffer.length := by
  rw [find_eq_some found, length_append, length_append]
  exact Nat.le_add_right _ _

/-- The two separators do not share an end. -/
theorem lf_not_behind {text before after front back : List Char}
    (lf : text = before ++ lfBoundary ++ after) (crlf : text = front ++ crlfBoundary ++ back) :
    before.length ≠ front.length + 1 := by
  intro next
  have here : text[before.length + 1]? = some '\n' := by
    rw [lf, append_assoc, List.getElem?_append_right (Nat.le_add_right _ _),
      Nat.add_sub_cancel_left]
    rfl
  have there : text[front.length + 2]? = some '\r' := by
    rw [crlf, append_assoc, List.getElem?_append_right (Nat.le_add_right _ _),
      Nat.add_sub_cancel_left]
    rfl
  rw [next, there] at here
  exact absurd here (by decide)

theorem findEventBoundary_fits (boundary : findEventBoundary buffer = some found) :
    0 < found.2 ∧ found.1 + found.2 ≤ buffer.length := by
  rw [findEventBoundary] at boundary
  cases lf : find lfBoundary buffer with
  | none =>
    cases crlf : find crlfBoundary buffer with
    | none => simp [lf, crlf] at boundary
    | some right =>
      simp only [lf, crlf, Option.map_none, Option.map_some, Option.some.injEq] at boundary
      rw [← boundary]
      exact ⟨Nat.succ_pos _, find_length crlf⟩
  | some left =>
    cases crlf : find crlfBoundary buffer with
    | none =>
      simp only [lf, crlf, Option.map_none, Option.map_some, Option.some.injEq] at boundary
      rw [← boundary]
      exact ⟨Nat.succ_pos _, find_length lf⟩
    | some right =>
      simp only [lf, crlf, Option.map_some, Option.some.injEq] at boundary
      rw [← boundary]
      split
      · exact ⟨Nat.succ_pos _, find_length lf⟩
      · exact ⟨Nat.succ_pos _, find_length crlf⟩

/-- A separator stays the first one when more of the stream arrives. -/
theorem findEventBoundary_append (more : List Char)
    (boundary : findEventBoundary buffer = some found) :
    findEventBoundary (buffer ++ more) = some found := by
  rw [findEventBoundary] at boundary ⊢
  cases lf : find lfBoundary buffer with
  | none =>
    cases crlf : find crlfBoundary buffer with
    | none => simp [lf, crlf] at boundary
    | some right =>
      simp only [lf, crlf, Option.map_none, Option.map_some, Option.some.injEq] at boundary
      have again := find_append more crlf
      cases later : find lfBoundary (buffer ++ more) with
      | none => simp only [again, Option.map_none, Option.map_some, boundary]
      | some left =>
        have behind : ¬ left.1.length ≤ right.1.length := by
          have late := find_late lf later
          have early := find_length crlf
          have lengths : lfBoundary.length = 2 ∧ crlfBoundary.length = 4 := ⟨rfl, rfl⟩
          omega
        simp only [again, Option.map_some, if_neg behind]
        exact congrArg some boundary
  | some left =>
    have again := find_append more lf
    cases crlf : find crlfBoundary buffer with
    | none =>
      simp only [lf, crlf, Option.map_none, Option.map_some, Option.some.injEq] at boundary
      cases later : find crlfBoundary (buffer ++ more) with
      | none => simp only [again, Option.map_none, Option.map_some, boundary]
      | some right =>
        have ahead : left.1.length ≤ right.1.length := by
          have late := find_late crlf later
          have early := find_length lf
          have apart := lf_not_behind (find_eq_some again) (find_eq_some later)
          have lengths : lfBoundary.length = 2 ∧ crlfBoundary.length = 4 := ⟨rfl, rfl⟩
          omega
        simp only [again, Option.map_some, if_pos ahead]
        exact congrArg some boundary
    | some right =>
      simp only [lf, crlf, Option.map_some, Option.some.injEq] at boundary
      simp only [again, find_append more crlf, Option.map_some, boundary]

end Boundaries

/-- The blocks of a buffer as the frames of a text. -/
def blocks : Framer Char where
  cut := nextEventBlock
  splits := by
    intro buffer block rest cut
    rw [nextEventBlock, Option.map_eq_some_iff] at cut
    obtain ⟨found, boundary, parts⟩ := cut
    cases parts
    obtain ⟨positive, fits⟩ := findEventBoundary_fits boundary
    refine ⟨?_, (take_append_drop _ _).symm⟩
    apply ne_nil_of_length_pos
    rw [length_take]
    omega
  stable := by
    intro buffer block rest more cut
    rw [nextEventBlock, Option.map_eq_some_iff] at cut
    obtain ⟨found, boundary, parts⟩ := cut
    cases parts
    have fits := (findEventBoundary_fits boundary).2
    rw [nextEventBlock, findEventBoundary_append more boundary, Option.map_some,
      take_append_of_le_length fits, drop_append_of_le_length fits]

/-- The blocks that are drained after every chunk, and the buffer at the end. -/
def readChunks : List Char → List (List UInt8) → List (List Char) × List Char
  | buffer, [] => ([], buffer)
  | buffer, chunk :: chunks =>
    let drained := blocks.drain (pushChunk buffer chunk)
    let later := readChunks drained.2 chunks
    (drained.1 ++ later.1, later.2)

/-- All blocks of a stream. -/
def readBlocks (chunks : List (List UInt8)) : List (List Char) :=
  (readChunks [] chunks).1 ++ (finishEventBlock (readChunks [] chunks).2).1.toList

section Streams

variable (chunks : List (List UInt8)) (buffer : List Char)

theorem readChunks_eq_feed (chunks : List (List UInt8)) :
    readChunks buffer chunks = blocks.feed buffer (chunks.map decodeLossy) := by
  induction chunks generalizing buffer with
  | nil => rfl
  | cons chunk chunks ih =>
    rw [readChunks, map_cons, Framer.feed, ih]
    rfl

/-- The blocks are those of the text that the chunks are decoded to. -/
theorem readChunks_eq_drain :
    readChunks [] chunks = blocks.drain (chunks.map decodeLossy).flatten :=
  (readChunks_eq_feed [] chunks).trans (blocks.feed_eq_drain Framer.cut_nil _)

theorem readBlocks_congr {chunks others : List (List UInt8)}
    (same : (chunks.map decodeLossy).flatten = (others.map decodeLossy).flatten) :
    readBlocks chunks = readBlocks others := by
  rw [readBlocks, readBlocks, readChunks_eq_drain, readChunks_eq_drain, same]

/-- No replacement character is lost at the end of the stream. -/
theorem finishEventBlock_count :
    (finishEventBlock buffer).1.toList.flatten.count replacement = buffer.count replacement := by
  rw [finishEventBlock]
  split
  · rename_i empty
    have blank : Blank buffer := trim_eq_nil_iff.mp empty
    have absent : replacement ∉ buffer := fun member => absurd (blank _ member) (by decide)
    exact (count_eq_zero.mpr absent).symm
  · simp

/-- The blocks have the replacement characters of all chunks. -/
theorem readBlocks_count :
    (readBlocks chunks).flatten.count replacement = (chunks.map replaced).sum := by
  have text : (chunks.map decodeLossy).flatten.count replacement = (chunks.map replaced).sum := by
    rw [count_flatten, map_map]
    rfl
  rw [readBlocks, flatten_append, count_append, finishEventBlock_count,
    ← count_append, readChunks_eq_drain, Framer.drain_flatten, text]

/-- A stream cut into chunks is read like the whole stream exactly if every chunk is a
text, so that no cut falls inside a character. -/
theorem readBlocks_chunked_iff {text : List Char} {chunks : List (List UInt8)}
    (cut : chunks.flatten = encode text) :
    readBlocks chunks = readBlocks [encode text] ↔ ∀ chunk ∈ chunks, Valid chunk := by
  constructor
  · intro same
    apply valid_of_replaced cut
    rw [← readBlocks_count, same, readBlocks_count, map_singleton, sum_singleton,
      replaced, decodeLossy_encode]
  · intro valid
    apply readBlocks_congr
    rw [decodeLossy_flatten valid, cut, map_singleton, flatten_singleton]

/-- A stream of two chunks. -/
theorem readBlocks_chunked_texts :
    readBlocks [encode "data: é\n".toList, encode "\n".toList] =
        readBlocks [encode "data: é\n\n".toList] ↔
      ∀ chunk ∈ [encode "data: é\n".toList, encode "\n".toList], Valid chunk :=
  readBlocks_chunked_iff (by decide)

/-- A character whose two bytes arrive in two chunks becomes two replacement characters. -/
theorem character_cut_replaced :
    [[0x64, 0xC3], [0xA9, 0x0A, 0x0A]].flatten = encode ['d', 'é', '\n', '\n'] ∧
      readBlocks [[0x64, 0xC3], [0xA9, 0x0A, 0x0A]] ≠
        readBlocks [encode ['d', 'é', '\n', '\n']] := by
  decide +kernel

end Streams

end Asterel.Sse
