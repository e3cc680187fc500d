import Asterel.Security.ScrubSeams
import Asterel.Utils.CharBoundary

/-!
# Scrubbing a stream

The streaming scrubber scrubs what it carries together with the next delta and carries
the last bytes of the result. It agrees with scrubbing the whole text as long as the carry
still holds, as it came, all of a secret that goes on in the delta.
-/

namespace Asterel.StreamingScrub

open Library List
open Chunker (byteLength)
open CharBoundary (floorCharBoundary)
open Scrub

structure StreamingSecretScrubber where
  carry : List Char
  window : Nat

def StreamingSecretScrubber.new (window : Nat) : StreamingSecretScrubber := ⟨[], max window 64⟩

/-- What is emitted of a delta, and the scrubber behind it. -/
def scrubDelta (scrubber : StreamingSecretScrubber) (delta : List Char) :
    List Char × StreamingSecretScrubber :=
  let scrubbed := scrubSecrets (scrubber.carry ++ delta)
  if scrubber.window < byteLength scrubbed then
    let splitAt := floorCharBoundary scrubbed (byteLength scrubbed - scrubber.window)
    (scrubbed.take splitAt, { scrubber with carry := scrubbed.drop splitAt })
  else ([], { scrubber with carry := scrubbed })

def finish (scrubber : StreamingSecretScrubber) : List Char := scrubSecrets scrubber.carry

/-- A scrubber with all that it has emitted. -/
structure Stream where
  emitted : List Char
  scrubber : StreamingSecretScrubber

def Stream.feed (stream : Stream) (delta : List Char) : Stream :=
  let step := scrubDelta stream.scrubber delta
  ⟨stream.emitted ++ step.1, step.2⟩

/-- The stream behind some deltas. -/
def run (window : Nat) (deltas : List (List Char)) : Stream :=
  deltas.foldl Stream.feed ⟨[], .new window⟩

/-- All that is emitted if the stream ends here. -/
def Stream.output (stream : Stream) : List Char := stream.emitted ++ finish stream.scrubber

/-- The emitted text and the carry are the scrubbed text. -/
def Settled (stream : Stream) (text : List Char) : Prop :=
  stream.emitted ++ stream.scrubber.carry = scrubSecrets text

/-- What a delta goes on from is in the carry as it came. The text is cut where no token
and no block goes on: tokens before `opened`, and blocks, behind the passes, before `back`. -/
structure Hold (text carry delta : List Char) where
  settled : List Char
  opened : List Char
  front : List Char
  back : List Char
  kept : List Char
  textEq : text = settled ++ opened
  settledEq : scrubMarkers passes settled = front ++ back
  carryEq : carry = kept ++ (back ++ opened)
  tokens : TokenSeam settled (opened ++ delta)
  blocks : BlockSeam front (back ++ opened)
  blocksDelta : BlockSeam front (back ++ scrubMarkers passes (opened ++ delta))
  blocksKept : BlockSeam kept (back ++ scrubMarkers passes (opened ++ delta))

/-- A carry that is the whole text as it came holds all of it. -/
def Hold.whole (text delta : List Char) : Hold text text delta where
  settled := []
  opened := text
  front := []
  back := []
  kept := []
  textEq := rfl
  settledEq := scrubMarkers_nil _
  carryEq := rfl
  tokens := .nil _
  blocks := .nil _
  blocksDelta := .nil _
  blocksKept := .nil _

theorem run_concat (window : Nat) (deltas : List (List Char)) (delta : List Char) :
    run window (deltas ++ [delta]) = (run window deltas).feed delta := foldl_concat ..

/-- What is emitted of a delta and what is carried are the scrubbed carry with the delta. -/
theorem scrubDelta_parts (scrubber : StreamingSecretScrubber) (delta : List Char) :
    (scrubDelta scrubber delta).1 ++ (scrubDelta scrubber delta).2.carry =
      scrubSecrets (scrubber.carry ++ delta) := by
  rw [scrubDelta]
  split
  · exact take_append_drop _ _
  · rfl

theorem feed_parts (stream : Stream) (delta : List Char) :
    (stream.feed delta).emitted ++ (stream.feed delta).scrubber.carry =
      stream.emitted ++ scrubSecrets (stream.scrubber.carry ++ delta) := by
  rw [← scrubDelta_parts, ← append_assoc]
  rfl

theorem settled_new (window : Nat) : Settled (run window []) [] := by
  rw [Settled, scrubSecrets_eq, scrubMarkers_nil, pem_none]
  · rfl
  · decide

/-- A carry without a block is emitted as it is. -/
theorem finish_settled {stream : Stream} {text : List Char} (settled : Settled stream text)
    (noBlock : NoBlock stream.scrubber.carry) : stream.output = scrubSecrets text := by
  have carried : stream.scrubber.carry <:+: scrubSecrets text :=
    settled ▸ (suffix_append _ _).isInfix
  rw [Stream.output, finish, scrubSecrets_eq stream.scrubber.carry, scrubMarkers_scrubbed carried,
    pem_of_noBlock _ noBlock]
  exact settled

/-- What is carried stands in the scrubbed text. -/
theorem Settled.carried {stream : Stream} {text part : List Char} (settled : Settled stream text)
    (held : part <:+: stream.scrubber.carry) : part <:+: scrubSecrets text := by
  have parts : stream.emitted ++ stream.scrubber.carry = scrubSecrets text := settled
  exact held.trans (parts ▸ (suffix_append _ _).isInfix)

section Step

variable {stream : Stream} {opened front back kept settledText : List Char}

/-- What is emitted and what is kept before the held text is the scrubbed front. -/
theorem emitted_kept (settled : Settled stream (settledText ++ opened))
    (noBlock : NoBlock stream.scrubber.carry)
    (carryEq : stream.scrubber.carry = kept ++ (back ++ opened))
    (settledEq : scrubMarkers passes settledText = front ++ back)
    (tokens : TokenSeam settledText opened) (blocks : BlockSeam front (back ++ opened)) :
    stream.emitted ++ kept = scrubPemBlocks front := by
  have openedScrubbed : scrubMarkers passes opened = opened := by
    refine scrubMarkers_scrubbed (settled.carried ?_)
    rw [carryEq, ← append_assoc]
    exact (suffix_append _ _).isInfix
  have held : scrubPemBlocks (back ++ opened) = back ++ opened := by
    refine pem_of_noBlock _ (noBlock.suffix ?_)
    rw [carryEq]
    exact suffix_append _ _
  have whole : scrubSecrets (settledText ++ opened) = scrubPemBlocks front ++ (back ++ opened) := by
    rw [scrubSecrets_eq, scrubMarkers_seam (fun _ member => member) tokens, openedScrubbed,
      settledEq, append_assoc, pem_seam _ _ blocks, held]
  have parts : stream.emitted ++ stream.scrubber.carry = _ := settled
  rw [whole, carryEq, ← append_assoc] at parts
  exact append_cancel_right parts

end Step

/-- The carry is scrubbed with the delta as the text is. -/
theorem feed_settled {stream : Stream} {text delta : List Char} (settled : Settled stream text)
    (noBlock : NoBlock stream.scrubber.carry) (hold : Hold text stream.scrubber.carry delta) :
    Settled (stream.feed delta) (text ++ delta) := by
  obtain ⟨settledText, opened, front, back, kept, rfl, settledEq, carryEq, tokens, blocks,
    blocksDelta, blocksKept⟩ := hold
  have frontScrubbed := emitted_kept settled noBlock carryEq settledEq
    (tokens.of_begins (prefix_append opened delta)) blocks
  have keptBack : scrubMarkers passes (kept ++ back) = kept ++ back := by
    refine scrubMarkers_scrubbed (settled.carried ?_)
    rw [carryEq, ← append_assoc]
    exact (prefix_append _ _).isInfix
  have keptScrubbed : scrubPemBlocks kept = kept := by
    refine pem_of_noBlock _ (noBlock.of_begins ?_)
    rw [carryEq]
    exact prefix_append _ _
  have keptSeam : TokenSeam (kept ++ back) (opened ++ delta) := by
    have behindPasses := tokens.front_rewritten
      ((scrubMarkers_rewrites passes_marker settledText).weaken fun _ _ same => Or.inl same)
    rw [settledEq] at behindPasses
    have behindBlocks := behindPasses.front_rewritten
      (((pem_rewrites front).weaken fun _ _ allowed => Or.inr allowed.1).append (.same back))
    rw [← frontScrubbed, append_assoc] at behindBlocks
    exact behindBlocks.suffix (suffix_append _ _)
  rw [Settled, feed_parts]
  calc stream.emitted ++ scrubSecrets (stream.scrubber.carry ++ delta)
      = stream.emitted ++ scrubPemBlocks (scrubMarkers passes
          ((kept ++ back) ++ (opened ++ delta))) := by
        rw [scrubSecrets_eq, carryEq]
        simp only [append_assoc]
    _ = stream.emitted ++ scrubPemBlocks (kept ++
          (back ++ scrubMarkers passes (opened ++ delta))) := by
        rw [scrubMarkers_seam (fun _ member => member) keptSeam, keptBack, append_assoc]
    _ = scrubPemBlocks front ++ scrubPemBlocks (back ++ scrubMarkers passes (opened ++ delta)) := by
        rw [pem_seam _ _ blocksKept, keptScrubbed, ← append_assoc, frontScrubbed]
    _ = scrubPemBlocks (scrubMarkers passes settledText ++
          scrubMarkers passes (opened ++ delta)) := by
        rw [settledEq, append_assoc, pem_seam _ _ blocksDelta]
    _ = scrubSecrets (settledText ++ opened ++ delta) := by
        rw [scrubSecrets_eq, append_assoc, scrubMarkers_seam (fun _ member => member) tokens]

/-- A token that goes on in the delta is let through behind its redaction. -/
theorem cut_token_output {stream : Stream} {text delta kept : List Char}
    (settled : Settled stream text) (noBlock : NoBlock stream.scrubber.carry)
    (carryEq : stream.scrubber.carry = kept ++ redacted) (noDash : '-' ∉ delta) :
    (stream.feed delta).output = scrubSecrets text ++ scrubMarkers passes delta := by
  have outDash := noDash_scrubMarkers noDash
  rw [carryEq] at noBlock
  have seam := blockSeam_behind outDash noBlock
  have carried : scrubMarkers passes (kept ++ redacted) = kept ++ redacted :=
    scrubMarkers_scrubbed (settled.carried (carryEq ▸ infix_refl _))
  have scrubbed : scrubSecrets (stream.scrubber.carry ++ delta) =
      (kept ++ redacted) ++ scrubMarkers passes delta := by
    rw [scrubSecrets_eq, carryEq, scrubMarkers_seam (fun _ member => member) (tokenSeam_behind _ _),
      carried, pem_seam _ _ seam, pem_of_noBlock _ noBlock,
      pem_of_noBlock _ (noBlock_of_noDash outDash)]
  have parts := feed_parts stream delta
  have later : (stream.feed delta).scrubber.carry <:+: scrubSecrets (stream.scrubber.carry ++ delta) := by
    rw [← scrubDelta_parts]
    exact (suffix_append _ _).isInfix
  have noneLater : NoBlock (stream.feed delta).scrubber.carry := by
    refine (noBlock.append (noBlock_of_noDash outDash) seam).suffix ?_
    rw [← scrubbed, ← scrubDelta_parts]
    exact suffix_append _ _
  rw [Stream.output, finish, scrubSecrets_eq, scrubMarkers_scrubbed later,
    pem_of_noBlock _ noneLater, parts, scrubbed, ← carryEq, ← append_assoc]
  exact congrArg (· ++ _) settled

/-- No step has lost what its delta goes on from, and no carry holds a block. -/
def HeldThrough (window : Nat) (deltas : List (List Char)) : Prop :=
  ∀ front back, deltas = front ++ back → NoBlock (run window front).scrubber.carry ∧
      ∀ delta rest, back = delta :: rest →
        Nonempty (Hold front.flatten (run window front).scrubber.carry delta)

/-- In every state of a stream that holds what goes on, what is carried is scrubbed. -/
theorem run_settled {window : Nat} {deltas : List (List Char)} (held : HeldThrough window deltas)
    {front back : List (List Char)} (cut : deltas = front ++ back) :
    Settled (run window front) front.flatten := by
  induction front using reverseRecOn generalizing back with
  | nil => exact settled_new window
  | append_singleton front delta ih =>
    rw [append_assoc] at cut
    obtain ⟨noBlock, holds⟩ := held front ([delta] ++ back) cut
    obtain ⟨hold⟩ := holds delta back rfl
    rw [run_concat, flatten_append, flatten_singleton]
    exact feed_settled (ih cut) noBlock hold

/-- A stream that holds what goes on gives in every state the scrubbed text, and has
emitted nothing else. A delta with the rest of a token whose beginning is scrubbed already
is let through. -/
theorem output_scrubbed {window : Nat} {deltas : List (List Char)} :
    (HeldThrough window deltas → ∀ front back, deltas = front ++ back →
      (run window front).output = scrubSecrets front.flatten ∧
        (run window front).emitted <+: scrubSecrets front.flatten) ∧
    ∀ front delta back kept, deltas = front ++ delta :: back →
      Settled (run window front) front.flatten → NoBlock (run window front).scrubber.carry →
      (run window front).scrubber.carry = kept ++ redacted → delta ≠ [] → '-' ∉ delta →
      scrubSecrets (front.flatten ++ delta) = scrubSecrets front.flatten →
      (run window (front ++ [delta])).output ≠ scrubSecrets (front ++ [delta]).flatten := by
  constructor
  · intro held front back cut
    have settled := run_settled held cut
    exact ⟨finish_settled settled (held front back cut).1, settled ▸ prefix_append _ _⟩
  · intro front delta back kept _ settled noBlock carryEq some noDash taken
    rw [run_concat, cut_token_output settled noBlock carryEq noDash, flatten_append,
      flatten_singleton, taken]
    intro same
    exact scrubMarkers_ne_nil some (append_right_eq_self.mp same)

/-- The prefix of a key. -/
def keyStart : List Char := "sk-".toList

theorem keyStart_first : ∃ others, passes = keyStart :: others ∧
    (∀ marker ∈ others, ¬ marker <:+: keyStart) ∧ ∀ marker ∈ others, ¬ marker <:+: redacted := by
  refine ⟨passes.tail, ?_⟩
  decide +kernel

/-- A key is scrubbed, and its prefix alone is not. -/
theorem scrubSecrets_key {token : List Char} (all : token.all isSecretChar = true) :
    scrubSecrets (keyStart ++ token) = if token = [] then keyStart else redacted := by
  obtain ⟨others, order, absent, absentRedacted⟩ := keyStart_first
  have step : scrubMarkers passes (keyStart ++ token) =
      scrubMarkers others (scrubAfterMarker keyStart (keyStart ++ token)) := by rw [order]; rfl
  have alone := takeWhile_append_of_all all (show [].head?.any isSecretChar = false from rfl)
  rw [append_nil] at alone
  rw [scrubSecrets_eq, step, scrub_begins (by decide), alone.1, alone.2, scrub_nil]
  split
  · rename_i empty
    rw [empty, scrub_nil, append_nil, scrubMarkers_absent absent]
    exact pem_none (find_eq_none_iff.mpr (by decide))
  · rw [append_nil, scrubMarkers_absent absentRedacted]
    exact pem_none (find_eq_none_iff.mpr (by decide))

/-- A short text is carried whole. -/
theorem feed_short {stream : Stream} {delta scrubbed : List Char}
    (same : scrubSecrets (stream.scrubber.carry ++ delta) = scrubbed)
    (short : byteLength scrubbed ≤ stream.scrubber.window) :
    stream.feed delta = ⟨stream.emitted, scrubbed, stream.scrubber.window⟩ := by
  have step : scrubDelta stream.scrubber delta = ([], ⟨scrubbed, stream.scrubber.window⟩) := by
    rw [scrubDelta, same]
    exact if_neg (Nat.not_lt.mpr short)
  rw [Stream.feed, step, append_nil]

/-- A delta begins a stream. -/
theorem run_short {delta scrubbed : List Char} (same : scrubSecrets delta = scrubbed)
    (short : byteLength scrubbed ≤ 64) : run 64 [delta] = ⟨[], scrubbed, 64⟩ :=
  feed_short same short

/-- The beginning of a key is carried as its redaction. -/
theorem run_cut_key : run 64 [keyStart ++ "abc".toList] = ⟨[], redacted, 64⟩ ∧
    Settled (run 64 [keyStart ++ "abc".toList]) (keyStart ++ "abc".toList) := by
  have beginning : scrubSecrets (keyStart ++ "abc".toList) = redacted := scrubSecrets_key (by decide)
  have first := run_short beginning (by decide)
  rw [first]
  exact ⟨rfl, beginning.symm⟩

theorem heldThrough_key : HeldThrough 64 [keyStart, "ab".toList] := by
  have bare : scrubSecrets keyStart = keyStart := by
    have scrubbed := @scrubSecrets_key [] rfl
    rw [append_nil] at scrubbed
    exact scrubbed
  have whole : scrubSecrets (keyStart ++ "ab".toList) = redacted := scrubSecrets_key (by decide)
  have first : run 64 [keyStart] = ⟨[], keyStart, 64⟩ := run_short bare (by decide)
  have second : run 64 [keyStart, "ab".toList] = ⟨[], redacted, 64⟩ := by
    have step := run_concat 64 [keyStart] "ab".toList
    rw [first] at step
    exact step.trans (feed_short whole (by decide))
  intro front back cut
  match front with
  | [] => exact ⟨noBlock_of_absent (by decide), fun delta rest _ => ⟨Hold.whole [] delta⟩⟩
  | [single] =>
    obtain ⟨rfl, _⟩ := List.cons.inj cut
    rw [first]
    exact ⟨noBlock_of_absent (by decide), fun delta rest _ => ⟨Hold.whole keyStart delta⟩⟩
  | [single, other] =>
    obtain ⟨rfl, later⟩ := List.cons.inj cut
    obtain ⟨rfl, empty⟩ := List.cons.inj later
    rw [second]
    refine ⟨noBlock_of_absent (by decide), ?_⟩
    rintro delta rest rfl
    cases empty
  | _ :: _ :: _ :: _ => simp at cut

/-- A key is scrubbed when its prefix comes before its token, and not when the token is
cut. -/
theorem output_scrubbed_key :
    (run 64 [keyStart, "ab".toList]).output = scrubSecrets [keyStart, "ab".toList].flatten ∧
      (run 64 ([keyStart ++ "abc".toList] ++ ["def".toList])).output ≠
        scrubSecrets ([keyStart ++ "abc".toList] ++ ["def".toList]).flatten := by
  obtain ⟨first, settled⟩ := run_cut_key
  have beginning : scrubSecrets (keyStart ++ "abc".toList) = redacted := scrubSecrets_key (by decide)
  have whole : scrubSecrets (keyStart ++ "abc".toList ++ "def".toList) = redacted :=
    @scrubSecrets_key "abcdef".toList (by decide)
  refine ⟨(output_scrubbed.1 heldThrough_key [keyStart, "ab".toList] [] rfl).1, ?_⟩
  refine output_scrubbed.2 [keyStart ++ "abc".toList] "def".toList [] [] rfl settled ?_ ?_
    (by decide) (by decide) (whole.trans beginning.symm)
  · rw [first]
    exact noBlock_of_absent (by decide)
  · rw [first]
    rfl

/-- The rest of a key that is cut within its token is let through. -/
theorem cut_key_shown :
    (run 64 [keyStart ++ "abc".toList, "def".toList]).output = redacted ++ "def".toList ∧
      scrubSecrets [keyStart ++ "abc".toList, "def".toList].flatten = redacted := by
  obtain ⟨first, settled⟩ := run_cut_key
  have beginning : scrubSecrets (keyStart ++ "abc".toList) = redacted := scrubSecrets_key (by decide)
  have plain : scrubMarkers passes "def".toList = "def".toList := by
    apply scrubMarkers_absent
    decide +kernel
  constructor
  · have step := run_concat 64 [keyStart ++ "abc".toList] "def".toList
    rw [first] at step settled
    have shown := @cut_token_output _ _ "def".toList [] settled (noBlock_of_absent (by decide)) rfl
      (by decide)
    rw [beginning, plain] at shown
    exact (congrArg Stream.output step).trans shown
  · exact @scrubSecrets_key "abcdef".toList (by decide)

end Asterel.StreamingScrub
