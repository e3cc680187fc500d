import Asterel.Core.MessagePaging
import Asterel.Library.Streak
import Mathlib.Algebra.GroupWithZero.Nat

/-!
# The end of a transcript within a token limit

The newest messages of a session are read in windows of 32, 64, 128, ... rows until the
messages selected from a window leave one of its rows out, or the window holds the whole
session. What is selected then is what would be selected from all messages. A limit of
zero selects nothing, also where the newest message alone would exceed the limit.
-/

namespace Asterel.Sessions

open Library OrderedTable List

/-- `usize::MAX`. -/
def maxUsize : Nat := 2 ^ 64 - 1

/-- `usize::saturating_add`. -/
def saturatingAdd (first second : Nat) : Nat := min (first + second) maxUsize

/-- `usize::saturating_mul`. -/
def saturatingMul (first second : Nat) : Nat := min (first * second) maxUsize

structure TranscriptMessage (Part : Type) where
  message : ChatMessage
  parts : List Part

variable {Part : Type}

section Reading

/-- Every message takes its parts out of the map. -/
def assembleTranscript : List ChatMessage → (String → Option (List Part)) →
    List (TranscriptMessage Part)
  | [], _ => []
  | message :: rest, partsByMessage =>
    ⟨message, (partsByMessage message.id).getD []⟩ ::
      assembleTranscript rest (Function.update partsByMessage message.id none)

/-- The parts of the messages, grouped by the message in the order of the rows. -/
def getMessagePartsByIds (parentOf : Part → String) (parts : List Part) (messageIds : List String)
    (id : String) : Option (List Part) :=
  let rows := parts.filter fun part => parentOf part ∈ messageIds ∧ parentOf part = id
  if rows.isEmpty then none else some rows

def getTranscriptForMessages (parentOf : Part → String) (parts : List Part)
    (messages : List ChatMessage) : List (TranscriptMessage Part) :=
  assembleTranscript messages
    (getMessagePartsByIds parentOf parts (messages.map ChatMessage.id))

/-- The newest rows of the session, `ORDER BY created_at DESC LIMIT`, in the order of their
instants. -/
def Store.getMessagesLimited (store : Store) (sessionId : String) (limit : Nat) :
    Except String (List ChatMessage) :=
  if maxI64 < limit then
    .error "message limit conversion failed: out of range integral type conversion attempted"
  else
    let rows := (ordered (OrderDual.toDual ∘ ChatMessage.createdAt)
      (store.chatMessages.filter (·.sessionId = sessionId))).take limit
    .ok (ordered ChatMessage.createdAt rows.reverse)

/-- The database takes the limit. -/
theorem Store.limit_le {store : Store} {sessionId : String} {limit : Nat}
    {messages : List ChatMessage} (read : store.getMessagesLimited sessionId limit = .ok messages) :
    limit ≤ maxI64 := by
  rw [Store.getMessagesLimited] at read
  split at read
  · cases read
  · omega

/-- The loop over the messages from the newest on. -/
def selectTail (maxTokens : Nat) : Nat → List ChatMessage → List ChatMessage → List ChatMessage
  | _, selected, [] => selected
  | total, selected, message :: older =>
    let tokens := message.estimatedTokens
    if selected ≠ [] ∧ maxTokens < saturatingAdd total tokens then selected
    else selectTail maxTokens (saturatingAdd total tokens) (selected ++ [message]) older

def tailMessagesWithinTokenLimit (messages : List ChatMessage) (maxTokens : Nat) :
    List ChatMessage :=
  if maxTokens = 0 ∨ messages = [] then []
  else (selectTail maxTokens 0 [] messages.reverse).reverse

/-- The loop over the windows. -/
def tailWindows (store : Store) (sessionId : String) (parentOf : Part → String)
    (parts : List Part) (maxTokens limit : Nat) :
    Except String (List (TranscriptMessage Part)) :=
  match _read : store.getMessagesLimited sessionId limit with
  | .error error => .error error
  | .ok messages =>
    if messages = [] then .ok []
    else
      let selected := tailMessagesWithinTokenLimit messages maxTokens
      if messages.length < limit ∨ selected.length < messages.length then
        .ok (getTranscriptForMessages parentOf parts selected)
      else
        let nextLimit := saturatingMul limit 2
        if nextLimit = limit then .ok (getTranscriptForMessages parentOf parts selected)
        else tailWindows store sessionId parentOf parts maxTokens nextLimit
-- a limit that is doubled is one that the database took, so it is far below the maximum
termination_by maxUsize - limit
decreasing_by
  rename_i other
  have bound := store.limit_le _read
  simp only [nextLimit, saturatingMul, maxUsize, maxI64] at other bound ⊢
  omega

def getTranscriptTailByTokens (store : Store) (sessionId : String) (parentOf : Part → String)
    (parts : List Part) (maxTokens : Nat) : Except String (List (TranscriptMessage Part)) :=
  if maxTokens = 0 then .ok [] else tailWindows store sessionId parentOf parts maxTokens 32

end Reading

section Selection

variable {maxTokens : Nat}
variable (messages : List ChatMessage)

/-- The estimated tokens of the messages, added up as the machine adds them. -/
def transcriptTokens (messages : List ChatMessage) : Nat :=
  messages.foldl (fun total message => saturatingAdd total message.estimatedTokens) 0

def tokenSum (messages : List ChatMessage) : Nat :=
  (messages.map ChatMessage.estimatedTokens).sum

theorem saturatingAdd_min (first second : Nat) :
    saturatingAdd (min first maxUsize) second = min (first + second) maxUsize := by
  rw [saturatingAdd]
  omega

theorem transcriptTokens_eq :
    transcriptTokens messages = min (tokenSum messages) maxUsize := by
  have added (total : Nat) : messages.foldl
      (fun total message => saturatingAdd total message.estimatedTokens) (min total maxUsize) =
        min (total + tokenSum messages) maxUsize := by
    induction messages generalizing total with
    | nil => rfl
    | cons message rest ih =>
      rw [foldl_cons, saturatingAdd_min, ih, tokenSum, tokenSum, map_cons, sum_cons, Nat.add_assoc]
  have start := added 0
  rwa [Nat.zero_add] at start

/-- More messages have no fewer tokens, whatever their order. -/
theorem transcriptTokens_mono {messages others : List ChatMessage}
    (subset : tokenSum messages ≤ tokenSum others) :
    transcriptTokens messages ≤ transcriptTokens others := by
  rw [transcriptTokens_eq, transcriptTokens_eq]
  omega

@[simp] theorem tokenSum_append (others : List ChatMessage) :
    tokenSum (messages ++ others) = tokenSum messages + tokenSum others := by
  rw [tokenSum, map_append, sum_append, tokenSum, tokenSum]

@[simp] theorem tokenSum_reverse :
    tokenSum messages.reverse = tokenSum messages := by
  rw [tokenSum, map_reverse, sum_reverse, tokenSum]

/-- The loop takes messages until the next one does not fit. -/
theorem selectTail_parts (selected newest : List ChatMessage) (some : selected ≠ []) :
    ∃ taken rest, newest = taken ++ rest ∧
      selectTail maxTokens (transcriptTokens selected) selected newest = selected ++ taken ∧
      (transcriptTokens selected ≤ maxTokens → transcriptTokens (selected ++ taken) ≤ maxTokens) ∧
      (maxTokens < transcriptTokens selected → taken = []) ∧
      ∀ next ∈ rest.head?, maxTokens < transcriptTokens (selected ++ taken ++ [next]) := by
  induction newest generalizing selected with
  | nil =>
    refine ⟨[], [], rfl, (append_nil _).symm, ?_, fun _ => rfl, ?_⟩
    · rw [append_nil]
      exact id
    · intro next first
      cases first
  | cons message older ih =>
    have total : saturatingAdd (transcriptTokens selected) message.estimatedTokens =
        transcriptTokens (selected ++ [message]) := by
      rw [transcriptTokens, transcriptTokens, foldl_append]
      rfl
    have grows : transcriptTokens selected ≤ transcriptTokens (selected ++ [message]) :=
      transcriptTokens_mono (by rw [tokenSum_append]; omega)
    rw [selectTail, total]
    by_cases exceeds : maxTokens < transcriptTokens (selected ++ [message])
    · rw [if_pos ⟨some, exceeds⟩]
      refine ⟨[], message :: older, rfl, (append_nil _).symm, ?_, fun _ => rfl, ?_⟩
      · rw [append_nil]
        exact id
      · intro next first
        cases first
        rw [append_nil]
        exact exceeds
    · obtain ⟨taken, rest, parts, result, fits, _, stops⟩ :=
        ih (selected ++ [message]) (by simp)
      rw [if_neg fun both => exceeds both.2]
      refine ⟨message :: taken, rest, by rw [parts]; rfl, ?_, ?_, ?_, ?_⟩
      · rw [result, append_assoc]
        rfl
      · intro _
        rw [append_assoc] at fits
        exact fits (by omega)
      · intro large
        omega
      · intro next first
        have large := stops next first
        rwa [append_assoc selected [message] taken] at large

/-- A window that leaves a message out decides for all older messages. -/
theorem selectTail_take (size total : Nat) (selected newest : List ChatMessage)
    (leaves : (selectTail maxTokens total selected (newest.take size)).length <
      selected.length + (newest.take size).length) :
    selectTail maxTokens total selected newest =
      selectTail maxTokens total selected (newest.take size) := by
  induction newest generalizing size total selected with
  | nil => rw [take_nil]
  | cons message older ih =>
    cases size with
    | zero => simp [selectTail] at leaves
    | succ size =>
      rw [take_succ_cons] at leaves ⊢
      rw [selectTail] at leaves ⊢
      rw [selectTail]
      split
      · rfl
      · rename_i continues
        rw [if_neg continues] at leaves
        apply ih
        simp only [length_append, length_cons, length_nil] at leaves ⊢
        omega

/-- The longest suffix within the limit, or the newest message alone where that one
exceeds it. -/
structure BudgetedTail (maxTokens : Nat) (messages selected : List ChatMessage) : Prop where
  exceeding : ∀ newest ∈ messages.getLast?, maxTokens < transcriptTokens [newest] →
    selected = [newest]
  longest : (∀ newest ∈ messages.getLast?, transcriptTokens [newest] ≤ maxTokens) →
    selected <:+ messages ∧ transcriptTokens selected ≤ maxTokens ∧
      ∀ suffix, suffix <:+ messages → transcriptTokens suffix ≤ maxTokens →
        suffix.length ≤ selected.length

/-- The first message is taken whatever it costs, the others while they fit. -/
theorem tailMessages_parts (positive : 0 < maxTokens) {messages : List ChatMessage}
    {newest : ChatMessage} {older : List ChatMessage} (order : messages.reverse = newest :: older) :
    ∃ taken rest, older = taken ++ rest ∧
      tailMessagesWithinTokenLimit messages maxTokens = (newest :: taken).reverse ∧
      (transcriptTokens [newest] ≤ maxTokens → transcriptTokens (newest :: taken) ≤ maxTokens) ∧
      (maxTokens < transcriptTokens [newest] → taken = []) ∧
      ∀ next ∈ rest.head?, maxTokens < transcriptTokens (newest :: taken ++ [next]) := by
  obtain ⟨taken, rest, parts, result, fits, alone, stops⟩ :=
    @selectTail_parts maxTokens [newest] older (by simp)
  refine ⟨taken, rest, parts, ?_, fits, alone, stops⟩
  have nonempty : messages ≠ [] := by
    rintro rfl
    cases order
  have start : selectTail maxTokens 0 [] (newest :: older) =
      selectTail maxTokens (transcriptTokens [newest]) [newest] older := by
    rw [selectTail, if_neg fun both => both.1 rfl]
    rfl
  rw [tailMessagesWithinTokenLimit, if_neg (by simp [nonempty, positive.ne']), order, start, result]
  rfl

theorem tailMessages_budgeted (positive : 0 < maxTokens) (messages : List ChatMessage) :
    BudgetedTail maxTokens messages (tailMessagesWithinTokenLimit messages maxTokens) := by
  cases order : messages.reverse with
  | nil =>
    rw [reverse_eq_nil_iff] at order
    subst order
    have none : tailMessagesWithinTokenLimit [] maxTokens = [] := if_pos (.inr rfl)
    rw [none]
    refine ⟨fun newest last => absurd last (by simp), fun _ => ?_⟩
    refine ⟨suffix_rfl, Nat.zero_le _, ?_⟩
    intro suffix inside _
    exact inside.length_le
  | cons newest older =>
    have last : messages.getLast? = some newest := by
      rw [← head?_reverse, order]
      rfl
    have whole : messages = (newest :: older).reverse := by rw [← order, reverse_reverse]
    obtain ⟨taken, rest, parts, result, fits, alone, stops⟩ := tailMessages_parts positive order
    rw [result]
    constructor
    · intro other isLast exceeds
      rw [last, Option.mem_some_iff] at isLast
      subst isLast
      rw [alone exceeds]
      rfl
    · intro newestFits
      have listFits := fits (newestFits newest (by rw [last]; rfl))
      refine ⟨?_, ?_, ?_⟩
      · rw [whole, parts, reverse_suffix]
        exact ⟨rest, rfl⟩
      · rw [transcriptTokens_eq, tokenSum_reverse, ← transcriptTokens_eq]
        exact listFits
      · intro suffix inside suffixFits
        by_contra longer
        rw [length_reverse, Nat.not_le] at longer
        -- a longer suffix holds the message that the loop stopped at
        have front : suffix.reverse <+: newest :: taken ++ rest := by
          rw [← reverse_suffix, reverse_reverse, cons_append, ← parts, ← whole]
          exact inside
        have begins : newest :: taken <+: suffix.reverse :=
          prefix_of_prefix_length_le (prefix_append _ _) front
            (by rw [length_reverse]; omega)
        obtain ⟨more, split⟩ := begins
        rw [← split, prefix_append_right_inj] at front
        cases more with
        | nil =>
          have length := congrArg List.length split
          rw [append_nil, length_reverse] at length
          omega
        | cons next others =>
          obtain ⟨beyond, rfl⟩ := front
          have large := stops next rfl
          have sum := congrArg tokenSum split
          rw [tokenSum_reverse, tokenSum_append] at sum
          have grows : transcriptTokens (newest :: taken ++ [next]) ≤ transcriptTokens suffix := by
            apply transcriptTokens_mono
            rw [tokenSum_append, ← sum]
            simp [tokenSum]
          omega

theorem tailMessages_zero :
    tailMessagesWithinTokenLimit messages 0 = [] := if_pos (.inl rfl)

theorem tailMessages_nil : tailMessagesWithinTokenLimit [] maxTokens = [] := if_pos (.inr rfl)

end Selection

section Windows

variable {maxTokens : Nat}
variable {limit : Nat} {store : Store} {sessionId : String}

/-- What is selected from a window is what is selected from all messages, if the window
leaves a message out of the selection. -/
theorem tailMessages_rtake {messages : List ChatMessage}
    (leaves : (tailMessagesWithinTokenLimit (messages.rtake limit) maxTokens).length <
      (messages.rtake limit).length) :
    tailMessagesWithinTokenLimit messages maxTokens =
      tailMessagesWithinTokenLimit (messages.rtake limit) maxTokens := by
  by_cases zero : maxTokens = 0
  · rw [zero, tailMessages_zero, tailMessages_zero]
  · have window : messages.rtake limit ≠ [] := by
      intro empty
      rw [empty] at leaves
      exact absurd leaves (Nat.not_lt_zero _)
    have nonempty : messages ≠ [] := by
      rintro rfl
      exact window (rtake_nil limit)
    have newest : (messages.rtake limit).reverse = messages.reverse.take limit := by
      rw [rtake_eq_reverse_take_reverse, reverse_reverse]
    have length : (messages.rtake limit).length = (messages.reverse.take limit).length := by
      rw [← newest, length_reverse]
    rw [tailMessagesWithinTokenLimit, if_neg (by simp [zero, window]), newest,
      length_reverse, length] at leaves
    rw [tailMessagesWithinTokenLimit, if_neg (by simp [zero, nonempty]),
      tailMessagesWithinTokenLimit, if_neg (by simp [zero, window]), newest]
    congr 1
    apply selectTail_take
    simpa using leaves

/-- The instants of the messages of the session are distinct. -/
def DistinctInstants (store : Store) (sessionId : String) : Prop :=
  ((store.chatMessages.filter (·.sessionId = sessionId)).map ChatMessage.createdAt).Nodup

/-- A window is the end of the session. -/
theorem Store.getMessagesLimited_eq
    (distinct : DistinctInstants store sessionId) (small : limit ≤ maxI64) :
    store.getMessagesLimited sessionId limit = .ok ((store.getMessages sessionId).rtake limit) := by
  have backwards := @ordered_dual _ _ _ ChatMessage.createdAt
    (store.chatMessages.filter (·.sessionId = sessionId))
    fun _ inFirst _ inSecond same => inj_on_of_nodup_map distinct inFirst inSecond same
  have sorted : ((store.getMessages sessionId).rtake limit).Pairwise fun first second =>
      first.createdAt ≤ second.createdAt :=
    (ordered_pairwise _).sublist (drop_sublist _ _)
  rw [Store.getMessagesLimited, if_neg (by omega)]
  dsimp only
  rw [backwards, ← rtake_eq_reverse_take_reverse]
  exact congrArg Except.ok (ordered_eq_self sorted)

/-- The loop ends with the selection from all messages. -/
theorem tailWindows_eq {parentOf : Part → String}
    {parts : List Part} (distinct : DistinctInstants store sessionId)
    (fits : (store.getMessages sessionId).length ≤ maxI64 / 2) (positive : 0 < limit)
    (small : limit ≤ maxI64) :
    tailWindows store sessionId parentOf parts maxTokens limit =
      .ok (getTranscriptForMessages parentOf parts
        (tailMessagesWithinTokenLimit (store.getMessages sessionId) maxTokens)) := by
  induction measure : maxUsize - limit using Nat.strong_induction_on generalizing limit with
  | _ measure ih =>
    have read := Store.getMessagesLimited_eq distinct small
    rw [tailWindows]
    split
    · rename_i error failed
      rw [read] at failed
      cases failed
    · rename_i messages got
      rw [read] at got
      cases got
      have length := Streak.length_rtake (store.getMessages sessionId) limit
      split
      · rename_i empty
        have none : store.getMessages sessionId = [] := by
          rw [empty, length_nil] at length
          exact eq_nil_of_length_eq_zero (by omega)
        rw [none, tailMessages_nil]
        rfl
      · dsimp only
        split
        · rename_i stops
          by_cases leaves : (tailMessagesWithinTokenLimit
              ((store.getMessages sessionId).rtake limit) maxTokens).length <
                ((store.getMessages sessionId).rtake limit).length
          · rw [tailMessages_rtake leaves]
          · have whole : (store.getMessages sessionId).rtake limit =
                store.getMessages sessionId := by
              rw [rtake, show (store.getMessages sessionId).length - limit = 0 by omega, drop_zero]
            rw [whole]
        · rename_i continues
          have doubled : saturatingMul limit 2 = limit * 2 := by
            simp only [saturatingMul, maxUsize, maxI64] at fits ⊢
            omega
          rw [doubled, if_neg (by omega)]
          refine ih _ ?_ (by omega) (by omega) rfl
          simp only [maxUsize, maxI64] at fits small measure ⊢
          omega

end Windows

/-- A vector of all messages has no more than `isize::MAX` bytes, and a message has more
than one. -/
def FitsVector (messages : List ChatMessage) : Prop := 2 * messages.length ≤ maxI64

instance (messages : List ChatMessage) : Decidable (FitsVector messages) :=
  inferInstanceAs (Decidable (_ ≤ _))

/-- The parts do not change the messages. -/
theorem map_message_assembleTranscript (messages : List ChatMessage)
    (partsByMessage : String → Option (List Part)) :
    (assembleTranscript messages partsByMessage).map TranscriptMessage.message = messages := by
  induction messages generalizing partsByMessage with
  | nil => rfl
  | cons message rest ih =>
    rw [assembleTranscript, map_cons, ih]

/-- The messages that the windows yield are those selected from all messages of the session,
and above a limit of zero they are the longest suffix within the limit. -/
theorem transcriptTail_eq (store : Store) (sessionId : String) (parentOf : Part → String)
    (parts : List Part) (maxTokens : Nat) (distinct : DistinctInstants store sessionId)
    (fits : FitsVector (store.getMessages sessionId)) :
    ∃ transcript, getTranscriptTailByTokens store sessionId parentOf parts maxTokens =
        .ok transcript ∧
      transcript.map TranscriptMessage.message =
        tailMessagesWithinTokenLimit (store.getMessages sessionId) maxTokens ∧
      (maxTokens = 0 → transcript = []) ∧
      (0 < maxTokens → BudgetedTail maxTokens (store.getMessages sessionId)
        (transcript.map TranscriptMessage.message)) := by
  have messages := map_message_assembleTranscript
    (tailMessagesWithinTokenLimit (store.getMessages sessionId) maxTokens)
    (getMessagePartsByIds parentOf parts
      ((tailMessagesWithinTokenLimit (store.getMessages sessionId) maxTokens).map ChatMessage.id))
  refine ⟨getTranscriptForMessages parentOf parts
    (tailMessagesWithinTokenLimit (store.getMessages sessionId) maxTokens), ?_, messages, ?_, ?_⟩
  · rw [getTranscriptTailByTokens]
    split
    · rename_i zero
      rw [zero, tailMessages_zero]
      rfl
    · rw [FitsVector] at fits
      exact tailWindows_eq distinct (by omega) (by decide) (by decide)
  · rintro rfl
    rw [tailMessages_zero]
    rfl
  · intro positive
    rw [getTranscriptForMessages, messages]
    exact tailMessages_budgeted positive _

section Samples

/-- A message with a count of its tokens. -/
def countedMessage (id createdAt : String) (tokens : Nat) : ChatMessage :=
  ⟨id, "session", .user, "", some tokens, none, createdAt⟩

/-- A session of two messages. -/
def twoMessages : Store :=
  ⟨[], [countedMessage "1" "2026-01-01" 5, countedMessage "2" "2026-01-02" 7], by decide⟩

theorem transcriptTail_eq_two :
    DistinctInstants twoMessages "session" ∧ FitsVector (twoMessages.getMessages "session") ∧
      ∃ transcript, getTranscriptTailByTokens twoMessages "session" (fun part : String => part) []
          7 = .ok transcript ∧
        transcript.map TranscriptMessage.message =
          tailMessagesWithinTokenLimit (twoMessages.getMessages "session") 7 ∧
        (7 = 0 → transcript = []) ∧
        (0 < 7 → BudgetedTail 7 (twoMessages.getMessages "session")
          (transcript.map TranscriptMessage.message)) :=
  have distinct : DistinctInstants twoMessages "session" := by
    rw [DistinctInstants]
    decide
  ⟨distinct, by decide, transcriptTail_eq twoMessages "session" _ [] 7 distinct (by decide)⟩

/-- With a limit of zero the newest message does not come although it exceeds the limit, and
with the largest limit three messages come whose tokens add up to more. -/
theorem zero_limit_selects_nothing :
    (getTranscriptTailByTokens twoMessages "session" (fun part : String => part) [] 0 = .ok [] ∧
      ¬ BudgetedTail 0 (twoMessages.getMessages "session") []) ∧
    maxUsize < tokenSum (tailMessagesWithinTokenLimit
      [countedMessage "1" "2026-01-01" maxI64, countedMessage "2" "2026-01-02" maxI64,
        countedMessage "3" "2026-01-03" maxI64] maxUsize) := by
  refine ⟨⟨rfl, ?_⟩, by decide⟩
  intro budgeted
  have newest := budgeted.exceeding (countedMessage "2" "2026-01-02" 7) (by decide) (by decide)
  cases newest

end Samples

end Asterel.Sessions
