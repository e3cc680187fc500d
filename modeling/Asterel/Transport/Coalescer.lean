import Asterel.Library.Drain
import Asterel.Security.Permissions

/-!
# Coalescing channel messages

The coalescer merges messages of one sender that follow each other within a window
of time. It looks ahead: while the window is open and the group is not full it takes
the next event, and an event that does not belong to the group is pushed back and
begins the next one.

Whatever the timing, the outputs are made of consecutive groups of the input, and
nothing but the one event that was pushed back waits between two calls. A wait for
the channel either receives its next event or ends without one, and which of the two
happens at each wait is an argument.
-/

namespace Asterel.Coalescer

open Library List
open Asterel.Permissions (trimmed)

inductive MediaContent where
  | url (url : String)
  | bytes (bytes : List UInt8)

structure MediaAttachment where
  mimeType : String
  data : MediaContent
  filename : Option String

structure ChannelMessage where
  id : String
  sender : String
  content : String
  channel : String
  contextHint : Option String
  conversationId : Option String
  threadId : Option String
  replyTo : Option String
  messageId : Option String
  timestamp : Nat
  attachments : List MediaAttachment

inductive ChannelEvent where
  | message (message : ChannelMessage)
  | reactionAdd (channelName channelId messageId userId emoji : String)
  | reactionRemove (channelName channelId messageId userId emoji : String)
  | messageEdit (channelName channelId messageId newContent userId : String)
  | messageDelete (channelName channelId messageId : String)
  | typingStart (channelName channelId userId : String)

structure CoalescingKey where
  channel : String
  sender : String
  conversationId : Option String
  threadId : Option String
  replyTo : Option String
deriving DecidableEq

def CoalescingKey.fromMessage (message : ChannelMessage) : CoalescingKey :=
  ⟨message.channel, message.sender, message.conversationId, message.threadId, message.replyTo⟩

structure ChannelsConfig where
  coalescingWindowMs : Nat
  coalescingMaxMessages : Nat

/-- Events that were taken too early, the window and the size of a full group. -/
structure MessageCoalescer where
  pending : List ChannelEvent
  window : Nat
  maxMessages : Nat

def MessageCoalescer.fromConfig (config : ChannelsConfig) : MessageCoalescer :=
  ⟨[], config.coalescingWindowMs, max config.coalescingMaxMessages 1⟩

section Merging

/-- Append the trimmed content in a line of its own, unless one of the two is blank. -/
def mergeContent (content incoming : String) : String :=
  if trimmed incoming = "" then content
  else if trimmed content = "" then content ++ trimmed incoming
  else content ++ "\n" ++ trimmed incoming

def mergeMessage (base incoming : ChannelMessage) : ChannelMessage :=
  { base with
    content := mergeContent base.content incoming.content
    timestamp := max base.timestamp incoming.timestamp
    attachments := base.attachments ++ incoming.attachments }

end Merging

section Calls

/-- The next event of an open or closed channel, if a wait that may end early
receives it. -/
def recvWithin (received : Bool) (rx : List ChannelEvent) :
    Option ChannelEvent × List ChannelEvent :=
  match received, rx with
  | true, event :: rest => (some event, rest)
  | _, rx => (none, rx)

/-- The event to look at next, with what is pending and to come after it. -/
def nextCandidate (received : Bool) (pending rx : List ChannelEvent) :
    Option ChannelEvent × List ChannelEvent × List ChannelEvent :=
  match pending with
  | event :: rest => (some event, rest, rx)
  | [] =>
    let waited := recvWithin received rx
    (waited.1, [], waited.2)

/-- Go on with a group that has room for more messages. -/
def collectWithinWindow (key : CoalescingKey) (received : Nat → Bool) :
    (room : Nat) → (merged : ChannelMessage) → (pending rx : List ChannelEvent) →
      ChannelMessage × List ChannelEvent × List ChannelEvent
  | 0, merged, pending, rx => (merged, pending, rx)
  | room + 1, merged, pending, rx =>
    match nextCandidate (received room) pending rx with
    | (none, pending, rx) => (merged, pending, rx)
    | (some (.message message), pending, rx) =>
      if CoalescingKey.fromMessage message = key then
        collectWithinWindow key received room (mergeMessage merged message) pending rx
      else (merged, .message message :: pending, rx)
    | (some other, pending, rx) => (merged, other :: pending, rx)

/-- The coalescer and the events that are still to come before the channel closes.
The number of calls made is bookkeeping of the model. -/
structure Stream where
  coalescer : MessageCoalescer
  rx : List ChannelEvent
  calls : Nat

def Stream.new (config : ChannelsConfig) (events : List ChannelEvent) : Stream :=
  ⟨.fromConfig config, events, 0⟩

/-- The event a call begins with; without a deadline it waits for the channel. -/
def Stream.base (stream : Stream) : Option (ChannelEvent × List ChannelEvent × List ChannelEvent) :=
  match stream.coalescer.pending, stream.rx with
  | event :: rest, rx => some (event, rest, rx)
  | [], event :: rx => some (event, [], rx)
  | [], [] => none

def Stream.after (stream : Stream) (pending rx : List ChannelEvent) : Stream :=
  ⟨{ stream.coalescer with pending }, rx, stream.calls + 1⟩

/-- One call; whether a wait of it receives an event depends on the call and on the
room left. -/
def nextEvent (received : Nat → Nat → Bool) (stream : Stream) : Option (ChannelEvent × Stream) :=
  match stream.base with
  | none => none
  | some (.message message, pending, rx) =>
    if stream.coalescer.window = 0 ∨ stream.coalescer.maxMessages ≤ 1 ∨ message.channel = "cli" then
      some (.message message, stream.after pending rx)
    else
      let collected := collectWithinWindow (.fromMessage message) (received stream.calls)
        (stream.coalescer.maxMessages - 1) message pending rx
      some (.message collected.1, stream.after collected.2.1 collected.2.2)
  | some (other, pending, rx) => some (other, stream.after pending rx)

end Calls

section Specification

/-- A base content and the trimmed non-blank contents of the rest, one a line. -/
def coalescedContent (base : String) (rest : List String) : String :=
  let lines := (rest.map trimmed).filter (· ≠ "")
  if trimmed base = "" then base ++ String.intercalate "\n" lines
  else String.intercalate "\n" (base :: lines)

/-- The message that a base and the messages after it make together. -/
def coalesced (base : ChannelMessage) (rest : List ChannelMessage) : ChannelMessage :=
  { base with
    content := coalescedContent base.content (rest.map (·.content))
    timestamp := (rest.map (·.timestamp)).foldl max base.timestamp
    attachments := base.attachments ++ rest.flatMap (·.attachments) }

/-- An output and the events it is made of: a single event that is not a message or a
message of the command line, or messages of one key, at most as many as fit. -/
inductive Group (limit : Nat) : List ChannelEvent → ChannelEvent → Prop
  | event {event : ChannelEvent} (other : ∀ message, event ≠ .message message) :
      Group limit [event] event
  | cli {message : ChannelMessage} (commandLine : message.channel = "cli") :
      Group limit [.message message] (.message message)
  | messages {base : ChannelMessage} {rest : List ChannelMessage}
      (remote : base.channel ≠ "cli") (fits : rest.length + 1 ≤ limit)
      (same : ∀ message ∈ rest,
        CoalescingKey.fromMessage message = CoalescingKey.fromMessage base) :
      Group limit ((base :: rest).map .message) (.message (coalesced base rest))

end Specification

section Contents

variable {base line : String}

theorem trimmed_eq_empty_iff (text : String) : trimmed text = "" ↔ Text.Blank text.toList := by
  rw [← Text.trim_eq_nil_iff, trimmed, ← String.toList_inj, String.toList_ofList]
  rfl

/-- A text with a part that is not blank is not blank. -/
theorem trimmed_append_ne {front back : String} (visible : trimmed front ≠ "" ∨ trimmed back ≠ "") :
    trimmed (front ++ back) ≠ "" := by
  simp only [ne_eq, trimmed_eq_empty_iff, Text.Blank, String.toList_append, forall_mem_append,
    not_and_or] at visible ⊢
  exact visible

theorem trimmed_trimmed_ne {text : String} (visible : trimmed text ≠ "") :
    trimmed (trimmed text) ≠ "" := by
  rwa [Permissions.trimmed_trimmed]

/-- Behind a visible content every visible line is appended. -/
theorem coalescedContent_visible (visible : trimmed base ≠ "")
    (some : trimmed line ≠ "") (rest : List String) :
    coalescedContent base (line :: rest) =
      coalescedContent (base ++ "\n" ++ trimmed line) rest := by
  have more : trimmed (base ++ "\n" ++ trimmed line) ≠ "" :=
    trimmed_append_ne (.inr (trimmed_trimmed_ne some))
  simp only [coalescedContent, if_neg visible, if_neg more, map_cons]
  rw [filter_cons_of_pos (by simpa using some), String.intercalate_cons_cons]
  rw [← String.intercalate_cons_append, String.append_assoc]

/-- A blank content takes the first visible line without a break. -/
theorem coalescedContent_blank (blank : trimmed base = "")
    (some : trimmed line ≠ "") (rest : List String) :
    coalescedContent base (line :: rest) = coalescedContent (base ++ trimmed line) rest := by
  have more : trimmed (base ++ trimmed line) ≠ "" :=
    trimmed_append_ne (.inr (trimmed_trimmed_ne some))
  simp only [coalescedContent, if_pos blank, if_neg more, map_cons]
  rw [filter_cons_of_pos (by simpa using some), ← String.intercalate_cons_append]

theorem coalescedContent_cons (base line : String) (rest : List String) :
    coalescedContent base (line :: rest) = coalescedContent (mergeContent base line) rest := by
  rw [mergeContent]
  split_ifs with absent blank
  · simp only [coalescedContent, map_cons, filter_cons_of_neg, absent, ne_eq,
      not_true_eq_false, decide_false, Bool.false_eq_true, not_false_eq_true]
  · exact coalescedContent_blank blank absent rest
  · exact coalescedContent_visible blank absent rest

/-- Merging the messages one after the other makes the coalesced message. -/
theorem foldl_mergeMessage (base : ChannelMessage) (rest : List ChannelMessage) :
    rest.foldl mergeMessage base = coalesced base rest := by
  induction rest generalizing base with
  | nil =>
    have content : coalescedContent base.content [] = base.content := by
      simp [coalescedContent]
    simp [coalesced, content]
  | cons message rest ih =>
    rw [foldl_cons, ih]
    simp [coalesced, mergeMessage, coalescedContent_cons]

end Contents

section Collecting

variable (key : CoalescingKey) {pending pendingAfter rx rxAfter : List ChannelEvent}

/-- A candidate is the next event; without one nothing changes. -/
theorem nextCandidate_cases (received : Bool) (pending rx : List ChannelEvent) :
    nextCandidate received pending rx = (none, pending, rx) ∨ ∃ event pendingAfter rxAfter,
        nextCandidate received pending rx = (some event, pendingAfter, rxAfter) ∧
          pending ++ rx = event :: (pendingAfter ++ rxAfter) ∧ (pending = [] → pendingAfter = []) := by
  cases pending with
  | cons event rest => exact .inr ⟨event, rest, rx, rfl, rfl, nofun⟩
  | nil =>
    cases received with
    | false => exact .inl rfl
    | true =>
      cases rx with
      | nil => exact .inl rfl
      | cons event rest => exact .inr ⟨event, [], rest, rfl, rfl, fun _ => rfl⟩

/-- What a group took: the next messages, all of its key and no more than there was
room for. -/
structure Collected (key : CoalescingKey) (room : Nat) (merged : ChannelMessage)
    (pending rx : List ChannelEvent)
    (result : ChannelMessage × List ChannelEvent × List ChannelEvent)
    (taken : List ChannelMessage) : Prop where
  cut : pending ++ rx = taken.map .message ++ (result.2.1 ++ result.2.2)
  fits : taken.length ≤ room
  same : ∀ message ∈ taken, CoalescingKey.fromMessage message = key
  made : result.1 = taken.foldl mergeMessage merged
  short : pending = [] → result.2.1.length ≤ 1

/-- A group that takes nothing more. -/
theorem collected_nothing (room : Nat) (merged : ChannelMessage)
    (cut : pending ++ rx = pendingAfter ++ rxAfter) (short : pending = [] → pendingAfter.length ≤ 1) :
    Collected key room merged pending rx (merged, pendingAfter, rxAfter) [] :=
  ⟨cut, Nat.zero_le _, by simp, rfl, short⟩

/-- A group that takes the next message and goes on with the room that is left. -/
theorem Collected.cons {key : CoalescingKey} {room : Nat} {merged message : ChannelMessage}
    {result : ChannelMessage × List ChannelEvent × List ChannelEvent} {taken : List ChannelMessage}
    (cut : pending ++ rx = .message message :: (pendingAfter ++ rxAfter))
    (vacant : pending = [] → pendingAfter = []) (matching : CoalescingKey.fromMessage message = key)
    (collected : Collected key room (mergeMessage merged message) pendingAfter rxAfter result taken) :
    Collected key (room + 1) merged pending rx result (message :: taken) where
  cut := by rw [cut, collected.cut, map_cons, cons_append]
  fits := Nat.succ_le_succ collected.fits
  same := forall_mem_cons.mpr ⟨matching, collected.same⟩
  made := by rw [foldl_cons, collected.made]
  short empty := collected.short (vacant empty)

theorem collectWithinWindow_collected (received : Nat → Bool) (room : Nat)
    (merged : ChannelMessage) (pending rx : List ChannelEvent) :
    ∃ taken, Collected key room merged pending rx
      (collectWithinWindow key received room merged pending rx) taken := by
  induction room generalizing merged pending rx with
  | zero =>
    rw [collectWithinWindow]
    exact ⟨[], collected_nothing key 0 merged rfl (by simp +contextual)⟩
  | succ room ih =>
    rw [collectWithinWindow]
    rcases nextCandidate_cases (received room) pending rx with
      unchanged | ⟨event, pendingAfter, rxAfter, candidate, cut, vacant⟩
    · rw [unchanged]
      exact ⟨[], collected_nothing key _ merged rfl (by simp +contextual)⟩
    · rw [candidate]
      -- An event of another kind or key is pushed back.
      have pushedBack : Collected key (room + 1) merged pending rx
          (merged, event :: pendingAfter, rxAfter) [] := by
        apply collected_nothing key _ merged cut
        intro empty
        simp [vacant empty]
      cases event with
      | message message =>
        dsimp only
        split_ifs with matching
        · obtain ⟨taken, collected⟩ :=
            ih (mergeMessage merged message) pendingAfter rxAfter
          exact ⟨message :: taken, collected.cons cut vacant matching⟩
        · exact ⟨[], pushedBack⟩
      | reactionAdd => exact ⟨[], pushedBack⟩
      | reactionRemove => exact ⟨[], pushedBack⟩
      | messageEdit => exact ⟨[], pushedBack⟩
      | messageDelete => exact ⟨[], pushedBack⟩
      | typingStart => exact ⟨[], pushedBack⟩

end Collecting

section Draining

variable {stream : Stream}

/-- The events that no call has given out. -/
def Stream.unread (stream : Stream) : List ChannelEvent := stream.coalescer.pending ++ stream.rx

/-- The coalescer keeps its configuration, and at most one event waits. -/
structure Stream.Steady (config : ChannelsConfig) (stream : Stream) : Prop where
  maxMessages : stream.coalescer.maxMessages = max config.coalescingMaxMessages 1
  short : stream.coalescer.pending.length ≤ 1

/-- A call begins with the next event. -/
theorem base_eq_some {event : ChannelEvent} {pending rx : List ChannelEvent}
    (found : stream.base = some (event, pending, rx)) :
    stream.unread = event :: (pending ++ rx) ∧
      (stream.coalescer.pending.length ≤ 1 → pending = []) := by
  rw [Stream.base] at found
  rw [Stream.unread]
  cases waiting : stream.coalescer.pending with
  | cons first rest =>
    simp only [waiting] at found
    cases found
    exact ⟨rfl, fun short => length_eq_zero_iff.mp (Nat.le_zero.mp (Nat.le_of_succ_le_succ short))⟩
  | nil =>
    cases coming : stream.rx with
    | nil => simp [waiting, coming] at found
    | cons first rest =>
      simp only [waiting, coming] at found
      cases found
      exact ⟨rfl, fun _ => rfl⟩

theorem base_eq_none (found : stream.base = none) : stream.unread = [] := by
  rw [Stream.base] at found
  rw [Stream.unread]
  cases waiting : stream.coalescer.pending with
  | cons first rest => simp [waiting] at found
  | nil =>
    cases coming : stream.rx with
    | nil => rfl
    | cons first rest => simp [waiting, coming] at found

variable {config : ChannelsConfig} {received : Nat → Nat → Bool}

/-- A single event is a group of its own. -/
theorem group_single (event : ChannelEvent) :
    Group (max config.coalescingMaxMessages 1) [event] event := by
  cases event with
  | message message =>
    by_cases commandLine : message.channel = "cli"
    · exact .cli commandLine
    · have alone : coalesced message [] = message := (foldl_mergeMessage message []).symm
      have group := @Group.messages (max config.coalescingMaxMessages 1) message [] commandLine
        (Nat.le_max_right _ _) nofun
      rwa [alone] at group
  | reactionAdd => exact .event nofun
  | reactionRemove => exact .event nofun
  | messageEdit => exact .event nofun
  | messageDelete => exact .event nofun
  | typingStart => exact .event nofun

/-- Each call takes one group of the unread events. -/
theorem nextEvent_consumes (config : ChannelsConfig) (received : Nat → Nat → Bool) :
    Consumes (nextEvent received) Stream.unread (Group (max config.coalescingMaxMessages 1))
      (Stream.Steady config) := by
  intro stream output after steady took
  rw [nextEvent] at took
  cases found : stream.base with
  | none => simp [found] at took
  | some begun =>
    obtain ⟨event, pending, rx⟩ := begun
    obtain ⟨cut, vacant⟩ := base_eq_some found
    have none : pending = [] := vacant steady.short
    -- Without look-ahead the event is given out as it is.
    have single : some (event, stream.after pending rx) = some (output, after) →
        after.Steady config ∧ ∃ members, members ≠ [] ∧ stream.unread = members ++ after.unread ∧
          Group (max config.coalescingMaxMessages 1) members output := by
      intro same
      cases same
      refine ⟨⟨steady.maxMessages, by simp [Stream.after, none]⟩, [output], by simp, cut, ?_⟩
      exact group_single output
    simp only [found] at took
    cases event with
    | message message =>
      dsimp only at took
      split_ifs at took with direct
      · exact single took
      · simp only [not_or, Nat.not_le] at direct
        obtain ⟨_, _, remote⟩ := direct
        obtain ⟨taken, collected⟩ := collectWithinWindow_collected (.fromMessage message)
          (received stream.calls) (stream.coalescer.maxMessages - 1) message pending rx
        cases took
        refine ⟨⟨steady.maxMessages, collected.short none⟩, (message :: taken).map .message,
          by simp, ?_, ?_⟩
        · rw [cut, collected.cut]
          rfl
        · rw [collected.made, foldl_mergeMessage]
          have fits := collected.fits
          have positive : 1 ≤ max config.coalescingMaxMessages 1 := Nat.le_max_right _ _
          rw [steady.maxMessages] at fits
          exact .messages remote (by omega) collected.same
    | reactionAdd => exact single took
    | reactionRemove => exact single took
    | messageEdit => exact single took
    | messageDelete => exact single took
    | typingStart => exact single took

/-- A call without an output finds no event left. -/
theorem nextEvent_stops (stream : Stream) (stopped : nextEvent received stream = none) :
    stream.unread = [] := by
  rw [nextEvent] at stopped
  cases found : stream.base with
  | none => exact base_eq_none found
  | some begun =>
    obtain ⟨event, pending, rx⟩ := begun
    simp only [found] at stopped
    cases event with
    | message message =>
      dsimp only at stopped
      split_ifs at stopped
    | reactionAdd => cases stopped
    | reactionRemove => cases stopped
    | messageEdit => cases stopped
    | messageDelete => cases stopped
    | typingStart => cases stopped

/-- Calls until there is no output end. Whatever the timing, their outputs are made of
consecutive groups that are the whole input in its order, and at most one event waits
between two calls. -/
theorem outputs_partition_input (config : ChannelsConfig) (received : Nat → Nat → Bool)
    (events : List ChannelEvent) :
    (∃ outputs, Drained (nextEvent received) (Stream.new config events) outputs) ∧
      ∀ outputs, Drained (nextEvent received) (Stream.new config events) outputs →
        (∃ groups, groups.flatten = events ∧
          Forall₂ (Group (max config.coalescingMaxMessages 1)) groups
            (outputs.map Prod.fst)) ∧
        ∀ output ∈ outputs, output.2.coalescer.pending.length ≤ 1 := by
  have consumes := nextEvent_consumes config received
  have steady : (Stream.new config events).Steady config := ⟨rfl, Nat.zero_le _⟩
  refine ⟨exists_drained consumes steady, ?_⟩
  intro outputs drained
  refine ⟨drained.partition consumes nextEvent_stops steady, ?_⟩
  intro output member
  exact (drained.always consumes steady output member).short

end Draining

end Asterel.Coalescer
