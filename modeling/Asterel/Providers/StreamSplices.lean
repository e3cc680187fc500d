import Asterel.Providers.StreamCollector

/-!
# What the collector keeps at its caps

At a cap the collector takes as many characters of a fragment as have room. The character
that has no room may be longer than the room: up to three bytes are left, and a later
fragment that begins with a shorter character is appended behind the gap. The caps
themselves are never exceeded. What is held stays a beginning of what was sent exactly as
long as no fragment finds room behind one that was cut.
-/

namespace Asterel.Streaming

open List
open Chunker (byteLength)
open CharBoundary (floorCharBoundary byteLength_append byteLength_floorCharBoundary)

/-! ## A text with a cap -/

section Capped

variable {smaller : Nat}

/-- The first character has no room. -/
def NothingFits (fragment : List Char) (room : Nat) : Prop :=
  ∀ char ∈ fragment.head?, room < char.utf8Size

/-- Nothing of what was seen is missing, or what is missing begins with a character that
has no room. -/
def CutOff (held seen : List Char) (room : Nat) : Prop :=
  held = seen ∨ ∃ missing, missing ≠ [] ∧ seen = held ++ missing ∧ NothingFits missing room

/-- The next fragment belongs behind what is held, or nothing of it is taken. -/
def Continues (held seen fragment : List Char) (room : Nat) : Prop :=
  held = seen ∨ NothingFits fragment room

variable {held seen fragment kept rest : List Char} {room : Nat}

theorem NothingFits.mono (nothing : NothingFits fragment room)
    (bound : smaller ≤ room) : NothingFits fragment smaller :=
  fun char first => lt_of_le_of_lt bound (nothing char first)

/-- What follows the boundary does not fit in front of the byte. -/
theorem nothingFits_drop_floorCharBoundary (text : List Char) (index : Nat) :
    NothingFits (text.drop (floorCharBoundary text index))
      (index - byteLength (text.take (floorCharBoundary text index))) := by
  induction text generalizing index with
  | nil => intro char first; cases first
  | cons char rest ih =>
    rw [floorCharBoundary]
    split
    · have later := ih (index - char.utf8Size)
      rw [take_succ_cons, drop_succ_cons, byteLength, ← Nat.sub_sub]
      exact later
    · rename_i large
      intro other first
      cases first
      rw [take_zero, byteLength]
      omega

/-- The cap divides the input: a part that has room, and a rest that has none. -/
theorem appendCappedUtf8_parts (target input : List Char) (maxBytes : Nat) :
    ∃ kept rest, input = kept ++ rest ∧
      appendCappedUtf8 target input maxBytes = (target ++ kept, byteLength kept) ∧
      byteLength kept ≤ maxBytes - byteLength target ∧
      NothingFits rest (maxBytes - byteLength target - byteLength kept) := by
  rw [appendCappedUtf8]
  dsimp only
  split
  · rename_i full
    refine ⟨[], input, rfl, by rw [append_nil]; rfl, Nat.zero_le _, ?_⟩
    intro char first
    have positive := char.utf8Size_pos
    omega
  · split
    · rename_i fits
      refine ⟨input, [], (append_nil _).symm, rfl, fits, ?_⟩
      intro char first
      cases first
    · exact ⟨_, _, (take_append_drop _ _).symm, rfl,
        byteLength_floorCharBoundary input _, nothingFits_drop_floorCharBoundary input _⟩

theorem CutOff.isPrefix (cutOff : CutOff held seen room) : held <+: seen := by
  obtain rfl | ⟨missing, _, rfl, _⟩ := cutOff
  · exact prefix_rfl
  · exact prefix_append held missing

theorem CutOff.mono (cutOff : CutOff held seen room) (bound : smaller ≤ room) :
    CutOff held seen smaller := by
  obtain whole | ⟨missing, some, parts, nothing⟩ := cutOff
  · exact .inl whole
  · exact .inr ⟨missing, some, parts, nothing.mono bound⟩

/-- A part that has room is empty if the first character of the fragment has none. -/
theorem kept_eq_nil (parts : fragment = kept ++ rest) (fits : byteLength kept ≤ room)
    (nothing : NothingFits fragment room) : kept = [] := by
  cases kept with
  | nil => rfl
  | cons char more =>
    have large := nothing char (by rw [parts]; rfl)
    rw [byteLength] at fits
    omega

/-- A fragment that continues leaves no gap. -/
theorem CutOff.append (cutOff : CutOff held seen room) (parts : fragment = kept ++ rest)
    (fits : byteLength kept ≤ room) (stops : NothingFits rest (room - byteLength kept))
    (continues : Continues held seen fragment room) :
    CutOff (held ++ kept) (seen ++ fragment) (room - byteLength kept) := by
  by_cases whole : held = seen
  · subst whole
    rw [parts]
    cases rest with
    | nil => exact .inl (by rw [append_nil])
    | cons char more =>
      exact .inr ⟨char :: more, by simp, by rw [append_assoc], stops⟩
  · have nothing := continues.resolve_left whole
    obtain ⟨missing, some, behind, cut⟩ := cutOff.resolve_left whole
    rw [kept_eq_nil parts fits nothing, append_nil]
    refine .inr ⟨missing ++ fragment, by simp [some], by rw [behind, append_assoc], ?_⟩
    rw [byteLength, Nat.sub_zero]
    intro char first
    apply cut char
    rwa [head?_append_of_ne_nil missing some] at first

/-- A fragment that finds room behind a gap is spliced to what stands before the gap. -/
theorem CutOff.spliced (cutOff : CutOff held seen room) (parts : fragment = kept ++ rest)
    (stops : NothingFits rest (room - byteLength kept))
    (splices : ¬ Continues held seen fragment room) :
    ¬ held ++ kept <+: seen ++ fragment := by
  obtain ⟨gap, something⟩ := not_or.mp splices
  obtain ⟨missing, some, behind, cut⟩ := cutOff.resolve_left gap
  simp only [NothingFits, not_forall, not_lt] at something
  obtain ⟨char, first, fits⟩ := something
  cases kept with
  | nil =>
    have large := stops char (by rwa [parts, nil_append] at first)
    rw [byteLength, Nat.sub_zero] at large
    omega
  | cons other more =>
    rw [parts, cons_append, head?_cons, Option.mem_some_iff] at first
    subst first
    cases missing with
    | nil => exact absurd rfl some
    | cons lost others =>
      intro continued
      rw [behind, append_assoc, prefix_append_right_inj, cons_append, cons_prefix_cons] at continued
      have large := cut lost rfl
      rw [← continued.1] at large
      omega

end Capped

/-! ## The collector -/

section Collector

variable {Number : Type} {collector : StreamCollector Number}
  {events earlier : List (StreamEvent Number)}
variable {kept : List Char} {next : StreamCollector Number} {event : StreamEvent Number}

/-- All fragments of the arguments under an index. -/
def jsonOf (events : List (StreamEvent Number)) (index : Nat) : List Char :=
  events.flatMap fun event =>
    match event with
    | .toolCallDelta other _ _ inputJsonDelta => if other = index then inputJsonDelta else []
    | _ => []

/-- The arguments that are held under an index. -/
def heldJson (collector : StreamCollector Number) (index : Nat) : List Char :=
  (collector.toolCallBuilders[index]?.getD .empty).inputJson

/-- The bytes left for the text. -/
def textRoom (collector : StreamCollector Number) : Nat :=
  maxStreamTextBytes - byteLength collector.text

/-- The bytes left for the arguments under an index. -/
def jsonRoom (collector : StreamCollector Number) (index : Nat) : Nat :=
  min (maxTotalToolCallInputJsonBytes - collector.totalToolInputJsonBytes)
    (maxToolCallInputJsonBytes - byteLength (heldJson collector index))

/-- The event brings no fragment that finds room behind one that was cut. -/
def ContinuesStream (collector : StreamCollector Number) (earlier : List (StreamEvent Number)) :
    StreamEvent Number → Prop
  | .textDelta text => Continues collector.text (textOf earlier) text (textRoom collector)
  | .toolCallDelta index _ _ inputJsonDelta => index < maxToolCallBuilders →
    Continues (heldJson collector index) (jsonOf earlier index) inputJsonDelta
      (jsonRoom collector index)
  | _ => True

/-- What is held is a beginning of what was sent. -/
structure Unspliced (collector : StreamCollector Number) (earlier : List (StreamEvent Number)) :
    Prop where
  text : collector.text <+: textOf earlier
  json : ∀ index < maxToolCallBuilders, heldJson collector index <+: jsonOf earlier index

/-- The caps, and the count of the bytes that all builders hold. -/
structure WithinLimits (collector : StreamCollector Number) : Prop where
  text : byteLength collector.text ≤ maxStreamTextBytes
  builders : ∀ builder ∈ collector.toolCallBuilders,
    byteLength builder.inputJson ≤ maxToolCallInputJsonBytes
  total : collector.totalToolInputJsonBytes ≤ maxTotalToolCallInputJsonBytes
  sum : collector.totalToolInputJsonBytes =
    (collector.toolCallBuilders.map fun builder => byteLength builder.inputJson).sum

/-- What is missing of the text and of all arguments has no room. -/
structure Cut (collector : StreamCollector Number) (earlier : List (StreamEvent Number)) :
    Prop where
  text : CutOff collector.text (textOf earlier) (textRoom collector)
  json : ∀ index < maxToolCallBuilders,
    CutOff (heldJson collector index) (jsonOf earlier index) (jsonRoom collector index)

theorem jsonOf_concat (events : List (StreamEvent Number)) (event : StreamEvent Number)
    (index : Nat) : jsonOf (events ++ [event]) index = jsonOf events index ++ jsonOf [event] index :=
  flatMap_append

/-- What a fragment of arguments does: its kept part goes to its builder and to the count. -/
theorem feedToolCallDelta_parts (collector : StreamCollector Number) {index : Nat}
    (small : index < maxToolCallBuilders) (id name : Option (List Char))
    (inputJsonDelta : List Char) :
    ∃ builders builder kept rest, inputJsonDelta = kept ++ rest ∧
      byteLength kept ≤ jsonRoom collector index ∧
      NothingFits rest (jsonRoom collector index - byteLength kept) ∧
      builders = ensureBuilderSlot collector.toolCallBuilders index ∧
      builders[index]? = some builder ∧ builder.inputJson = heldJson collector index ∧
      feedToolCallDelta collector index id name inputJsonDelta = { collector with
        toolCallBuilders := builders.set index
          ⟨id.getD builder.id, name.getD builder.name, heldJson collector index ++ kept⟩
        totalToolInputJsonBytes := collector.totalToolInputJsonBytes + byteLength kept } := by
  have grown := ensureBuilderSlot_length collector.toolCallBuilders index
  have slot : index < (ensureBuilderSlot collector.toolCallBuilders index).length := by omega
  have found := List.getElem?_eq_getElem slot
  have same := ensureBuilderSlot_getElem? collector.toolCallBuilders index index
  rw [found, Option.getD_some] at same
  have json : (ensureBuilderSlot collector.toolCallBuilders index)[index].inputJson =
      heldJson collector index := by rw [same, heldJson]
  obtain ⟨kept, rest, parts, appended, fits, stops⟩ := appendCappedUtf8_parts
    (heldJson collector index) inputJsonDelta
    (byteLength (heldJson collector index) + jsonRoom collector index)
  rw [Nat.add_sub_cancel_left] at fits stops
  refine ⟨_, _, kept, rest, parts, fits, stops, rfl, found, json, ?_⟩
  rw [jsonRoom] at appended
  rw [feedToolCallDelta, builderIndex, if_neg (by omega)]
  simp only [found, feedBuilder, json, appended]

/-- The kept part of a fragment goes to one builder, and the count follows. -/
structure Takes (collector next : StreamCollector Number) (index : Nat) (kept : List Char) :
    Prop where
  text : next.text = collector.text
  here : heldJson next index = heldJson collector index ++ kept
  others : ∀ other, other ≠ index → heldJson next other = heldJson collector other
  total : next.totalToolInputJsonBytes = collector.totalToolInputJsonBytes + byteLength kept

theorem feedToolCallDelta_takes (collector : StreamCollector Number) {index : Nat}
    (small : index < maxToolCallBuilders) (id name : Option (List Char))
    (inputJsonDelta : List Char) :
    ∃ kept rest, inputJsonDelta = kept ++ rest ∧ byteLength kept ≤ jsonRoom collector index ∧
      NothingFits rest (jsonRoom collector index - byteLength kept) ∧
      Takes collector (feedToolCallDelta collector index id name inputJsonDelta) index kept := by
  obtain ⟨builders, builder, kept, rest, parts, fits, stops, grown, found, _, fed⟩ :=
    feedToolCallDelta_parts collector small id name inputJsonDelta
  obtain ⟨slot, _⟩ := List.getElem?_eq_some_iff.mp found
  refine ⟨kept, rest, parts, fits, stops, ?_⟩
  rw [fed]
  constructor
  · rfl
  · rw [heldJson, List.getElem?_set_self slot]
    rfl
  · intro other different
    rw [heldJson, List.getElem?_set_ne different.symm, grown, ensureBuilderSlot_getElem?, heldJson]
  · rfl

/-- The room shrinks by what is taken. -/
theorem Takes.jsonRoom_here {index : Nat} (takes : Takes collector next index kept) :
    jsonRoom next index = jsonRoom collector index - byteLength kept := by
  rw [jsonRoom, jsonRoom, takes.here, takes.total, byteLength_append]
  omega

theorem Takes.jsonRoom_le {index other : Nat}
    (takes : Takes collector next index kept) (different : other ≠ index) :
    jsonRoom next other ≤ jsonRoom collector other := by
  rw [jsonRoom, jsonRoom, takes.others other different, takes.total]
  omega

section

variable (cut : Cut collector earlier)
include cut

/-- An event that brings neither a text nor arguments. -/
theorem Cut.quiet (text : next.text = collector.text)
    (builders : next.toolCallBuilders = collector.toolCallBuilders)
    (total : next.totalToolInputJsonBytes = collector.totalToolInputJsonBytes)
    (noText : textOf [event] = []) (noJson : ∀ index < maxToolCallBuilders,
      jsonOf [event] index = []) : Cut next (earlier ++ [event]) := by
  constructor
  · rw [textOf_concat, noText, append_nil, textRoom, text]
    exact cut.text
  · intro index small
    rw [jsonOf_concat, noJson index small, append_nil, jsonRoom, total, heldJson, builders]
    exact cut.json index small

/-- An event that continues the stream leaves no gap. -/
theorem Cut.feed (continues : ContinuesStream collector earlier event) :
    Cut (Streaming.feed collector event) (earlier ++ [event]) := by
  cases event with
  | responseStart model => exact cut.quiet rfl rfl rfl rfl fun _ _ => rfl
  | toolCallComplete id name input => exact cut.quiet rfl rfl rfl rfl fun _ _ => rfl
  | done stopReason inputTokens outputTokens => exact cut.quiet rfl rfl rfl rfl fun _ _ => rfl
  | textDelta text =>
    obtain ⟨kept, rest, parts, appended, fits, stops⟩ :=
      appendCappedUtf8_parts collector.text text maxStreamTextBytes
    have fed : Streaming.feed collector (.textDelta text) =
        { collector with text := collector.text ++ kept } := by
      rw [Streaming.feed, appended]
    rw [fed]
    constructor
    · have seen : textOf [@StreamEvent.textDelta Number text] = text := append_nil _
      have room : textRoom { collector with text := collector.text ++ kept } =
          textRoom collector - byteLength kept := by
        rw [textRoom, textRoom, byteLength_append]
        omega
      rw [textOf_concat, seen, room]
      exact cut.text.append parts fits stops continues
    · intro index small
      rw [jsonOf_concat]
      exact (append_nil (jsonOf earlier index)).symm ▸ cut.json index small
  | toolCallDelta index id name inputJsonDelta =>
    rw [Streaming.feed]
    by_cases small : index < maxToolCallBuilders
    · obtain ⟨kept, rest, parts, fits, stops, takes⟩ :=
        feedToolCallDelta_takes collector small id name inputJsonDelta
      constructor
      · rw [textOf_concat, textRoom, takes.text]
        exact (append_nil (textOf earlier)).symm ▸ cut.text
      · intro other otherSmall
        rw [jsonOf_concat]
        by_cases same : other = index
        · subst same
          have seen : jsonOf [@StreamEvent.toolCallDelta Number other id name inputJsonDelta]
              other = inputJsonDelta := by simp [jsonOf]
          rw [seen, takes.here, takes.jsonRoom_here]
          exact (cut.json other small).append parts fits stops (continues small)
        · have seen : jsonOf [@StreamEvent.toolCallDelta Number index id name inputJsonDelta]
              other = [] := by simp [jsonOf, Ne.symm same]
          rw [seen, append_nil, takes.others other same]
          exact (cut.json other otherSmall).mono (takes.jsonRoom_le same)
    · have ignored : feedToolCallDelta collector index id name inputJsonDelta = collector := by
        rw [feedToolCallDelta, builderIndex, if_pos (by omega)]
      rw [ignored]
      refine cut.quiet rfl rfl rfl rfl ?_
      intro other otherSmall
      have different : index ≠ other := by omega
      simp [jsonOf, different]

theorem Cut.unspliced : Unspliced collector earlier :=
  ⟨cut.text.isPrefix, fun index small => (cut.json index small).isPrefix⟩

/-- An event that brings a fragment with room behind a gap splices. -/
theorem Cut.splices (splices : ¬ ContinuesStream collector earlier event) :
    ¬ Unspliced (Streaming.feed collector event) (earlier ++ [event]) := by
  intro unspliced
  cases event with
  | responseStart model => exact splices trivial
  | toolCallComplete id name input => exact splices trivial
  | done stopReason inputTokens outputTokens => exact splices trivial
  | textDelta text =>
    obtain ⟨kept, rest, parts, appended, fits, stops⟩ :=
      appendCappedUtf8_parts collector.text text maxStreamTextBytes
    have seen : textOf [@StreamEvent.textDelta Number text] = text := append_nil _
    have continued := unspliced.text
    rw [Streaming.feed, appended, textOf_concat, seen] at continued
    exact cut.text.spliced parts stops splices continued
  | toolCallDelta index id name inputJsonDelta =>
    obtain ⟨small, splices⟩ := Classical.not_imp.mp splices
    obtain ⟨kept, rest, parts, fits, stops, takes⟩ :=
      feedToolCallDelta_takes collector small id name inputJsonDelta
    have seen : jsonOf [@StreamEvent.toolCallDelta Number index id name inputJsonDelta]
        index = inputJsonDelta := by simp [jsonOf]
    have continued := unspliced.json index small
    rw [Streaming.feed, takes.here, jsonOf_concat, seen] at continued
    exact (cut.json index small).spliced parts stops splices continued

end

/-- A sum over a list in which one item is exchanged. -/
theorem sum_map_set {α : Type} (size : α → Nat) {items : List α} {index : Nat} {item : α}
    (found : items[index]? = some item) (other : α) :
    ((items.set index other).map size).sum + size item = (items.map size).sum + size other := by
  induction items generalizing index with
  | nil => cases found
  | cons first rest ih =>
    cases index with
    | zero =>
      cases found
      simp only [set_cons_zero, map_cons, sum_cons]
      omega
    | succ index =>
      have later := ih (show rest[index]? = some item from found)
      simp only [set_cons_succ, map_cons, sum_cons]
      omega

theorem sum_ensureBuilderSlot (builders : List ToolCallBuilder) (index : Nat) :
    ((ensureBuilderSlot builders index).map fun builder => byteLength builder.inputJson).sum =
      (builders.map fun builder => byteLength builder.inputJson).sum := by
  rw [ensureBuilderSlot, map_append, sum_append]
  simp [ToolCallBuilder.empty, byteLength]

theorem WithinLimits.heldJson_le (limits : WithinLimits collector) (index : Nat) :
    byteLength (heldJson collector index) ≤ maxToolCallInputJsonBytes := by
  rw [heldJson]
  cases slot : collector.toolCallBuilders[index]? with
  | none => exact Nat.zero_le _
  | some builder => exact limits.builders builder (mem_of_getElem? slot)

theorem WithinLimits.feedToolCallDelta (limits : WithinLimits collector) (index : Nat)
    (id name : Option (List Char)) (inputJsonDelta : List Char) :
    WithinLimits (Streaming.feedToolCallDelta collector index id name inputJsonDelta) := by
  by_cases small : index < maxToolCallBuilders
  · obtain ⟨builders, builder, kept, rest, parts, fits, stops, grown, found, json, fed⟩ :=
      feedToolCallDelta_parts collector small id name inputJsonDelta
    have bounds := Nat.le_min.mp fits
    have held := limits.heldJson_le index
    have total := limits.total
    rw [fed]
    constructor
    · exact limits.text
    · intro other member
      obtain member | rfl := mem_or_eq_of_mem_set member
      · rw [grown, ensureBuilderSlot, mem_append] at member
        obtain member | member := member
        · exact limits.builders other member
        · rw [eq_of_mem_replicate member]
          exact Nat.zero_le _
      · simp only [byteLength_append]
        omega
    · simp only
      omega
    · have exchanged := sum_map_set (fun builder => byteLength builder.inputJson) found
        ⟨id.getD builder.id, name.getD builder.name, heldJson collector index ++ kept⟩
      rw [grown, sum_ensureBuilderSlot, ← limits.sum, json, byteLength_append] at exchanged
      rw [grown]
      simp only
      omega
  · rw [Streaming.feedToolCallDelta, builderIndex, if_pos (by omega)]
    exact limits

/-- No event exceeds a cap or loses the count. -/
theorem WithinLimits.feed (limits : WithinLimits collector) (event : StreamEvent Number) :
    WithinLimits (Streaming.feed collector event) := by
  cases event with
  | responseStart model => exact ⟨limits.text, limits.builders, limits.total, limits.sum⟩
  | toolCallComplete id name input =>
    exact ⟨limits.text, limits.builders, limits.total, limits.sum⟩
  | done stopReason inputTokens outputTokens =>
    exact ⟨limits.text, limits.builders, limits.total, limits.sum⟩
  | toolCallDelta index id name inputJsonDelta =>
    exact limits.feedToolCallDelta index id name inputJsonDelta
  | textDelta text =>
    obtain ⟨kept, rest, parts, appended, fits, stops⟩ :=
      appendCappedUtf8_parts collector.text text maxStreamTextBytes
    have before := limits.text
    refine ⟨?_, limits.builders, limits.total, limits.sum⟩
    rw [Streaming.feed, appended, byteLength_append]
    omega

/-- The collector behind a sequence of events. -/
def fed (events : List (StreamEvent Number)) : StreamCollector Number :=
  events.foldl feed .new

theorem fed_concat (events : List (StreamEvent Number)) (event : StreamEvent Number) :
    fed (events ++ [event]) = feed (fed events) event := by
  rw [fed, foldl_append]
  rfl

theorem withinLimits_fed (events : List (StreamEvent Number)) : WithinLimits (fed events) := by
  induction events using reverseRecOn with
  | nil => exact ⟨Nat.zero_le _, fun _ member => absurd member not_mem_nil, Nat.zero_le _, rfl⟩
  | append_singleton events event ih =>
    rw [fed_concat]
    exact ih.feed event

/-- Every event of the stream continues it. -/
def Seamless (events : List (StreamEvent Number)) : Prop :=
  ∀ earlier event, earlier ++ [event] <+: events → ContinuesStream (fed earlier) earlier event

theorem Seamless.before (seamless : Seamless (events ++ [event])) :
    Seamless events :=
  fun _ _ inside => seamless _ _ (inside.trans (prefix_append _ _))

theorem Seamless.cut (seamless : Seamless events) : Cut (fed events) events := by
  induction events using reverseRecOn with
  | nil => exact ⟨.inl rfl, fun _ _ => .inl rfl⟩
  | append_singleton events event ih =>
    rw [fed_concat]
    exact (ih seamless.before).feed (seamless events event prefix_rfl)

theorem Seamless.of_prefix {front : List (StreamEvent Number)} (seamless : Seamless events)
    (inside : front <+: events) : Seamless front :=
  fun _ _ before => seamless _ _ (before.trans inside)

/-- A stream whose beginnings are all held without a gap has no event that splices. -/
theorem seamless_of_unspliced
    (unspliced : ∀ earlier, earlier <+: events → Unspliced (fed earlier) earlier) :
    Seamless events := by
  induction events using reverseRecOn with
  | nil =>
    intro earlier event inside
    simp at inside
  | append_singleton events event ih =>
    have seamless : Seamless events :=
      ih fun earlier inside =>
        unspliced earlier (inside.trans (prefix_append _ _))
    intro earlier next inside
    obtain same | before := prefix_concat_iff.mp inside
    · obtain ⟨rfl, last⟩ := append_inj' same rfl
      cases last
      by_contra splices
      apply seamless.cut.splices splices
      rw [← fed_concat]
      exact unspliced _ prefix_rfl
    · exact seamless earlier next before

/-- Behind every event of a stream the collector is within its caps, and it holds a
beginning of what was sent exactly if no event of the stream splices. -/
theorem unspliced_iff_seamless (events : List (StreamEvent Number)) :
    (∀ earlier, earlier <+: events → Unspliced (fed earlier) earlier ∧ WithinLimits (fed earlier)) ↔
      ∀ earlier event, earlier ++ [event] <+: events →
        ContinuesStream (fed earlier) earlier event := by
  constructor
  · intro held
    exact seamless_of_unspliced fun earlier inside => (held earlier inside).1
  · intro seamless earlier inside
    have front : Seamless earlier := Seamless.of_prefix seamless inside
    exact ⟨front.cut.unspliced, withinLimits_fed earlier⟩

end Collector

/-! ## A gap in the arguments of a tool call -/

section Gap

variable {value : List Char}

/-- A fragment that has room is kept as a whole. -/
theorem kept_eq_fragment {fragment kept rest : List Char} {room : Nat}
    (parts : fragment = kept ++ rest) (stops : NothingFits rest (room - byteLength kept))
    (fits : byteLength fragment ≤ room) : kept = fragment := by
  cases rest with
  | nil => rw [parts, append_nil]
  | cons char more =>
    have large := stops char rfl
    rw [parts, byteLength_append, byteLength] at fits
    omega

/-- A value, a character of four bytes and the end of the value. -/
def gapEvents (value : List Char) : List (StreamEvent Nat) :=
  [.toolCallDelta 0 (some "call-1".toList) (some "shell".toList) value,
    .toolCallDelta 0 none none ['😀'], .toolCallDelta 0 none none ['"', '\x7d']]

/-- Two bytes below the cap the character is lost and leaves them. -/
theorem gap_room (length : byteLength value = 262142) :
    jsonRoom (fed ((gapEvents value).take 2)) 0 = 2 := by
  obtain ⟨kept, rest, parts, fits, stops, first⟩ := @feedToolCallDelta_takes Nat .new 0 (by decide)
    (some "call-1".toList) (some "shell".toList) value
  have start : jsonRoom (@StreamCollector.new Nat) 0 = 262144 := by decide
  rw [start] at fits stops
  have room := first.jsonRoom_here
  rw [kept_eq_fragment parts stops (by omega), length, start] at room
  obtain ⟨none, lost, cut, within, _, second⟩ := feedToolCallDelta_takes
    (fed ((gapEvents value).take 1)) (show 0 < maxToolCallBuilders by decide) none none ['😀']
  have left : jsonRoom (fed ((gapEvents value).take 1)) 0 = 2 := room
  have large : NothingFits ['😀'] 2 := by
    intro char first
    cases first
    decide
  rw [left] at within
  have shrinks := second.jsonRoom_here
  rw [kept_eq_nil cut within large, left] at shrinks
  exact shrinks

/-- The value is closed behind the gap. -/
theorem gap_splices (length : byteLength value = 262142) :
    ¬ ∀ earlier, earlier <+: gapEvents value → Unspliced (fed earlier) earlier := by
  intro unspliced
  have continues := seamless_of_unspliced unspliced ((gapEvents value).take 2)
    (.toolCallDelta 0 none none ['"', '\x7d']) prefix_rfl (by decide)
  rw [gap_room length] at continues
  obtain whole | nothing := continues
  · have seen : jsonOf ((gapEvents value).take 2) 0 = value ++ ['😀'] := by
      simp [gapEvents, jsonOf]
    have held := (withinLimits_fed ((gapEvents value).take 2)).heldJson_le 0
    rw [whole, seen, byteLength_append, length] at held
    exact absurd held (by decide)
  · exact absurd (nothing '"' rfl) (by decide)

/-- An object whose value never ends there is held as if it did. -/
theorem closed_behind_gap :
    ¬ ∀ earlier, earlier <+: gapEvents ("\x7b\"a\":\"".toList ++ replicate 262136 'x') →
      Unspliced (fed earlier) earlier := by
  apply gap_splices
  have opening : byteLength "\x7b\"a\":\"".toList = 6 := by decide
  have value : byteLength (replicate 262136 'x') = 262136 := by
    rw [CharBoundary.byteLength_ascii, length_replicate]
    intro char member
    rw [eq_of_mem_replicate member]
    decide
  rw [byteLength_append, opening, value]

end Gap

end Asterel.Streaming
