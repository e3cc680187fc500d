import Mathlib.Data.List.Chain
import Asterel.Security.GitArguments

/-!
# The programs find launches

An action of `find` runs the word behind it, with the words up to an escaped
semicolon or up to a plus behind braces as arguments. The check of the policy reads
`-exec` and `-execdir` and lets any plus, and any word with an escaped semicolon at
its end, end the command. It refuses a command it cannot read, so what it reads is
held to the rules, at every depth; what it does not read runs unchecked.
-/

namespace Asterel.Policy

open Library Library.Text List

/-- The actions the policy reads. -/
def isReadAction (word : Word) : Bool := word = "-exec".toList || word = "-execdir".toList

/-- The actions that run a command. -/
def isAction (word : Word) : Bool :=
  isReadAction word || word = "-ok".toList || word = "-okdir".toList

/-- The words of a command that find runs, and those behind its end. -/
def takeCommand : List Word → Option (List Word × List Word)
  | [] => none
  | word :: rest =>
    if word = ['\\', ';'] then some ([], rest)
    else if word = ['\x7b', '\x7d'] ∧ rest.head? = some ['+'] then some ([word], rest.tail)
    else (takeCommand rest).map fun taken => (word :: taken.1, taken.2)

/-- A program with its arguments that find launches with these words as arguments.
An action without an end, or without a program, launches nothing. -/
inductive Launches : List Word → Word → List Word → Prop where
  | here {action words program args rest} (isAction : isAction action = true)
      (taken : takeCommand words = some (program :: args, rest)) :
      Launches (action :: words) program args
  | inside {action words inner rest program args} (isAction : isAction action = true)
      (taken : takeCommand words = some ("find".toList :: inner, rest))
      (launches : Launches inner program args) : Launches (action :: words) program args
  | behind {action words command rest program args} (isAction : isAction action = true)
      (taken : takeCommand words = some (command, rest)) (something : command ≠ [])
      (launches : Launches rest program args) : Launches (action :: words) program args
  | further {word words program args} (noAction : isAction word = false)
      (launches : Launches words program args) : Launches (word :: words) program args

/-- A program with its arguments that the policy reads among the words. -/
inductive Examines : List Word → Word → List Word → Prop where
  | here {action words payload index program args} (isRead : isReadAction action = true)
      (found : extractFindExecPayload [] words = some (payload, index))
      (same : splitWhitespace payload = program :: args) :
      Examines (action :: words) program args
  | inside {action words payload index inner program args} (isRead : isReadAction action = true)
      (found : extractFindExecPayload [] words = some (payload, index))
      (same : splitWhitespace payload = "find".toList :: inner)
      (examines : Examines inner program args) : Examines (action :: words) program args
  | behind {action words payload index program args} (isRead : isReadAction action = true)
      (found : extractFindExecPayload [] words = some (payload, index))
      (examines : Examines (words.drop (index + 1)) program args) :
      Examines (action :: words) program args
  | further {word words program args} (noAction : isReadAction word = false)
      (examines : Examines words program args) : Examines (word :: words) program args

/-- The rules for a launched program and its arguments. -/
structure LaunchAllowed (policy : SecurityPolicy) (env : Environment) (workspaceDir : Path)
    (allowedCommands : List Word) (program : Word) (args : List Word) : Prop where
  allowlisted : program ∈ allowedCommands
  noSlash : '/' ∉ program
  noBackslash : '\\' ∉ program
  pathsAllowed : hasForbiddenPathArgument policy env workspaceDir args = false
  argumentsAllowed : hasBlockedArgumentsWithContext policy env workspaceDir allowedCommands program
    ([' '].intercalate (program :: args)) = false

/-- The check ends on every text: more rounds than its length change nothing. -/
def CheckEnds (policy : SecurityPolicy) (env : Environment) (workspaceDir : Path)
    (allowedCommands : List Word) : Prop :=
  ∀ (baseCmd : Word) (fullSegment : List Char) (fuel : Nat), fullSegment.length < fuel →
    hasBlockedArgumentsFrom policy env workspaceDir allowedCommands fuel baseCmd fullSegment =
      hasBlockedArgumentsWithContext policy env workspaceDir allowedCommands baseCmd fullSegment

/-- A segment of find launches nothing outside the rules and deletes nothing, and
its check ends. -/
structure FindConfined (policy : SecurityPolicy) (env : Environment) (workspaceDir : Path)
    (segment : List Char) : Prop where
  launches : ∀ program args, Launches (segmentArguments segment) program args →
    LaunchAllowed policy env workspaceDir policy.allowedCommands program args
  noDelete : "-delete".toList ∉ segmentArguments segment
  ends : CheckEnds policy env workspaceDir policy.allowedCommands

/-- A word as a text is cut into. -/
def Shown (word : Word) : Prop := word ≠ [] ∧ ∀ char ∈ word, isWhitespace char = false

theorem shown_of_mem {text : List Char} {word : Word} (member : word ∈ splitWhitespace text) :
    Shown word :=
  ⟨(mem_splitWhitespace member).1, (mem_splitWhitespace member).2.2⟩

section Payloads

theorem findExecTerminator_shown {token command : Word} {ends : Bool} (shown : Shown token)
    (found : findExecTerminator token = some (some command, ends)) : Shown command := by
  obtain ⟨whole, empty⟩ := findExecTerminator_command found
  refine ⟨empty, fun char member => shown.2 char ?_⟩
  rw [← whole]
  exact mem_append_left _ member

/-- What the policy reads as a command is made of words. -/
theorem extractFindExecPayload_tokens {collected words : List Word} {payload : List Char}
    {index : Nat} (found : extractFindExecPayload collected words = some (payload, index))
    (collectedShown : ∀ word ∈ collected, Shown word) (shown : ∀ word ∈ words, Shown word) :
    ∃ tokens, payload = [' '].intercalate tokens ∧ ∀ token ∈ tokens, Shown token := by
  induction words generalizing collected index with
  | nil => simp [extractFindExecPayload] at found
  | cons token rest ih =>
    have tokenShown := shown token mem_cons_self
    rw [extractFindExecPayload] at found
    have all : ∀ word ∈ collected ++ ((findExecTerminator token).bind Prod.fst).toList,
        Shown word := by
      intro word member
      cases mem_append.mp member with
      | inl before => exact collectedShown word before
      | inr stripped =>
        rw [Option.mem_toList, Option.bind_eq_some_iff] at stripped
        obtain ⟨answer, terminator, first⟩ := stripped
        exact findExecTerminator_shown tokenShown (terminator.trans
          (congrArg some (Prod.ext first rfl : answer = (some word, answer.2))))
    split_ifs at found with ends empty
    · cases found
      exact ⟨_, rfl, all⟩
    · obtain ⟨answer, deeper, same⟩ := Option.map_eq_some_iff.mp found
      cases same
      apply ih deeper
      · intro word member
        cases mem_append.mp member with
        | inl before => exact all word before
        | inr last => exact (mem_singleton.mp last) ▸ tokenShown
      · exact fun word member => shown word (mem_cons_of_mem _ member)

theorem findExecBlocked_skip (payloadBlocked : List Char → Bool) (skip : Nat)
    (words : List Word) : findExecBlocked payloadBlocked skip words =
      findExecBlocked payloadBlocked 0 (words.drop skip) := by
  induction skip generalizing words with
  | zero => rfl
  | succ skip ih =>
    cases words with
    | nil => rfl
    | cons word rest => exact ih rest

theorem splitOn_getLast_of_not_mem {separator : Char} {text : List Char}
    (absent : separator ∉ text) : (text.splitOn separator).getLast?.getD text = text := by
  have alone : text.splitOn separator = [text] := by
    rw [splitOn_eq_splitOnP]
    apply splitOnP_eq_singleton
    intro char member
    exact beq_false_of_ne fun same => absent (same ▸ member)
  rw [alone, getLast?_singleton, Option.getD_some]

end Payloads

section Examined

variable {policy : SecurityPolicy} {env : Environment} {workspaceDir : Path}
  {allowedCommands : List Word}
variable {payload : List Char} {args words : List Word} {action program : Word}

/-- The rules hold for a command the check lets pass. -/
theorem launchAllowed_of_passes (passes : execPayloadBlocked policy env workspaceDir allowedCommands
      (hasBlockedArgumentsWithContext policy env workspaceDir allowedCommands) payload = false)
    (words : splitWhitespace payload = program :: args)
    (text : payload = [' '].intercalate (program :: args)) :
    LaunchAllowed policy env workspaceDir allowedCommands program args := by
  have head : (splitWhitespace payload).head? = some program := by rw [words, head?_cons]
  have behind : (splitWhitespace payload).drop 1 = args := by rw [words, drop_one, tail_cons]
  rw [execPayloadBlocked, head, behind] at passes
  dsimp only at passes
  split_ifs at passes with assignment path listed forbidden
  simp only [Bool.or_eq_true, contains_iff_mem, not_or] at path
  rw [splitOn_getLast_of_not_mem path.1] at listed passes
  exact ⟨by simpa using listed, path.1, path.2, by simpa using forbidden, text ▸ passes⟩

theorem findExecBlocked_read {payloadBlocked : List Char → Bool}
    {index : Nat} (isRead : isReadAction action = true)
    (found : extractFindExecPayload [] words = some (payload, index))
    (passes : findExecBlocked payloadBlocked 0 (action :: words) = false) :
    payloadBlocked payload = false ∧
      findExecBlocked payloadBlocked 0 (words.drop (index + 1)) = false := by
  simp only [isReadAction, Bool.or_eq_true, decide_eq_true_eq] at isRead
  rw [findExecBlocked, if_pos isRead, found] at passes
  dsimp only at passes
  split_ifs at passes with blocked
  rw [findExecBlocked_skip] at passes
  exact ⟨by simpa using blocked, passes⟩

/-- What the check of find reads obeys the rules when the check passes. -/
theorem examined_allowed
    (examines : Examines words program args) (shown : ∀ word ∈ words, Shown word)
    (passes : findExecBlocked (execPayloadBlocked policy env workspaceDir allowedCommands
      (hasBlockedArgumentsWithContext policy env workspaceDir allowedCommands)) 0 words = false) :
    LaunchAllowed policy env workspaceDir allowedCommands program args := by
  induction examines with
  | @here action words payload index program args isRead found same =>
    have behind : ∀ word ∈ words, Shown word := fun word member =>
      shown word (mem_cons_of_mem _ member)
    obtain ⟨payloadPasses, -⟩ := findExecBlocked_read isRead found passes
    obtain ⟨tokens, text, tokensShown⟩ := extractFindExecPayload_tokens found (by simp) behind
    have split := splitWhitespace_intercalate tokensShown
    rw [← text, same] at split
    exact launchAllowed_of_passes payloadPasses same (split ▸ text)
  | @inside action words payload index inner program args isRead found same _ ih =>
    obtain ⟨payloadPasses, -⟩ := findExecBlocked_read isRead found passes
    have behind : ∀ word ∈ words, Shown word := fun word member =>
      shown word (mem_cons_of_mem _ member)
    obtain ⟨tokens, text, tokensShown⟩ := extractFindExecPayload_tokens found (by simp) behind
    have split := splitWhitespace_intercalate tokensShown
    rw [← text, same] at split
    have checked := launchAllowed_of_passes payloadPasses same (split ▸ text)
    have arguments := checked.argumentsAllowed
    rw [split, ← text, hasBlockedArgumentsWithContext_find] at arguments
    have first : firstWord payload = some "find".toList := by rw [firstWord, same, head?_cons]
    dsimp only at arguments
    rw [splitWhitespace_argumentsText first, segmentArguments, same, drop_one, tail_cons,
      Bool.or_eq_false_iff] at arguments
    apply ih _ arguments.2
    intro word member
    apply @shown_of_mem payload
    rw [same]
    exact mem_cons_of_mem _ member
  | behind isRead found _ ih =>
    obtain ⟨-, later⟩ := findExecBlocked_read isRead found passes
    apply ih _ later
    exact fun word member => shown word (mem_cons_of_mem _ (mem_of_mem_drop member))
  | further noAction _ ih =>
    simp only [isReadAction, Bool.or_eq_false_iff, decide_eq_false_iff_not] at noAction
    rw [findExecBlocked, if_neg (by tauto)] at passes
    exact ih (fun word member => shown word (mem_cons_of_mem _ member)) passes

theorem checkEnds (policy : SecurityPolicy) (env : Environment) (workspaceDir : Path)
    (allowedCommands : List Word) : CheckEnds policy env workspaceDir allowedCommands := by
  intro baseCmd fullSegment fuel enough
  rw [hasBlockedArgumentsWithContext]
  exact hasBlockedArgumentsFrom_fuel policy env workspaceDir allowedCommands baseCmd enough
    (Nat.lt_succ_self _)

/-- An admitted segment of find is confined exactly when the launches are that the
check does not read. -/
theorem find_confined_iff {segment : List Char} (first : firstWord segment = some "find".toList)
    (allowed : segmentAllowed policy env workspaceDir (trim segment) = true) :
    FindConfined policy env workspaceDir segment ↔
      ∀ program args, Launches (segmentArguments segment) program args →
        ¬Examines (segmentArguments segment) program args →
        LaunchAllowed policy env workspaceDir policy.allowedCommands program args := by
  have blocked := ((segmentAllowed_iff first).mp allowed).argumentsAllowed
  rw [hasBlockedArgumentsWithContext_find] at blocked
  dsimp only at blocked
  rw [argumentsText_trim, splitWhitespace_argumentsText first, Bool.or_eq_false_iff] at blocked
  constructor
  · exact fun confined program args launches _ => confined.launches program args launches
  · intro unread
    refine ⟨fun program args launches => ?_, ?_, checkEnds policy env workspaceDir _⟩
    · by_cases read : Examines (segmentArguments segment) program args
      · exact examined_allowed read (fun word member => shown_of_mem (mem_of_mem_drop member))
          blocked.2
      · exact unread program args launches read
    · intro member
      rw [contains_iff_mem.mpr member] at blocked
      exact absurd blocked.1 Bool.noConfusion

theorem find_confined_sample :
    FindConfined (policyWithAllowed ["find", "cat"]) workspaceOnDisk "/work".toList
        "find . -exec cat x \\;".toList ↔
      ∀ program args, Launches (segmentArguments "find . -exec cat x \\;".toList) program args →
        ¬Examines (segmentArguments "find . -exec cat x \\;".toList) program args →
        LaunchAllowed (policyWithAllowed ["find", "cat"]) workspaceOnDisk "/work".toList
          (policyWithAllowed ["find", "cat"]).allowedCommands program args :=
  find_confined_iff (by decide : firstWord "find . -exec cat x \\;".toList = some "find".toList)
    (by decide)

/-- A command behind `-ok` is not read. -/
theorem asked_command_unchecked :
    isCommandAllowedInWorkspace (policyWithAllowed ["find"]) workspaceOnDisk
        "find . -ok rm x \\;".toList "/work".toList = true ∧
      segments "find . -ok rm x \\;".toList = ["find . -ok rm x \\;".toList] ∧
      segmentAllowed (policyWithAllowed ["find"]) workspaceOnDisk "/work".toList
        (trim "find . -ok rm x \\;".toList) = true ∧
      ¬FindConfined (policyWithAllowed ["find"]) workspaceOnDisk "/work".toList
        "find . -ok rm x \\;".toList := by
  refine ⟨by decide, by decide, by decide, fun confined => ?_⟩
  have words : segmentArguments "find . -ok rm x \\;".toList =
      ["." , "-ok", "rm", "x", "\\;"].map String.toList := by decide
  have launches : Launches (segmentArguments "find . -ok rm x \\;".toList) "rm".toList
      ["x".toList] := by
    rw [words]
    refine .further (by decide) (@Launches.here _ _ _ _ [] (by decide) (by decide))
  exact absurd (confined.launches _ _ launches).allowlisted (by decide)

end Examined

end Asterel.Policy
