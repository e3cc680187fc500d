import Asterel.Security.PolicyPath

/-!
# Shell commands under the security policy

A command is cut at its separators and every segment is checked by itself: no
leading assignments, an allowlisted executable that is no path, arguments whose
paths the policy allows, and none of the arguments by which a few tools run code,
reach the network or hand out credentials. The checks read the text of the
command; quotes have no meaning to them, apart from the quotes around a whole
word that may be a path.

Separators are marked by a NUL character while the command is cut, an escaped
semicolon by a character with code one; a command with either is refused first.
-/

namespace Asterel.Policy

open Library.Text

abbrev Word := List Char

/-- A word that sets a variable in front of a command. -/
def isEnvAssignment (word : Word) : Bool :=
  word.contains '=' && word.head?.any fun char => char.isAlpha || char = '_'

/-- One round of the loop for each unit of fuel. -/
def skipEnvFrom : Nat → List Char → List Char
  | 0, rest => rest
  | fuel + 1, rest =>
    match firstWord rest with
    | none => rest
    | some word =>
      if isEnvAssignment word then skipEnvFrom fuel (trimStart (rest.drop word.length)) else rest

/-- The text from the first word on that is no assignment. -/
def skipEnvAssignments (text : List Char) : List Char := skipEnvFrom (text.length + 1) text

def hasLeadingEnvAssignments (text : List Char) : Bool :=
  skipEnvAssignments text != trimStart text

/-- The git configuration keys by which a configuration runs code. -/
def gitBlockedConfigKeys : List Word :=
  ["core.sshcommand", "core.fsmonitor", "core.pager", "core.editor", "core.askpass",
    "core.hookspath", "core.gitproxy", "credential.", "diff.external", "merge.tool", "filter.",
    "http.proxy", "https.proxy", "protocol.", "url."].map String.toList

def isGitConfigInjection (args : List Char) : Bool :=
  let lower := toLowercase args
  if !occurs "-c ".toList lower && !occurs "--config ".toList lower &&
      !occurs "--config=".toList lower then false
  else gitBlockedConfigKeys.any fun key => occurs key lower

def isPathLikeArgument (arg : List Char) : Bool :=
  ['/'].isPrefixOf arg || "~/".toList.isPrefixOf arg || arg.contains '/' ||
    arg.contains '\\' || occurs "..".toList arg

def doubleQuote : Char := '\x22'
def singleQuote : Char := '\x27'

/-- Whether a text begins and ends with the same quote. -/
def isWrapped (quote : Char) (value : List Char) : Bool :=
  value.head? = some quote && value.getLast? = some quote

def stripWrappingQuotes (value : List Char) : List Char :=
  if 2 ≤ value.length ∧ (isWrapped doubleQuote value || isWrapped singleQuote value) then
    value.tail.dropLast
  else value

/-- The part of a word that is checked as a path. -/
def extractPathArg (arg : List Char) : Option (List Char) :=
  let raw := trim arg
  if raw = [] then none
  -- The raw argument is tested first, so that quotes cannot hide a path.
  else if isPathLikeArgument raw then some (stripWrappingQuotes raw)
  else
    let trimmed := stripWrappingQuotes raw
    if trimmed = [] then none
    else if isPathLikeArgument trimmed then some trimmed
    else
      match splitOnce '=' trimmed with
      | none => none
      | some (_, value) =>
        let value := stripWrappingQuotes (trim value)
        if value ≠ [] ∧ isPathLikeArgument value then some value else none

section PathArguments

variable (policy : SecurityPolicy) (env : Environment) (workspaceDir : Path)

def canonicalizeOrPath (path : Path) : Path := (env.canonicalize path).getD path

/-- Paths must stay in the request's workspace when the policy says so, and when
this workspace is not the policy's. Paths are compared by their components. -/
def shouldEnforceWorkspaceContainment : Bool :=
  if policy.workspaceOnly then true
  else components (canonicalizeOrPath env workspaceDir) ≠
    components (canonicalizeOrPath env policy.workspaceDir)

/-- The check of an existing path by its canonical form. -/
def isAllowedPath (workspaceRoot : Option Path) (path : Path) : Bool :=
  match env.canonicalize path with
  | none => false
  | some resolved =>
    if workspaceRoot.any fun root => !startsWith resolved root then false
    else isPathAllowedResolved policy env resolved

/-- The nearest existing path of an argument is checked by its canonical form. -/
def isContainedPath (workspaceRoot : Option Path) (pathArg : List Char) : Bool :=
  let joined := if isAbsolute pathArg then pathArg else join workspaceDir pathArg
  if env.pathExists joined then isAllowedPath policy env workspaceRoot joined
  else
    match nearestExistingPath env joined with
    | some existingParent => isAllowedPath policy env workspaceRoot existingParent
    | none => false

/-- The check of an argument in the file system. -/
def resolvesInside (pathArg : List Char) : Bool :=
  if shouldEnforceWorkspaceContainment policy env workspaceDir then
    match env.canonicalize workspaceDir with
    | none => false
    | some workspaceRoot => isContainedPath policy env workspaceDir (some workspaceRoot) pathArg
  else isContainedPath policy env workspaceDir none pathArg

def isPathArgumentAllowed (pathArg : List Char) : Bool :=
  if !isPathAllowed policy env pathArg then false
  else resolvesInside policy env workspaceDir pathArg

def hasForbiddenPathArgument (words : List Word) : Bool :=
  (words.filterMap extractPathArg).any fun word =>
    !isPathArgumentAllowed policy env workspaceDir word

end PathArguments

/-- Whether a word ends the command of `find -exec`, with the part of the command
that is written in front of the semicolon. -/
def findExecTerminator (token : Word) : Option (Option Word × Bool) :=
  if token = ['+'] then some (none, true)
  else if token = ['\\', ';'] ∨ token = [';'] then some (none, true)
  else
    match ['\\', ';'].isSuffixOf? token with
    | some stripped => some (if stripped = [] then none else some stripped, true)
    | none => none

/-- The command of `find -exec` and the position of its last word, with the words
collected so far. -/
def extractFindExecPayload (execTokens : List Word) : List Word → Option (List Char × Nat)
  | [] => none
  | token :: rest =>
    let terminator := findExecTerminator token
    let collected := execTokens ++ (terminator.bind Prod.fst).toList
    if terminator.any Prod.snd then
      if collected.isEmpty then none else some ([' '].intercalate collected, 0)
    else (extractFindExecPayload (collected ++ [token]) rest).map fun found =>
      (found.1, found.2 + 1)

/-- The arguments of `git` that are blocked. -/
def hasBlockedGitArguments (args : List Char) (words : List Word) : Bool :=
  let subcommand := words.head?.getD []
  let subAction := words[1]?.getD []
  if ["push", "send-email", "request-pull"].map String.toList |>.contains subcommand then true
  else if subcommand = "credential".toList then true
  else if subcommand = "remote".toList then
    !(["", "-v", "show", "get-url"].map String.toList).contains subAction
  else if subcommand = "config".toList then
    let hasWriteFlag := words.any fun word => word = "--global".toList || word = "--system".toList
    let positionalArgCount := ((words.drop 1).filter fun word => !(['-'].isPrefixOf word)).length
    hasWriteFlag || 1 < positionalArgCount
  else if subcommand = "submodule".toList then subAction = "add".toList
  else if words.any fun word =>
      word = "--upload-pack".toList || "--upload-pack=".toList.isPrefixOf word ||
        word = "--receive-pack".toList || "--receive-pack=".toList.isPrefixOf word then true
  else isGitConfigInjection args

/-- The loop over the words of `find`: every `-exec` must have a command that is
not blocked, and the words up to its end are skipped. -/
def findExecBlocked (payloadBlocked : List Char → Bool) : Nat → List Word → Bool
  | _, [] => false
  | skip + 1, _ :: rest => findExecBlocked payloadBlocked skip rest
  | 0, word :: rest =>
    if word = "-exec".toList ∨ word = "-execdir".toList then
      match extractFindExecPayload [] rest with
      | none => true
      | some (execPayload, terminatorIndex) =>
        if payloadBlocked execPayload then true
        else findExecBlocked payloadBlocked (terminatorIndex + 1) rest
    else findExecBlocked payloadBlocked 0 rest

/-- The text of a segment behind its command. -/
def argumentsText (baseCmd : Word) (fullSegment : List Char) : List Char :=
  trimStart ((baseCmd.isPrefixOf? (trim fullSegment)).getD [])

section Segments

variable (policy : SecurityPolicy) (env : Environment) (workspaceDir : Path)
  (allowedCommands : List Word)

/-- The checks of the command of `find -exec`, `blocked` being those of its
arguments. -/
def execPayloadBlocked (blocked : Word → List Char → Bool) (execPayload : List Char) : Bool :=
  if hasLeadingEnvAssignments execPayload then true
  else
    match (splitWhitespace execPayload).head? with
    | none => true
    | some execCmd =>
      -- The executable must be an allowlisted name, not a path.
      if execCmd.contains '/' || execCmd.contains '\\' then true
      else
        let execBase := (execCmd.splitOn '/').getLast?.getD execCmd
        if !allowedCommands.contains execBase then true
        else if hasForbiddenPathArgument policy env workspaceDir
            ((splitWhitespace execPayload).drop 1) then true
        else blocked execBase execPayload

/-- The checks of arguments by tool. A command of `find -exec` is checked with one
unit of fuel less. -/
def hasBlockedArgumentsFrom : Nat → Word → List Char → Bool
  | 0, _, _ => true
  | fuel + 1, baseCmd, fullSegment =>
    let args := argumentsText baseCmd fullSegment
    let words := splitWhitespace args
    let subcommand := words.head?.getD []
    if baseCmd = "git".toList then hasBlockedGitArguments args words
    else if baseCmd = "npm".toList then
      ["publish", "login", "adduser", "owner", "token", "access", "profile"].map String.toList
        |>.contains subcommand
    else if baseCmd = "cargo".toList then
      ["publish", "login", "owner", "yank"].map String.toList |>.contains subcommand
    else if baseCmd = "find".toList then
      if words.contains "-delete".toList then true
      else findExecBlocked (execPayloadBlocked policy env workspaceDir allowedCommands
        (hasBlockedArgumentsFrom fuel)) 0 words
    else false

/-- The command of `find -exec` is shorter than the segment around it, so the
length of the segment is fuel enough. -/
def hasBlockedArgumentsWithContext (baseCmd : Word) (fullSegment : List Char) : Bool :=
  hasBlockedArgumentsFrom policy env workspaceDir allowedCommands (fullSegment.length + 1)
    baseCmd fullSegment

/-- The checks of one segment, trimmed and with its escaped semicolons restored. -/
def segmentAllowed (segment : List Char) : Bool :=
  if hasLeadingEnvAssignments segment then false
  else
    let executable := (splitWhitespace segment).head?.getD []
    if executable.contains '/' || executable.contains '\\' then false
    else if executable = [] then true
    else if !policy.allowedCommands.contains executable then false
    else if hasForbiddenPathArgument policy env workspaceDir
        ((splitWhitespace segment).drop 1) then false
    else !hasBlockedArgumentsWithContext policy env workspaceDir policy.allowedCommands
      executable segment

end Segments

def separatorMark : Char := '\x00'
def escapedMark : Char := '\x01'

def replaceDoubledOperators (command : List Char) : List Char :=
  replacePair '|' '|' separatorMark (replacePair '&' '&' separatorMark command)

/-- The command with its separators marked. -/
def markSeparators (command : List Char) : List Char :=
  replaceChar '|' separatorMark <| replaceChar ';' separatorMark <|
    replaceChar '\n' separatorMark <|
      replacePair '\\' ';' escapedMark (replaceDoubledOperators command)

def restoreSemicolons (segment : List Char) : List Char :=
  segment.flatMap fun char => if char = escapedMark then ['\\', ';'] else [char]

/-- Whether a command has an operator that runs commands it hides. -/
def hidesCommands (command : List Char) : Bool :=
  command.contains '\x60' || occurs ['$', '('] command || occurs ['$', '\x7b'] command ||
    occurs ['<', '('] command || occurs ['>', '('] command

/-- Whether the policy lets a shell command run in a workspace. -/
def isCommandAllowedInWorkspace (policy : SecurityPolicy) (env : Environment)
    (command : List Char) (workspaceDir : Path) : Bool :=
  if policy.autonomy = .readOnly then false
  else if command.contains separatorMark || command.contains escapedMark then false
  else if hidesCommands command then false
  else if command.contains '>' then false
  else if (replaceDoubledOperators command).contains '&' then false
  else
    let segments := (markSeparators command).splitOn separatorMark
    (segments.all fun segment =>
      let segment := trim segment
      segment = [] || segmentAllowed policy env workspaceDir (restoreSemicolons segment)) &&
    segments.any fun segment =>
      let segment := trim segment
      !hasLeadingEnvAssignments segment && (splitWhitespace segment).head?.any fun word => word ≠ []

def isCommandAllowed (policy : SecurityPolicy) (env : Environment) (command : List Char) : Bool :=
  isCommandAllowedInWorkspace policy env command policy.workspaceDir

/-- A policy that allows some commands in a workspace of its own. -/
def policyWithAllowed (allowedCommands : List String) : SecurityPolicy where
  autonomy := .supervised
  workspaceDir := "/work".toList
  workspaceOnly := true
  allowedCommands := allowedCommands.map String.toList
  forbiddenPaths := ["/etc".toList]

/-- A file system with nothing but the workspace and the root. -/
def workspaceOnDisk : Environment where
  home := some "/home/user".toList
  canonicalize path := if components path = components "/work".toList then some "/work".toList
    else if components path = [.rootDir] then some ['/'] else none
  pathExists path := components path = components "/work".toList || components path = [.rootDir]

theorem skipEnvFrom_length_le (fuel : Nat) (text : List Char) :
    (skipEnvFrom fuel text).length ≤ text.length := by
  induction fuel generalizing text with
  | zero => exact le_rfl
  | succ fuel ih =>
    rw [skipEnvFrom]
    split
    · exact le_rfl
    · rename_i word found
      split
      · have step := ih (trimStart (text.drop word.length))
        have trimmed := length_trimStart_le (text.drop word.length)
        rw [List.length_drop] at trimmed
        omega
      · exact le_rfl

/-- Without white space in front, a text has leading assignments when its first
word is one. -/
theorem hasLeadingEnvAssignments_eq {text : List Char} (trimmed : trimStart text = text) :
    hasLeadingEnvAssignments text = (firstWord text).any isEnvAssignment := by
  rw [hasLeadingEnvAssignments, trimmed, skipEnvAssignments, skipEnvFrom]
  cases found : firstWord text with
  | none => simp
  | some word =>
    dsimp only
    cases assigns : isEnvAssignment word with
    | false => simp [assigns]
    | true =>
      rw [if_pos rfl, Option.any_some, assigns, bne_iff_ne]
      intro same
      have bound := skipEnvFrom_length_le text.length (trimStart (text.drop word.length))
      have shorter := length_trimStart_le (text.drop word.length)
      obtain ⟨nonempty, inside⟩ := firstWord_length found
      have positive := List.length_pos_iff.mpr nonempty
      rw [same] at bound
      rw [List.length_drop] at shorter
      omega

section ExecPayload

/-- A command that a terminator is attached to is what stands before the terminator. -/
theorem findExecTerminator_command {token command : Word} {ends : Bool}
    (found : findExecTerminator token = some (some command, ends)) :
    command ++ ['\\', ';'] = token ∧ command ≠ [] := by
  rw [findExecTerminator] at found
  split_ifs at found with plus semicolon
  · cases found
  · cases found
  · cases stripped : ['\\', ';'].isSuffixOf? token with
    | none =>
      rw [stripped] at found
      cases found
    | some before =>
      rw [stripped] at found
      dsimp only at found
      split_ifs at found with empty
      · cases found
      · cases found
        exact ⟨List.append_eq_of_isSuffixOf?_eq_some stripped, empty⟩

theorem findExecTerminator_length_le {token command : Word} {ends : Bool}
    (found : findExecTerminator token = some (some command, ends)) :
    command.length ≤ token.length := by
  rw [← (findExecTerminator_command found).1, List.length_append]
  exact Nat.le_add_right _ _

theorem findExecTerminator_ends {token : Word} {answer : Option Word × Bool}
    (found : findExecTerminator token = some answer) : answer.2 = true := by
  rw [findExecTerminator] at found
  split_ifs at found
  · cases found
    rfl
  · cases found
    rfl
  · split at found
    · cases found
      rfl
    · cases found

/-- The command of `find -exec` takes no more than the words it is read from. -/
theorem extractFindExecPayload_length_le {execTokens words : List Word} {payload : List Char}
    {index : Nat} (found : extractFindExecPayload execTokens words = some (payload, index)) :
    payload.length + 1 ≤ spacedLength execTokens + spacedLength words := by
  induction words generalizing execTokens index with
  | nil => simp [extractFindExecPayload] at found
  | cons token rest ih =>
    have collected : spacedLength (execTokens ++
        ((findExecTerminator token).bind Prod.fst).toList) ≤
          spacedLength execTokens + (token.length + 1) := by
      rw [spacedLength_append]
      cases terminator : findExecTerminator token with
      | none => simp
      | some answer =>
        obtain ⟨command, ends⟩ := answer
        cases command with
        | none => simp
        | some command =>
          have bound := findExecTerminator_length_le terminator
          simpa using bound
    have whole := spacedLength_cons token rest
    rw [extractFindExecPayload] at found
    split_ifs at found with ends empty
    · cases found
      rw [length_intercalate_blank (by simpa using empty)]
      omega
    · obtain ⟨answer, deeper, same⟩ := Option.map_eq_some_iff.mp found
      cases same
      have step := ih deeper
      have absent : findExecTerminator token = none := by
        cases terminator : findExecTerminator token with
        | none => rfl
        | some answer => simp [terminator, findExecTerminator_ends terminator] at ends
      rw [absent] at step
      rw [Option.bind_none, Option.toList_none, List.append_nil, spacedLength_append,
        spacedLength_cons, spacedLength_nil] at step
      omega

/-- The loop over the words of `find` sees commands that are shorter than the
words together. -/
theorem findExecBlocked_congr {blocked other : List Char → Bool} {words : List Word}
    (agree : ∀ payload, payload.length + 1 < spacedLength words →
      blocked payload = other payload) (skip : Nat) :
    findExecBlocked blocked skip words = findExecBlocked other skip words := by
  induction words generalizing skip with
  | nil => cases skip <;> rfl
  | cons word rest ih =>
    have whole := spacedLength_cons word rest
    have deeper := ih fun payload bound => agree payload (by omega)
    cases skip with
    | succ skip => exact deeper skip
    | zero =>
      rw [findExecBlocked, findExecBlocked]
      split
      · cases found : extractFindExecPayload [] rest with
        | none => rfl
        | some answer =>
          have bound := extractFindExecPayload_length_le found
          rw [spacedLength_nil] at bound
          dsimp only
          rw [agree answer.1 (by omega), deeper]
      · exact deeper 0

theorem execPayloadBlocked_congr {policy : SecurityPolicy} {env : Environment}
    {workspaceDir : Path} {allowedCommands : List Word} {blocked other : Word → List Char → Bool}
    {payload : List Char} (agree : ∀ base, blocked base payload = other base payload) :
    execPayloadBlocked policy env workspaceDir allowedCommands blocked payload =
      execPayloadBlocked policy env workspaceDir allowedCommands other payload := by
  simp only [execPayloadBlocked, agree]

theorem length_argumentsText_le (baseCmd : Word) (fullSegment : List Char) :
    (argumentsText baseCmd fullSegment).length ≤ fullSegment.length := by
  have outer := length_trim_le fullSegment
  have inner := length_trimStart_le ((baseCmd.isPrefixOf? (trim fullSegment)).getD [])
  rw [argumentsText]
  cases stripped : baseCmd.isPrefixOf? (trim fullSegment) with
  | none => simp [trimStart]
  | some rest =>
    have whole := congrArg List.length (List.append_eq_of_isPrefixOf?_eq_some stripped)
    rw [stripped, Option.getD_some] at inner
    rw [List.length_append] at whole
    rw [Option.getD_some]
    omega

theorem hasBlockedArgumentsFrom_fuel (policy : SecurityPolicy) (env : Environment)
    (workspaceDir : Path) (allowedCommands : List Word) {fuel other : Nat} (baseCmd : Word)
    {fullSegment : List Char} (enough : fullSegment.length < fuel)
    (otherEnough : fullSegment.length < other) :
    hasBlockedArgumentsFrom policy env workspaceDir allowedCommands fuel baseCmd fullSegment =
      hasBlockedArgumentsFrom policy env workspaceDir allowedCommands other baseCmd
        fullSegment := by
  induction fuel generalizing other baseCmd fullSegment with
  | zero => omega
  | succ fuel ih =>
    cases other with
    | zero => omega
    | succ other =>
      have args := length_argumentsText_le baseCmd fullSegment
      have words := spacedLength_splitWhitespace_le (argumentsText baseCmd fullSegment)
      have agree : ∀ payload : List Char,
          payload.length + 1 < spacedLength (splitWhitespace (argumentsText baseCmd fullSegment)) →
          execPayloadBlocked policy env workspaceDir allowedCommands
            (hasBlockedArgumentsFrom policy env workspaceDir allowedCommands fuel) payload =
          execPayloadBlocked policy env workspaceDir allowedCommands
            (hasBlockedArgumentsFrom policy env workspaceDir allowedCommands other) payload := by
        intro payload bound
        apply execPayloadBlocked_congr
        intro base
        apply ih <;> omega
      rw [hasBlockedArgumentsFrom, hasBlockedArgumentsFrom, findExecBlocked_congr agree]

/-- The recursion is the one of the source: the fuel never runs out. -/
theorem hasBlockedArgumentsWithContext_find (policy : SecurityPolicy) (env : Environment)
    (workspaceDir : Path) (allowedCommands : List Word) (fullSegment : List Char) :
    hasBlockedArgumentsWithContext policy env workspaceDir allowedCommands "find".toList
        fullSegment =
      let words := splitWhitespace (argumentsText "find".toList fullSegment)
      words.contains "-delete".toList || findExecBlocked
        (execPayloadBlocked policy env workspaceDir allowedCommands
          (hasBlockedArgumentsWithContext policy env workspaceDir allowedCommands)) 0 words := by
  have args := length_argumentsText_le "find".toList fullSegment
  have words := spacedLength_splitWhitespace_le (argumentsText "find".toList fullSegment)
  rw [hasBlockedArgumentsWithContext, hasBlockedArgumentsFrom, if_neg (by decide),
    if_neg (by decide), if_neg (by decide), if_pos rfl]
  dsimp only
  rw [Bool.if_true_left, Bool.decide_eq_true]
  congr 1
  apply findExecBlocked_congr
  intro payload bound
  apply execPayloadBlocked_congr
  intro base
  apply hasBlockedArgumentsFrom_fuel <;> omega

end ExecPayload

end Asterel.Policy
