import Asterel.Security.CommandSegments

/-!
# The arguments of git under the policy

The rules for a subcommand look at the first word behind `git`, and git takes
options of its own before the subcommand. The rule against configuration that runs
code looks for `-c` or `--config` with a plain blank behind it, and git takes any
white space for a word's end; it is also not reached behind the subcommands that
have rules of their own.
-/

namespace Asterel.Policy

open Library Library.Text

/-- The words behind the executable of a segment. -/
def segmentArguments (segment : List Char) : List Word := (splitWhitespace segment).drop 1

/-- Words with an option that names the program of the other side. -/
def namesPack (words : List Word) : Bool :=
  words.any fun word =>
    word = "--upload-pack".toList || "--upload-pack=".toList.isPrefixOf word ||
      word = "--receive-pack".toList || "--receive-pack=".toList.isPrefixOf word

/-- The rules for a subcommand, the first of the words, and its arguments. -/
structure SubcommandAllowed (words : List Word) : Prop where
  staysLocal : words.head?.getD [] ∉ ["push", "send-email", "request-pull"].map String.toList
  noCredential : words.head?.getD [] ≠ "credential".toList
  remoteReads : words.head?.getD [] = "remote".toList →
    words[1]?.getD [] ∈ ["", "-v", "show", "get-url"].map String.toList
  configReads : words.head?.getD [] = "config".toList →
    "--global".toList ∉ words ∧ "--system".toList ∉ words ∧
      ((words.drop 1).filter fun word => !(['-'].isPrefixOf word)).length ≤ 1
  submoduleKept : words.head?.getD [] = "submodule".toList → words[1]?.getD [] ≠ "add".toList

/-- The subcommands whose own rules end the check. -/
def EndsCheck (subcommand : Word) : Prop :=
  subcommand = "remote".toList ∨ subcommand = "config".toList ∨ subcommand = "submodule".toList

/-- The options git takes in front of its subcommand, in a word of their own. -/
def isPlainOption (word : Word) : Bool :=
  word = "--no-pager".toList || word = "-p".toList || word = "--bare".toList ||
    "--git-dir=".toList.isPrefixOf word || "--work-tree=".toList.isPrefixOf word

/-- The options git takes in front of its subcommand with the word behind them. -/
def isValuedOption (word : Word) : Bool := word = "-C".toList || word = "-c".toList

def isGlobalOption (word : Word) : Bool := isPlainOption word || isValuedOption word

/-- A valued option and its value: a path, or a setting of the form `name=value`. -/
def isOptionPair (word value : Word) : Bool :=
  word = "-C".toList || word = "-c".toList && value.contains '='

/-- The words from git's subcommand on. -/
def skipGlobalOptions : List Word → List Word
  | [] => []
  | [word] => if isPlainOption word then [] else [word]
  | word :: value :: rest =>
    if isOptionPair word value then skipGlobalOptions rest
    else if isPlainOption word then skipGlobalOptions (value :: rest)
    else word :: value :: rest

/-- A setting of a key by which a configuration runs code. -/
def SetsBlockedKey (setting : Word) : Prop :=
  ∃ name value, splitOnce '=' setting = some (name, value) ∧
    ∃ key ∈ gitBlockedConfigKeys, key <+: name.map Char.toLower

/-- Words that hand git such a setting. -/
inductive CarriesInjection (words : List Word) : Prop where
  | behindFlag {before flag setting after} (same : words = before ++ flag :: setting :: after)
      (isFlag : flag = "-c".toList ∨ flag = "--config".toList) (sets : SetsBlockedKey setting)
  | inFlag {setting} (member : "--config=".toList ++ setting ∈ words)
      (sets : SetsBlockedKey setting)

/-- The text of the arguments shows the flag of a setting to the check. -/
def marksConfig (args : List Char) : Bool :=
  occurs "-c ".toList (toLowercase args) || occurs "--config ".toList (toLowercase args) ||
    occurs "--config=".toList (toLowercase args)

theorem isGitConfigInjection_eq (args : List Char) :
    isGitConfigInjection args = (marksConfig args &&
      gitBlockedConfigKeys.any fun key => occurs key (toLowercase args)) := by
  rw [isGitConfigInjection, marksConfig]
  cases occurs "-c ".toList (toLowercase args) <;>
    cases occurs "--config ".toList (toLowercase args) <;>
      cases occurs "--config=".toList (toLowercase args) <;> rfl

section Rules

theorem hasBlockedGitArguments_eq_false_iff (args : List Char) (words : List Word) :
    hasBlockedGitArguments args words = false ↔ SubcommandAllowed words ∧
      (EndsCheck (words.head?.getD []) ∨
        namesPack words = false ∧ isGitConfigInjection args = false) := by
  rw [hasBlockedGitArguments]
  dsimp only
  split_ifs with network credential remote config submodule pack
  · rw [List.contains_iff_mem] at network
    exact iff_of_false id fun passes => passes.1.staysLocal network
  · exact iff_of_false id fun passes => passes.1.noCredential credential
  · rw [Bool.not_eq_false', List.contains_iff_mem]
    constructor
    · intro reads
      refine ⟨⟨by rw [remote]; decide, credential, fun _ => reads, fun config => ?_,
        fun submodule => ?_⟩, Or.inl (Or.inl remote)⟩
      · exact absurd (remote.symm.trans config) (by decide)
      · exact absurd (remote.symm.trans submodule) (by decide)
    · exact fun passes => passes.1.remoteReads remote
  · rw [Bool.or_eq_false_iff, List.any_eq_false, decide_eq_false_iff_not, not_lt]
    constructor
    · rintro ⟨noFlag, few⟩
      refine ⟨⟨by rw [config]; decide, credential, fun same => absurd same remote,
        fun _ => ⟨?_, ?_, few⟩, fun submodule => ?_⟩, Or.inl (Or.inr (Or.inl config))⟩
      · exact fun member => noFlag _ member (by rw [decide_eq_true rfl, Bool.true_or])
      · exact fun member => noFlag _ member (by rw [decide_eq_true rfl, Bool.or_true])
      · exact absurd (config.symm.trans submodule) (by decide)
    · intro passes
      obtain ⟨noGlobal, noSystem, few⟩ := passes.1.configReads config
      refine ⟨fun word member flag => ?_, few⟩
      rw [Bool.or_eq_true, decide_eq_true_eq, decide_eq_true_eq] at flag
      cases flag with
      | inl same => exact noGlobal (same ▸ member)
      | inr same => exact noSystem (same ▸ member)
  · rw [decide_eq_false_iff_not]
    constructor
    · intro kept
      exact ⟨⟨by rw [submodule]; decide, credential, fun same => absurd same remote,
        fun same => absurd same config, fun _ => kept⟩, Or.inl (Or.inr (Or.inr submodule))⟩
    · exact fun passes => passes.1.submoduleKept submodule
  · have pack : namesPack words = true := pack
    refine iff_of_false id fun passes => ?_
    cases passes.2 with
    | inl ends => exact ends.elim remote fun ends => ends.elim config submodule
    | inr others => exact absurd (pack.symm.trans others.1) Bool.noConfusion
  · have pack : namesPack words = false := Bool.eq_false_iff.mpr pack
    constructor
    · intro unseen
      rw [List.contains_iff_mem] at network
      exact ⟨⟨network, credential, fun same => absurd same remote, fun same => absurd same config,
        fun same => absurd same submodule⟩, Or.inr ⟨pack, unseen⟩⟩
    · intro passes
      cases passes.2 with
      | inl ends =>
        exact absurd ends fun ends => ends.elim remote fun ends => ends.elim config submodule
      | inr others => exact others.2

/-- An option is no subcommand that has a rule. -/
theorem endsCheck_not_option {word : Word} (option : ['-'].isPrefixOf word) : ¬EndsCheck word := by
  rintro (rfl | rfl | rfl) <;> exact absurd option (by decide)

/-- The rules for subcommands say nothing about words that begin with an option. -/
theorem subcommandAllowed_option {words : List Word}
    (option : ['-'].isPrefixOf (words.head?.getD [])) : SubcommandAllowed words := by
  have notEnding := endsCheck_not_option option
  constructor
  · intro network
    have names : ∀ name ∈ ["push", "send-email", "request-pull"].map String.toList,
        ['-'].isPrefixOf name = false := by decide
    exact absurd (option.symm.trans (names _ network)) Bool.noConfusion
  · intro credential
    rw [credential] at option
    exact absurd option (by decide)
  · exact fun remote => absurd (Or.inl remote) notEnding
  · exact fun config => absurd (Or.inr (Or.inl config)) notEnding
  · exact fun submodule => absurd (Or.inr (Or.inr submodule)) notEnding

theorem isPlainOption_option {word : Word} (option : isPlainOption word = true) :
    ['-'].isPrefixOf word = true := by
  simp only [isPlainOption, Bool.or_eq_true, decide_eq_true_eq, List.isPrefixOf_iff_prefix]
    at option
  rw [List.isPrefixOf_iff_prefix]
  rcases option with (((rfl | rfl) | rfl) | gitDir) | workTree
  · decide
  · decide
  · decide
  · exact List.IsPrefix.trans (by decide) gitDir
  · exact List.IsPrefix.trans (by decide) workTree

theorem isGlobalOption_option {word : Word} (option : isGlobalOption word = true) :
    ['-'].isPrefixOf word = true := by
  cases Bool.or_eq_true_iff.mp option with
  | inl plain => exact isPlainOption_option plain
  | inr valued =>
    simp only [isValuedOption, Bool.or_eq_true, decide_eq_true_eq] at valued
    rcases valued with rfl | rfl <;> decide

/-- Without an option in front nothing is skipped. -/
theorem skipGlobalOptions_eq_self {words : List Word}
    (noOption : isGlobalOption (words.head?.getD []) = false) : skipGlobalOptions words = words := by
  cases words with
  | nil => rfl
  | cons word rest =>
    have noOption : isGlobalOption word = false := noOption
    obtain ⟨notPlain, notValued⟩ := Bool.or_eq_false_iff.mp noOption
    cases rest with
    | nil => rw [skipGlobalOptions, notPlain, if_neg Bool.false_ne_true]
    | cons value rest =>
      have notPair : isOptionPair word value = false := by
        obtain ⟨notDirectory, notSetting⟩ := Bool.or_eq_false_iff.mp notValued
        rw [isOptionPair, notDirectory, notSetting, Bool.false_and, Bool.or_false]
      rw [skipGlobalOptions, notPair, notPlain, if_neg Bool.false_ne_true,
        if_neg Bool.false_ne_true]

end Rules

section Segments

variable {policy : SecurityPolicy} {env : Environment} {workspaceDir : Path} {segment : List Char}

theorem argumentsText_trim (baseCmd : Word) (segment : List Char) :
    argumentsText baseCmd (trim segment) = argumentsText baseCmd segment := by
  rw [argumentsText, trim_trim, argumentsText]

/-- The words the rules look at are those behind the executable. -/
theorem splitWhitespace_argumentsText {executable : Word}
    (first : firstWord segment = some executable) :
    splitWhitespace (argumentsText executable segment) = segmentArguments segment := by
  have trimmed : firstWord (trim segment) = some executable := by rw [firstWord_trim, first]
  obtain ⟨rest, start, words⟩ := words_of_firstWord trimmed
  rw [trimStart_trim] at start
  have stripped : executable.isPrefixOf? (trim segment) = some rest := by
    simp [start]
  rw [splitWhitespace_trim] at words
  rw [argumentsText, stripped, Option.getD_some, splitWhitespace_trimStart, segmentArguments,
    words, List.drop_one, List.tail_cons]

theorem hasBlockedArgumentsWithContext_git (allowedCommands : List Word) (fullSegment : List Char) :
    hasBlockedArgumentsWithContext policy env workspaceDir allowedCommands "git".toList
      fullSegment = hasBlockedGitArguments (argumentsText "git".toList fullSegment)
        (splitWhitespace (argumentsText "git".toList fullSegment)) := by
  rw [hasBlockedArgumentsWithContext, hasBlockedArgumentsFrom, if_pos rfl]

/-- What the policy asks of a segment of git, apart from its arguments' rules. -/
structure GitListed (policy : SecurityPolicy) (env : Environment) (workspaceDir : Path)
    (segment : List Char) : Prop where
  allowlisted : "git".toList ∈ policy.allowedCommands
  pathsAllowed : hasForbiddenPathArgument policy env workspaceDir (segmentArguments segment) = false

/-- The admitted segments of git. -/
theorem git_segmentAllowed_iff (first : firstWord segment = some "git".toList) :
    segmentAllowed policy env workspaceDir (trim segment) = true ↔
      GitListed policy env workspaceDir segment ∧ SubcommandAllowed (segmentArguments segment) ∧
      (EndsCheck ((segmentArguments segment).head?.getD []) ∨
        namesPack (segmentArguments segment) = false ∧
          isGitConfigInjection (argumentsText "git".toList segment) = false) := by
  have words := splitWhitespace_argumentsText first
  rw [segmentAllowed_iff first, ← words, ← hasBlockedGitArguments_eq_false_iff]
  constructor
  · intro passes
    have blocked := passes.argumentsAllowed
    rw [hasBlockedArgumentsWithContext_git, argumentsText_trim] at blocked
    exact ⟨⟨passes.allowlisted, passes.pathsAllowed⟩, blocked⟩
  · rintro ⟨listed, blocked⟩
    refine ⟨by decide, by decide, by decide, listed.allowlisted, listed.pathsAllowed, ?_⟩
    rw [hasBlockedArgumentsWithContext_git, argumentsText_trim]
    exact blocked

/-- What the policy asks of a segment that begins with an option of git. -/
structure PassesBesideSubcommand (policy : SecurityPolicy) (env : Environment)
    (workspaceDir : Path) (segment : List Char) : Prop where
  listed : GitListed policy env workspaceDir segment
  noPack : namesPack (segmentArguments segment) = false
  noInjection : isGitConfigInjection (argumentsText "git".toList segment) = false

/-- The subcommand git runs obeys the rules in every admitted segment, exactly when
it does so behind the options in front of it. -/
theorem subcommand_allowed_iff (first : firstWord segment = some "git".toList) :
    (segmentAllowed policy env workspaceDir (trim segment) = true →
      SubcommandAllowed (skipGlobalOptions (segmentArguments segment))) ↔
    (isGlobalOption ((segmentArguments segment).head?.getD []) = true →
      PassesBesideSubcommand policy env workspaceDir segment →
      SubcommandAllowed (skipGlobalOptions (segmentArguments segment))) := by
  rw [git_segmentAllowed_iff first]
  constructor
  · intro obeys option passes
    apply obeys
    have isOption := isGlobalOption_option option
    exact ⟨passes.listed, subcommandAllowed_option isOption,
      Or.inr ⟨passes.noPack, passes.noInjection⟩⟩
  · rintro behindOptions ⟨listed, allowed, others⟩
    cases option : isGlobalOption ((segmentArguments segment).head?.getD []) with
    | false =>
      rw [skipGlobalOptions_eq_self option]
      exact allowed
    | true =>
      have notEnding := endsCheck_not_option (isGlobalOption_option option)
      obtain ⟨noPack, noInjection⟩ := others.resolve_left notEnding
      exact behindOptions option ⟨listed, noPack, noInjection⟩

theorem subcommand_allowed_sample :
    (segmentAllowed (policyWithAllowed ["git"]) workspaceOnDisk "/work".toList
      (trim "git -p log".toList) = true →
      SubcommandAllowed (skipGlobalOptions (segmentArguments "git -p log".toList))) ↔
    (isGlobalOption ((segmentArguments "git -p log".toList).head?.getD []) = true →
      PassesBesideSubcommand (policyWithAllowed ["git"]) workspaceOnDisk "/work".toList
        "git -p log".toList →
      SubcommandAllowed (skipGlobalOptions (segmentArguments "git -p log".toList))) :=
  subcommand_allowed_iff (by decide : firstWord "git -p log".toList = some "git".toList)

/-- A push behind an option of git is admitted. -/
theorem push_behind_option :
    isCommandAllowedInWorkspace (policyWithAllowed ["git"]) workspaceOnDisk
        "git -C . push".toList "/work".toList = true ∧
      segments "git -C . push".toList = ["git -C . push".toList] ∧
      segmentAllowed (policyWithAllowed ["git"]) workspaceOnDisk "/work".toList
        (trim "git -C . push".toList) = true ∧
      ¬SubcommandAllowed (skipGlobalOptions (segmentArguments "git -C . push".toList)) := by
  refine ⟨by decide, by decide, by decide, fun allowed => ?_⟩
  exact absurd allowed.staysLocal (by decide)

section Settings

/-- A setting of a blocked key shows its key in the lower case of the text. -/
theorem key_occurs {args setting : List Char} (inside : setting <:+: args)
    (sets : SetsBlockedKey setting) :
    (gitBlockedConfigKeys.any fun key => occurs key (toLowercase args)) = true := by
  obtain ⟨name, value, split, key, member, begins⟩ := sets
  have ascii : ∀ key ∈ gitBlockedConfigKeys, ∀ char ∈ key, char.toNat < 128 := by decide
  have shown : key <+: toLowercase name := prefix_toLowercase (ascii key member) begins
  have nameInside : name <:+: args :=
    List.IsInfix.trans (List.IsPrefix.isInfix ⟨_, (splitOnce_eq split).symm⟩) inside
  exact List.any_eq_true.mpr ⟨key, member,
    decide_eq_true (shown.isInfix.trans (toLowercase_isInfix nameInside))⟩

theorem isGitConfigInjection_of_carries {args : List Char}
    (carries : CarriesInjection (splitWhitespace args)) :
    isGitConfigInjection args = marksConfig args := by
  have occursInside : (gitBlockedConfigKeys.any fun key => occurs key (toLowercase args)) = true := by
    cases carries with
    | @behindFlag before flag setting after same isFlag sets =>
      have member : setting ∈ splitWhitespace args := by simp [same]
      exact key_occurs (mem_splitWhitespace member).2.1 sets
    | inFlag member sets =>
      exact key_occurs ((List.suffix_append _ _).isInfix.trans (mem_splitWhitespace member).2.1) sets
  rw [isGitConfigInjection_eq, occursInside, Bool.and_true]

/-- What the policy asks of a segment of git, apart from the rule for settings. -/
structure PassesBesideSettings (policy : SecurityPolicy) (env : Environment)
    (workspaceDir : Path) (segment : List Char) : Prop where
  listed : GitListed policy env workspaceDir segment
  subcommand : SubcommandAllowed (segmentArguments segment)
  noPack : EndsCheck ((segmentArguments segment).head?.getD []) ∨
    namesPack (segmentArguments segment) = false

/-- The rule for settings is reached and sees a flag. -/
structure SettingsSeen (segment : List Char) : Prop where
  reached : ¬EndsCheck ((segmentArguments segment).head?.getD [])
  marked : marksConfig (argumentsText "git".toList segment) = true

/-- An admitted segment carries no setting that runs code, exactly when the rule sees
those it carries beside what is refused anyway. -/
theorem carries_no_injection_iff (first : firstWord segment = some "git".toList) :
    (segmentAllowed policy env workspaceDir (trim segment) = true →
      ¬CarriesInjection (segmentArguments segment)) ↔
    (CarriesInjection (segmentArguments segment) →
      PassesBesideSettings policy env workspaceDir segment → SettingsSeen segment) := by
  have words := splitWhitespace_argumentsText first
  rw [git_segmentAllowed_iff first]
  constructor
  · intro clean carries passes
    by_contra unseen
    refine clean ⟨passes.listed, passes.subcommand, ?_⟩ carries
    by_cases ends : EndsCheck ((segmentArguments segment).head?.getD [])
    · exact Or.inl ends
    · refine Or.inr ⟨passes.noPack.resolve_left ends, Bool.eq_false_iff.mpr fun found => ?_⟩
      rw [isGitConfigInjection_of_carries (words ▸ carries)] at found
      exact unseen ⟨ends, found⟩
  · rintro seen ⟨listed, subcommand, others⟩ carries
    have noPack := others.imp_right And.left
    obtain ⟨reached, marked⟩ := seen carries ⟨listed, subcommand, noPack⟩
    have missed := (others.resolve_left reached).2
    rw [isGitConfigInjection_of_carries (words ▸ carries)] at missed
    exact absurd (marked.symm.trans missed) Bool.noConfusion

theorem carries_no_injection_sample :
    (segmentAllowed (policyWithAllowed ["git"]) workspaceOnDisk "/work".toList
      (trim "git -c core.pager=sh log".toList) = true →
      ¬CarriesInjection (segmentArguments "git -c core.pager=sh log".toList)) ↔
    (CarriesInjection (segmentArguments "git -c core.pager=sh log".toList) →
      PassesBesideSettings (policyWithAllowed ["git"]) workspaceOnDisk "/work".toList
        "git -c core.pager=sh log".toList →
      SettingsSeen "git -c core.pager=sh log".toList) :=
  carries_no_injection_iff
    (by decide : firstWord "git -c core.pager=sh log".toList = some "git".toList)

/-- A tab behind the flag hides the setting. -/
theorem setting_behind_tab :
    isCommandAllowedInWorkspace (policyWithAllowed ["git"]) workspaceOnDisk
        "git -c\tcore.pager=sh log".toList "/work".toList = true ∧
      segments "git -c\tcore.pager=sh log".toList = ["git -c\tcore.pager=sh log".toList] ∧
      segmentAllowed (policyWithAllowed ["git"]) workspaceOnDisk "/work".toList
        (trim "git -c\tcore.pager=sh log".toList) = true ∧
      CarriesInjection (segmentArguments "git -c\tcore.pager=sh log".toList) := by
  refine ⟨by decide, by decide, by decide, ?_⟩
  refine @CarriesInjection.behindFlag _ [] "-c".toList "core.pager=sh".toList ["log".toList]
    (by decide) (Or.inl rfl) ?_
  exact ⟨"core.pager".toList, "sh".toList, by decide, "core.pager".toList, by decide, by decide⟩

end Settings

end Segments

end Asterel.Policy
