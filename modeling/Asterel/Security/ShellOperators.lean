import Asterel.Security.CommandSegments

/-!
# The commands a shell would run

A shell cuts a command at every control operator but those that follow an odd
number of backslashes. The policy cuts at every operator but the semicolons that
follow a backslash at all. The cuts differ after an escaped operator, where the
policy sees more segments, and after a semicolon with a positive even number of
backslashes before it, where the policy does not see the command that follows.
Where both cuts begin a segment, they read the same first word, since the policy
refuses an executable with a backslash in it.
-/

namespace Asterel.Policy

open Library Library.Text List

/-- The backslashes right before a character. -/
inductive BackslashRun where
  | none
  | odd
  | even
deriving DecidableEq

/-- One backslash more. -/
def BackslashRun.extend : BackslashRun → BackslashRun
  | .none => .odd
  | .odd => .even
  | .even => .odd

/-- The cut of a shell, the operators taken character by character. -/
def shellCutter : Cutter BackslashRun Char where
  separates run char := isOperator char && run ≠ .odd
  next run char := if char = '\\' then run.extend else .none

/-- The segments a shell sees in a command without quotes. -/
def shellSegments (command : List Char) : List (List Char) := shellCutter.cut .none command

/-- The shell finds a command, and the first word of every command it finds is
allowlisted. -/
structure EveryCommandListed (policy : SecurityPolicy) (command : List Char) : Prop where
  someCommand : ∃ segment ∈ shellSegments command, ¬Blank segment
  listed : ∀ segment ∈ shellSegments command, ∀ word, firstWord segment = some word →
    word ∈ policy.allowedCommands

/-- The first word behind every semicolon with a positive even number of
backslashes before it is allowlisted. -/
def ListedAfterEvenBackslashes (policy : SecurityPolicy) (command : List Char) : Prop :=
  ∀ before rest, command = before ++ ';' :: rest → shellCutter.after .none before = .even →
    ∀ word, firstWord (shellCutter.piece .none rest) = some word → word ∈ policy.allowedCommands

/-- Two segments are the same, at least up to a backslash. -/
inductive SameUpToBackslash : List Char → List Char → Prop where
  | same (segment : List Char) : SameUpToBackslash segment segment
  | parted (before rest others : List Char) :
      SameUpToBackslash (before ++ '\\' :: rest) (before ++ '\\' :: others)

theorem SameUpToBackslash.prepend {segment other : List Char}
    (agree : SameUpToBackslash segment other) (front : List Char) :
    SameUpToBackslash (front ++ segment) (front ++ other) := by
  cases agree with
  | same => exact .same _
  | parted before rest others =>
    rw [← append_assoc, ← append_assoc]
    exact .parted _ _ _

/-- A first word without a backslash is the first word of both segments. -/
theorem SameUpToBackslash.firstWord {segment other : List Char} {word : Word}
    (agree : SameUpToBackslash segment other) (found : Text.firstWord other = some word)
    (plain : ∀ first, Text.firstWord segment = some first → '\\' ∉ first) :
    Text.firstWord segment = some word := by
  cases agree with
  | same => exact found
  | parted before rest others =>
    cases first : Text.firstWord (before ++ '\\' :: rest) with
    | none =>
      have blank := firstWord_eq_none_iff.mp first
      exact absurd (blank '\\' (by simp)) (by decide)
    | some executable =>
      have kept := firstWord_append_cons rest others (by decide) first (plain executable first)
      rw [← found, kept]

theorem shellCutter_separates (run : BackslashRun) (char : Char) :
    shellCutter.separates run char = (isOperator char && decide (run ≠ .odd)) := rfl

theorem shellCutter_next_operator {char : Char} (operator : isOperator char)
    (run : BackslashRun) : shellCutter.next run char = .none := by
  simp [shellCutter, operator_ne_backslash operator]

/-- The policy remembers whether the shell has counted a backslash. -/
theorem policyCutter_after (before : List Char) :
    policyCutter.after false before = decide (shellCutter.after .none before ≠ .none) := by
  induction before using reverseRecOn with
  | nil => rfl
  | append_singleton before char =>
    rw [Cutter.after_concat, Cutter.after_concat]
    by_cases backslash : char = '\\'
    · cases shellCutter.after .none before <;>
        simp [policyCutter, shellCutter, backslash, BackslashRun.extend]
    · simp [policyCutter, shellCutter, backslash]

/-- The backslash right before a position, if there is one. -/
def BackslashRun.last (run : BackslashRun) : List Char := if run = .none then [] else ['\\']

/-- Read from one position on, with the backslash before it, the two segments are the
same up to a backslash. -/
theorem piece_sameUpToBackslash (run : BackslashRun) (rest : List Char) :
    SameUpToBackslash (run.last ++ policyCutter.piece (decide (run ≠ .none)) rest)
      (run.last ++ shellCutter.piece run rest) := by
  induction rest generalizing run with
  | nil => exact .same _
  | cons char rest ih =>
    cases operator : isOperator char with
    | false =>
      have policyKeeps : policyCutter.separates (decide (run ≠ .none)) char = false := by
        simp [policyCutter_separates, operator]
      have shellKeeps : shellCutter.separates run char = false := by
        simp [shellCutter_separates, operator]
      rw [Cutter.piece, Cutter.piece, policyKeeps, shellKeeps]
      apply SameUpToBackslash.prepend
      by_cases backslash : char = '\\'
      · have extended : run.extend ≠ .none := by cases run <;> decide
        have deeper := ih run.extend
        rw [BackslashRun.last, if_neg extended, decide_eq_true extended] at deeper
        simpa [policyCutter, shellCutter, backslash] using deeper
      · have deeper := ih .none
        rw [BackslashRun.last, if_pos rfl] at deeper
        simpa [policyCutter, shellCutter, backslash] using deeper.prepend [char]
    | true =>
      have deeper := ih .none
      rw [BackslashRun.last, if_pos rfl, nil_append, nil_append,
        decide_eq_false (not_not_intro rfl)] at deeper
      rw [Cutter.piece, Cutter.piece, policyCutter_next_operator operator,
        shellCutter_next_operator operator]
      rw [policyCutter_separates, shellCutter_separates, operator]
      by_cases semicolon : char = ';'
      · cases run with
        | none => simpa using .same _
        | odd => simpa [semicolon, BackslashRun.last] using deeper.prepend ['\\', ';']
        | even =>
          simpa [semicolon, BackslashRun.last] using
            SameUpToBackslash.parted [] (';' :: policyCutter.piece false rest) []
      · cases run with
        | none => simpa using .same _
        | odd =>
          simpa [semicolon, BackslashRun.last] using
            SameUpToBackslash.parted [] [] (char :: shellCutter.piece .none rest)
        | even => simpa [semicolon] using .same _

/-- Without backslashes the shell and the policy cut alike. -/
theorem shellSegments_eq_segments {command : List Char} (plain : '\\' ∉ command) :
    shellSegments command = segments command := by
  rw [shellSegments, segments]
  induction command with
  | nil => rfl
  | cons char rest ih =>
    have different : char ≠ '\\' := (ne_of_not_mem_cons plain).symm
    have deeper := ih (not_mem_of_not_mem_cons plain)
    rw [Cutter.cut, Cutter.cut]
    simp [shellCutter, policyCutter, different] at deeper ⊢
    rw [deeper]

section Admitted

variable {policy : SecurityPolicy} {env : Environment} {workspaceDir : Path}
  {command : List Char}

/-- A shell segment that begins where a policy segment begins has an allowlisted
first word. -/
theorem listed_of_sameUpToBackslash
    (allowed : isCommandAllowedInWorkspace policy env command workspaceDir = true)
    {segment other : List Char} (member : segment ∈ segments command)
    (agree : SameUpToBackslash segment other) {word : Word}
    (found : firstWord other = some word) : word ∈ policy.allowedCommands := by
  have first := agree.firstWord found fun executable first =>
    (allowed_executable allowed member first).noBackslash
  exact (allowed_executable allowed member first).allowlisted

theorem shell_finds_command
    (allowed : isCommandAllowedInWorkspace policy env command workspaceDir = true) :
    ∃ segment ∈ shellSegments command, ¬Blank segment := by
  by_cases backslash : '\\' ∈ command
  · have never : ∀ run, shellCutter.separates run '\\' = false := by
      intro run
      cases run <;> rfl
    obtain ⟨segment, member, inside⟩ :=
      shellCutter.mem_piece_of_never_separates never backslash .none
    refine ⟨segment, member, fun blank => ?_⟩
    exact absurd (blank _ inside) (by decide)
  · obtain ⟨-, -, -, someCommand⟩ := isCommandAllowedInWorkspace_iff.mp allowed
    rw [shellSegments_eq_segments backslash]
    exact someCommand

/-- In an allowed command, every command a shell would run is allowlisted exactly
when the commands behind a semicolon with a positive even number of backslashes
before it are. -/
theorem every_command_listed_iff
    (allowed : isCommandAllowedInWorkspace policy env command workspaceDir = true) :
    EveryCommandListed policy command ↔ ListedAfterEvenBackslashes policy command := by
  constructor
  · intro everyListed before rest same even word found
    apply everyListed.listed _ _ word found
    apply (shellCutter.mem_cut_iff).mpr
    refine Or.inr ⟨before, ';', rest, same, ?_, ?_⟩
    · rw [even]
      rfl
    · rw [Cutter.after_concat, shellCutter_next_operator (by decide)]
  · intro condition
    refine ⟨shell_finds_command allowed, ?_⟩
    intro segment member word found
    cases shellCutter.mem_cut_iff.mp member with
    | inl atFront =>
      have agree := piece_sameUpToBackslash .none command
      rw [atFront] at found
      exact listed_of_sameUpToBackslash allowed (policyCutter.piece_mem_cut false command)
        agree found
    | inr behind =>
      obtain ⟨before, char, rest, same, separates, atRest⟩ := behind
      have operator : isOperator char := by
        rw [shellCutter_separates, Bool.and_eq_true] at separates
        exact separates.1
      rw [Cutter.after_concat, shellCutter_next_operator operator] at atRest
      rw [atRest] at found
      by_cases missed : char = ';' ∧ shellCutter.after .none before = .even
      · obtain ⟨rfl, even⟩ := missed
        exact condition before rest same even word found
      · have member : policyCutter.piece false rest ∈ segments command := by
          apply policyCutter.mem_cut_iff.mpr
          refine Or.inr ⟨before, char, rest, same, ?_, ?_⟩
          · rw [policyCutter_after]
            cases run : shellCutter.after .none before with
            | none => simp [policyCutter_separates, operator]
            | odd => simp [shellCutter_separates, run] at separates
            | even =>
              have other : char ≠ ';' := fun semicolon => missed ⟨semicolon, run⟩
              simp [policyCutter_separates, operator, other]
          · rw [Cutter.after_concat, policyCutter_next_operator operator]
        exact listed_of_sameUpToBackslash allowed member
          (piece_sameUpToBackslash .none rest) found

end Admitted

theorem every_command_listed_sample :
    EveryCommandListed (policyWithAllowed ["git", "echo"]) "git status && echo ok".toList ↔
      ListedAfterEvenBackslashes (policyWithAllowed ["git", "echo"])
        "git status && echo ok".toList :=
  every_command_listed_iff (by decide : isCommandAllowedInWorkspace
    (policyWithAllowed ["git", "echo"]) workspaceOnDisk "git status && echo ok".toList
    "/work".toList = true)

/-- A shell runs `rm` here, the policy sees an argument of `echo`. -/
theorem command_after_even_backslashes_missed :
    doubleQuote ∉ "echo a\\\\;rm -rf x".toList ∧ singleQuote ∉ "echo a\\\\;rm -rf x".toList ∧
      isCommandAllowedInWorkspace (policyWithAllowed ["echo"]) workspaceOnDisk
        "echo a\\\\;rm -rf x".toList "/work".toList = true ∧
      ¬EveryCommandListed (policyWithAllowed ["echo"]) "echo a\\\\;rm -rf x".toList := by
  refine ⟨by decide, by decide, by decide, ?_⟩
  intro everyListed
  have listed := everyListed.listed "rm -rf x".toList (by decide) "rm".toList (by decide)
  exact absurd listed (by decide)

end Asterel.Policy
