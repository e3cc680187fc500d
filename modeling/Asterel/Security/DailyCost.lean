import Mathlib.Algebra.GroupWithZero.Nat
import Mathlib.Data.List.Induction

/-!
# The daily cost cap

The tracker keeps one day and the cents spent on it. A call reads the clock under
the lock, so successive calls of all clones are one sequence of steps. When the
day read differs from the day kept, the counter starts again at zero, also when
the clock has gone back to a day that was left before.

The counter is 32 bits wide and its sum saturates, so a cap at the width's limit is
never exceeded by the sum that is compared with it.
-/

namespace Asterel.CostTracker

variable {call : Call} {history : History} {maxCentsPerDay : UInt32}

def maxCents : UInt32 := 4294967295

/-- `u32::saturating_add`. -/
def saturatingAdd (left right : UInt32) : UInt32 :=
  if left.toNat + right.toNat < UInt32.size then left + right else maxCents

def secsPerDay : Nat := 86400

/-- The day of a reading of the clock, in seconds since the epoch; a clock before
the epoch reads as day zero. -/
def currentDayEpoch (clock : Option Nat) : Nat := clock.getD 0 / secsPerDay

structure DailyCostState where
  dayEpoch : Nat
  spentCents : UInt32
deriving DecidableEq

/-- The state of a tracker built by `new`. -/
def new (clock : Option Nat) : DailyCostState := ⟨currentDayEpoch clock, 0⟩

def rolloverDayIfNeeded (clock : Option Nat) (state : DailyCostState) : DailyCostState :=
  if state.dayEpoch ≠ currentDayEpoch clock then ⟨currentDayEpoch clock, 0⟩ else state

/-- One call with the reading of the clock it makes. -/
structure Call where
  clock : Option Nat
  additionalCents : UInt32
deriving DecidableEq

def Call.day (call : Call) : Nat := currentDayEpoch call.clock

def record (maxCentsPerDay : UInt32) (state : DailyCostState) (call : Call) :
    Bool × DailyCostState :=
  let state := rolloverDayIfNeeded call.clock state
  if call.additionalCents = 0 then (state.spentCents ≤ maxCentsPerDay, state)
  else if maxCentsPerDay < saturatingAdd state.spentCents call.additionalCents then (false, state)
  else (true, { state with spentCents := saturatingAdd state.spentCents call.additionalCents })

/-- The calls answered so far, with their answers, and the state they left. -/
structure History where
  answered : List (Call × Bool)
  state : DailyCostState

def History.step (maxCentsPerDay : UInt32) (history : History) (call : Call) : History :=
  let (granted, state) := record maxCentsPerDay history.state call
  ⟨history.answered ++ [(call, granted)], state⟩

/-- Successive calls on a tracker built at some reading of the clock. -/
def runRecords (maxCentsPerDay : UInt32) (builtAt : Option Nat) (calls : List Call) : History :=
  calls.foldl (History.step maxCentsPerDay) ⟨[], new builtAt⟩

/-- The exact cents of the calls of a day that were granted. -/
def grantedOn (day : Nat) (answered : List (Call × Bool)) : Nat :=
  ((answered.filter fun answer => answer.2 && answer.1.day = day).map
    fun answer => answer.1.additionalCents.toNat).sum

/-- No day is granted more than the cap. -/
def WithinCap (maxCentsPerDay : UInt32) (answered : List (Call × Bool)) : Prop :=
  ∀ day, grantedOn day answered ≤ maxCentsPerDay.toNat

/-- The counter can judge a call: a day that is not the day kept has not been
granted anything before, and the sum compared with the cap does not saturate at
it. -/
structure Judged (maxCentsPerDay : UInt32) (history : History) (call : Call) : Prop where
  freshDay : call.day ≠ history.state.dayEpoch → grantedOn call.day history.answered = 0
  exactSum : maxCentsPerDay < maxCents ∨
    (rolloverDayIfNeeded call.clock history.state).spentCents.toNat +
      call.additionalCents.toNat < UInt32.size

theorem toNat_saturatingAdd (left right : UInt32) :
    (saturatingAdd left right).toNat = min (left.toNat + right.toNat) maxCents.toNat := by
  have limit : maxCents.toNat + 1 = UInt32.size := rfl
  rw [saturatingAdd]
  split
  next fits =>
    rw [UInt32.toNat_add, Nat.mod_eq_of_lt fits]
    omega
  next => omega

theorem grantedOn_concat (day : Nat) (answered : List (Call × Bool)) (answer : Call × Bool) :
    grantedOn day (answered ++ [answer]) = grantedOn day answered +
      if answer.2 && answer.1.day = day then answer.1.additionalCents.toNat else 0 := by
  rw [grantedOn, grantedOn, List.filter_append, List.map_append, List.sum_append, List.filter_cons]
  split <;> simp

/-- The counter is the exact sum of the day kept, and no day is over the cap. -/
structure Exact (maxCentsPerDay : UInt32) (history : History) : Prop where
  counted : grantedOn history.state.dayEpoch history.answered = history.state.spentCents.toNat
  within : WithinCap maxCentsPerDay history.answered

section

variable (exact : Exact maxCentsPerDay history) (judged : Judged maxCentsPerDay history call)
include exact judged

/-- After the rollover the counter is the exact sum of the day of the call. -/
theorem Exact.rolledOver :
    (rolloverDayIfNeeded call.clock history.state).dayEpoch = call.day ∧
      grantedOn call.day history.answered =
        (rolloverDayIfNeeded call.clock history.state).spentCents.toNat := by
  rw [rolloverDayIfNeeded, ← Call.day]
  by_cases sameDay : history.state.dayEpoch = call.day
  · rw [if_neg (not_not_intro sameDay), ← sameDay]
    exact ⟨rfl, exact.counted⟩
  · rw [if_pos sameDay]
    exact ⟨rfl, judged.freshDay (Ne.symm sameDay)⟩

/-- A call that grants nothing leaves the sums. -/
theorem Exact.ungranted {granted : Bool} (nothing : granted = false ∨ call.additionalCents = 0) :
    Exact maxCentsPerDay ⟨history.answered ++ [(call, granted)],
      rolloverDayIfNeeded call.clock history.state⟩ := by
  obtain ⟨day, counted⟩ := exact.rolledOver judged
  have unchanged : ∀ day, grantedOn day (history.answered ++ [(call, granted)]) =
      grantedOn day history.answered := by
    intro day
    rw [grantedOn_concat]
    cases nothing with
    | inl refused => simp [refused]
    | inr zero => simp [zero]
  constructor
  · rw [unchanged, day, counted]
  · intro other
    rw [unchanged]
    exact exact.within other

/-- What one call preserves. -/
theorem Exact.step :
    Exact maxCentsPerDay (history.step maxCentsPerDay call) := by
  obtain ⟨day, counted⟩ := exact.rolledOver judged
  rw [History.step, record]
  dsimp only
  split_ifs with zero refused
  · exact exact.ungranted judged (Or.inr zero)
  · exact exact.ungranted judged (Or.inl rfl)
  · have limit : maxCents.toNat + 1 = UInt32.size := rfl
    have sum := toNat_saturatingAdd
      (rolloverDayIfNeeded call.clock history.state).spentCents call.additionalCents
    have fits : (saturatingAdd (rolloverDayIfNeeded call.clock history.state).spentCents
        call.additionalCents).toNat ≤ maxCentsPerDay.toNat :=
      UInt32.le_iff_toNat_le.mp (UInt32.not_lt.mp refused)
    -- A sum below a cap that is not the limit has not been cut off at the limit.
    have whole : (saturatingAdd (rolloverDayIfNeeded call.clock history.state).spentCents
        call.additionalCents).toNat =
          (rolloverDayIfNeeded call.clock history.state).spentCents.toNat +
            call.additionalCents.toNat := by
      cases judged.exactSum with
      | inl below =>
        have below := UInt32.lt_iff_toNat_lt.mp below
        omega
      | inr small => omega
    constructor
    · dsimp only
      rw [day, grantedOn_concat, counted, whole]
      simp
    · intro other
      rw [grantedOn_concat]
      by_cases same : call.day = other
      · rw [← same, counted]
        simp only [decide_true, Bool.and_self, if_true]
        omega
      · simpa [same] using exact.within other

end

theorem runRecords_concat (maxCentsPerDay : UInt32) (builtAt : Option Nat) (calls : List Call)
    (call : Call) : runRecords maxCentsPerDay builtAt (calls ++ [call]) =
      (runRecords maxCentsPerDay builtAt calls).step maxCentsPerDay call := by
  rw [runRecords, List.foldl_append]
  rfl

/-- When the counter can judge every call of a sequence, no day is granted more
than the cap. -/
theorem granted_within_cap (maxCentsPerDay : UInt32) (builtAt : Option Nat) (calls : List Call)
    (judged : ∀ earlier call later, calls = earlier ++ call :: later →
      Judged maxCentsPerDay (runRecords maxCentsPerDay builtAt earlier) call) :
    WithinCap maxCentsPerDay (runRecords maxCentsPerDay builtAt calls).answered := by
  suffices exact : Exact maxCentsPerDay (runRecords maxCentsPerDay builtAt calls) from exact.within
  induction calls using List.reverseRecOn with
  | nil => exact ⟨rfl, fun _ => Nat.zero_le _⟩
  | append_singleton calls call ih =>
    rw [runRecords_concat]
    apply (ih _).step (judged calls call [] rfl)
    intro earlier before later same
    apply judged earlier before (later ++ [call])
    rw [same, List.append_assoc, List.cons_append]

theorem granted_within_cap_two_calls :
    WithinCap 100 (runRecords 100 (some 86400) [⟨some 90000, 60⟩, ⟨some 90001, 60⟩]).answered := by
  apply granted_within_cap
  intro earlier call later same
  cases earlier with
  | nil =>
    cases same
    exact ⟨fun _ => by decide, Or.inl (by decide)⟩
  | cons first earlier =>
    cases earlier with
    | nil =>
      cases same
      exact ⟨fun different => absurd (by decide) different, Or.inl (by decide)⟩
    | cons => simp at same

/-- The clock steps back over the epoch between two calls of one day, and the day is
granted its cap twice. -/
theorem granted_twice_after_clock_step :
    ¬∀ (maxCentsPerDay : UInt32) (builtAt : Option Nat) (calls : List Call),
      WithinCap maxCentsPerDay (runRecords maxCentsPerDay builtAt calls).answered := by
  intro always
  exact absurd (always 100 (some 86400) [⟨some 86400, 100⟩, ⟨none, 0⟩, ⟨some 86400, 100⟩] 1)
    (by decide)

end Asterel.CostTracker
