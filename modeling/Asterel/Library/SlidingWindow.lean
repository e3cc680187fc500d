import Mathlib.Data.List.Basic
import Mathlib.Algebra.Order.Ring.Nat

/-!
# Sliding windows over a list of instants

An admission policy looks back over one window width and admits a new instant
only while fewer than a limit of the earlier ones are that recent. Such a policy
bounds every half-open window of the same width, wherever the window starts.
Longer windows are covered by several windows of the policy's own width.

Nothing here depends on the order of the instants: the bound already follows
from what each admission saw.
-/

namespace Library.SlidingWindow

open List

variable {instants : List Nat} (base start : Nat) {limit narrow now wide width : Nat}

/-- The number of instants in the half-open window `[start, start + width)`. -/
def within (start width : Nat) (instants : List Nat) : Nat :=
  instants.countP fun instant => start ≤ instant && instant < start + width

/-- The number of instants less than one width before `now`. -/
def recent (width now : Nat) (instants : List Nat) : Nat :=
  instants.countP fun instant => now < instant + width

/-- Every instant of the list was admitted while fewer than `limit` of the
earlier ones were recent. -/
inductive Admitted (width limit : Nat) : List Nat → Prop
  | nil : Admitted width limit []
  | snoc (earlier : List Nat) (now : Nat) (before : Admitted width limit earlier)
      (room : recent width now earlier < limit) : Admitted width limit (earlier ++ [now])

theorem within_append (width : Nat) (earlier later : List Nat) :
    within start width (earlier ++ later) =
      within start width earlier + within start width later := by
  simp [within]

/-- An admitted instant inside a window makes the earlier members of that
window recent, so they are among those the admission counted. -/
theorem within_le_recent (width now : Nat) (earlier : List Nat) (inside : now < start + width) :
    within start width earlier ≤ recent width now earlier := by
  apply countP_mono_left
  intro instant _ member
  simp only [Bool.and_eq_true, decide_eq_true_eq] at member ⊢
  omega

/-- The admission policy bounds every window of its own width. -/
theorem Admitted.window_bound (admitted : Admitted width limit instants) (start : Nat) :
    within start width instants ≤ limit := by
  induction admitted with
  | nil => simp [within]
  | snoc earlier now before room ih =>
    rw [within_append]
    by_cases inside : start ≤ now ∧ now < start + width
    · have counted : within start width earlier ≤ recent width now earlier :=
        within_le_recent start width now earlier inside.2
      have single : within start width [now] ≤ 1 := countP_le_length
      omega
    · have outside : within start width [now] = 0 := by
        simp only [within, countP_singleton, Bool.and_eq_true, decide_eq_true_eq, inside,
          ↓reduceIte]
      omega

/-- Adjacent windows add up to the window they cover together. -/
theorem within_add (first second : Nat) (instants : List Nat) :
    within start (first + second) instants =
      within start first instants + within (start + first) second instants := by
  induction instants with
  | nil => rfl
  | cons instant rest ih =>
    simp only [within, countP_cons, Bool.and_eq_true, decide_eq_true_eq] at *
    split_ifs <;> omega

/-- A shorter window with the same start holds no more instants. -/
theorem within_mono (instants : List Nat)
    (shorter : narrow ≤ wide) : within start narrow instants ≤ within start wide instants := by
  obtain ⟨rest, rfl⟩ := Nat.exists_eq_add_of_le shorter
  rw [within_add]
  exact Nat.le_add_right _ _

/-- Several windows in a row hold at most the limit each. -/
theorem within_cover (width limit : Nat) (instants : List Nat)
    (bounded : ∀ start, within start width instants ≤ limit) (windows : Nat) :
    within start (windows * width) instants ≤ windows * limit := by
  induction windows with
  | zero =>
    simp [within, countP_eq_zero]
  | succ windows ih =>
    rw [Nat.succ_mul, within_add, Nat.succ_mul]
    exact Nat.add_le_add ih (bounded _)

theorem recent_append (width now : Nat) (earlier later : List Nat) :
    recent width now (earlier ++ later) = recent width now earlier + recent width now later := by
  simp [recent]

theorem recent_mono (now : Nat) (instants : List Nat)
    (shorter : narrow ≤ wide) : recent narrow now instants ≤ recent wide now instants := by
  apply countP_mono_left
  intro instant _ member
  simp only [decide_eq_true_eq] at member ⊢
  omega

/-- Time passing only makes instants less recent. -/
theorem recent_advance (width : Nat) {later : Nat} (instants : List Nat)
    (advanced : now ≤ later) : recent width later instants ≤ recent width now instants := by
  apply countP_mono_left
  intro instant _ member
  simp only [decide_eq_true_eq] at member ⊢
  omega

/-- Instants that lie a width back are not recent. -/
theorem recent_eq_zero
    (aged : ∀ instant ∈ instants, instant + width ≤ now) : recent width now instants = 0 := by
  simp only [recent, countP_eq_zero, decide_eq_true_eq]
  intro instant member
  have := aged instant member
  omega

/-- Full batches of admissions one width apart, starting at `base`. -/
def batches (base width limit : Nat) : Nat → List Nat
  | 0 => []
  | windows + 1 =>
    batches base width limit windows ++ replicate limit (base + windows * width)

theorem mem_batches {base windows instant : Nat}
    (member : instant ∈ batches base width limit windows) :
    ∃ window < windows, instant = base + window * width := by
  induction windows with
  | zero => simp [batches] at member
  | succ windows ih =>
    rcases mem_append.mp member with earlier | last
    · obtain ⟨window, inside, same⟩ := ih earlier
      exact ⟨window, by omega, same⟩
    · exact ⟨windows, by omega, (mem_replicate.mp last).2⟩

theorem batches_length (width limit windows : Nat) :
    (batches base width limit windows).length = windows * limit := by
  induction windows with
  | zero => simp [batches]
  | succ windows ih =>
    simp [batches, ih, Nat.succ_mul]

/-- Once every earlier instant has aged out, a whole batch fits. -/
theorem Admitted.batch {earlier : List Nat}
    (admitted : Admitted width limit earlier) (aged : ∀ instant ∈ earlier, instant + width ≤ now)
    (size : Nat) (fits : size ≤ limit) :
    Admitted width limit (earlier ++ replicate size now) := by
  induction size with
  | zero => simpa using admitted
  | succ size ih =>
    rw [replicate_succ', ← append_assoc]
    apply (ih (by omega)).snoc _ _
    have forgotten : recent width now earlier = 0 := recent_eq_zero aged
    have current : recent width now (replicate size now) ≤ size := by
      exact countP_le_length.trans_eq length_replicate
    rw [recent_append]
    omega

/-- The policy admits a full batch in every window. -/
theorem batches_admitted (width limit windows : Nat) :
    Admitted width limit (batches base width limit windows) := by
  induction windows with
  | zero => exact .nil
  | succ windows ih =>
    refine ih.batch ?_ limit (Nat.le_refl limit)
    intro instant member
    obtain ⟨window, inside, rfl⟩ := mem_batches member
    have spaced : (window + 1) * width ≤ windows * width := Nat.mul_le_mul_right width inside
    rw [Nat.succ_mul] at spaced
    omega

theorem batches_sorted (width limit windows : Nat) :
    (batches base width limit windows).Pairwise (· ≤ ·) := by
  induction windows with
  | zero => exact .nil
  | succ windows ih =>
    refine pairwise_append.mpr ⟨ih, ?_, ?_⟩
    · exact pairwise_replicate.mpr (Or.inr (Nat.le_refl _))
    · intro instant member last lastMember
      obtain ⟨window, inside, rfl⟩ := mem_batches member
      rw [(mem_replicate.mp lastMember).2]
      exact Nat.add_le_add_left (Nat.mul_le_mul_right width (by omega)) base

/-- A window that reaches past the last batch holds every batch. -/
theorem batches_within {base windows : Nat} (reaches : (windows - 1) * width < wide) :
    within base wide (batches base width limit windows) = windows * limit := by
  rw [← batches_length base width limit windows, within, countP_eq_length]
  intro instant member
  obtain ⟨window, inside, rfl⟩ := mem_batches member
  have bounded : window * width ≤ (windows - 1) * width := Nat.mul_le_mul_right width (by omega)
  simp only [Bool.and_eq_true, decide_eq_true_eq]
  omega

end Library.SlidingWindow
