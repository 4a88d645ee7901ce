import Mathlib.Tactic.IntervalCases
import Mathlib.Tactic.Ring

/-!
# The Gregorian calendar

- leap years, the lengths of years and months (`yearLength`, `monthLength`), and the days before a year or a month;
- the number of leap years in closed form (`daysToYear_eq`);
- a day number has one date only (`dayNumber_inj`).

Years are counted from the epoch, months from zero, days of the month from one.
-/

namespace RtThread.Gregorian

variable {n m d n' m' d' : Nat}

/-- Every fourth year, of the centuries every fourth one. -/
def leap (year : Nat) : Prop := year % 4 = 0 ∧ (year % 100 ≠ 0 ∨ year % 400 = 0)

instance (year : Nat) : Decidable (leap year) := inferInstanceAs (Decidable (_ ∧ _))

def yearLength (year : Nat) : Nat := if leap year then 366 else 365

def monthLength (year : Nat) : Nat → Nat
  | 1 => if leap year then 29 else 28
  | 3 => 30
  | 5 => 30
  | 8 => 30
  | 10 => 30
  | _ => 31

/-- The days of the `n` years from `epoch` on. -/
def daysToYear (epoch : Nat) : Nat → Nat
  | 0 => 0
  | n + 1 => daysToYear epoch n + yearLength (epoch + n)

/-- The days of the first `m` months of a year. -/
def daysToMonth (year : Nat) : Nat → Nat
  | 0 => 0
  | m + 1 => daysToMonth year m + monthLength year m

/-- A date that is in the calendar. -/
structure ValidDate (year m d : Nat) : Prop where
  month : m < 12
  day_pos : 0 < d
  day_le : d ≤ monthLength year m

/-- The days between the first day of the epoch and a date `n` years later. -/
def dayNumber (epoch n m d : Nat) : Nat := daysToYear epoch n + daysToMonth (epoch + n) m + (d - 1)

theorem yearLength_pos (year : Nat) : 0 < yearLength year := by
  rw [yearLength]
  split <;> decide

/-- The twelve months make up the year. -/
theorem daysToMonth_twelve (year : Nat) : daysToMonth year 12 = yearLength year := by
  simp only [daysToMonth, monthLength, yearLength]
  split <;> rfl

theorem daysToMonth_mono (year : Nat) (h : m ≤ m') : daysToMonth year m ≤ daysToMonth year m' := by
  induction m', h using Nat.le_induction with
  | base => exact Nat.le_refl _
  | succ k _ ih => exact Nat.le_trans ih (Nat.le_add_right _ _)

theorem daysToYear_mono (epoch : Nat) (h : n ≤ n') : daysToYear epoch n ≤ daysToYear epoch n' := by
  induction n', h using Nat.le_induction with
  | base => exact Nat.le_refl _
  | succ k _ ih => exact Nat.le_trans ih (Nat.le_add_right _ _)

variable {year epoch : Nat}

/-- A date lies in its month. -/
theorem ValidDate.lt_next (h : ValidDate year m d) : daysToMonth year m + (d - 1) < daysToMonth year (m + 1) := by
  have := h.day_pos
  have := h.day_le
  rw [daysToMonth]
  omega

/-- A date lies in its year. -/
theorem ValidDate.lt_yearLength (h : ValidDate year m d) : daysToMonth year m + (d - 1) < yearLength year := by
  rw [← daysToMonth_twelve]
  exact Nat.lt_of_lt_of_le h.lt_next (daysToMonth_mono year h.month)

/-- A month and a day of it are given by the day of the year. -/
theorem daysToMonth_inj (h : ValidDate year m d) (h' : ValidDate year m' d')
    (heq : daysToMonth year m + (d - 1) = daysToMonth year m' + (d' - 1)) : m = m' ∧ d = d' := by
  have hm : m = m' := by
    rcases Nat.lt_trichotomy m m' with hlt | rfl | hlt
    · have := daysToMonth_mono year (show m + 1 ≤ m' from hlt)
      have := h.lt_next
      omega
    · rfl
    · have := daysToMonth_mono year (show m' + 1 ≤ m from hlt)
      have := h'.lt_next
      omega
  subst hm
  have := h.day_pos
  have := h'.day_pos
  exact ⟨rfl, by omega⟩

/-- A year and a day of it are given by the day number. -/
theorem daysToYear_inj {r r' : Nat} (h : r < yearLength (epoch + n)) (h' : r' < yearLength (epoch + n'))
    (heq : daysToYear epoch n + r = daysToYear epoch n' + r') : n = n' ∧ r = r' := by
  have hn : n = n' := by
    rcases Nat.lt_trichotomy n n' with hlt | rfl | hlt
    · have := daysToYear_mono epoch (Nat.succ_le_of_lt hlt)
      rw [daysToYear] at this
      omega
    · rfl
    · have := daysToYear_mono epoch (Nat.succ_le_of_lt hlt)
      rw [daysToYear] at this
      omega
  subst hn
  exact ⟨rfl, by omega⟩

/-- A day has one date only. -/
theorem dayNumber_inj (h : ValidDate (epoch + n) m d) (h' : ValidDate (epoch + n') m' d')
    (heq : dayNumber epoch n m d = dayNumber epoch n' m' d') : n = n' ∧ m = m' ∧ d = d' := by
  simp only [dayNumber, Nat.add_assoc] at heq
  obtain ⟨rfl, hr⟩ := daysToYear_inj h.lt_yearLength h'.lt_yearLength heq
  exact ⟨rfl, daysToMonth_inj h h' hr⟩

/-- The leap years before `year`. -/
def leapsBefore (year : Nat) : Nat := (year - 1) / 4 - (year - 1) / 100 + (year - 1) / 400

theorem leapsBefore_succ (year : Nat) (h : 0 < year) :
    leapsBefore (year + 1) = leapsBefore year + if leap year then 1 else 0 := by
  obtain ⟨k, rfl⟩ := Nat.exists_eq_add_of_le' h
  simp only [leapsBefore, leap, Nat.succ_eq_add_one, Nat.zero_add, Nat.add_sub_cancel, Nat.succ_div,
    Nat.dvd_iff_mod_eq_zero]
  have h4 : (k + 1) % 100 = 0 → (k + 1) % 4 = 0 := by omega
  have h100 : (k + 1) % 400 = 0 → (k + 1) % 100 = 0 := by omega
  by_cases hleap4 : (k + 1) % 4 = 0
  · by_cases hleap100 : (k + 1) % 100 = 0
    · by_cases hleap400 : (k + 1) % 400 = 0
      · simp only [hleap4, hleap100, hleap400, if_true, ne_eq, not_true_eq_false, false_or, and_self]
        omega
      · simp only [hleap4, hleap100, hleap400, if_true, if_false, ne_eq, not_true_eq_false, false_or, and_false]
        omega
    · have hleap400 : ¬ (k + 1) % 400 = 0 := fun h => hleap100 (h100 h)
      simp only [hleap4, hleap100, hleap400, if_true, if_false, ne_eq, not_false_eq_true, true_or, and_self]
      omega
  · have hleap100 : ¬ (k + 1) % 100 = 0 := fun h => hleap4 (h4 h)
    have hleap400 : ¬ (k + 1) % 400 = 0 := fun h => hleap100 (h100 h)
    simp only [hleap4, hleap100, hleap400, if_false, false_and]
    omega

/-- The days of the years, with the leap years counted in closed form. -/
theorem daysToYear_eq (h : 0 < epoch) (n : Nat) :
    daysToYear epoch n + leapsBefore epoch = 365 * n + leapsBefore (epoch + n) := by
  induction n with
  | zero => rw [daysToYear, Nat.mul_zero, Nat.add_zero]
  | succ n ih =>
    rw [daysToYear, ← Nat.add_assoc, leapsBefore_succ _ (Nat.add_pos_left h n), yearLength]
    split <;> omega

end RtThread.Gregorian
