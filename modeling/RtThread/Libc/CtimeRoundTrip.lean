import RtThread.Lib.Gregorian
import RtThread.Libc.Ctime

/-!
# `gmtime_r` and `timegm` are inverse to each other

- `Moment`: a date of the Gregorian calendar from 1970 on with a time of the day, its seconds since 1970 and its
  `struct tm`;
- the two loops of `gmtime_r` find the year and the month (`yearLoop_spec`, `monthLoop_spec`);
- `timegm` counts the leap years as the calendar has them (`days_eq`);
- both are the calendar, in their own direction (`gmtimeR_moment`, `timegm_tm`), and so each undoes the other.
-/

namespace RtThread.Ctime

open Gregorian

/-- A second of a day of the Gregorian calendar, from 1970 on. -/
structure Moment where
  year : Nat
  mon : Nat
  mday : Nat
  hour : Nat
  min : Nat
  sec : Nat
  date : ValidDate (1970 + year) mon mday
  hour_lt : hour < 24
  min_lt : min < 60
  sec_lt : sec < 60

namespace Moment

variable {x y : Moment}

/-- Days since the first day of 1970. -/
def days (x : Moment) : Nat := dayNumber 1970 x.year x.mon x.mday

/-- Seconds since 1970-01-01 00:00:00. -/
def seconds (x : Moment) : Nat := ((x.days * 24 + x.hour) * 60 + x.min) * 60 + x.sec

/-- The broken-down time: the first day of 1970 was a Thursday. -/
def tm (x : Moment) : Tm where
  tmSec := x.sec
  tmMin := x.min
  tmHour := x.hour
  tmMday := x.mday
  tmMon := x.mon
  tmYear := 70 + x.year
  tmWday := (4 + x.days) % 7
  tmYday := daysToMonth (1970 + x.year) x.mon + (x.mday - 1 : Nat)
  tmIsdst := 0

theorem seconds_div (x : Moment) : x.seconds / 86400 = x.days := by
  have := x.hour_lt
  have := x.min_lt
  have := x.sec_lt
  rw [seconds]
  omega

theorem seconds_inj (h : x.seconds = y.seconds) : x = y := by
  have hdays : x.days = y.days := by rw [← seconds_div, h, seconds_div]
  obtain ⟨hyear, hmon, hmday⟩ := dayNumber_inj x.date y.date hdays
  simp only [seconds, hdays] at h
  have hx := And.intro x.hour_lt (And.intro x.min_lt x.sec_lt)
  have hy := And.intro y.hour_lt (And.intro y.min_lt y.sec_lt)
  have hhour : x.hour = y.hour := by omega
  have hmin : x.min = y.min := by omega
  have hsec : x.sec = y.sec := by omega
  cases x
  cases y
  subst hyear hmon hmday hhour hmin hsec
  rfl

end Moment

variable {m r : Nat}

/-! ## The tables -/

theorem isleap_eq (year : Nat) : isleap year = decide (leap year) := by
  have h (k : Nat) : (year : Int).tmod k = ((year % k : Nat) : Int) := rfl
  rw [isleap, show (4 : Int) = (4 : Nat) from rfl, show (100 : Int) = (100 : Nat) from rfl,
    show (400 : Int) = (400 : Nat) from rfl, h, h, h, Bool.eq_iff_iff, decide_eq_true_iff, leap]
  simp only [Bool.and_eq_true, beq_iff_eq, Bool.or_eq_true, bne_iff_ne, ne_eq]
  norm_cast

theorem yearDays_eq (year : Nat) : yearDays year = yearLength year := by
  rw [yearDays, isleap_eq, yearLength]
  by_cases h : leap year
  · rw [if_pos h, if_pos (decide_eq_true h)]
    rfl
  · rw [if_neg h, if_neg (by simpa using h)]
    rfl

/-- The days before a month of a year that is no leap year. -/
def before (m : Nat) : Nat := (spmTable.getD m 0).toNat

theorem spm_eq (h : m ≤ 12) : spm m = some (before m : Int) := by
  interval_cases m <;> rfl

theorem daysToMonth_eq (year : Nat) (h : m ≤ 12) :
    daysToMonth year m = before m + if leap year ∧ 1 < m then 1 else 0 := by
  by_cases hleap : leap year
  · interval_cases m <;> simp [daysToMonth, monthLength, before, spmTable, hleap]
  · interval_cases m <;> simp [daysToMonth, monthLength, before, spmTable, hleap]

/-! ## The loops of `gmtime_r` -/

/-- The loop takes off whole years until less than a year is left. -/
theorem yearLoop_spec (n r : Nat) : ∃ n' r' : Nat, yearLoop ((1970 + n : Nat) : Int) r = (((1970 + n' : Nat) : Int), (r' : Int)) ∧
    daysToYear 1970 n' + r' = daysToYear 1970 n + r ∧ r' < yearLength (1970 + n') := by
  induction r using Nat.strong_induction_on generalizing n with
  | _ r ih =>
    rw [yearLoop, yearDays_eq]
    by_cases hge : yearLength (1970 + n) ≤ r
    · have hpos := yearLength_pos (1970 + n)
      obtain ⟨n', r', hloop, hdays, hlt⟩ := ih (r - yearLength (1970 + n)) (by omega) (n + 1)
      refine ⟨n', r', ?_, ?_, hlt⟩
      · rw [if_pos (by exact_mod_cast hge), ← hloop]
        congr 1
        omega
      · rw [hdays, daysToYear]
        omega
    · rw [if_neg (by exact_mod_cast hge)]
      exact ⟨n, r, rfl, rfl, Nat.lt_of_not_le hge⟩

/-- The loop finds the last month that has begun. -/
theorem monthLoop_spec (i : Nat) (hi : i ≤ 11) : ∃ m, monthLoop r i = some m ∧ m ≤ i ∧ before m ≤ r ∧
    (m = i ∨ r < before (m + 1)) := by
  induction i with
  | zero => exact ⟨0, rfl, Nat.le_refl _, Nat.zero_le _, .inl rfl⟩
  | succ i ih =>
    obtain ⟨m, hloop, hle, hbefore, hlast⟩ := ih (by omega)
    rw [monthLoop, spm_eq (by omega)]
    dsimp only
    by_cases hlt : r < before (i + 1)
    · rw [if_pos (by exact_mod_cast hlt)]
      refine ⟨m, hloop, Nat.le_succ_of_le hle, hbefore, .inr ?_⟩
      rcases hlast with rfl | hlast
      · exact hlt
      · exact hlast
    · rw [if_neg (by exact_mod_cast hlt)]
      exact ⟨i + 1, rfl, Nat.le_refl _, Nat.le_of_not_lt hlt, .inl rfl⟩

/-- A month of a year that is no leap year: the next one begins behind it. -/
theorem before_succ (year : Nat) (h : m ≤ 11) : before m + monthLength year m =
    before (m + 1) + if leap year ∧ m = 1 then 1 else 0 := by
  by_cases hleap : leap year
  · interval_cases m <;> simp [monthLength, before, spmTable, hleap]
  · interval_cases m <;> simp [monthLength, before, spmTable, hleap]

/-- Behind February: the days from the 59th on. -/
theorem before_feb (h : m ≤ 11) : 1 < m ↔ 59 ≤ before m := by
  interval_cases m <;> decide

/-- The month and its day that `gmtime_r` gives to a day of the year. The 29th of February is put on the 28th, and the
days behind it one day earlier. -/
theorem date_of_yday (year : Nat) (hr : r < yearLength year) {work mday : Nat}
    (hwork : work = if leap year ∧ 58 < r then r - 1 else r)
    (hmday : mday = if leap year ∧ r = 59 then 2 else 1) :
    ∃ m, monthLoop work 11 = some m ∧ before m ≤ work ∧ ValidDate year m (mday + (work - before m)) ∧
      daysToMonth year m + (mday + (work - before m) - 1) = r := by
  have hlt : work < 365 ∧ (work = r ∨ leap year ∧ 58 < r ∧ work + 1 = r) := by
    rw [yearLength] at hr
    by_cases hleap : leap year
    · simp only [hleap, true_and, if_true] at hwork hr ⊢
      split at hwork <;> omega
    · simp only [hleap, false_and, if_false] at hwork hr ⊢
      omega
  obtain ⟨m, hloop, hle, hbefore, hlast⟩ := monthLoop_spec (r := work) 11 (Nat.le_refl _)
  have hnext : work < before (m + 1) := by
    rcases hlast with rfl | hlast
    · exact hlt.1
    · exact hlast
  have hlength := before_succ year hle
  have hmonth := daysToMonth_eq year (Nat.le_succ_of_le hle)
  have h59 := before_feb hle
  -- where the month lies around February
  have hcases : m = 0 ∧ before m = 0 ∧ before (m + 1) = 31 ∨ m = 1 ∧ before m = 31 ∧ before (m + 1) = 59 ∨ 1 < m := by
    rcases m with _ | _ | m
    · exact .inl ⟨rfl, rfl, rfl⟩
    · exact .inr (.inl ⟨rfl, rfl, rfl⟩)
    · exact .inr (.inr (by omega))
  by_cases hleap : leap year
  · simp only [hleap, true_and] at hwork hmday hlength hmonth
    have hday : work = r ∧ mday = 1 ∧ r ≤ 58 ∨ work = 58 ∧ mday = 2 ∧ r = 59 ∨ work + 1 = r ∧ mday = 1 ∧ 59 < r := by
      split at hwork <;> split at hmday <;> omega
    rcases hcases with ⟨rfl, hm, hm'⟩ | ⟨rfl, hm, hm'⟩ | hm
    · rw [if_neg (by decide)] at hlength hmonth
      refine ⟨0, hloop, hbefore, ⟨by decide, ?_, ?_⟩, ?_⟩ <;> omega
    · rw [if_pos rfl] at hlength
      rw [if_neg (by decide)] at hmonth
      refine ⟨1, hloop, hbefore, ⟨by decide, ?_, ?_⟩, ?_⟩ <;> omega
    · rw [if_pos hm] at hmonth
      refine ⟨m, hloop, hbefore, ⟨Nat.lt_succ_of_le hle, ?_, ?_⟩, ?_⟩ <;> omega
  · simp only [hleap, false_and, if_false, Nat.add_zero] at hwork hmday hlength hmonth
    refine ⟨m, hloop, hbefore, ⟨Nat.lt_succ_of_le hle, ?_, ?_⟩, ?_⟩ <;> omega

/-! ## `gmtime_r` -/

theorem toInt_natCast {x : Nat} (h : x < 2 ^ 31) : toInt x = x := by
  exact Int.bmod_eq_of_le (by omega) (by omega)

/-- The test for a day behind the 28th of February of a leap year. -/
theorem leapDay_eq (year r : Nat) : (isleap year && decide ((r : Int) > 58)) = decide (leap year ∧ 58 < r) := by
  rw [isleap_eq, Bool.decide_and, decide_eq_decide.2 (show (r : Int) > 58 ↔ 58 < r by omega)]

theorem leapDay_29 (year r : Nat) : (if (isleap year && decide ((r : Int) > 58)) && (r : Int) == 59 then 2 else 1 : Int) =
    ((if leap year ∧ r = 59 then 2 else 1 : Nat) : Int) := by
  rw [leapDay_eq]
  by_cases h : leap year ∧ r = 59
  · obtain ⟨hleap, rfl⟩ := h
    simp [hleap]
  · rw [if_neg h, if_neg]
    · rfl
    · simp only [Bool.and_eq_true, decide_eq_true_eq, beq_iff_eq]
      rintro ⟨⟨hleap, -⟩, hr⟩
      exact h ⟨hleap, by omega⟩

theorem leapDay_work (year r : Nat) : (if isleap year && decide ((r : Int) > 58) then (r : Int) - 1 else r) =
    ((if leap year ∧ 58 < r then r - 1 else r : Nat) : Int) := by
  rw [leapDay_eq]
  by_cases h : leap year ∧ 58 < r
  · rw [if_pos h, if_pos (decide_eq_true h)]
    omega
  · rw [if_neg h, if_neg (by simpa using h)]

/-- What `gmtime_r` gives when its loops have found the year and the month. -/
theorem gmtimeR_eq {t : Int} {secs days n m : Nat} (hsecs : toInt (t.tmod spd) = secs)
    (hdays : toInt (t.tdiv spd) = days) (hwday : toInt (4 + (days : Int)) = (4 + days : Nat))
    (hloop : yearLoop 1970 days = (((1970 + n : Nat) : Int), (r : Int)))
    (hmonth : monthLoop (if leap (1970 + n) ∧ 58 < r then r - 1 else r : Nat) 11 = some m) (hm : m ≤ 12) :
    gmtimeR t = some
      { tmSec := (secs % 60 : Nat)
        tmMin := (secs / 60 % 60 : Nat)
        tmHour := (secs / 60 / 60 : Nat)
        tmMday := (if leap (1970 + n) ∧ r = 59 then 2 else 1 : Nat) +
          ((if leap (1970 + n) ∧ 58 < r then r - 1 else r : Nat) - (before m : Int))
        tmMon := m
        tmYear := (1970 + n : Nat) - 1900
        tmWday := ((4 + days) % 7 : Nat)
        tmYday := r
        tmIsdst := 0 } := by
  have hmod (k : Nat) : (k : Int).tmod 60 = ((k % 60 : Nat) : Int) := (Int.ofNat_tmod k 60).symm
  have hdiv (k : Nat) : (k : Int).tdiv 60 = ((k / 60 : Nat) : Int) := (Int.ofNat_tdiv k 60).symm
  have hweek (k : Nat) : (k : Int).tmod 7 = ((k % 7 : Nat) : Int) := (Int.ofNat_tmod k 7).symm
  simp only [gmtimeR, hsecs, hdays, hwday, hloop, leapDay_29, leapDay_work, hmonth, spm_eq hm, hmod, hdiv, hweek, tzIsDst]

/-- Every time that `gmtime_r` can count the days of is a moment of the calendar. -/
theorem gmtimeR_moment (t : Nat) (h : t / 86400 < 2 ^ 31 - 4) :
    ∃ x : Moment, x.seconds = t ∧ gmtimeR t = some x.tm := by
  have hspd : spd = ((86400 : Nat) : Int) := by decide
  have hsecs : toInt ((t : Int).tmod spd) = ((t % 86400 : Nat) : Int) := by
    rw [hspd, ← Int.ofNat_tmod]
    exact toInt_natCast (by omega)
  have hdays : toInt ((t : Int).tdiv spd) = ((t / 86400 : Nat) : Int) := by
    rw [hspd, ← Int.ofNat_tdiv]
    exact toInt_natCast (by omega)
  have hwday : toInt (4 + ((t / 86400 : Nat) : Int)) = ((4 + t / 86400 : Nat) : Int) := by
    rw [← Nat.cast_ofNat, ← Nat.cast_add]
    exact toInt_natCast (by omega)
  obtain ⟨n, r, hloop, hyear, hr⟩ := yearLoop_spec 0 (t / 86400)
  rw [daysToYear, Nat.zero_add] at hyear
  obtain ⟨m, hmonth, hle, hvalid, hyday⟩ := date_of_yday (1970 + n) hr rfl rfl
  let x : Moment := ⟨n, m, _, t % 86400 / 60 / 60, t % 86400 / 60 % 60, t % 86400 % 60, hvalid, by omega, by omega,
    by omega⟩
  have hxdays : x.days = t / 86400 := by
    rw [← hyear, ← hyday, ← Nat.add_assoc]
    rfl
  refine ⟨x, ?_, ?_⟩
  · rw [Moment.seconds, hxdays]
    simp only [x]
    omega
  · rw [gmtimeR_eq hsecs hdays hwday hloop hmonth (Nat.le_of_lt hvalid.month)]
    simp only [Moment.tm, hxdays, Option.some.injEq, Tm.mk.injEq]
    simp only [x, true_and, and_true]
    refine ⟨?_, by omega, by omega, ?_⟩
    · rw [Nat.cast_add, Nat.cast_sub hle]
    · exact_mod_cast hyday.symm

/-! ## `timegm` -/

/-- The days of whole years as `timegm` counts them: from 2101 on, three days are taken off for every four centuries. -/
theorem days_eq (n : Nat) :
    (let years : Int := n
      let day := years * 365 + (years + 1).tdiv 4
      if years ≥ 131 then
        let years := (years - 131).tdiv 100
        let day := day - ((years / 4) * 3 + 1)
        let years := years % 4
        day - (if years == 3 then years - 1 else years)
      else
        day) = daysToYear 1970 n := by
  have hcount : daysToYear 1970 n + leapsBefore 1970 = 365 * n + leapsBefore (1970 + n) := daysToYear_eq (by decide) n
  have hbase : leapsBefore 1970 = 477 := by decide
  rw [hbase] at hcount
  have h4 : ((n : Int) + 1).tdiv 4 = ((n + 1) / 4 : Nat) := rfl
  dsimp only
  by_cases hlate : 131 ≤ n
  · obtain ⟨k, rfl⟩ := Nat.exists_eq_add_of_le hlate
    have hcent : (((131 + k : Nat) : Int) - 131).tdiv 100 = (k / 100 : Nat) := by
      rw [show ((131 + k : Nat) : Int) - 131 = k by omega]
      rfl
    have hhundred : (1970 + (131 + k) - 1) / 100 = 21 + k / 100 := by omega
    have hfour : (1970 + (131 + k) - 1) / 400 = (21 + k / 100) / 4 := by omega
    rw [leapsBefore, hhundred, hfour] at hcount
    rw [if_pos (by omega), hcent]
    generalize k / 100 = c at *
    by_cases hc : (c : Int) % 4 = 3
    · rw [if_pos (by simpa using hc)]
      omega
    · rw [if_neg (by simpa using hc)]
      omega
  · rw [leapsBefore] at hcount
    omega

/-- Months of a calendar date need no correction. -/
theorem mdayLoop_tm {t : Tm} (hm : m ≤ 11) (hmon : t.tmMon = m) (hmday : t.tmMday ≤ 31) : mdayLoop t = some t := by
  have hnext : 31 ≤ before (m + 1) := by interval_cases m <;> decide
  have hs : spm (1 + t.tmMon) = some (before (m + 1) : Int) := by
    rw [hmon, ← spm_eq (Nat.succ_le_succ hm)]
    congr 1
    omega
  have hs' : spm t.tmMon = some (before m : Int) := by
    rw [hmon, spm_eq (Nat.le_succ_of_le hm)]
  rw [mdayLoop]
  split
  · rename_i next days hsome _
    rw [hs] at hsome
    cases hsome
    rw [dif_neg (by omega)]
  · rename_i hnone
    exact (hnone _ _ hs hs').elim

theorem monthLength_le (year m : Nat) : monthLength year m ≤ 31 := by
  rw [monthLength.eq_def]
  split
  · split <;> decide
  all_goals decide

/-- What `timegm` gives for fields that need no correction. -/
theorem timegm_eq {t : Tm} {n yday : Nat} (hsec : ¬ t.tmSec > 60) (hmin : ¬ t.tmMin ≥ 60) (hhour : ¬ t.tmHour ≥ 24)
    (hmon : ¬ t.tmMon ≥ 12) (hloop : mdayLoop t = some t) (hyear : t.tmYear = 70 + n) (hm : m ≤ 11) (hm' : t.tmMon = m)
    (hyday : (before m : Int) + t.tmMday - 1 + (if leap (1970 + n) ∧ 1 < m then 1 else 0 : Nat) = yday) :
    timegm t = some ((((((daysToYear 1970 n + yday : Nat) : Int) * 24 + t.tmHour) * 60 + t.tmMin) * 60 + t.tmSec),
      { t with tmYday := yday, tmWday := ((daysToYear 1970 n + yday + 4) % 7 : Nat) }) := by
  have hyears : t.tmYear - 70 = n := by omega
  have hspm : spm t.tmMon = some (before m : Int) := by rw [hm', spm_eq (Nat.le_succ_of_le hm)]
  have hleap : (if isleap (t.tmYear + 1900) && decide (t.tmMon > 1) then 1 else 0 : Int) =
      ((if leap (1970 + n) ∧ 1 < m then 1 else 0 : Nat) : Int) := by
    rw [show t.tmYear + 1900 = ((1970 + n : Nat) : Int) by omega, isleap_eq, hm']
    by_cases h : leap (1970 + n) ∧ 1 < m
    · rw [if_pos h, if_pos (by simpa using h)]
      rfl
    · rw [if_neg h, if_neg (by simpa using h)]
      rfl
  have hdays := days_eq n
  simp only [timegm, if_neg hsec, if_neg hmin, if_neg hhour, if_neg hmon, hloop, hspm, hyears, hdays, hleap, hyday]
  rw [if_neg (by omega), ← Nat.cast_add]
  rfl

/-- `timegm` gives the seconds of a moment, whatever the fields hold that it computes itself. -/
theorem timegm_tm (x : Moment) (wday yday isdst : Int) :
    timegm { x.tm with tmWday := wday, tmYday := yday, tmIsdst := isdst } =
      some ((x.seconds : Int), { x.tm with tmIsdst := isdst }) := by
  have hday := x.date.day_le
  have hpos := x.date.day_pos
  have hle := monthLength_le (1970 + x.year) x.mon
  have hmon := x.date.month
  have hhour := x.hour_lt
  have hmin := x.min_lt
  have hsec := x.sec_lt
  have hmonth := daysToMonth_eq (1970 + x.year) (Nat.le_of_lt hmon)
  have hdays : x.days = daysToYear 1970 x.year + (daysToMonth (1970 + x.year) x.mon + (x.mday - 1)) :=
    Nat.add_assoc _ _ _
  have hyday : (before x.mon : Int) + x.mday - 1 + (if leap (1970 + x.year) ∧ 1 < x.mon then 1 else 0 : Nat) =
      (daysToMonth (1970 + x.year) x.mon + (x.mday - 1) : Nat) := by
    omega
  have hloop : mdayLoop { x.tm with tmWday := wday, tmYday := yday, tmIsdst := isdst } =
      some { x.tm with tmWday := wday, tmYday := yday, tmIsdst := isdst } :=
    mdayLoop_tm (Nat.le_of_lt_succ hmon) rfl (show (x.mday : Int) ≤ 31 by omega)
  refine (timegm_eq (show ¬ (x.sec : Int) > 60 by omega) (show ¬ (x.min : Int) ≥ 60 by omega)
    (show ¬ (x.hour : Int) ≥ 24 by omega) (show ¬ (x.mon : Int) ≥ 12 by omega) hloop rfl (Nat.le_of_lt_succ hmon) rfl
    hyday).trans ?_
  simp only [Moment.tm, Moment.seconds, Option.some.injEq, Prod.mk.injEq, Tm.mk.injEq, true_and, and_true]
  refine ⟨?_, ?_, ?_⟩ <;> omega

/-! ## The round trips -/

/-- Every time up to the last day that `gmtime_r` can count is broken down into the Gregorian date and time, and comes
back from `timegm`; every calendar time of these days comes back from `gmtime_r`, with the fields right that `timegm`
does not read. -/
theorem gmtime_timegm :
    (∀ t : Int, 0 ≤ t → t / 86400 < 2 ^ 31 - 4 → ∃ x : Moment, (x.seconds : Int) = t ∧ gmtimeR t = some x.tm ∧
      (timegm x.tm).map Prod.fst = some t) ∧
    ∀ (x : Moment) (wday yday isdst : Int), x.days < 2 ^ 31 - 4 →
      (timegm { x.tm with tmWday := wday, tmYday := yday, tmIsdst := isdst }).bind (fun r => gmtimeR r.1) =
        some x.tm := by
  constructor
  · intro t hpos hrange
    obtain ⟨k, rfl⟩ := Int.eq_ofNat_of_zero_le hpos
    obtain ⟨x, hx, hgm⟩ := gmtimeR_moment k (by omega)
    refine ⟨x, by rw [hx], hgm, ?_⟩
    have htm := timegm_tm x x.tm.tmWday x.tm.tmYday 0
    rw [← hx]
    exact congrArg (Option.map Prod.fst) htm
  · intro x wday yday isdst hrange
    obtain ⟨y, hy, hgm⟩ := gmtimeR_moment x.seconds (by rw [x.seconds_div]; exact hrange)
    rw [timegm_tm, Option.bind_some, hgm, Moment.seconds_inj hy]

/-- Noon of the 29th of February 2400. -/
def leapDay : Moment where
  year := 430
  mon := 1
  mday := 29
  hour := 12
  min := 0
  sec := 0
  date := ⟨by decide, by decide, by decide⟩
  hour_lt := by decide
  min_lt := by decide
  sec_lt := by decide

theorem gmtime_timegm_leapDay :
    (∃ x : Moment, (x.seconds : Int) = 951782400 ∧ gmtimeR 951782400 = some x.tm ∧
      (timegm x.tm).map Prod.fst = some 951782400) ∧
    (timegm { leapDay.tm with tmWday := 0, tmYday := 0, tmIsdst := 1 }).bind (fun r => gmtimeR r.1) = some leapDay.tm :=
  ⟨gmtime_timegm.1 951782400 (by decide) (by decide), gmtime_timegm.2 leapDay 0 0 1 (by decide +kernel)⟩

end RtThread.Ctime
