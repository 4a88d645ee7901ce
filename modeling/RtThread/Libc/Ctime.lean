import Mathlib.Tactic.IntervalCases

/-!
# Calendar time

`ctime.c`: `gmtime_r` and `timegm`. Integers are unbounded; the division is the one of C, which rounds to zero, and a
conversion to `int` keeps the 32 low bits. A read outside a table has no result.
-/

namespace RtThread

/-- `struct tm`. -/
structure Tm where
  tmSec : Int
  tmMin : Int
  tmHour : Int
  tmMday : Int
  tmMon : Int
  tmYear : Int
  tmWday : Int
  tmYday : Int
  tmIsdst : Int
deriving DecidableEq, Repr

namespace Ctime

/-- `SPD`: seconds per day. -/
def spd : Int := 24 * 60 * 60

/-- A conversion to `int`. -/
def toInt (x : Int) : Int := x.bmod (2 ^ 32)

/-- `__spm`: days before each month of a year that is no leap year, and of the whole year. -/
def spmTable : List Int := [0, 31, 59, 90, 120, 151, 181, 212, 243, 273, 304, 334, 365]

/-- `__spm[i]`. -/
def spm (i : Int) : Option Int := if 0 ≤ i then spmTable[i.toNat]? else none

/-- `__isleap`. -/
def isleap (year : Int) : Bool := year.tmod 4 == 0 && (year.tmod 100 != 0 || year.tmod 400 == 0)

def tzIsDst : Int := 0

/-! ## Broken-down time of a time -/

/-- `int k = __isleap(i) ? 366 : 365;` -/
def yearDays (i : Int) : Int := if isleap i then 366 else 365

theorem yearDays_pos (i : Int) : 0 < yearDays i := by
  rw [yearDays]
  split <;> decide

/-- The loop of `gmtime_r` that counts the years. -/
def yearLoop (i work : Int) : Int × Int :=
  if work ≥ yearDays i then yearLoop (i + 1) (work - yearDays i) else (i, work)
termination_by work.toNat
decreasing_by
  have := yearDays_pos i
  omega

/-- `for (i = 11; i && (__spm[i] > work); --i);` -/
def monthLoop (work : Int) : Nat → Option Nat
  | 0 => some 0
  | i + 1 =>
    match spm (i + 1 : Nat) with
    | none => none
    | some days => if days > work then monthLoop work i else some (i + 1)

def gmtimeR (timep : Int) : Option Tm :=
  let work := toInt (timep.tmod spd)
  let sec := work.tmod 60
  let work := work.tdiv 60
  let min := work.tmod 60
  let hour := work.tdiv 60
  let work := toInt (timep.tdiv spd)
  let wday := (toInt (4 + work)).tmod 7
  let (i, work) := yearLoop 1970 work
  let year := i - 1900
  let yday := work
  let leapDay := isleap i && decide (work > 58)
  -- the 29th of February
  let mday := if leapDay && work == 59 then 2 else 1
  let work := if leapDay then work - 1 else work
  match monthLoop work 11 with
  | none => none
  | some i =>
    match spm i with
    | none => none
    | some days =>
      some
        { tmSec := sec
          tmMin := min
          tmHour := hour
          tmMday := mday + (work - days)
          tmMon := i
          tmYear := year
          tmWday := wday
          tmYday := yday
          tmIsdst := tzIsDst }

/-! ## Time of a broken-down time -/

theorem spm_bounds {i days : Int} (h : spm i = some days) : 0 ≤ i ∧ 0 ≤ days ∧ (0 < i → 31 ≤ days) := by
  rw [spm] at h
  split at h
  · rename_i hi
    obtain ⟨n, rfl⟩ := Int.eq_ofNat_of_zero_le hi
    have hlt : n < 13 := (List.getElem?_eq_some_iff.1 h).1
    interval_cases n <;> cases h <;> decide
  · cases h

/-- `while (t->tm_mday > __spm[1 + t->tm_mon])`. -/
def mdayLoop (t : Tm) : Option Tm :=
  match hnext : spm (1 + t.tmMon), hdays : spm t.tmMon with
  | some next, some days =>
    if hmore : t.tmMday > next then
      let mday := if t.tmMon == 1 && isleap (t.tmYear + 1900) then t.tmMday - 1 else t.tmMday
      if t.tmMon + 1 > 11 then
        mdayLoop { t with tmMday := mday - days, tmMon := 0, tmYear := t.tmYear + 1 }
      else
        mdayLoop { t with tmMday := mday - days, tmMon := t.tmMon + 1 }
    else
      some t
  | _, _ => none
termination_by t.tmMday.toNat * 13 + (12 - t.tmMon).toNat
decreasing_by
  all_goals
    have hnext := spm_bounds hnext
    have hdays := spm_bounds hdays
    split <;> omega

def timegm (t : Tm) : Option (Int × Tm) :=
  let years := t.tmYear - 70
  let t := if t.tmSec > 60 then { t with tmMin := t.tmMin + t.tmSec.tdiv 60, tmSec := t.tmSec.tmod 60 } else t
  let t := if t.tmMin ≥ 60 then { t with tmHour := t.tmHour + t.tmMin.tdiv 60, tmMin := t.tmMin.tmod 60 } else t
  let t := if t.tmHour ≥ 24 then { t with tmMday := t.tmMday + t.tmHour.tdiv 24, tmHour := t.tmHour.tmod 24 } else t
  let t := if t.tmMon ≥ 12 then { t with tmYear := t.tmYear + t.tmMon.tdiv 12, tmMon := t.tmMon.tmod 12 } else t
  match mdayLoop t with
  | none => none
  | some t =>
    -- `EINVAL`
    if t.tmYear < 70 then
      some (-1, t)
    else
      match spm t.tmMon with
      | none => none
      | some days =>
        let day := years * 365 + (years + 1).tdiv 4
        let day :=
          if years ≥ 131 then
            -- `years >> 2` and `years &= 3` of a number that is not negative
            let years := (years - 131).tdiv 100
            let day := day - ((years / 4) * 3 + 1)
            let years := years % 4
            day - (if years == 3 then years - 1 else years)
          else
            day
        let yday := days + t.tmMday - 1 + (if isleap (t.tmYear + 1900) && decide (t.tmMon > 1) then 1 else 0)
        let day := day + yday
        let t := { t with tmYday := yday, tmWday := (day + 4).tmod 7 }
        some (((day * 24 + t.tmHour) * 60 + t.tmMin) * 60 + t.tmSec, t)

end Ctime

end RtThread
