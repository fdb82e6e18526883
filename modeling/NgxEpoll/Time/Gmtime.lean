import NgxEpoll.Core.Types
import NgxEpoll.Foundation.Calendar
import Mathlib.Tactic.IntervalCases

/-!
# Seconds and dates

`time_gmtime` of `dfs_time.cpp`.  It counts from 1 March of the year 0, so that a leap
day is the last day of its year, and finds the month in a year of this kind with a
formula.

## The function
-/

namespace NgxEpoll
namespace Time

open Foundation
open NgxEpoll.Core

structure Tm where
  sec : Int
  min : Int
  hour : Int
  mday : Int
  mon : Int
  year : Int
  wday : Int
deriving DecidableEq

def u32 (n : Int) : Nat :=
  (n % 2 ^ 32).toNat

def yearAndDay (days : Nat) : Nat × Int :=
  let year := u32 ((days + 2) * 400) / (365 * 400 + 100 - 4 + 1)
  let yday := cInt (days - (365 * year + ↑(year / 4) - ↑(year / 100) + ↑(year / 400)))
  if yday < 0 then
    let leap := if year % 4 = 0 ∧ (year % 100 ≠ 0 ∨ year % 400 = 0) then 1 else 0
    (u32 (year - 1), cInt (365 + leap + yday))
  else (year, yday)

def monthAndDay (year : Nat) (yday : Int) : Nat × Nat × Nat :=
  let mon := u32 (((yday + 31) * 10).tdiv 306)
  let mday := u32 (yday - (↑(u32 (367 * mon) / 12) - 30) + 1)
  if 306 ≤ yday then (u32 (year + 1), u32 (mon - 10), mday)
  else (year, u32 (mon + 2), mday)

def timeGmtime (t : Int) : Tm :=
  let n := u32 t
  let days := n / 86400
  let wday := (4 + days) % 7
  let n := n % 86400
  let hour := n / 3600
  let n := n % 3600
  let min := n / 60
  let sec := n % 60
  let days := u32 (days - (31 + 28) + 719527)
  let march := yearAndDay days
  let date := monthAndDay march.1 march.2
  { sec := cInt sec
    min := cInt min
    hour := cInt hour
    mday := cInt date.2.2
    mon := cInt date.2.1
    year := cInt date.1
    wday := cInt wday }

/-!
## Years from March on
-/

theorem u32_eq {n : Nat} (h : n < 2 ^ 32) : u32 n = n := by
  unfold u32
  omega

theorem cInt_natCast {n : Nat} (h : n < 2 ^ 31) : cInt n = n :=
  cInt_eq_self (by omega) (by omega)

/-- The days from 1 January of the year 0 to the January in a year that begins in
March, with the days before this January. -/
theorem yearStart_succ (year : Nat) :
    yearStart (year + 1) + year / 100 = 365 * year + year / 4 + year / 400 + 366 := by
  have h := yearStart_eq (year + 1)
  omega

/-- `days` since 1 March of the year 0 lie `yday` days behind 1 March of `year`. -/
structure InYear (days year yday : Nat) : Prop where
  sum : days + 366 = yearStart (year + 1) + yday
  lt : yday < yearLength (year + 1)
  year_le : year ≤ 2200

theorem leapYear_eq (year : Nat) :
    365 + (if year % 4 = 0 ∧ (year % 100 ≠ 0 ∨ year % 400 = 0) then 1 else 0) =
      (yearLength year : Int) := by
  unfold yearLength
  by_cases hleap : year % 4 = 0 ∧ (year % 100 ≠ 0 ∨ year % 400 = 0)
  · rw [if_pos hleap, if_pos (show Leap year from hleap)]
    rfl
  · rw [if_neg hleap, if_neg (show ¬ Leap year from hleap)]
    rfl

theorem yearAndDay_spec {days : Nat} (hlo : 719468 ≤ days) (hhi : days ≤ 769178) :
    exists year yday : Nat, yearAndDay days = (year, (yday : Int)) ∧
      InYear days year yday := by
  have hquot : u32 ((days + 2) * 400) / (365 * 400 + 100 - 4 + 1) =
      (days + 2) * 400 / 146097 := by
    have hu32 := @u32_eq ((days + 2) * 400) (by omega)
    push_cast at hu32
    rw [hu32]
  unfold yearAndDay
  dsimp only
  rw [hquot]
  generalize hyear : (days + 2) * 400 / 146097 = year
  have hstart := yearStart_succ year
  have hyday : cInt (days - (365 * year + ↑(year / 4) - ↑(year / 100) + ↑(year / 400))) =
      (days : Int) + 366 - yearStart (year + 1) := by
    rw [cInt_eq_self (by omega) (by omega)]
    omega
  rw [hyday]
  have hrange : 1969 ≤ year ∧ year ≤ 2106 ∧ yearStart (year + 1) ≤ days + 368 ∧
      days + 366 < yearStart (year + 1) + 366 := by omega
  split
  · next hneg =>
    -- the day belongs to the year before
    have hpred : u32 ((year : Int) - 1) = year - 1 := by
      unfold u32
      omega
    have hsucc : year - 1 + 1 = year := by omega
    have hlast : yearStart (year + 1) = yearStart year + yearLength year := rfl
    have hlarge := yearLength_bounds year
    refine ⟨year - 1, days + 366 - yearStart year, ?_, ?_, ?_, ?_⟩
    · rw [hpred, leapYear_eq, cInt_eq_self (by omega) (by omega)]
      congr 1
      omega
    · rw [hsucc]
      omega
    · rw [hsucc]
      omega
    · omega
  · next hnonneg =>
    refine ⟨year, days + 366 - yearStart (year + 1), ?_, ?_, ?_, ?_⟩
    · congr 1
      omega
    · omega
    · unfold yearLength
      by_cases hleap : Leap (year + 1)
      · rw [if_pos hleap]
        omega
      · rw [if_neg hleap]
        unfold Leap at hleap
        omega
    · omega

/-!
## Months from March on
-/

theorem monthStart_formula (year : Nat) {mon : Nat} (hlo : 1 ≤ mon) (hhi : mon ≤ 11) :
    monthStart year (mon + 1) = monthStart year 2 + (367 * mon / 12 - 30) := by
  interval_cases mon <;> simp [monthStart, monthLength, Nat.add_assoc]

theorem monthStart_two (year : Nat) : monthStart year 2 + 306 = yearLength year := by
  unfold yearLength
  by_cases hleap : Leap year
  · simp [monthStart, monthLength, hleap]
  · simp [monthStart, monthLength, hleap]

theorem month_spec {yday mon : Nat} (hmon : (yday + 31) * 10 / 306 = mon) (hlt : yday < 366) :
    1 ≤ mon ∧ mon ≤ 12 ∧ 367 * mon / 12 - 30 ≤ yday ∧
      (mon ≤ 11 -> yday < 367 * (mon + 1) / 12 - 30) := by
  refine ⟨by omega, by omega, ?_, ?_⟩
  · omega
  · intro hle
    have hlo : 1 ≤ mon := by omega
    interval_cases mon <;> omega

theorem monthAndDay_eq {year yday mon : Nat} (hyear : year ≤ 2200)
    (hmon : (yday + 31) * 10 / 306 = mon) (hlt : yday < 366) :
    monthAndDay year yday =
      if 306 ≤ yday then (year + 1, mon - 10, yday - (367 * mon / 12 - 30) + 1)
      else (year, mon + 2, yday - (367 * mon / 12 - 30) + 1) := by
  obtain ⟨hpos, hle, hstart, -⟩ := month_spec hmon hlt
  have hu32 : u32 ((((yday : Int) + 31) * 10).tdiv 306) = mon := by
    have hdiv : (((yday : Int) + 31) * 10).tdiv 306 = mon := by
      rw [Int.tdiv_eq_ediv_of_nonneg (by omega)]
      omega
    rw [hdiv]
    exact u32_eq (by omega)
  have hmul : u32 (367 * (mon : Int)) = 367 * mon := by
    have heq := @u32_eq (367 * mon) (by omega)
    push_cast at heq
    exact heq
  have hday : u32 ((yday : Int) - (↑(367 * mon / 12) - 30) + 1) =
      yday - (367 * mon / 12 - 30) + 1 := by
    unfold u32
    omega
  unfold monthAndDay
  dsimp only
  rw [hu32, hmul, hday]
  by_cases hjanuary : 306 ≤ yday
  · have hsub : u32 ((mon : Int) - 10) = mon - 10 := by
      unfold u32
      omega
    have hsucc : u32 ((year : Int) + 1) = year + 1 := by
      unfold u32
      omega
    rw [if_pos (by omega), if_pos hjanuary, hsub, hsucc]
  · have hadd : u32 ((mon : Int) + 2) = mon + 2 := by
      unfold u32
      omega
    rw [if_neg (by omega), if_neg hjanuary, hadd]

theorem date_before {days year yday mon : Nat} (h : InYear days year yday)
    (hmon : (yday + 31) * 10 / 306 = mon) (hlt : yday < 306) :
    Date.Valid ⟨year, mon + 2, yday - (367 * mon / 12 - 30) + 1⟩ ∧
      Date.number ⟨year, mon + 2, yday - (367 * mon / 12 - 30) + 1⟩ = days + 60 := by
  obtain ⟨hpos, -, hstart, hnext⟩ := month_spec hmon (by omega)
  have hle : mon ≤ 10 := by omega
  have hfirst := monthStart_formula year hpos (by omega)
  have hlast := monthStart_formula year (show 1 ≤ mon + 1 by omega) (by omega)
  have hmonth : monthStart year (mon + 1 + 1) =
      monthStart year (mon + 1) + monthLength year (mon + 2) := rfl
  have hlength := monthStart_two year
  have hsum := h.sum
  have hyear : yearStart (year + 1) = yearStart year + yearLength year := rfl
  have hyday := hnext (by omega)
  constructor
  · constructor
    · exact Nat.le_add_left 1 _
    · show mon + 2 ≤ 12
      omega
    · exact Nat.le_add_left 1 _
    · show yday - (367 * mon / 12 - 30) + 1 ≤ monthLength year (mon + 2)
      omega
  · show yearStart year + (monthStart year (mon + 1) + (yday - (367 * mon / 12 - 30))) =
      days + 60
    omega

theorem date_behind {days year yday mon : Nat} (h : InYear days year yday)
    (hmon : (yday + 31) * 10 / 306 = mon) (hge : 306 ≤ yday) :
    Date.Valid ⟨year + 1, mon - 10, yday - (367 * mon / 12 - 30) + 1⟩ ∧
      Date.number ⟨year + 1, mon - 10, yday - (367 * mon / 12 - 30) + 1⟩ = days + 60 := by
  have hlt := h.lt
  have hsum := h.sum
  have hlength := (yearLength_bounds (year + 1)).2
  have hfebruary : yearLength (year + 1) = 337 + monthLength (year + 1) 2 := by
    unfold yearLength monthLength
    split
    · rfl
    · rfl
  rcases Nat.lt_or_ge yday 337 with hjanuary | hlate
  · have heq : mon = 11 := by omega
    subst heq
    constructor
    · constructor
      · exact Nat.le_refl 1
      · show 11 - 10 ≤ 12
        omega
      · exact Nat.le_add_left 1 _
      · show yday - (367 * 11 / 12 - 30) + 1 ≤ monthLength (year + 1) 1
        rw [show monthLength (year + 1) 1 = 31 from rfl]
        omega
    · unfold Date.number
      dsimp only
      rw [show monthStart (year + 1) (11 - 10 - 1) = 0 from rfl]
      omega
  · have heq : mon = 12 := by omega
    subst heq
    constructor
    · constructor
      · show 1 ≤ 12 - 10
        omega
      · show 12 - 10 ≤ 12
        omega
      · exact Nat.le_add_left 1 _
      · show yday - (367 * 12 / 12 - 30) + 1 ≤ monthLength (year + 1) 2
        omega
    · unfold Date.number
      dsimp only
      rw [show monthStart (year + 1) (12 - 10 - 1) = 31 from rfl]
      omega

theorem monthAndDay_spec {days year yday : Nat} (h : InYear days year yday) :
    exists d : Date, monthAndDay year yday = (d.year, d.month, d.day) ∧ d.Valid ∧
      d.number = days + 60 := by
  have hlt : yday < 366 := by
    have hlt := h.lt
    unfold yearLength at hlt
    split at hlt
    · omega
    · omega
  rw [monthAndDay_eq h.year_le rfl hlt]
  by_cases hjanuary : 306 ≤ yday
  · obtain ⟨hvalid, hnumber⟩ := date_behind h rfl hjanuary
    rw [if_pos hjanuary]
    exact ⟨_, rfl, hvalid, hnumber⟩
  · obtain ⟨hvalid, hnumber⟩ := date_before h rfl (by omega)
    rw [if_neg hjanuary]
    exact ⟨_, rfl, hvalid, hnumber⟩

/-!
## The date
-/

theorem date_small {d : Date} (h : d.Valid) (hnumber : d.number ≤ 800000) :
    d.year < 2 ^ 31 ∧ d.month < 2 ^ 31 ∧ d.day < 2 ^ 31 := by
  have hyear : d.year ≤ yearStart d.year := by
    have heq := yearStart_eq d.year
    omega
  have hday : d.day ≤ 31 := by
    refine le_trans h.day_le ?_
    unfold monthLength
    split_ifs <;> decide
  have hmonth := h.month_le
  unfold Date.number at hnumber
  omega

/-- `time_gmtime` tells the second, minute, hour, weekday and date of every `t` of 32
bits, and the date is the only one that many days behind 1 January 1970, a Thursday. -/
theorem timeGmtime_tells (t : Nat) (ht : t < 2 ^ 32) :
    exists d : Date, d.Valid ∧ d.sinceEpoch = t / 86400 ∧
      (forall d' : Date, d'.Valid -> d'.sinceEpoch = t / 86400 -> d' = d) ∧
      timeGmtime t =
        { sec := t % 60
          min := t / 60 % 60
          hour := t / 3600 % 24
          mday := d.day
          mon := d.month
          year := d.year
          wday := (t / 86400 + 4) % 7 } := by
  have hdays : u32 ((t / 86400 : Nat) - (31 + 28) + 719527) = t / 86400 + 719468 := by
    unfold u32
    omega
  obtain ⟨year, yday, hmarch, hin⟩ :=
    @yearAndDay_spec (t / 86400 + 719468) (by omega) (by omega)
  obtain ⟨d, hdate, hvalid, hnumber⟩ := monthAndDay_spec hin
  obtain ⟨hyear, hmonth, hday⟩ := date_small hvalid (by omega)
  have hepoch := yearStart_epoch
  refine ⟨d, hvalid, ?_, ?_, ?_⟩
  · unfold Date.sinceEpoch
    omega
  · intro d' hvalid' hsince
    refine Date.number_injective hvalid' hvalid ?_
    unfold Date.sinceEpoch at hsince
    omega
  · unfold timeGmtime
    dsimp only
    rw [u32_eq ht, hdays, hmarch]
    dsimp only
    rw [hdate]
    dsimp only
    rw [cInt_natCast hyear, cInt_natCast hmonth, cInt_natCast hday,
      cInt_natCast (by omega), cInt_natCast (by omega), cInt_natCast (by omega),
      cInt_natCast (by omega)]
    congr 1
    · omega
    · omega
    · omega
    · omega

theorem timeGmtime_tells_leap_day :
    1709208000 < 2 ^ 32 ∧
      timeGmtime 1709208000 =
        { sec := 0, min := 0, hour := 12, mday := 29, mon := 2, year := 2024, wday := 4 } ∧
      exists d : Date, d.Valid ∧ timeGmtime 1709208000 =
        { sec := 1709208000 % 60
          min := 1709208000 / 60 % 60
          hour := 1709208000 / 3600 % 24
          mday := d.day
          mon := d.month
          year := d.year
          wday := (1709208000 / 86400 + 4) % 7 } := by
  obtain ⟨d, hvalid, -, -, htm⟩ := timeGmtime_tells 1709208000 (by decide)
  exact ⟨by decide, by decide, d, hvalid, htm⟩

end Time
end NgxEpoll
