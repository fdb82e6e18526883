import Mathlib.Order.Monotone.Basic

/-!
# The Gregorian calendar

Dates of the proleptic Gregorian calendar from the year 0 on, and the number of days
that lie before a date.  A date is found from this number alone.

## Rows of intervals
-/

namespace NgxEpoll
namespace Foundation

/-- Where intervals lie one behind the other, a number falls into one place of one of
them. -/
theorem place_unique {start length : Nat -> Nat}
    (hstep : forall i, start (i + 1) = start i + length i) {i j a b : Nat} (ha : a < length i)
    (hb : b < length j) (h : start i + a = start j + b) : i = j ∧ a = b := by
  have hmono : Monotone start := by
    apply monotone_nat_of_le_succ
    intro k
    rw [hstep]
    exact Nat.le_add_right _ _
  rcases Nat.lt_trichotomy i j with hlt | heq | hgt
  · have hle := hmono (show i + 1 ≤ j from hlt)
    rw [hstep] at hle
    omega
  · subst heq
    exact ⟨rfl, by omega⟩
  · have hle := hmono (show j + 1 ≤ i from hgt)
    rw [hstep] at hle
    omega

/-!
## Years and months
-/

def Leap (year : Nat) : Prop :=
  year % 4 = 0 ∧ (year % 100 ≠ 0 ∨ year % 400 = 0)

instance (year : Nat) : Decidable (Leap year) :=
  inferInstanceAs (Decidable (_ ∧ _))

def yearLength (year : Nat) : Nat :=
  if Leap year then 366 else 365

def monthLength (year month : Nat) : Nat :=
  if month = 2 then if Leap year then 29 else 28
  else if month = 4 ∨ month = 6 ∨ month = 9 ∨ month = 11 then 30
  else 31

def yearStart : Nat -> Nat
  | 0 => 0
  | year + 1 => yearStart year + yearLength year

def monthStart (year : Nat) : Nat -> Nat
  | 0 => 0
  | months + 1 => monthStart year months + monthLength year (months + 1)

theorem yearStart_eq (year : Nat) :
    yearStart year + (year + 99) / 100 = 365 * year + (year + 3) / 4 + (year + 399) / 400 := by
  induction year with
  | zero => rfl
  | succ year ih =>
      unfold yearStart yearLength
      by_cases hleap : Leap year
      · rw [if_pos hleap]
        unfold Leap at hleap
        omega
      · rw [if_neg hleap]
        unfold Leap at hleap
        omega

theorem yearLength_bounds (year : Nat) : 365 ≤ yearLength year ∧ yearLength year ≤ 366 := by
  unfold yearLength
  split
  · omega
  · omega

theorem monthStart_year (year : Nat) : monthStart year 12 = yearLength year := by
  unfold yearLength
  by_cases hleap : Leap year
  · simp [monthStart, monthLength, hleap]
  · simp [monthStart, monthLength, hleap]

/-!
## Dates
-/

structure Date where
  year : Nat
  month : Nat
  day : Nat
deriving DecidableEq

structure Date.Valid (d : Date) : Prop where
  month_pos : 1 ≤ d.month
  month_le : d.month ≤ 12
  day_pos : 1 ≤ d.day
  day_le : d.day ≤ monthLength d.year d.month

def Date.number (d : Date) : Nat :=
  yearStart d.year + (monthStart d.year (d.month - 1) + (d.day - 1))

def Date.sinceEpoch (d : Date) : Int :=
  d.number - yearStart 1970

theorem yearStart_epoch : yearStart 1970 = 719528 := by
  have h := yearStart_eq 1970
  omega

variable {d d' : Date}

theorem Date.Valid.in_year (h : d.Valid) :
    monthStart d.year (d.month - 1) + (d.day - 1) < yearLength d.year := by
  have hmono : Monotone (monthStart d.year) := by
    apply monotone_nat_of_le_succ
    intro k
    exact Nat.le_add_right _ _
  have hpos := h.month_pos
  have hdays := h.day_pos
  have hday := h.day_le
  have hmonth : d.month - 1 + 1 ≤ 12 := by
    have hle := h.month_le
    omega
  have hle := hmono hmonth
  rw [monthStart_year, monthStart, Nat.sub_add_cancel hpos] at hle
  omega

theorem Date.number_injective (h : d.Valid) (h' : d'.Valid) (hnumber : d.number = d'.number) :
    d = d' := by
  obtain ⟨hyear, hday⟩ :=
    place_unique (fun _ => rfl) h.in_year h'.in_year hnumber
  cases d with
  | mk year month day =>
      cases d' with
      | mk year' month' day' =>
          dsimp only at hyear hday
          subst hyear
          have hpos := h.month_pos
          have hpos' := h'.month_pos
          have hday_pos := h.day_pos
          have hday_pos' := h'.day_pos
          have hlt : day - 1 < monthLength year (month - 1 + 1) := by
            have hle := h.day_le
            dsimp only at *
            rw [Nat.sub_add_cancel hpos]
            omega
          have hlt' : day' - 1 < monthLength year (month' - 1 + 1) := by
            have hle := h'.day_le
            dsimp only at *
            rw [Nat.sub_add_cancel hpos']
            omega
          obtain ⟨hmonth, heq⟩ :=
            @place_unique (monthStart year) (fun k => monthLength year (k + 1))
              (fun _ => rfl) (month - 1) (month' - 1) (day - 1) (day' - 1) hlt hlt' hday
          dsimp only at *
          congr 1
          · omega
          · omega

end Foundation
end NgxEpoll
