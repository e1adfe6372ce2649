/-
# `Rsurl.Base.Calendar` — counting the days of the Gregorian calendar

A day is numbered by the days before it: those of the years before its year and
of the months before its month.  `days_eq_era` is the count in eras of four
hundred years that begin in March, where a leap day is the last of its year, and
`Date.iterate_next` the count from one day to the next.
-/
import Mathlib.Algebra.BigOperators.Intervals
import Mathlib.Algebra.Order.BigOperators.Group.Finset
import Mathlib.Tactic.IntervalCases

namespace Rsurl.Base.Calendar

def IsLeap (y : Nat) : Prop := y % 4 = 0 ∧ (y % 100 ≠ 0 ∨ y % 400 = 0)

instance (y : Nat) : Decidable (IsLeap y) := inferInstanceAs (Decidable (_ ∧ _))

def yearDays (y : Nat) : Nat := if IsLeap y then 366 else 365

/-- The length of a month, January the first. -/
def monthDays (y : Nat) : Nat → Nat
  | 2 => if IsLeap y then 29 else 28
  | 4 | 6 | 9 | 11 => 30
  | _ => 31

/-- The days before a year. -/
def daysBefore (y : Nat) : Nat := ∑ k ∈ Finset.range y, yearDays k

/-- The days of a year before one of its months. -/
def daysBeforeMonth (y m : Nat) : Nat := ∑ k ∈ Finset.range (m - 1), monthDays y (k + 1)

/-- The days from the first of the year 0 to a date. -/
def days (y m d : Nat) : Nat := daysBefore y + daysBeforeMonth y m + (d - 1)

theorem one_le_monthDays (y m : Nat) : 1 ≤ monthDays y m := by
  unfold monthDays
  split
  · split <;> decide
  all_goals decide

theorem daysBefore_succ (y : Nat) : daysBefore (y + 1) = daysBefore y + yearDays y :=
  Finset.sum_range_succ _ _

theorem daysBeforeMonth_succ (y : Nat) {m : Nat} (h : 1 ≤ m) :
    daysBeforeMonth y (m + 1) = daysBeforeMonth y m + monthDays y m := by
  obtain ⟨k, rfl⟩ := Nat.exists_eq_add_of_le' h
  exact Finset.sum_range_succ _ _

theorem daysBefore_mono {y y' : Nat} (h : y ≤ y') : daysBefore y ≤ daysBefore y' :=
  Finset.sum_le_sum_of_subset (Finset.range_mono h)

/-- The multiples of a number below one more than another. -/
theorem multiples_succ (y k : Nat) :
    (y + 1 + k) / (k + 1) = (y + k) / (k + 1) + if y % (k + 1) = 0 then 1 else 0 := by
  have hdvd : k + 1 ∣ y + k + 1 ↔ y % (k + 1) = 0 := by
    rw [Nat.add_assoc, Nat.dvd_add_self_right, Nat.dvd_iff_mod_eq_zero]
  rw [Nat.add_right_comm, Nat.succ_div]
  simp only [hdvd]

/-- Every fourth year is a leap year, save for the centuries, save for every fourth of these. -/
theorem leapDay_eq (y : Nat) :
    (if IsLeap y then 1 else 0) + (if y % 100 = 0 then 1 else 0) =
      (if y % 4 = 0 then 1 else 0) + if y % 400 = 0 then 1 else 0 := by
  by_cases hleap : IsLeap y
  · rw [if_pos hleap, if_pos hleap.1]
    rcases hleap.2 with hcommon | hcommon
    · rw [if_neg hcommon, if_neg (by omega)]
    · rw [if_pos hcommon, if_pos (by omega)]
  · have hcommon : ¬ (y % 4 = 0 ∧ (y % 100 ≠ 0 ∨ y % 400 = 0)) := hleap
    rw [if_neg hleap]
    by_cases hfour : y % 4 = 0
    · rw [if_pos hfour, if_pos (by omega), if_neg (by omega)]
    · rw [if_neg hfour, if_neg (by omega), if_neg (by omega)]

theorem yearDays_eq (y : Nat) : yearDays y = 365 + if IsLeap y then 1 else 0 := by
  unfold yearDays
  split <;> rfl

theorem daysBefore_eq (y : Nat) :
    daysBefore y + (y + 99) / 100 = 365 * y + (y + 3) / 4 + (y + 399) / 400 := by
  induction y with
  | zero => rfl
  | succ y ih =>
      have hleap := leapDay_eq y
      rw [daysBefore, Finset.sum_range_succ, ← daysBefore, yearDays_eq, multiples_succ y 99,
        multiples_succ y 3, multiples_succ y 399]
      generalize (if IsLeap y then 1 else 0) = leap at hleap ⊢
      generalize (if y % 4 = 0 then 1 else 0) = four at hleap ⊢
      generalize (if y % 100 = 0 then 1 else 0) = century at hleap ⊢
      generalize (if y % 400 = 0 then 1 else 0) = fourth at hleap ⊢
      omega

/-- The days of a year that begins in March before one of its months, 0 for March. -/
def marchDays (mp : Nat) : Nat := (153 * mp + 2) / 5

theorem daysBeforeMonth_of_le {y m : Nat} (h : 1 ≤ m ∧ m ≤ 2) :
    daysBeforeMonth y m + 306 = marchDays (m + 9) := by
  obtain ⟨hlow, hhigh⟩ := h
  interval_cases m <;> rfl

theorem daysBeforeMonth_of_gt {y m : Nat} (h : 3 ≤ m ∧ m ≤ 12) :
    daysBeforeMonth y m = marchDays (m - 3) + 59 + if IsLeap y then 1 else 0 := by
  obtain ⟨hlow, hhigh⟩ := h
  interval_cases m <;>
    simp only [daysBeforeMonth, Finset.sum_range_succ, Finset.sum_range_zero, monthDays,
      marchDays] <;> split <;> rfl

theorem daysBeforeMonth_december (y : Nat) : daysBeforeMonth y 12 + 31 = yearDays y := by
  have hmonths := daysBeforeMonth_of_gt (y := y) (m := 12) ⟨by decide, le_rfl⟩
  have hmarch : marchDays 9 = 275 := rfl
  rw [yearDays_eq, hmonths, hmarch]
  omega

/-- The days from the first of March of the year 0, in years that begin in March. -/
def marchCount (y mp d : Nat) : Nat := 365 * y + y / 4 + y / 400 + marchDays mp + (d - 1) - y / 100

/-- The multiples of a number up to another, and below it. -/
theorem multiples_le (y k : Nat) :
    (y + k) / (k + 1) + (if y % (k + 1) = 0 then 1 else 0) = y / (k + 1) + 1 := by
  rw [← multiples_succ, Nat.add_right_comm, Nat.add_assoc, Nat.add_div_right _ (Nat.succ_pos k)]

theorem days_eq_march {y m d : Nat} (hy : 1 ≤ y) (hm : 1 ≤ m ∧ m ≤ 12) :
    days y m d = 60 +
      if m ≤ 2 then marchCount (y - 1) (m + 9) d else marchCount y (m - 3) d := by
  have hyear := daysBefore_eq y
  unfold days marchCount
  split
  · next h =>
      have hmonth := daysBeforeMonth_of_le (y := y) ⟨hm.1, h⟩
      have hfour : (y + 3) / 4 = (y - 1) / 4 + 1 := by omega
      have hcentury : (y + 99) / 100 = (y - 1) / 100 + 1 := by omega
      have hfourth : (y + 399) / 400 = (y - 1) / 400 + 1 := by omega
      omega
  · next h =>
      have hmonth := daysBeforeMonth_of_gt (y := y) (m := m) ⟨by omega, hm.2⟩
      have hleap := leapDay_eq y
      have hfour := multiples_le y 3
      have hcentury := multiples_le y 99
      have hfourth := multiples_le y 399
      generalize (if IsLeap y then 1 else 0) = leap at hleap hmonth
      generalize (if y % 4 = 0 then 1 else 0) = four at hleap hfour
      generalize (if y % 100 = 0 then 1 else 0) = century at hleap hcentury
      generalize (if y % 400 = 0 then 1 else 0) = fourth at hleap hfourth
      generalize (y + 3) / 4 = fours at hyear hfour
      generalize (y + 99) / 100 = centuries at hyear hcentury
      generalize (y + 399) / 400 = fourths at hyear hfourth
      omega

/-- The same day of a later year is later. -/
theorem days_lt_of_year_lt {y z m : Nat} (d : Nat) (hm : 1 ≤ m ∧ m ≤ 12) (h : y + 1 < z) :
    days y m d < days z m d := by
  have hyears : daysBefore (y + 2) ≤ daysBefore z := daysBefore_mono h
  rw [daysBefore, Finset.sum_range_succ, Finset.sum_range_succ, ← daysBefore, yearDays_eq,
    yearDays_eq] at hyears
  have hmonths : daysBeforeMonth y m ≤ 335 := by
    by_cases hle : m ≤ 2
    · have hmonth := daysBeforeMonth_of_le (y := y) ⟨hm.1, hle⟩
      unfold marchDays at hmonth
      omega
    · have hmonth := daysBeforeMonth_of_gt (y := y) (m := m) ⟨by omega, hm.2⟩
      unfold marchDays at hmonth
      split at hmonth <;> omega
  unfold days
  omega

/-- The count in eras of four hundred years. -/
theorem marchCount_era (y mp d : Nat) :
    marchCount y mp d = y / 400 * 146097 +
      (y % 400 * 365 + y % 400 / 4 - y % 400 / 100 + (marchDays mp + (d - 1))) := by
  have hfour : y / 4 = y / 400 * 100 + y % 400 / 4 := by omega
  have hcentury : y / 100 = y / 400 * 4 + y % 400 / 100 := by omega
  have hyear : y = y / 400 * 400 + y % 400 := by omega
  unfold marchCount
  omega

/-! ## Counting from day to day -/

/-- A date of the calendar. -/
@[ext] structure Date where
  year : Nat
  month : Nat
  day : Nat
  month_mem : 1 ≤ month ∧ month ≤ 12
  day_mem : 1 ≤ day ∧ day ≤ monthDays year month

namespace Date

/-- The number of the day of a date. -/
def number (t : Date) : Nat := days t.year t.month t.day

/-- The day after a date. -/
def next (t : Date) : Date :=
  if hday : t.day < monthDays t.year t.month then
    ⟨t.year, t.month, t.day + 1, t.month_mem, ⟨by omega, hday⟩⟩
  else if hmonth : t.month < 12 then
    ⟨t.year, t.month + 1, 1, ⟨by omega, hmonth⟩, ⟨le_rfl, one_le_monthDays _ _⟩⟩
  else ⟨t.year + 1, 1, 1, ⟨le_rfl, by decide⟩, ⟨le_rfl, one_le_monthDays _ _⟩⟩

/-- The first day of a year. -/
def newYear (y : Nat) : Date := ⟨y, 1, 1, ⟨le_rfl, by decide⟩, ⟨le_rfl, one_le_monthDays _ _⟩⟩

theorem number_next (t : Date) : t.next.number = t.number + 1 := by
  have hmonth := t.month_mem
  have hday := t.day_mem
  unfold next
  split
  · next hlt =>
      show days t.year t.month (t.day + 1) = days t.year t.month t.day + 1
      unfold days
      omega
  next hlast =>
  split
  · show days t.year (t.month + 1) 1 = days t.year t.month t.day + 1
    have hsum := daysBeforeMonth_succ t.year hmonth.1
    unfold days
    omega
  · next hdecember =>
      have htwelve : t.month = 12 := by omega
      show days (t.year + 1) 1 1 = days t.year t.month t.day + 1
      have hyear := daysBefore_succ t.year
      have hsum := daysBeforeMonth_december t.year
      have hnone : daysBeforeMonth (t.year + 1) 1 = 0 := rfl
      have hlength : monthDays t.year 12 = 31 := rfl
      rw [htwelve] at hlast hday
      unfold days
      rw [htwelve]
      omega

theorem number_newYear_le {y : Nat} {t : Date} (h : y ≤ t.year) : (newYear y).number ≤ t.number := by
  have hyears := daysBefore_mono h
  have hnone : daysBeforeMonth y 1 = 0 := rfl
  show days y 1 1 ≤ days t.year t.month t.day
  unfold days
  omega

/-- Every date from a year on is its first day or the day after such a date. -/
theorem eq_newYear_or_next {y : Nat} {t : Date} (h : y ≤ t.year) :
    t = newYear y ∨ ∃ u : Date, y ≤ u.year ∧ u.next = t := by
  have hmonth := t.month_mem
  have hday := t.day_mem
  by_cases hfirst : t.day = 1
  · by_cases hjanuary : t.month = 1
    · by_cases hyear : t.year = y
      · exact .inl (Date.ext hyear hjanuary hfirst)
      · let u : Date := ⟨t.year - 1, 12, 31, ⟨by decide, le_rfl⟩, ⟨by decide, le_rfl⟩⟩
        refine .inr ⟨u, show y ≤ t.year - 1 by omega, ?_⟩
        have hlast : ¬ u.day < monthDays u.year u.month := lt_irrefl 31
        rw [next, dif_neg hlast, dif_neg (lt_irrefl 12)]
        exact Date.ext (show t.year - 1 + 1 = t.year by omega) hjanuary.symm hfirst.symm
    · let u : Date := ⟨t.year, t.month - 1, monthDays t.year (t.month - 1), ⟨by omega, by omega⟩,
        ⟨one_le_monthDays _ _, le_rfl⟩⟩
      refine .inr ⟨u, h, ?_⟩
      have hlast : ¬ u.day < monthDays u.year u.month := lt_irrefl _
      rw [next, dif_neg hlast, dif_pos (show t.month - 1 < 12 by omega)]
      exact Date.ext rfl (show t.month - 1 + 1 = t.month by omega) hfirst.symm
  · let u : Date := ⟨t.year, t.month, t.day - 1, hmonth, ⟨by omega, by omega⟩⟩
    refine .inr ⟨u, h, ?_⟩
    rw [next, dif_pos (show t.day - 1 < monthDays t.year t.month by omega)]
    exact Date.ext rfl rfl (show t.day - 1 + 1 = t.day by omega)

/-- Counting the days from a new year on comes to every later date at its number. -/
theorem iterate_next {y n : Nat} {t : Date} (h : y ≤ t.year)
    (hn : t.number = (newYear y).number + n) : next^[n] (newYear y) = t := by
  induction n generalizing t with
  | zero =>
      rcases eq_newYear_or_next h with rfl | ⟨u, hu, rfl⟩
      · rfl
      · have hle := number_newYear_le hu
        rw [number_next] at hn
        omega
  | succ n ih =>
      rcases eq_newYear_or_next h with rfl | ⟨u, hu, rfl⟩
      · omega
      · rw [number_next] at hn
        rw [Function.iterate_succ_apply', ih hu (by omega)]

end Date

end Rsurl.Base.Calendar
