/-
# `Rsurl.Cookie.Epoch` — the day count, operation by operation

`epoch_from_ymd_hms` with every operation checked: one whose result is not the
one of the integers ends the count, as a build with overflow checks does.
`checkedEpoch_eq` gives the years for which that happens, and the seconds of
the calendar for all others; where nothing overflows, the wrapping arithmetic
of a release build gives the same (`epochFromYmdHms_of_checked`).  From 1970 on
it is the count from day to day (`epochFromYmdHms_counts`).
-/
import Rsurl.Base.Calendar
import Rsurl.Cookie.Date

namespace Rsurl.Cookies

open Base.Calendar

/-! ## Checked operations -/

/-- A result that is the one of the integers. -/
def exactI32 (exact : Int) (r : Int32) : Option Int32 := if r.toInt = exact then some r else none

def exactU32 (exact : Int) (r : UInt32) : Option UInt32 :=
  if (r.toNat : Int) = exact then some r else none

def exactI64 (exact : Int) : Option Int :=
  if -(2 ^ 63) ≤ exact ∧ exact < 2 ^ 63 then some exact else none

def exactU64 (exact : Nat) : Option Nat := if exact < 2 ^ 64 then some exact else none

def addI32 (a b : Int32) : Option Int32 := exactI32 (a.toInt + b.toInt) (a + b)

def subI32 (a b : Int32) : Option Int32 := exactI32 (a.toInt - b.toInt) (a - b)

def mulI32 (a b : Int32) : Option Int32 := exactI32 (a.toInt * b.toInt) (a * b)

/-- `as u32`, in range. -/
def asU32 (a : Int32) : Option UInt32 := exactU32 a.toInt a.toUInt32

def addU32 (a b : UInt32) : Option UInt32 := exactU32 (a.toNat + b.toNat) (a + b)

def subU32 (a b : UInt32) : Option UInt32 := exactU32 (a.toNat - b.toNat) (a - b)

def mulU32 (a b : UInt32) : Option UInt32 := exactU32 (a.toNat * b.toNat) (a * b)

/-- What `era` is a four-hundredth of. -/
def eraYears (year : Int32) : Option Int32 := if year ≥ 0 then some year else subI32 year 399

/-- The days since 1970, from a year that begins in March, its month and the day. -/
def checkedDays (year : Int32) (mp d : UInt32) : Option Int := do
  let era := (← eraYears year) / 400
  let yoe ← asU32 (← subI32 year (← mulI32 era 400))
  let doy ← subU32 (← addU32 ((← addU32 (← mulU32 153 mp) 2) / 5) d) 1
  let doe ← addU32 (← subU32 (← addU32 (← mulU32 yoe 365) (yoe / 4)) (yoe / 100)) doy
  exactI64 ((← exactI64 ((← exactI64 (era.toInt * 146097)) + doe.toNat)) - 719468)

/-- The year, if it began in March. -/
def marchYear (y : Int32) (m : UInt32) : Option Int32 := if m ≤ 2 then subI32 y 1 else some y

/-- The month, March the first with 0. -/
def marchMonth (m : UInt32) : Option UInt32 := if m > 2 then subU32 m 3 else addU32 m 9

/-- The days since 1970. -/
def dateDays (y : Int32) (m d : UInt32) : Option Int := do
  checkedDays (← marchYear y m) (← marchMonth m) d

/-- The seconds of these days and a time of day. -/
def checkedSeconds (days : Int) (hh mm ss : UInt32) : Option Nat := do
  let secs ← exactU64 (days.toNat * 86400)
  let secs ← exactU64 (secs + (← exactU64 (hh.toNat * 3600)))
  let secs ← exactU64 (secs + (← exactU64 (mm.toNat * 60)))
  exactU64 (secs + ss.toNat)

/-- `epoch_from_ymd_hms`, up to the first operation that overflows. -/
def checkedEpoch (y : Int32) (m d hh mm ss : UInt32) : Option (Option Nat) :=
  if ¬ (1 ≤ m ∧ m ≤ 12) ∨ ¬ (1 ≤ d ∧ d ≤ 31) ∨ hh > 23 ∨ mm > 59 ∨ ss > 60 then some none
  else do
    let days ← dateDays y m d
    if days < 0 then some none else (checkedSeconds days hh mm ss).map some

section

variable {a b : Int32} {u v : UInt32}

theorem exactI32_eq {z : Int} {r : Int32} (hr : r.toInt = z.bmod (2 ^ 32))
    (hlow : -(2 ^ 31) ≤ z) (hhigh : z < 2 ^ 31) : exactI32 z r = some r ∧ r.toInt = z := by
  have hexact : r.toInt = z := by
    rw [hr]
    exact Int.bmod_eq_of_le (by omega) (by omega)
  exact ⟨if_pos hexact, hexact⟩

theorem exactI32_eq_none {z : Int} {r : Int32} (h : z < -(2 ^ 31) ∨ 2 ^ 31 ≤ z) :
    exactI32 z r = none := by
  have hlow := r.le_toInt
  have hhigh := r.toInt_lt
  exact if_neg (by omega)

theorem subI32_eq (hlow : -(2 ^ 31) ≤ a.toInt - b.toInt) (hhigh : a.toInt - b.toInt < 2 ^ 31) :
    subI32 a b = some (a - b) ∧ (a - b).toInt = a.toInt - b.toInt :=
  exactI32_eq (Int32.toInt_sub a b) hlow hhigh

theorem addI32_eq (hlow : -(2 ^ 31) ≤ a.toInt + b.toInt) (hhigh : a.toInt + b.toInt < 2 ^ 31) :
    addI32 a b = some (a + b) ∧ (a + b).toInt = a.toInt + b.toInt :=
  exactI32_eq (Int32.toInt_add a b) hlow hhigh

theorem mulI32_eq (hlow : -(2 ^ 31) ≤ a.toInt * b.toInt) (hhigh : a.toInt * b.toInt < 2 ^ 31) :
    mulI32 a b = some (a * b) ∧ (a * b).toInt = a.toInt * b.toInt :=
  exactI32_eq (Int32.toInt_mul a b) hlow hhigh

theorem exactU32_eq {z : Int} {r : UInt32} (h : (r.toNat : Int) = z) :
    exactU32 z r = some r ∧ (r.toNat : Int) = z := ⟨if_pos h, h⟩

theorem asU32_eq (h : 0 ≤ a.toInt) : asU32 a = some a.toUInt32 ∧ (a.toUInt32.toNat : Int) = a.toInt := by
  refine exactU32_eq ?_
  have hcond : a.toInt = _ := BitVec.toInt_eq_toNat_cond a.toBitVec
  have hnat : a.toUInt32.toNat = a.toBitVec.toNat := rfl
  rw [hnat]
  split at hcond <;> omega

theorem addU32_eq (h : u.toNat + v.toNat < 2 ^ 32) :
    addU32 u v = some (u + v) ∧ ((u + v).toNat : Int) = u.toNat + v.toNat := by
  refine exactU32_eq ?_
  rw [UInt32.toNat_add]
  omega

theorem subU32_eq (h : v.toNat ≤ u.toNat) :
    subU32 u v = some (u - v) ∧ ((u - v).toNat : Int) = u.toNat - v.toNat := by
  refine exactU32_eq ?_
  have hlt := u.toNat_lt
  rw [UInt32.toNat_sub]
  omega

theorem mulU32_eq (h : u.toNat * v.toNat < 2 ^ 32) :
    mulU32 u v = some (u * v) ∧ ((u * v).toNat : Int) = u.toNat * v.toNat := by
  refine exactU32_eq ?_
  rw [UInt32.toNat_mul, Nat.mod_eq_of_lt h, Nat.cast_mul]

end

/-! ## The day count -/

/-- The days since 1970 in the integers, from the March year and its day. -/
def civilDays (year : Int) (mp d : Nat) : Int :=
  year / 400 * 146097 +
    (year % 400 * 365 + year % 400 / 4 - year % 400 / 100 + (marchDays mp + (d - 1) : Nat)) - 719468

section

variable {year : Int32} {mp d : UInt32}

/-- The era is rounded down, before the year 0 as well. -/
theorem era_eq (h : -(2 ^ 31) + 399 ≤ year.toInt) :
    ∃ num, eraYears year = some num ∧ (num / 400).toInt = year.toInt / 400 := by
  have hhigh := year.toInt_lt
  have h399 : (399 : Int32).toInt = 399 := rfl
  have h400 : (400 : Int32).toInt = 400 := rfl
  have hdiv : ∀ num : Int32, (num / 400).toInt = (num.toInt.tdiv 400).bmod (2 ^ 32) := fun num => by
    rw [Int32.toInt_div, h400]
  by_cases hpos : year ≥ 0
  · have hpos' : 0 ≤ year.toInt := Int32.le_iff_toInt_le.mp hpos
    refine ⟨year, if_pos hpos, ?_⟩
    rw [hdiv, Int.tdiv_eq_ediv_of_nonneg hpos', Int.bmod_eq_of_le (by omega) (by omega)]
  · have hneg : year.toInt < 0 := by
      by_contra hle
      exact hpos (Int32.le_iff_toInt_le.mpr (not_lt.mp hle))
    obtain ⟨hsub, hval⟩ := @subI32_eq year 399 (by omega) (by omega)
    refine ⟨year - 399, (if_neg hpos).trans hsub, ?_⟩
    have htdiv : (year.toInt - 399).tdiv 400 = year.toInt / 400 := by
      have hflip : (year.toInt - 399).tdiv 400 = -((-(year.toInt - 399)).tdiv 400) := by
        rw [Int.neg_tdiv, neg_neg]
      rw [hflip, Int.tdiv_eq_ediv_of_nonneg (by omega)]
      omega
    rw [hdiv, hval, h399, htdiv, Int.bmod_eq_of_le (by omega) (by omega)]

theorem checkedDays_eq (hyear : -(2 ^ 31) + 399 ≤ year.toInt) (hmp : mp.toNat ≤ 11)
    (hd : 1 ≤ d.toNat ∧ d.toNat ≤ 31) :
    checkedDays year mp d = some (civilDays year.toInt mp.toNat d.toNat) := by
  have hhigh := year.toInt_lt
  obtain ⟨num, hnum, hera⟩ := era_eq hyear
  have h400 : (num / 400).toInt * (400 : Int32).toInt = year.toInt / 400 * 400 := by
    rw [hera]
    rfl
  obtain ⟨hback, hbackVal⟩ := @mulI32_eq (num / 400) 400 (by omega) (by omega)
  obtain ⟨hrest, hrestVal⟩ := @subI32_eq year (num / 400 * 400) (by omega) (by omega)
  obtain ⟨hyoe, hyoeVal⟩ := @asU32_eq (year - num / 400 * 400) (by omega)
  generalize (year - num / 400 * 400).toUInt32 = yoe at hyoe hyoeVal
  have h153 : (153 : UInt32).toNat * mp.toNat = 153 * mp.toNat := rfl
  obtain ⟨hmonths, hmonthsVal⟩ := @mulU32_eq 153 mp (by omega)
  have h2 : (2 : UInt32).toNat = 2 := rfl
  obtain ⟨hround, hroundVal⟩ := @addU32_eq (153 * mp) 2 (by omega)
  have hfifth : ((153 * mp + 2) / 5 : UInt32).toNat = (153 * mp + 2 : UInt32).toNat / 5 :=
    UInt32.toNat_div (153 * mp + 2) 5
  obtain ⟨hday, hdayVal⟩ := @addU32_eq ((153 * mp + 2) / 5) d (by omega)
  have h1 : (1 : UInt32).toNat = 1 := rfl
  obtain ⟨hdoy, hdoyVal⟩ := @subU32_eq ((153 * mp + 2) / 5 + d) 1 (by omega)
  have h365 : yoe.toNat * (365 : UInt32).toNat = yoe.toNat * 365 := rfl
  obtain ⟨hyears, hyearsVal⟩ := @mulU32_eq yoe 365 (by omega)
  have hfour : (yoe / 4 : UInt32).toNat = yoe.toNat / 4 := UInt32.toNat_div _ _
  have hcentury : (yoe / 100 : UInt32).toNat = yoe.toNat / 100 := UInt32.toNat_div _ _
  obtain ⟨hleaps, hleapsVal⟩ := @addU32_eq (yoe * 365) (yoe / 4) (by omega)
  obtain ⟨hcommon, hcommonVal⟩ := @subU32_eq (yoe * 365 + yoe / 4) (yoe / 100) (by omega)
  obtain ⟨hdoe, hdoeVal⟩ :=
    @addU32_eq (yoe * 365 + yoe / 4 - yoe / 100) ((153 * mp + 2) / 5 + d - 1) (by omega)
  have hfits : ∀ {z : Int}, -(2 ^ 40) ≤ z → z < 2 ^ 40 → exactI64 z = some z :=
    fun hlow hhigh => if_pos ⟨by omega, by omega⟩
  rw [checkedDays, hnum]
  simp only [Option.bind_eq_bind, Option.bind_some, hback, hrest, hyoe, hmonths, hround, hday,
    hdoy, hyears, hleaps, hcommon, hdoe]
  rw [hfits (by omega) (by omega), Option.bind_some, hfits (by omega) (by omega), Option.bind_some,
    hfits (by omega) (by omega)]
  have hyears4 : ((yoe / 4 : UInt32).toNat : Int) = year.toInt % 400 / 4 := by omega
  have hyears100 : ((yoe / 100 : UInt32).toNat : Int) = year.toInt % 400 / 100 := by omega
  have hmarch : ((153 * mp + 2) / 5 : UInt32).toNat = (153 * mp.toNat + 2) / 5 := by omega
  unfold civilDays marchDays
  refine congrArg some ?_
  omega

/-- Too early a year cannot be rounded down to an era. -/
theorem checkedDays_eq_none (hyear : year.toInt < -(2 ^ 31) + 399) : checkedDays year mp d = none := by
  have hneg : ¬ year ≥ 0 := by
    intro hpos
    have hpos' : 0 ≤ year.toInt := Int32.le_iff_toInt_le.mp hpos
    omega
  have h399 : (399 : Int32).toInt = 399 := rfl
  have hsub : subI32 year 399 = none := exactI32_eq_none (by omega)
  rw [checkedDays, eraYears, if_neg hneg, hsub]
  rfl

end

theorem daysBefore_1970 : daysBefore 1970 = 719528 := by
  have hyears := daysBefore_eq 1970
  omega

theorem days_1970 : days 1970 1 1 = 719528 := by
  have hmonths : daysBeforeMonth 1970 1 = 0 := rfl
  rw [days, daysBefore_1970, hmonths]

theorem civilDays_march (y mp d : Nat) :
    civilDays y mp d = (marchCount y mp d : Int) - 719468 := by
  have hera := marchCount_era y mp d
  unfold civilDays
  omega

/-! ## The seconds -/

/-- What the code takes for a date and a time; a month may be given too many days. -/
structure InRange (m d hh mm ss : Nat) : Prop where
  month : 1 ≤ m ∧ m ≤ 12
  day : 1 ≤ d ∧ d ≤ 31
  hour : hh ≤ 23
  minute : mm ≤ 59
  second : ss ≤ 60

/-- The seconds from 1970 to a date and a time, by the calendar. -/
def epochSeconds (y m d hh mm ss : Nat) : Nat :=
  (days y m d - days 1970 1 1) * 86400 + hh * 3600 + mm * 60 + ss

/-- The exact value of an accepted date: none before 1970. -/
def exactEpoch (y : Int) (m d hh mm ss : Nat) : Option Nat :=
  if y < 1970 then none else some (epochSeconds y.toNat m d hh mm ss)

/-- The years for which the count leaves `i32`. -/
def TooEarly (y : Int) (m : Nat) : Prop := y < -(2 ^ 31) + if m ≤ 2 then 400 else 399

section

variable {y : Int} {m d : Nat}

/-- The day count of a date with its month moved to March. -/
def shiftedDays (y : Int) (m d : Nat) : Int :=
  if m ≤ 2 then civilDays (y - 1) (m + 9) d else civilDays y (m - 3) d

theorem shiftedDays_of_early (hy : y < 1970) (hm : 1 ≤ m ∧ m ≤ 12) (hd : 1 ≤ d ∧ d ≤ 31) :
    shiftedDays y m d < 0 := by
  unfold shiftedDays civilDays marchDays
  split <;> omega

theorem shiftedDays_of_late (hy : 1970 ≤ y) (hm : 1 ≤ m ∧ m ≤ 12) :
    shiftedDays y m d = (days y.toNat m d - days 1970 1 1 : Nat) := by
  obtain ⟨n, rfl⟩ := Int.eq_ofNat_of_zero_le (show 0 ≤ y by omega)
  have hdays := days_eq_march (y := n) (d := d) (by omega) hm
  have hlate : 719528 ≤ days n m d := by
    have hyears : daysBefore 1970 ≤ daysBefore n := daysBefore_mono (by omega)
    rw [daysBefore_1970] at hyears
    unfold days
    omega
  have hback : ((n : Int) - 1) = (n - 1 : Nat) := by omega
  rw [shiftedDays, hback, civilDays_march, civilDays_march, days_1970, Int.toNat_natCast]
  split at hdays
  · next h =>
      rw [if_pos h]
      omega
  · next h =>
      rw [if_neg h]
      omega

end

section

variable {y : Int32} {m d hh mm ss : UInt32}

theorem marchMonth_eq (hm : 1 ≤ m.toNat ∧ m.toNat ≤ 12) :
    ∃ mp, marchMonth m = some mp ∧
      mp.toNat = if m.toNat ≤ 2 then m.toNat + 9 else m.toNat - 3 := by
  have h3 : (3 : UInt32).toNat = 3 := rfl
  have h9 : (9 : UInt32).toNat = 9 := rfl
  have hgt : m > 2 ↔ 2 < m.toNat := UInt32.lt_iff_toNat_lt
  unfold marchMonth
  split
  · next h =>
      obtain ⟨hsub, hval⟩ := @subU32_eq m 3 (by have := hgt.mp h; omega)
      refine ⟨_, hsub, ?_⟩
      rw [if_neg (by have := hgt.mp h; omega)]
      omega
  · next h =>
      have hle : m.toNat ≤ 2 := not_lt.mp fun hlt => h (hgt.mpr hlt)
      obtain ⟨hadd, hval⟩ := @addU32_eq m 9 (by omega)
      refine ⟨_, hadd, ?_⟩
      rw [if_pos hle]
      omega

theorem dateDays_eq (hearly : ¬ TooEarly y.toInt m.toNat) (hm : 1 ≤ m.toNat ∧ m.toNat ≤ 12)
    (hd : 1 ≤ d.toNat ∧ d.toNat ≤ 31) :
    dateDays y m d =
      some (shiftedDays y.toInt m.toNat d.toNat) := by
  obtain ⟨mp, hmp, hval⟩ := marchMonth_eq hm
  have hhigh := y.toInt_lt
  have hle : m ≤ 2 ↔ m.toNat ≤ 2 := UInt32.le_iff_toNat_le
  have h1 : (1 : Int32).toInt = 1 := rfl
  unfold TooEarly at hearly
  rw [dateDays, hmp, marchYear, shiftedDays]
  by_cases h : m.toNat ≤ 2
  · rw [if_pos h] at hearly hval
    obtain ⟨hsub, hyear⟩ := @subI32_eq y 1 (by omega) (by omega)
    rw [if_pos (hle.mpr h), if_pos h, hsub]
    have hdays := @checkedDays_eq (y - 1) mp d (by omega) (by omega) hd
    rw [hyear, hval] at hdays
    exact hdays
  · rw [if_neg h] at hearly hval
    rw [if_neg (mt hle.mp h), if_neg h]
    have hdays := @checkedDays_eq y mp d (by omega) (by omega) hd
    rw [hval] at hdays
    exact hdays

theorem dateDays_of_tooEarly (hearly : TooEarly y.toInt m.toNat) :
    dateDays y m d = none := by
  have hle : m ≤ 2 ↔ m.toNat ≤ 2 := UInt32.le_iff_toNat_le
  have h1 : (1 : Int32).toInt = 1 := rfl
  have hlow := y.le_toInt
  have hnone : ∀ year : Int32, year.toInt < -(2 ^ 31) + 399 →
      (do checkedDays year (← marchMonth m) d) = none := by
    intro year hyear
    cases marchMonth m with
    | none => rfl
    | some mp => exact checkedDays_eq_none hyear
  unfold TooEarly at hearly
  rw [dateDays, marchYear]
  by_cases h : m.toNat ≤ 2
  · rw [if_pos h] at hearly
    rw [if_pos (hle.mpr h)]
    by_cases hmin : y.toInt = -(2 ^ 31)
    · have hsub : subI32 y 1 = none := exactI32_eq_none (by omega)
      rw [hsub]
      rfl
    · obtain ⟨hsub, hyear⟩ := @subI32_eq y 1 (by omega) (by omega)
      rw [hsub]
      exact hnone (y - 1) (by omega)
  · rw [if_neg h] at hearly
    rw [if_neg (mt hle.mp h)]
    exact hnone y (by omega)

theorem inRange_iff : InRange m.toNat d.toNat hh.toNat mm.toNat ss.toNat ↔
    ¬ (¬ (1 ≤ m ∧ m ≤ 12) ∨ ¬ (1 ≤ d ∧ d ≤ 31) ∨ hh > 23 ∨ mm > 59 ∨ ss > 60) := by
  have hm : 1 ≤ m ∧ m ≤ 12 ↔ 1 ≤ m.toNat ∧ m.toNat ≤ 12 :=
    and_congr UInt32.le_iff_toNat_le UInt32.le_iff_toNat_le
  have hd : 1 ≤ d ∧ d ≤ 31 ↔ 1 ≤ d.toNat ∧ d.toNat ≤ 31 :=
    and_congr UInt32.le_iff_toNat_le UInt32.le_iff_toNat_le
  have hhour : hh > 23 ↔ 23 < hh.toNat := UInt32.lt_iff_toNat_lt
  have hminute : mm > 59 ↔ 59 < mm.toNat := UInt32.lt_iff_toNat_lt
  have hsecond : ss > 60 ↔ 60 < ss.toNat := UInt32.lt_iff_toNat_lt
  rw [hm, hd, hhour, hminute, hsecond]
  constructor
  · rintro ⟨hmonth, hday, h₁, h₂, h₃⟩
    rintro (h | h | h | h | h)
    · exact h hmonth
    · exact h hday
    · omega
    · omega
    · omega
  · intro h
    push Not at h
    exact ⟨h.1, h.2.1, h.2.2.1, h.2.2.2.1, h.2.2.2.2⟩

theorem checkedEpoch_of_not_inRange (h : ¬ InRange m.toNat d.toNat hh.toNat mm.toNat ss.toNat) :
    checkedEpoch y m d hh mm ss = some none := by
  rw [checkedEpoch, if_pos (not_not.mp (mt inRange_iff.mpr h))]

theorem checkedSeconds_eq {days : Int} (hdays : days < 2 ^ 40) (hh mm ss : UInt32) :
    checkedSeconds days hh mm ss =
      some (days.toNat * 86400 + hh.toNat * 3600 + mm.toNat * 60 + ss.toNat) := by
  have hhour := hh.toNat_lt
  have hminute := mm.toNat_lt
  have hsecond := ss.toNat_lt
  have hfits : ∀ {n : Nat}, n < 2 ^ 58 → exactU64 n = some n := fun h => if_pos (by omega)
  simp only [checkedSeconds, Option.bind_eq_bind]
  rw [hfits (by omega), Option.bind_some, hfits (by omega), Option.bind_some, hfits (by omega),
    Option.bind_some, hfits (by omega), Option.bind_some, hfits (by omega), Option.bind_some,
    hfits (by omega)]

theorem shiftedDays_lt (hm : 1 ≤ m.toNat ∧ m.toNat ≤ 12) (hd : 1 ≤ d.toNat ∧ d.toNat ≤ 31) :
    shiftedDays y.toInt m.toNat d.toNat < 2 ^ 40 := by
  have hhigh := y.toInt_lt
  unfold shiftedDays civilDays marchDays
  split <;> omega

/-- The count overflows for a year that is too early, and is that of the calendar for any other. -/
theorem checkedEpoch_eq (h : InRange m.toNat d.toNat hh.toNat mm.toNat ss.toNat) :
    (TooEarly y.toInt m.toNat → checkedEpoch y m d hh mm ss = none) ∧
      (¬ TooEarly y.toInt m.toNat → checkedEpoch y m d hh mm ss =
        some (exactEpoch y.toInt m.toNat d.toNat hh.toNat mm.toNat ss.toNat)) := by
  rw [checkedEpoch, if_neg (inRange_iff.mp h)]
  constructor
  · intro hearly
    rw [dateDays_of_tooEarly hearly]
    rfl
  · intro hearly
    rw [dateDays_eq hearly h.month h.day, Option.bind_eq_bind, Option.bind_some, exactEpoch]
    by_cases hy : y.toInt < 1970
    · rw [if_pos (shiftedDays_of_early hy h.month h.day), if_pos hy]
    · have hdays := shiftedDays_of_late (d := d.toNat) (not_lt.mp hy) h.month
      rw [if_neg (by omega), if_neg hy, checkedSeconds_eq (shiftedDays_lt h.month h.day), hdays,
        Int.toNat_natCast, Option.map_some, epochSeconds]

end

/-! ## The release build -/

theorem eq_of_exactI32 {z : Int} {r r' : Int32} (h : exactI32 z r = some r') : r = r' :=
  (Option.ite_none_right_eq_some.mp h).2 |> Option.some.inj

theorem eq_of_exactU32 {z : Int} {r r' : UInt32} (h : exactU32 z r = some r') : r = r' :=
  (Option.ite_none_right_eq_some.mp h).2 |> Option.some.inj

theorem eq_of_exactI64 {z z' : Int} (h : exactI64 z = some z') : z = z' :=
  (Option.ite_none_right_eq_some.mp h).2 |> Option.some.inj

theorem eq_of_exactU64 {n n' : Nat} (h : exactU64 n = some n') : n = n' :=
  (Option.ite_none_right_eq_some.mp h).2 |> Option.some.inj

theorem eq_of_eraYears {year num : Int32} (h : eraYears year = some num) :
    num = if year ≥ 0 then year else year - 399 := by
  unfold eraYears at h
  split at h
  · next hpos => rw [if_pos hpos, Option.some.inj h]
  · next hneg => rw [if_neg hneg, eq_of_exactI32 h]

theorem eq_of_marchYear {y year : Int32} {m : UInt32} (h : marchYear y m = some year) :
    year = if m ≤ 2 then y - 1 else y := by
  unfold marchYear at h
  split at h
  · next hle => rw [if_pos hle, eq_of_exactI32 h]
  · next hle => rw [if_neg hle, Option.some.inj h]

theorem eq_of_marchMonth {m mp : UInt32} (h : marchMonth m = some mp) :
    mp = if m > 2 then m - 3 else m + 9 := by
  unfold marchMonth at h
  split at h
  · next hgt => rw [if_pos hgt, eq_of_exactU32 h]
  · next hgt => rw [if_neg hgt, eq_of_exactU32 h]

/-- The day count of the wrapping operations. -/
theorem eq_of_checkedDays {year : Int32} {mp d : UInt32} {days : Int}
    (h : checkedDays year mp d = some days) :
    days =
      let era := (if year ≥ 0 then year else year - 399) / 400
      let yoe := (year - era * 400).toUInt32
      let doy := (153 * mp + 2) / 5 + d - 1
      let doe := yoe * 365 + yoe / 4 - yoe / 100 + doy
      era.toInt * 146097 + (doe.toNat : Int) - 719468 := by
  simp only [checkedDays, Option.bind_eq_bind, Option.bind_eq_some_iff] at h
  obtain ⟨num, hnum, back, hback, rest, hrest, yoe, hyoe, a, ha, b, hb, c, hc, doy, hdoy, f, hf, g,
    hg, k, hk, doe, hdoe, x, hx, z, hz, h⟩ := h
  obtain rfl := eq_of_eraYears hnum
  obtain rfl := eq_of_exactI32 hback
  obtain rfl := eq_of_exactI32 hrest
  obtain rfl := eq_of_exactU32 hyoe
  obtain rfl := eq_of_exactU32 ha
  obtain rfl := eq_of_exactU32 hb
  obtain rfl := eq_of_exactU32 hc
  obtain rfl := eq_of_exactU32 hdoy
  obtain rfl := eq_of_exactU32 hf
  obtain rfl := eq_of_exactU32 hg
  obtain rfl := eq_of_exactU32 hk
  obtain rfl := eq_of_exactU32 hdoe
  obtain rfl := eq_of_exactI64 hx
  obtain rfl := eq_of_exactI64 hz
  exact (eq_of_exactI64 h).symm

theorem eq_of_checkedSeconds {days : Int} {hh mm ss : UInt32} {secs : Nat}
    (h : checkedSeconds days hh mm ss = some secs) :
    secs = days.toNat * 86400 + hh.toNat * 3600 + mm.toNat * 60 + ss.toNat := by
  simp only [checkedSeconds, Option.bind_eq_bind, Option.bind_eq_some_iff] at h
  obtain ⟨a, ha, b, hb, c, hc, f, hf, g, hg, h⟩ := h
  obtain rfl := eq_of_exactU64 ha
  obtain rfl := eq_of_exactU64 hb
  obtain rfl := eq_of_exactU64 hc
  obtain rfl := eq_of_exactU64 hf
  obtain rfl := eq_of_exactU64 hg
  exact (eq_of_exactU64 h).symm

/-- Where no operation overflows, the wrapping ones give the same. -/
theorem epochFromYmdHms_of_checked {y : Int32} {m d hh mm ss : UInt32} {r : Option Nat}
    (h : checkedEpoch y m d hh mm ss = some r) : epochFromYmdHms y m d hh mm ss = r := by
  unfold checkedEpoch at h
  unfold epochFromYmdHms
  split at h
  · next hrange => rw [if_pos hrange, Option.some.inj h]
  next hrange =>
  rw [if_neg hrange]
  obtain ⟨days, hdays, h⟩ := Option.bind_eq_some_iff.mp h
  obtain ⟨year, hyear, hdays⟩ := Option.bind_eq_some_iff.mp hdays
  obtain ⟨mp, hmp, hdays⟩ := Option.bind_eq_some_iff.mp hdays
  obtain rfl := eq_of_marchYear hyear
  obtain rfl := eq_of_marchMonth hmp
  have hvalue := eq_of_checkedDays hdays
  by_cases hneg : days < 0
  · rw [if_pos hneg] at h
    rw [hvalue] at hneg
    exact (if_pos hneg).trans (Option.some.inj h)
  · rw [if_neg hneg] at h
    obtain ⟨secs, hsecs, rfl⟩ := Option.map_eq_some_iff.mp h
    have hsum := eq_of_checkedSeconds hsecs
    rw [hvalue] at hneg hsum
    exact (if_neg hneg).trans (congrArg some hsum.symm)

/-! ## Counting days -/

/-- A year, month and day of the code that are a date of the calendar. -/
structure Reads (y : Int32) (m d : UInt32) (t : Date) : Prop where
  year : y.toInt = t.year
  month : m.toNat = t.month
  day : d.toNat = t.day

theorem monthDays_le (y m : Nat) : monthDays y m ≤ 31 := by
  unfold monthDays
  split
  · split <;> decide
  all_goals decide

/-- From 1970 on the conversion overflows nowhere, and is 86400 times the days counted from the
first of January 1970 and the seconds of the day. -/
theorem epochFromYmdHms_counts {y : Int32} {m d hh mm ss : UInt32} {t : Date} (ht : Reads y m d t)
    (hyear : 1970 ≤ t.year) (hhour : hh.toNat ≤ 23) (hminute : mm.toNat ≤ 59)
    (hsecond : ss.toNat ≤ 60) :
    ∃ n, Date.next^[n] (Date.newYear 1970) = t ∧
      checkedEpoch y m d hh mm ss = some (epochFromYmdHms y m d hh mm ss) ∧
      epochFromYmdHms y m d hh mm ss =
        some (86400 * n + (hh.toNat * 3600 + mm.toNat * 60 + ss.toNat)) := by
  have hle := Date.number_newYear_le hyear
  have hday := t.day_mem
  have hlength := monthDays_le t.year t.month
  have hrange : InRange m.toNat d.toNat hh.toNat mm.toNat ss.toNat :=
    ⟨by rw [ht.month]; exact t.month_mem, by rw [ht.day]; omega, hhour, hminute, hsecond⟩
  have hlate : ¬ TooEarly y.toInt m.toNat := by
    have hread := ht.year
    unfold TooEarly
    split <;> omega
  have hnot : ¬ (t.year : Int) < 1970 := by omega
  have hchecked := (checkedEpoch_eq hrange).2 hlate
  rw [exactEpoch, ht.year, if_neg hnot, Int.toNat_natCast, ht.month, ht.day] at hchecked
  have hvalue := epochFromYmdHms_of_checked hchecked
  refine ⟨t.number - (Date.newYear 1970).number, Date.iterate_next hyear (by omega), ?_, ?_⟩
  · rw [hchecked, hvalue]
  · rw [hvalue, epochSeconds]
    refine congrArg some ?_
    have hnumber : t.number = days t.year t.month t.day := rfl
    have hfirst : (Date.newYear 1970).number = days 1970 1 1 := rfl
    rw [hnumber, hfirst, Nat.mul_comm 86400]
    omega

/-- The leap second of a leap day. -/
theorem epochFromYmdHms_leapDay :
    ∃ n, Date.next^[n] (Date.newYear 1970) = ⟨2000, 2, 29, by decide, by decide⟩ ∧
      checkedEpoch 2000 2 29 23 59 60 = some (epochFromYmdHms 2000 2 29 23 59 60) ∧
      epochFromYmdHms 2000 2 29 23 59 60 = some (86400 * n + (23 * 3600 + 59 * 60 + 60)) :=
  epochFromYmdHms_counts ⟨rfl, rfl, rfl⟩ (by decide) (by decide) (by decide) (by decide)

end Rsurl.Cookies
