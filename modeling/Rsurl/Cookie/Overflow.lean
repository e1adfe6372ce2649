/-
# `Rsurl.Cookie.Overflow` — the dates whose arithmetic overflows

`parse_http_date` with its arithmetic checked, layout by layout: what is read of
a text is a `Reading`, and what is counted from it overflows, or is the value
the calendar gives.  Which texts overflow is said of what they write.
-/
import Rsurl.Cookie.Epoch
import Rsurl.Text.Words

namespace Rsurl.Cookies

/-! ## Readings -/

/-- What a layout reads before anything is counted. -/
structure Reading where
  day : UInt32
  month : UInt32
  year : Int32
  /-- Hours, minutes and seconds, if they can be read. -/
  time : Option (UInt32 × UInt32 × UInt32)
deriving DecidableEq, Repr

/-- The words behind the comma. -/
def wordsBehindComma (s : Text) : List Text :=
  match s.splitOnce ',' with
  | none => []
  | some (_, rest) => rest.trim.splitWhitespace

def readImfFixdate (s : Text) : Option Reading :=
  match wordsBehindComma s with
  | day :: mon :: year :: time :: _ => do
      return { day := ← parseU32 day, month := ← parseMonth mon, year := ← parseI32 year,
               time := parseHms time }
  | _ => none

def readRfc850 (s : Text) : Option Reading :=
  match wordsBehindComma s with
  | dmy :: time :: _ =>
      match dmy.split '-' with
      | day :: mon :: y2 :: _ => do
          return { day := ← parseU32 day, month := ← parseMonth mon, year := ← parseI32 y2,
                   time := parseHms time }
      | _ => none
  | _ => none

def readAsctime (s : Text) : Option Reading :=
  match s.splitWhitespace with
  | _ :: mon :: day :: time :: year :: _ => do
      return { month := ← parseMonth mon, day := ← parseU32 day, year := ← parseI32 year,
               time := parseHms time }
  | _ => none

namespace Reading

/-- The date with this for the year, counted as the release build does. -/
def wrapping (r : Reading) (year : Int32) : Option Nat := do
  let (h, m, sec) ← r.time
  epochFromYmdHms year r.month r.day h m sec

def checked (r : Reading) (year : Int32) : Option (Option Nat) :=
  match r.time with
  | none => some none
  | some (h, m, sec) => checkedEpoch year r.month r.day h m sec

/-- The fields are those of a date and a time. -/
def Accepted (r : Reading) : Prop :=
  ∃ h m sec : UInt32, r.time = some (h, m, sec) ∧
    InRange r.month.toNat r.day.toNat h.toNat m.toNat sec.toNat

instance (m d hh mm ss : Nat) : Decidable (InRange m d hh mm ss) :=
  decidable_of_iff ((1 ≤ m ∧ m ≤ 12) ∧ (1 ≤ d ∧ d ≤ 31) ∧ hh ≤ 23 ∧ mm ≤ 59 ∧ ss ≤ 60)
    ⟨fun ⟨hm, hd, hh, hmm, hss⟩ => ⟨hm, hd, hh, hmm, hss⟩,
      fun ⟨hm, hd, hh, hmm, hss⟩ => ⟨hm, hd, hh, hmm, hss⟩⟩

/-- The date with this for the year, by the calendar. -/
def exact (r : Reading) (year : Int) : Option Nat := do
  let (h, m, sec) ← r.time
  if InRange r.month.toNat r.day.toNat h.toNat m.toNat sec.toNat then
    exactEpoch year r.month.toNat r.day.toNat h.toNat m.toNat sec.toNat
  else none

end Reading

/-- The year of two digits, as it is windowed. -/
def windowed (y2 : Int) : Int := if y2 < 50 then 2000 + y2 else 1900 + y2

def checkedWindow (y2 : Int32) : Option Int32 := if y2 < 50 then addI32 2000 y2 else addI32 1900 y2

/-- What was read, counted with its year as it stands. -/
def countChecked : Option Reading → Option (Option Nat)
  | none => some none
  | some r => r.checked r.year

def countExact (read : Option Reading) : Option Nat := read.bind fun r => r.exact r.year.toInt

def checkedImfFixdate (s : Text) : Option (Option Nat) := countChecked (readImfFixdate s)

/-- The window comes before the time of day is looked at. -/
def checkedRfc850 (s : Text) : Option (Option Nat) :=
  match readRfc850 s with
  | none => some none
  | some r => do r.checked (← checkedWindow r.year)

def checkedAsctime (s : Text) : Option (Option Nat) := countChecked (readAsctime s)

/-- `parse_http_date`, up to the first operation that overflows. -/
def checkedHttpDate (s : Text) : Option (Option Nat) := do
  match ← checkedImfFixdate s.trim with
  | some t => return some t
  | none =>
      match ← checkedRfc850 s.trim with
      | some t => return some t
      | none => checkedAsctime s.trim

def exactImfFixdate (s : Text) : Option Nat := countExact (readImfFixdate s)

def exactRfc850 (s : Text) : Option Nat := do
  let r ← readRfc850 s
  r.exact (windowed r.year.toInt)

def exactAsctime (s : Text) : Option Nat := countExact (readAsctime s)

/-- `parse_http_date` in the integers. -/
def exactHttpDate (s : Text) : Option Nat :=
  exactImfFixdate s.trim <|> exactRfc850 s.trim <|> exactAsctime s.trim

/-! ## The functions of the source -/

theorem tryImfFixdate_eq (s : Text) :
    tryImfFixdate s = (readImfFixdate s).bind fun r => r.wrapping r.year := by
  unfold tryImfFixdate readImfFixdate wordsBehindComma
  cases s.splitOnce ',' with
  | none => rfl
  | some cut =>
      simp only [Option.bind_eq_bind, Option.bind_some]
      -- fewer than four words are no date, for either
      rcases cut.2.trim.splitWhitespace with _ | ⟨day, _ | ⟨mon, _ | ⟨year, _ | ⟨time, tail⟩⟩⟩⟩
      case cons.cons.cons.cons =>
        simp only [Option.bind_assoc, Option.pure_def, Option.bind_some]
        rfl
      all_goals rfl

theorem tryRfc850_eq (s : Text) : tryRfc850 s = (readRfc850 s).bind fun r =>
    r.wrapping (if r.year < 50 then 2000 + r.year else 1900 + r.year) := by
  unfold tryRfc850 readRfc850 wordsBehindComma
  cases s.splitOnce ',' with
  | none => rfl
  | some cut =>
      simp only [Option.bind_eq_bind, Option.bind_some]
      rcases cut.2.trim.splitWhitespace with _ | ⟨dmy, _ | ⟨time, tail⟩⟩
      case cons.cons =>
        dsimp only
        rcases Text.split '-' dmy with _ | ⟨day, _ | ⟨mon, _ | ⟨y2, rest⟩⟩⟩
        case cons.cons.cons =>
          simp only [Option.bind_assoc, Option.pure_def, Option.bind_some]
          rfl
        all_goals rfl
      all_goals rfl

theorem tryAsctime_eq (s : Text) :
    tryAsctime s = (readAsctime s).bind fun r => r.wrapping r.year := by
  unfold tryAsctime readAsctime
  rcases s.splitWhitespace with _ | ⟨wd, _ | ⟨mon, _ | ⟨day, _ | ⟨time, _ | ⟨year, tail⟩⟩⟩⟩⟩
  case cons.cons.cons.cons.cons =>
    simp only [Option.bind_eq_bind, Option.bind_assoc, Option.pure_def, Option.bind_some]
    rfl
  all_goals rfl

/-! ## A reading, counted -/

namespace Reading

variable {r : Reading} {year : Int32}

/-- The year is too early for the count of an accepted date. -/
def Early (r : Reading) (year : Int) : Prop := r.Accepted ∧ TooEarly year r.month.toNat

theorem checked_of_early (h : r.Early year.toInt) : r.checked year = none := by
  obtain ⟨⟨hh, m, sec, htime, hrange⟩, hearly⟩ := h
  rw [checked, htime]
  exact (checkedEpoch_eq hrange).1 hearly

theorem checked_of_not_early (h : ¬ r.Early year.toInt) :
    r.checked year = some (r.exact year.toInt) := by
  unfold checked exact
  cases htime : r.time with
  | none => rfl
  | some time =>
      obtain ⟨hh, m, sec⟩ := time
      simp only [Option.bind_eq_bind, Option.bind_some]
      split
      · next hrange => exact (checkedEpoch_eq hrange).2 fun hearly => h ⟨⟨_, _, _, htime, hrange⟩, hearly⟩
      · next hrange => exact checkedEpoch_of_not_inRange hrange

theorem wrapping_of_checked {v : Option Nat} (h : r.checked year = some v) :
    r.wrapping year = v := by
  unfold checked at h
  unfold wrapping
  split at h
  · next htime =>
      rw [htime]
      exact Option.some.inj h
  · next htime =>
      rw [htime]
      exact epochFromYmdHms_of_checked h

/-- An accepted date has a value from 1970 on. -/
theorem exact_eq_none (y : Int) : r.exact y = none ↔ ¬ (r.Accepted ∧ 1970 ≤ y) := by
  unfold exact Accepted
  cases htime : r.time with
  | none => simp
  | some time =>
      obtain ⟨hh, m', sec⟩ := time
      simp only [Option.bind_eq_bind, Option.bind_some, exactEpoch]
      have hsame : (∃ h m s : UInt32, some (hh, m', sec) = some (h, m, s) ∧
          InRange r.month.toNat r.day.toNat h.toNat m.toNat s.toNat) ↔
          InRange r.month.toNat r.day.toNat hh.toNat m'.toNat sec.toNat := by
        constructor
        · rintro ⟨_, _, _, heq, hrange⟩
          cases heq
          exact hrange
        · exact fun hrange => ⟨_, _, _, rfl, hrange⟩
      rw [hsame]
      by_cases hrange : InRange r.month.toNat r.day.toNat hh.toNat m'.toNat sec.toNat
      · rw [if_pos hrange, and_iff_right hrange, not_le]
        split
        · next hy => exact iff_of_true rfl hy
        · next hy => exact iff_of_false (Option.some_ne_none _) hy
      · rw [if_neg hrange]
        exact iff_of_true rfl fun h => hrange h.1

end Reading

/-! ## A text -/

theorem toDigit_minus : toDigit 10 '-' = none := by decide

theorem not_minus_of_parseU32 {t : Text} {n : UInt32} (h : parseU32 t = some n) : '-' ∉ t := by
  intro hmem
  obtain ⟨v, hv, -⟩ := Option.map_eq_some_iff.mp h
  obtain ⟨digits, ht, -, hparse⟩ := parseUnsigned_eq_some hv
  have hdigits : '-' ∈ digits := by
    rcases ht with rfl | rfl
    · exact (List.mem_cons.mp hmem).resolve_left (by decide)
    · exact hmem
  have hsome := isSome_toDigit_of_parseDigits hparse _ hdigits
  rw [toDigit_minus] at hsome
  cases hsome

/-- A text that is read with hyphens is not read with blanks. -/
theorem readImfFixdate_of_rfc850 {s : Text} {r : Reading} (h : readRfc850 s = some r) :
    readImfFixdate s = none := by
  unfold readRfc850 at h
  unfold readImfFixdate
  split at h
  · next dmy time more hwords =>
      split at h
      · next day mon y2 pieces hsplit =>
          have hminus : '-' ∈ dmy := by
            by_contra hno
            rw [split_last hno] at hsplit
            cases hsplit
          rw [hwords]
          split
          · next heq =>
              obtain ⟨rfl, -⟩ := List.cons.inj heq
              cases hday : parseU32 dmy with
              | none => rfl
              | some n => exact absurd hminus (not_minus_of_parseU32 hday)
          · rfl
      · cases h
  · cases h

/-- The window leaves `i32` above. -/
theorem checkedWindow_eq {y2 : Int32} :
    (2 ^ 31 - 1900 ≤ y2.toInt → checkedWindow y2 = none) ∧
      (y2.toInt < 2 ^ 31 - 1900 → ∃ year, checkedWindow y2 = some year ∧
        (if y2 < 50 then 2000 + y2 else 1900 + y2) = year ∧ year.toInt = windowed y2.toInt) := by
  have hlow := y2.le_toInt
  have h2000 : (2000 : Int32).toInt = 2000 := rfl
  have h1900 : (1900 : Int32).toInt = 1900 := rfl
  have hlt : y2 < 50 ↔ y2.toInt < 50 := Int32.lt_iff_toInt_lt
  unfold checkedWindow windowed
  constructor
  · intro hhigh
    rw [if_neg (mt hlt.mp (by omega))]
    exact exactI32_eq_none (by omega)
  · intro hhigh
    by_cases h : y2.toInt < 50
    · obtain ⟨hadd, hval⟩ := @addI32_eq 2000 y2 (by omega) (by omega)
      rw [if_pos (hlt.mpr h), if_pos (hlt.mpr h), if_pos h]
      exact ⟨_, hadd, rfl, hval⟩
    · obtain ⟨hadd, hval⟩ := @addI32_eq 1900 y2 (by omega) (by omega)
      rw [if_neg (mt hlt.mp h), if_neg (mt hlt.mp h), if_neg h]
      exact ⟨_, hadd, rfl, hval⟩

/-- A windowed year is not too early. -/
theorem not_early_windowed (r : Reading) : ¬ r.Early (windowed r.year.toInt) := by
  rintro ⟨-, hearly⟩
  have hlow := r.year.le_toInt
  unfold TooEarly windowed at hearly
  split at hearly <;> split at hearly <;> omega

/-- The texts whose date is counted without an overflow: no accepted date in the first layout has
too early a year, no year with hyphens is past the window, and where neither layout gives a date
from 1970 on, no accepted date in the last layout has too early a year. -/
structure Fits (s : Text) : Prop where
  imfFixdate : ∀ r, readImfFixdate s = some r → ¬ r.Early r.year.toInt
  rfc850 : ∀ r, readRfc850 s = some r → r.year.toInt < 2 ^ 31 - 1900
  asctime : (∀ r, readImfFixdate s = some r → ¬ (r.Accepted ∧ 1970 ≤ r.year.toInt)) →
    (∀ r, readRfc850 s = some r → ¬ (r.Accepted ∧ 1970 ≤ windowed r.year.toInt)) →
      ∀ r, readAsctime s = some r → ¬ r.Early r.year.toInt

section

variable {s : Text}

theorem countChecked_eq {read : Option Reading}
    (h : ∀ r, read = some r → ¬ r.Early r.year.toInt) : countChecked read = some (countExact read) := by
  cases read with
  | none => rfl
  | some r => exact Reading.checked_of_not_early (h r rfl)

theorem countChecked_of_early {read : Option Reading} {r : Reading} (hread : read = some r)
    (h : r.Early r.year.toInt) : countChecked read = none := by
  rw [hread]
  exact Reading.checked_of_early h

/-- What is counted without an overflow, the release build counts the same. -/
theorem wrapping_of_countChecked {read : Option Reading} {v : Option Nat}
    (h : countChecked read = some v) : (read.bind fun r => r.wrapping r.year) = v := by
  cases read with
  | none => exact Option.some.inj h
  | some r => exact Reading.wrapping_of_checked h

theorem checkedRfc850_eq (h : ∀ r, readRfc850 s = some r → r.year.toInt < 2 ^ 31 - 1900) :
    checkedRfc850 s = some (exactRfc850 s) := by
  unfold checkedRfc850 exactRfc850
  cases hread : readRfc850 s with
  | none => rfl
  | some r =>
      obtain ⟨year, hwindow, -, hyear⟩ := checkedWindow_eq.2 (h r hread)
      have hlate := not_early_windowed r
      rw [← hyear] at hlate
      simp only [hwindow, Option.bind_eq_bind, Option.bind_some, ← hyear]
      exact Reading.checked_of_not_early hlate

theorem exactImfFixdate_eq_none : exactImfFixdate s = none ↔
    ∀ r, readImfFixdate s = some r → ¬ (r.Accepted ∧ 1970 ≤ r.year.toInt) := by
  simp only [exactImfFixdate, countExact, Option.bind_eq_none_iff, Reading.exact_eq_none]

theorem exactRfc850_eq_none : exactRfc850 s = none ↔
    ∀ r, readRfc850 s = some r → ¬ (r.Accepted ∧ 1970 ≤ windowed r.year.toInt) := by
  simp only [exactRfc850, Option.bind_eq_bind, Option.bind_eq_none_iff, Reading.exact_eq_none]

/-- The first layout that gives a date gives the result. -/
theorem checkedHttpDate_of {t : Text} {imf rfc asc : Option Nat}
    (himf : checkedImfFixdate t.trim = some imf)
    (hrfc : imf = none → checkedRfc850 t.trim = some rfc)
    (hasc : imf = none → rfc = none → checkedAsctime t.trim = some asc) :
    checkedHttpDate t = some (imf <|> rfc <|> asc) := by
  rw [checkedHttpDate, himf]
  cases imf with
  | some v => rfl
  | none =>
      simp only [Option.bind_eq_bind, Option.bind_some, hrfc rfl]
      cases rfc with
      | some v => rfl
      | none =>
          simp only [hasc rfl rfl]
          rfl

theorem fits_of_checked {t : Text} {v : Option Nat} (h : checkedHttpDate t = some v) :
    Fits t.trim := by
  have himf : ∀ r, readImfFixdate t.trim = some r → ¬ r.Early r.year.toInt := by
    intro r hread hearly
    have hnone : checkedImfFixdate t.trim = none := countChecked_of_early hread hearly
    rw [checkedHttpDate, hnone] at h
    cases h
  have hrfc : ∀ r, readRfc850 t.trim = some r → r.year.toInt < 2 ^ 31 - 1900 := by
    intro r hread
    by_contra hpast
    have hnone : checkedRfc850 t.trim = none := by
      unfold checkedRfc850
      rw [hread]
      simp only [checkedWindow_eq.1 (not_lt.mp hpast)]
      rfl
    have hfirst : checkedImfFixdate t.trim = some none := by
      rw [checkedImfFixdate, readImfFixdate_of_rfc850 hread]
      rfl
    rw [checkedHttpDate, hfirst] at h
    simp only [Option.bind_eq_bind, Option.bind_some, hnone] at h
    cases h
  refine ⟨himf, hrfc, fun hfirst hsecond r hread hearly => ?_⟩
  have hnone : checkedAsctime t.trim = none := countChecked_of_early hread hearly
  rw [checkedHttpDate, checkedImfFixdate, countChecked_eq himf, ← exactImfFixdate, exactImfFixdate_eq_none.mpr hfirst] at h
  simp only [Option.bind_eq_bind, Option.bind_some, checkedRfc850_eq hrfc,
    exactRfc850_eq_none.mpr hsecond, hnone] at h
  cases h

end

theorem tryRfc850_of_checked {s : Text} {v : Option Nat} (h : checkedRfc850 s = some v) : tryRfc850 s = v := by
  unfold checkedRfc850 at h
  rw [tryRfc850_eq]
  cases hread : readRfc850 s with
  | none =>
      rw [hread] at h
      exact Option.some.inj h
  | some r =>
      rw [hread] at h
      obtain ⟨year, hwindow, hchecked⟩ := Option.bind_eq_some_iff.mp h
      have hfits : r.year.toInt < 2 ^ 31 - 1900 := by
        by_contra hpast
        rw [checkedWindow_eq.1 (not_lt.mp hpast)] at hwindow
        cases hwindow
      obtain ⟨year', hwindow', hyear, -⟩ := checkedWindow_eq.2 hfits
      obtain rfl := Option.some.inj (hwindow.symm.trans hwindow')
      rw [Option.bind_some, hyear]
      exact Reading.wrapping_of_checked hchecked

/-- What is counted without an overflow is counted right by the release build, too. -/
theorem parseHttpDate_of_checked {s : Text} {v : Option Nat} (h : checkedHttpDate s = some v) :
    parseHttpDate s = v := by
  unfold checkedHttpDate at h
  obtain ⟨imf, himf, h⟩ := Option.bind_eq_some_iff.mp h
  rw [parseHttpDate, tryImfFixdate_eq, wrapping_of_countChecked himf]
  cases imf with
  | some t => exact Option.some.inj h
  | none =>
      obtain ⟨rfc, hrfc, h⟩ := Option.bind_eq_some_iff.mp h
      rw [tryRfc850_of_checked hrfc]
      cases rfc with
      | some t => exact Option.some.inj h
      | none => exact (tryAsctime_eq s.trim).trans (wrapping_of_countChecked h)

/-- The arithmetic of a date overflows exactly when the text does not fit; otherwise the result is
the exact value, or none. -/
theorem httpDate_exact_iff (s : Text) :
    (checkedHttpDate s = some (exactHttpDate s) ↔ Fits s.trim) ∧
      (Fits s.trim → parseHttpDate s = exactHttpDate s) := by
  have hexact : Fits s.trim → checkedHttpDate s = some (exactHttpDate s) := fun h =>
    checkedHttpDate_of (countChecked_eq h.imfFixdate) (fun _ => checkedRfc850_eq h.rfc850)
      fun hfirst hsecond => countChecked_eq (h.asctime (exactImfFixdate_eq_none.mp hfirst)
        (exactRfc850_eq_none.mp hsecond))
  exact ⟨⟨fits_of_checked, hexact⟩, fun h => parseHttpDate_of_checked (hexact h)⟩

/-- A year with hyphens that the window takes out of `i32`. -/
theorem httpDate_overflows : ¬ ∀ s : Text, checkedHttpDate s = some (exactHttpDate s) := by
  intro hclaim
  have hnone : checkedHttpDate "Sun, 01-Jan-2147483647 00:00:00 GMT".toList = none := by
    decide +kernel
  rw [hclaim] at hnone
  cases hnone

end Rsurl.Cookies
