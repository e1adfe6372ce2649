/-
# `Rsurl.Cookie.Written` — the dates that servers write

A moment of the Gregorian calendar, its seconds since 1970, and the four ways it
is written.  Two of them are read back, the one with two digits for the year up
to 2049, and the one with hyphens and a full year never.
-/
import Rsurl.Cookie.Overflow

namespace Rsurl.Cookies

open Base.Calendar

/-! ## Moments -/

/-- A date and a time from 1970 on. -/
structure Moment where
  year : Nat
  month : Nat
  day : Nat
  hour : Nat
  minute : Nat
  second : Nat
  epoch_le : 1970 ≤ year
  four_digits : year ≤ 9999
  month_range : 1 ≤ month ∧ month ≤ 12
  day_range : 1 ≤ day ∧ day ≤ monthDays year month
  hour_lt : hour < 24
  minute_lt : minute < 60
  second_lt : second < 60

/-- The ways to write one: of RFC 9110 the fixed one, the one with two digits for the year and
that of `asctime`, and Netscape's with hyphens and four. -/
inductive Layout where
  | imfFixdate
  | rfc850
  | netscape
  | asctime
deriving DecidableEq, Repr

def dayNames : List String :=
  ["Sunday", "Monday", "Tuesday", "Wednesday", "Thursday", "Friday", "Saturday"]

def monthNames : List String :=
  ["Jan", "Feb", "Mar", "Apr", "May", "Jun", "Jul", "Aug", "Sep", "Oct", "Nov", "Dec"]

namespace Moment

/-- The seconds since the epoch. -/
def seconds (t : Moment) : Nat := epochSeconds t.year t.month t.day t.hour t.minute t.second

/-- The first of the year 0 was a Saturday. -/
def dayName (t : Moment) : Text := (dayNames.getD ((days t.year t.month t.day + 6) % 7) "").toList

def shortDay (t : Moment) : Text := t.dayName.take 3

def monthName (t : Moment) : Text := (monthNames.getD (t.month - 1) "").toList

def time (t : Moment) : Text :=
  padded 2 t.hour ++ ':' :: (padded 2 t.minute ++ ':' :: padded 2 t.second)

/-- The day of `asctime`, padded with a blank. -/
def blankedDay (t : Moment) : Text := if t.day < 10 then ' ' :: padded 1 t.day else padded 2 t.day

def hyphened (t : Moment) (year : Text) : Text :=
  padded 2 t.day ++ '-' :: (t.monthName ++ '-' :: year)

def gmt : Text := "GMT".toList

def write (t : Moment) : Layout → Text
  | .imfFixdate => t.shortDay ++ ',' :: ' ' :: (padded 2 t.day ++ ' ' :: (t.monthName ++ ' ' ::
      (padded 4 t.year ++ ' ' :: (t.time ++ ' ' :: gmt))))
  | .rfc850 => t.dayName ++ ',' :: ' ' :: (t.hyphened (padded 2 (t.year % 100)) ++ ' ' ::
      (t.time ++ ' ' :: gmt))
  | .netscape => t.shortDay ++ ',' :: ' ' :: (t.hyphened (padded 4 t.year) ++ ' ' ::
      (t.time ++ ' ' :: gmt))
  | .asctime => t.shortDay ++ ' ' :: (t.monthName ++ ' ' :: (t.blankedDay ++ ' ' ::
      (t.time ++ ' ' :: padded 4 t.year)))

end Moment

/-! ## What is read of them -/

section

variable (t : Moment)

/-- A name that is written in letters. -/
def Lettered (w : Text) : Prop := w ≠ [] ∧ ∀ c ∈ w, c.isAlpha = true

instance (w : Text) : Decidable (Lettered w) :=
  @instDecidableAnd _ _ inferInstance (List.decidableBAll _ w)

theorem Lettered.visible {w : Text} (h : Lettered w) : ∀ c ∈ w, isWhitespace c = false := by
  intro c hc
  have halpha := isAlpha_iff.mp (h.2 c hc)
  by_contra hspace
  rw [Bool.not_eq_false] at hspace
  simp only [isWhitespace, Bool.or_eq_true, Bool.and_eq_true, decide_eq_true_eq,
    beq_iff_eq] at hspace
  omega

theorem Lettered.not_mem {w : Text} (h : Lettered w) {c : Char} (hc : c.isAlpha = false) : c ∉ w := by
  intro hmem
  rw [h.2 c hmem] at hc
  cases hc

theorem lettered_dayName : Lettered t.dayName ∧ Lettered t.shortDay := by
  have hday : (days t.year t.month t.day + 6) % 7 < 7 := Nat.mod_lt _ (by decide)
  unfold Moment.shortDay Moment.dayName
  generalize (days t.year t.month t.day + 6) % 7 = n at hday
  interval_cases n <;> decide

theorem lettered_monthName : Lettered t.monthName := by
  obtain ⟨hlow, hhigh⟩ := t.month_range
  unfold Moment.monthName
  generalize t.month = m at hlow hhigh
  interval_cases m <;> decide

theorem parseMonth_monthName : parseMonth t.monthName = some (UInt32.ofNat t.month) := by
  obtain ⟨hlow, hhigh⟩ := t.month_range
  unfold Moment.monthName
  generalize t.month = m at hlow hhigh
  interval_cases m <;> decide

theorem day_le : t.day ≤ 31 := by
  refine le_trans t.day_range.2 ?_
  unfold monthDays
  split
  · split <;> omega
  · omega
  · omega
  · omega
  · omega
  · omega

/-- What every layout is read as, save for the year. -/
def Moment.reading (year : Nat) : Reading where
  day := UInt32.ofNat t.day
  month := UInt32.ofNat t.month
  year := Int32.ofInt year
  time := some (UInt32.ofNat t.hour, UInt32.ofNat t.minute, UInt32.ofNat t.second)

theorem parseU32_padded {k n : Nat} (hn : n < 10 ^ (k + 1)) (hmax : n < 2 ^ 32) :
    parseU32 (padded (k + 1) n) = some (UInt32.ofNat n) := by
  rw [parseU32, parseUnsigned_padded hn (by omega)]
  rfl

theorem parseI32_padded {k n : Nat} (hn : n < 10 ^ (k + 1)) (hmax : n < 2 ^ 31) :
    parseI32 (padded (k + 1) n) = some (Int32.ofInt n) := by
  rw [parseI32, parseSigned_of_unsigned _ (not_mem_padded (by decide)),
    parseUnsigned_padded hn (by omega)]
  rfl

theorem parseHms_time : parseHms t.time =
    some (UInt32.ofNat t.hour, UInt32.ofNat t.minute, UInt32.ofNat t.second) := by
  have hcolon : ∀ {k n : Nat}, ':' ∉ padded k n := not_mem_padded (by decide)
  have hhour := t.hour_lt
  have hminute := t.minute_lt
  have hsecond := t.second_lt
  rw [parseHms, Moment.time, split_piece hcolon, split_piece hcolon, split_last hcolon]
  dsimp only
  rw [parseU32_padded (by omega) (by omega), parseU32_padded (by omega) (by omega),
    parseU32_padded (by omega) (by omega)]
  rfl

theorem visible_time : ∀ c ∈ t.time, isWhitespace c = false := by
  intro c hc
  simp only [Moment.time, List.mem_append, List.mem_cons] at hc
  rcases hc with hc | rfl | hc | rfl | hc
  · exact visible_padded c hc
  · decide
  · exact visible_padded c hc
  · decide
  · exact visible_padded c hc

theorem time_ne_nil : t.time ≠ [] := by simp [Moment.time]

theorem visible_hyphened {year : Text} (hyear : ∀ c ∈ year, isWhitespace c = false) :
    ∀ c ∈ t.hyphened year, isWhitespace c = false := by
  intro c hc
  simp only [Moment.hyphened, List.mem_append, List.mem_cons] at hc
  rcases hc with hc | rfl | hc | rfl | hc
  · exact visible_padded c hc
  · decide
  · exact (lettered_monthName t).visible c hc
  · decide
  · exact hyear c hc

theorem splitWhitespace_gmt : Text.splitWhitespace Moment.gmt = [Moment.gmt] := by decide

/-- Behind a name without a comma come the words. -/
theorem wordsBehindComma_of {name : Text} (h : ',' ∉ name) (rest : Text) :
    wordsBehindComma (name ++ ',' :: ' ' :: rest) = Text.splitWhitespace rest := by
  have hcut : Text.splitOnce ',' (name ++ ',' :: ' ' :: rest) = some (name, ' ' :: rest) :=
    Text.splitOnce_eq_some.mpr ⟨rfl, h⟩
  rw [wordsBehindComma, hcut]
  dsimp only
  rw [splitWhitespace_trim, splitWhitespace_blank (by decide)]

theorem wordsBehindComma_of_no_comma {s : Text} (h : ',' ∉ s) : wordsBehindComma s = [] := by
  rw [wordsBehindComma, Text.splitOnce_eq_none.mpr h]

theorem readImfFixdate_write : readImfFixdate (t.write .imfFixdate) = some (t.reading t.year) := by
  have hday := day_le t
  have hyear := t.four_digits
  have hname := lettered_monthName t
  rw [readImfFixdate, Moment.write,
    wordsBehindComma_of ((lettered_dayName t).2.not_mem (by decide)),
    splitWhitespace_word visible_padded (padded_ne_nil _ _),
    splitWhitespace_word hname.visible hname.1,
    splitWhitespace_word visible_padded (padded_ne_nil _ _),
    splitWhitespace_word (visible_time t) (time_ne_nil t), splitWhitespace_gmt]
  dsimp only
  rw [parseU32_padded (by omega) (by omega), parseMonth_monthName,
    parseI32_padded (by omega) (by omega), parseHms_time]
  rfl

/-- A date with hyphens, with whatever digits for the year. -/
theorem readRfc850_hyphened {name : Text} (hname : Lettered name) {k year : Nat}
    (hk : year < 10 ^ (k + 1)) (hyear : year < 2 ^ 31) :
    readRfc850 (name ++ ',' :: ' ' :: (t.hyphened (padded (k + 1) year) ++ ' ' ::
      (t.time ++ ' ' :: Moment.gmt))) = some (t.reading year) := by
  have hday := day_le t
  have hdash : '-' ∉ t.monthName := (lettered_monthName t).not_mem (by decide)
  have hne : t.hyphened (padded (k + 1) year) ≠ [] := by simp [Moment.hyphened]
  rw [readRfc850, wordsBehindComma_of (hname.not_mem (by decide)),
    splitWhitespace_word (visible_hyphened t visible_padded) hne,
    splitWhitespace_word (visible_time t) (time_ne_nil t), splitWhitespace_gmt]
  dsimp only
  rw [Moment.hyphened, split_piece (not_mem_padded (by decide)), split_piece hdash,
    split_last (not_mem_padded (by decide))]
  dsimp only
  rw [parseU32_padded (by omega) (by omega), parseMonth_monthName, parseI32_padded hk hyear,
    parseHms_time]
  rfl

theorem readAsctime_write : readAsctime (t.write .asctime) = some (t.reading t.year) := by
  have hday := day_le t
  have hyear := t.four_digits
  have hname := lettered_monthName t
  have hshort := (lettered_dayName t).2
  have hblanked : ∀ rest, Text.splitWhitespace (t.blankedDay ++ ' ' :: rest) =
      (if t.day < 10 then padded 1 t.day else padded 2 t.day) :: Text.splitWhitespace rest := by
    intro rest
    unfold Moment.blankedDay
    split
    · rw [List.cons_append, splitWhitespace_blank (by decide),
        splitWhitespace_word visible_padded (padded_ne_nil _ _)]
    · rw [splitWhitespace_word visible_padded (padded_ne_nil _ _)]
  have hparse : parseU32 (if t.day < 10 then padded 1 t.day else padded 2 t.day) =
      some (UInt32.ofNat t.day) := by
    split
    · exact parseU32_padded (by omega) (by omega)
    · exact parseU32_padded (by omega) (by omega)
  rw [readAsctime, Moment.write, splitWhitespace_word hshort.visible hshort.1,
    splitWhitespace_word hname.visible hname.1, hblanked,
    splitWhitespace_word (visible_time t) (time_ne_nil t),
    splitWhitespace_last visible_padded (padded_ne_nil _ _)]
  dsimp only
  rw [parseMonth_monthName, hparse, parseI32_padded (by omega) (by omega), parseHms_time]
  rfl

theorem inRange_reading : InRange t.month t.day t.hour t.minute t.second where
  month := t.month_range
  day := ⟨t.day_range.1, day_le t⟩
  hour := Nat.le_of_lt_succ t.hour_lt
  minute := Nat.le_of_lt_succ t.minute_lt
  second := (Nat.le_of_lt_succ t.second_lt).trans (by decide)

/-- A date with this for the year is counted by the calendar. -/
theorem wrapping_reading (y : Nat) {year : Int32} (hyear : 0 ≤ year.toInt) :
    (t.reading y).wrapping year =
      exactEpoch year.toInt t.month t.day t.hour t.minute t.second := by
  have hday := day_le t
  have hmonth := t.month_range
  have hhour := t.hour_lt
  have hminute := t.minute_lt
  have hsecond := t.second_lt
  have hval : ∀ {n : Nat}, n < 2 ^ 32 → (UInt32.ofNat n).toNat = n :=
    fun h => UInt32.toNat_ofNat_of_lt' h
  have hearly : ¬ (t.reading y).Early year.toInt := by
    rintro ⟨-, hearly⟩
    unfold TooEarly at hearly
    split at hearly <;> omega
  rw [Reading.wrapping_of_checked (Reading.checked_of_not_early hearly), Reading.exact,
    Moment.reading]
  simp only [Option.bind_eq_bind, Option.bind_some]
  rw [hval (by omega), hval (by omega), hval (by omega), hval (by omega), hval (by omega),
    if_pos (inRange_reading t)]

theorem toInt_ofNat {n : Nat} (h : n < 2 ^ 31) : (Int32.ofInt n).toInt = n :=
  Int32.toInt_ofInt_of_le (by omega) (by omega)

theorem exactEpoch_year : exactEpoch t.year t.month t.day t.hour t.minute t.second =
    some t.seconds := by
  have hepoch := t.epoch_le
  rw [exactEpoch, if_neg (by omega)]
  rfl

/-- A date begins with a name and ends with something visible. -/
theorem trim_write (l : Layout) : (t.write l).trim = t.write l := by
  have hfront : ∀ {name more : Text}, Lettered name →
      ∀ c ∈ (name ++ more).head?, isWhitespace c = false := by
    intro name more h c hc
    obtain ⟨a, name, rfl⟩ := List.exists_cons_of_ne_nil h.1
    rw [List.cons_append, List.head?_cons, Option.mem_some_iff] at hc
    exact h.visible c (hc ▸ List.mem_cons_self)
  have hback : ∀ {front : Text}, ∀ c ∈ (front ++ ' ' :: Moment.gmt).getLast?,
      isWhitespace c = false := by
    intro front c hc
    have hlast : (front ++ ' ' :: Moment.gmt).getLast? = some 'T' := by
      rw [List.getLast?_append]
      rfl
    rw [hlast] at hc
    obtain rfl := Option.some.inj hc
    decide
  have hname := lettered_dayName t
  cases l with
  | imfFixdate =>
      refine trim_of_ends (hfront hname.2) fun c hc => ?_
      have hsplit : t.write .imfFixdate = (t.shortDay ++ ',' :: ' ' :: (padded 2 t.day ++ ' ' ::
          (t.monthName ++ ' ' :: (padded 4 t.year ++ ' ' :: t.time)))) ++ ' ' :: Moment.gmt := by
        simp [Moment.write]
      exact hback c (hsplit ▸ hc)
  | rfc850 =>
      refine trim_of_ends (hfront hname.1) fun c hc => ?_
      have hsplit : t.write .rfc850 = (t.dayName ++ ',' :: ' ' ::
          (t.hyphened (padded 2 (t.year % 100)) ++ ' ' :: t.time)) ++ ' ' :: Moment.gmt := by
        simp [Moment.write]
      exact hback c (hsplit ▸ hc)
  | netscape =>
      refine trim_of_ends (hfront hname.2) fun c hc => ?_
      have hsplit : t.write .netscape = (t.shortDay ++ ',' :: ' ' ::
          (t.hyphened (padded 4 t.year) ++ ' ' :: t.time)) ++ ' ' :: Moment.gmt := by
        simp [Moment.write]
      exact hback c (hsplit ▸ hc)
  | asctime =>
      refine trim_of_ends (hfront hname.2) fun c hc => ?_
      have hsplit : t.write .asctime = (t.shortDay ++ ' ' :: (t.monthName ++ ' ' ::
          (t.blankedDay ++ ' ' :: (t.time ++ ' ' :: padded 3 (t.year / 10))))) ++
            [Nat.digitChar (t.year % 10)] := by
        simp [Moment.write, padded]
      rw [hsplit, List.getLast?_concat] at hc
      obtain rfl := Option.some.inj hc
      exact visible_of_isDigit (by
        rw [Nat.isDigit_digitChar]
        exact decide_eq_true (Nat.mod_lt _ (by decide)))

theorem tryImfFixdate_of_hyphened {s : Text} {r : Reading} (h : readRfc850 s = some r) :
    tryImfFixdate s = none := by
  rw [tryImfFixdate_eq, readImfFixdate_of_rfc850 h]
  rfl

/-- What comes of a date with hyphens is what comes of its year in the window. -/
theorem parseHttpDate_hyphened {l : Layout} {y : Nat} (hy : y < 10000)
    (hread : readRfc850 (t.write l) = some (t.reading y))
    (hasctime : readAsctime (t.write l) = none) :
    parseHttpDate (t.write l) =
      exactEpoch (windowed y) t.month t.day t.hour t.minute t.second := by
  have hval : (t.reading y).year.toInt = y := toInt_ofNat (by omega)
  obtain ⟨year, -, hwindow, hyear⟩ := checkedWindow_eq.2 (show (t.reading y).year.toInt < _ by omega)
  rw [hval] at hyear
  have hpos : 0 ≤ year.toInt := by
    rw [hyear]
    unfold windowed
    split <;> omega
  rw [parseHttpDate, trim_write, tryImfFixdate_of_hyphened hread, tryRfc850_eq, hread,
    Option.bind_some, hwindow, wrapping_reading t y hpos, hyear, tryAsctime_eq, hasctime]
  cases exactEpoch (windowed y) t.month t.day t.hour t.minute t.second with
  | none => rfl
  | some v => rfl

/-- Behind the comma there are too few words. -/
theorem readAsctime_hyphened {name : Text} (hname : Lettered name) (k year : Nat) :
    readAsctime (name ++ ',' :: ' ' :: (t.hyphened (padded (k + 1) year) ++ ' ' ::
      (t.time ++ ' ' :: Moment.gmt))) = none := by
  have hne : t.hyphened (padded (k + 1) year) ≠ [] := by simp [Moment.hyphened]
  have hcomma : ∀ c ∈ name ++ [','], isWhitespace c = false := by
    intro c hc
    rcases List.mem_append.mp hc with hc | hc
    · exact hname.visible c hc
    · rw [List.mem_singleton.mp hc]
      decide
  have hsplit : name ++ ',' :: ' ' :: (t.hyphened (padded (k + 1) year) ++ ' ' ::
      (t.time ++ ' ' :: Moment.gmt)) = (name ++ [',']) ++ ' ' ::
        (t.hyphened (padded (k + 1) year) ++ ' ' :: (t.time ++ ' ' :: Moment.gmt)) := by simp
  rw [readAsctime, hsplit, splitWhitespace_word hcomma (by simp),
    splitWhitespace_word (visible_hyphened t visible_padded) hne,
    splitWhitespace_word (visible_time t) (time_ne_nil t), splitWhitespace_gmt]

theorem parseHttpDate_imfFixdate : parseHttpDate (t.write .imfFixdate) = some t.seconds := by
  have hfits := t.four_digits
  have hval : (t.reading t.year).year.toInt = t.year := toInt_ofNat (by omega)
  rw [parseHttpDate, trim_write, tryImfFixdate_eq, readImfFixdate_write, Option.bind_some,
    wrapping_reading t t.year (by omega), hval, exactEpoch_year]
  rfl

theorem parseHttpDate_rfc850 : parseHttpDate (t.write .rfc850) =
    exactEpoch (windowed (t.year % 100 : Nat)) t.month t.day t.hour t.minute t.second :=
  parseHttpDate_hyphened t (by omega)
    (readRfc850_hyphened t (lettered_dayName t).1 (by omega) (by omega))
    (readAsctime_hyphened t (lettered_dayName t).1 1 (t.year % 100))

theorem parseHttpDate_netscape : parseHttpDate (t.write .netscape) =
    exactEpoch (windowed t.year) t.month t.day t.hour t.minute t.second :=
  have hfits := t.four_digits
  parseHttpDate_hyphened t (by omega)
    (readRfc850_hyphened t (lettered_dayName t).2 (by omega) (by omega))
    (readAsctime_hyphened t (lettered_dayName t).2 3 t.year)

theorem not_comma_write_asctime : ',' ∉ t.write .asctime := by
  have hname := lettered_dayName t
  have hmonth : ',' ∉ t.monthName := (lettered_monthName t).not_mem (by decide)
  have hshort : ',' ∉ t.shortDay := hname.2.not_mem (by decide)
  have hdigits : ∀ k n, ',' ∉ padded k n := fun _ _ => not_mem_padded (by decide)
  have hday : ',' ∉ t.blankedDay := by
    unfold Moment.blankedDay
    split
    · simp [hdigits]
    · exact hdigits _ _
  simp [Moment.write, Moment.time, hmonth, hshort, hdigits, hday]

theorem parseHttpDate_asctime : parseHttpDate (t.write .asctime) = some t.seconds := by
  have hfits := t.four_digits
  have hval : (t.reading t.year).year.toInt = t.year := toInt_ofNat (by omega)
  have hwords := wordsBehindComma_of_no_comma (not_comma_write_asctime t)
  have himf : readImfFixdate (t.write .asctime) = none := by rw [readImfFixdate, hwords]
  have hrfc : readRfc850 (t.write .asctime) = none := by rw [readRfc850, hwords]
  rw [parseHttpDate, trim_write, tryImfFixdate_eq, himf, tryRfc850_eq, hrfc, tryAsctime_eq,
    readAsctime_write, Option.bind_some, wrapping_reading t t.year (by omega), hval,
    exactEpoch_year]
  rfl

/-- Two digits give the year as long as it is before 2050. -/
theorem parseHttpDate_rfc850_iff (h : t.year ≤ 2069) :
    parseHttpDate (t.write .rfc850) = some t.seconds ↔ t.year < 2050 := by
  have hepoch := t.epoch_le
  rw [parseHttpDate_rfc850, windowed]
  constructor
  · intro hsome
    by_contra hlate
    rw [if_neg (by omega), exactEpoch, if_pos (by omega)] at hsome
    cases hsome
  · intro hearly
    have hyear : (if ((t.year % 100 : Nat) : Int) < 50 then 2000 + ((t.year % 100 : Nat) : Int)
        else 1900 + ((t.year % 100 : Nat) : Int)) = t.year := by split <;> omega
    rw [hyear, exactEpoch_year]

/-- A full year with hyphens is taken 1900 years too late. -/
theorem parseHttpDate_netscape_ne : parseHttpDate (t.write .netscape) ≠ some t.seconds := by
  have hepoch := t.epoch_le
  rw [parseHttpDate_netscape, windowed, if_neg (by omega), exactEpoch, if_neg (by omega)]
  intro hsame
  have hseconds := Option.some.inj hsame
  have hlater := days_lt_of_year_lt (y := t.year) (z := 1900 + t.year) t.day t.month_range
    (by omega)
  have hepochDays : days 1970 1 1 ≤ days t.year t.month t.day := by
    rw [days_1970, ← daysBefore_1970]
    exact (daysBefore_mono hepoch).trans (by unfold days; omega)
  have hyear : (1900 + (t.year : Int)).toNat = 1900 + t.year := by omega
  rw [hyear, Moment.seconds, epochSeconds, epochSeconds] at hseconds
  omega

end

/-- Which of the dates that servers write are read back to the second: those of the fixed layout
and of `asctime`, with two digits for the year those before 2050, with hyphens and a full year
none. -/
theorem parseHttpDate_write_iff (t : Moment) (l : Layout) (h : l = .rfc850 → t.year ≤ 2069) :
    parseHttpDate (t.write l) = some t.seconds ↔
      l = .imfFixdate ∨ l = .asctime ∨ l = .rfc850 ∧ t.year < 2050 := by
  cases l with
  | imfFixdate => exact iff_of_true (parseHttpDate_imfFixdate t) (.inl rfl)
  | rfc850 =>
      rw [parseHttpDate_rfc850_iff t (h rfl)]
      simp
  | netscape =>
      refine iff_of_false (parseHttpDate_netscape_ne t) ?_
      simp
  | asctime => exact iff_of_true (parseHttpDate_asctime t) (.inr (.inl rfl))

/-- Dates of the fixed layout and of `asctime` are read back to the second, and dates with two
digits for the year where the window is the one of the century: 50 to 99 are 1950 to 1999. -/
theorem parseHttpDate_written (t : Moment) (l : Layout) (hl : l ≠ .netscape)
    (h : l = .rfc850 → t.year ≤ 2069) :
    ((l = .rfc850 → t.year < 2050) → parseHttpDate (t.write l) = some t.seconds) ∧
      (l = .rfc850 → 2050 ≤ t.year → parseHttpDate (t.write l) = none) := by
  cases l with
  | imfFixdate => exact ⟨fun _ => parseHttpDate_imfFixdate t, fun h => Layout.noConfusion h⟩
  | rfc850 =>
      refine ⟨fun hyear => (parseHttpDate_rfc850_iff t (h rfl)).mpr (hyear rfl), fun _ hyear => ?_⟩
      have hlast := h rfl
      rw [parseHttpDate_rfc850, windowed, if_neg (by omega), exactEpoch, if_pos (by omega)]
  | netscape => exact absurd rfl hl
  | asctime => exact ⟨fun _ => parseHttpDate_asctime t, fun h => Layout.noConfusion h⟩

/-- Four minutes past noon on a day of August. -/
def august (year : Nat) (h : 1970 ≤ year ∧ year ≤ 9999) : Moment where
  year := year
  month := 8
  day := 31
  hour := 12
  minute := 4
  second := 59
  epoch_le := h.1
  four_digits := h.2
  month_range := by decide
  day_range := ⟨by decide, Nat.le_refl 31⟩
  hour_lt := by decide
  minute_lt := by decide
  second_lt := by decide

theorem parseHttpDate_written_august :
    parseHttpDate ((august 2049 (by decide)).write .rfc850) =
      some (august 2049 (by decide)).seconds :=
  (parseHttpDate_written (august 2049 (by decide)) .rfc850 (by decide) fun _ => by decide).1
    fun _ => by decide

/-- The same day of 2055 is read as one of 1955. -/
theorem parseHttpDate_past_window : ¬ ∀ (t : Moment) (l : Layout),
    (l = .rfc850 → t.year ≤ 2069) → parseHttpDate (t.write l) = some t.seconds := by
  intro hclaim
  have hread := hclaim (august 2055 (by decide)) .rfc850 fun _ => by decide
  exact absurd ((parseHttpDate_rfc850_iff _ (by decide)).mp hread) (by decide)

end Rsurl.Cookies
