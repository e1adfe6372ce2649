/-
# `Rsurl.Cookie.Date` — the dates of `Expires`

`parse_http_date` of `src/cookie.rs`: the three flavours of an HTTP date, read
in turn, and the day count behind them.  The arithmetic is the release build's:
`i32` and `u32` wrap.
-/
import Rsurl.Text.Fields

namespace Rsurl.Cookies

/-- The arms of `parse_month`. -/
def months : List (Text × UInt32) :=
  [("jan".toList, 1), ("feb".toList, 2), ("mar".toList, 3), ("apr".toList, 4),
   ("may".toList, 5), ("jun".toList, 6), ("jul".toList, 7), ("aug".toList, 8),
   ("sep".toList, 9), ("oct".toList, 10), ("nov".toList, 11), ("dec".toList, 12)]

def parseMonth (s : Text) : Option UInt32 := do
  let abbreviation ← s.takeBytes 3
  months.lookup abbreviation.toAsciiLowercase

def parseHms (s : Text) : Option (UInt32 × UInt32 × UInt32) :=
  match s.split ':' with
  | h :: m :: sec :: _ => do return (← parseU32 h, ← parseU32 m, ← parseU32 sec)
  | _ => none

/-- `epoch_from_ymd_hms`: the seconds since 1970 of a UTC date. -/
def epochFromYmdHms (y : Int32) (m d hh mm ss : UInt32) : Option Nat :=
  if ¬ (1 ≤ m ∧ m ≤ 12) ∨ ¬ (1 ≤ d ∧ d ≤ 31) ∨ hh > 23 ∨ mm > 59 ∨ ss > 60 then none
  else
    let year := if m ≤ 2 then y - 1 else y
    let era := (if year ≥ 0 then year else year - 399) / 400
    let yoe := (year - era * 400).toUInt32
    let mp := if m > 2 then m - 3 else m + 9
    let doy := (153 * mp + 2) / 5 + d - 1
    let doe := yoe * 365 + yoe / 4 - yoe / 100 + doy
    -- 719468 days from 0000-03-01 to 1970-01-01
    let days := era.toInt * 146097 + (doe.toNat : Int) - 719468
    if days < 0 then none
    else some (days.toNat * 86400 + hh.toNat * 3600 + mm.toNat * 60 + ss.toNat)

/-- "Sun, 06 Nov 1994 08:49:37 GMT" -/
def tryImfFixdate (s : Text) : Option Nat := do
  let (_, rest) ← s.splitOnce ','
  match rest.trim.splitWhitespace with
  | day :: mon :: year :: time :: _ =>
      let day ← parseU32 day
      let mon ← parseMonth mon
      let year ← parseI32 year
      let (h, m, sec) ← parseHms time
      epochFromYmdHms year mon day h m sec
  | _ => none

/-- "Sunday, 06-Nov-94 08:49:37 GMT" -/
def tryRfc850 (s : Text) : Option Nat := do
  let (_, rest) ← s.splitOnce ','
  match rest.trim.splitWhitespace with
  | dmy :: time :: _ =>
      match dmy.split '-' with
      | day :: mon :: y2 :: _ =>
          let day ← parseU32 day
          let mon ← parseMonth mon
          let y2 ← parseI32 y2
          let year := if y2 < 50 then 2000 + y2 else 1900 + y2
          let (h, m, sec) ← parseHms time
          epochFromYmdHms year mon day h m sec
      | _ => none
  | _ => none

/-- "Sun Nov  6 08:49:37 1994" -/
def tryAsctime (s : Text) : Option Nat :=
  match s.splitWhitespace with
  | _wd :: mon :: day :: time :: year :: _ => do
      let mon ← parseMonth mon
      let day ← parseU32 day
      let year ← parseI32 year
      let (h, m, sec) ← parseHms time
      epochFromYmdHms year mon day h m sec
  | _ => none

def parseHttpDate (s : Text) : Option Nat :=
  tryImfFixdate s.trim <|> tryRfc850 s.trim <|> tryAsctime s.trim

example : parseHttpDate "Sun, 06 Nov 1994 08:49:37 GMT".toList = some 784111777 := by
  decide +kernel

end Rsurl.Cookies
