import Mongo.Civil
import Mongo.Base.ParseNumber

/-! Dates as text in ISO 8601 (`util/time_support.cpp`). `DateStringBuffer::iso8601` writes a
`Date_t` as `%Y-%m-%dT%H:%M:%S` of its broken-down time, then the milliseconds, then `Z` for UTC
or the offset `+hh:mm` for local time. `dateFromISOString` cuts a text into tokens with
`getNextToken`, checks each field, and turns the broken-down time back into seconds with
`timegm`. `gmtime_r` and `timegm` are the proleptic Gregorian calendar of `Civil`; the local
time zone is a fixed offset of `z` minutes east of UTC, which `localtime_r` adds to the time and
`%z` prints. Texts are lists of characters, and `size_t` indices are numbers below `2 ^ 64`. -/

namespace Mongo.TimeSupport

open Civil NumberParser

/-- `Date_t`: milliseconds since the epoch. -/
structure DateT where
  millis : Int
  deriving DecidableEq, Repr

namespace DateT

/-- `Date_t::isFormattable()` with a 64-bit `time_t`: from the epoch up to
3000-12-31T23:59:59Z. -/
def isFormattable (d : DateT) : Bool := 0 ≤ d.millis && d.millis < 32535215999000

/-- `Date_t::toTimeT()`: whole seconds, rounded toward zero. -/
def toTimeT (d : DateT) : Int := d.millis.tdiv 1000

end DateT

/-- `struct tm`, with `tm_gmtoff`, the offset east of UTC in seconds that `%z` prints. -/
structure Tm where
  tmSec : Int
  tmMin : Int
  tmHour : Int
  tmMday : Int
  tmMon : Int
  tmYear : Int
  tmGmtoff : Int
  deriving DecidableEq, Repr

/-- `gmtime_r(&t, &tm)`. -/
def gmtime (t : Int) : Tm :=
  let date := civilFromDays (t / 86400)
  let secs := t % 86400
  { tmSec := secs % 60, tmMin := secs / 60 % 60, tmHour := secs / 3600, tmMday := date.day,
    tmMon := date.month - 1, tmYear := date.year - 1900, tmGmtoff := 0 }

/-- `localtime_r(&t, &tm)` in a zone `z` minutes east of UTC. -/
def localtime (z t : Int) : Tm := { gmtime (t + 60 * z) with tmGmtoff := 60 * z }

/-- `time_t_to_Struct(t, &buf, local)`. -/
def timeTToStruct (z t : Int) (isLocal : Bool) : Tm := if isLocal then localtime z t else gmtime t

/-- `timegm(&tm)`: a month out of range moves the year, and the other fields add up linearly. -/
def timegm (tm : Tm) : Int :=
  daysFromCivil ⟨tm.tmYear + 1900 + tm.tmMon / 12, tm.tmMon % 12 + 1, tm.tmMday⟩ * 86400 +
    tm.tmHour * 3600 + tm.tmMin * 60 + tm.tmSec

/-! ## Writing a date -/

/-- A number as `strftime` and `fmt` write it in a field of `width` characters: zeros in front,
and a minus sign counted in the field. -/
def zeroPadded (width : Nat) (n : Int) : List Char :=
  if n < 0 then '-' :: Decimal.padded (width - 1) n.natAbs else Decimal.padded width n.toNat

/-- `%z`: the offset east of UTC as `+hhmm` or `-hhmm`. -/
def strftimeZone (gmtoff : Int) : List Char :=
  let diff := gmtoff.natAbs / 60
  (if gmtoff < 0 then '-' else '+') :: Decimal.padded 4 (diff / 60 * 100 + diff % 60)

/-- One conversion of `strftime`; one the code does not use is copied as it stands. -/
def strftimeConversion (t : Tm) : Char → List Char
  | 'Y' => zeroPadded 1 (t.tmYear + 1900)
  | 'm' => zeroPadded 2 (t.tmMon + 1)
  | 'd' => zeroPadded 2 t.tmMday
  | 'H' => zeroPadded 2 t.tmHour
  | 'M' => zeroPadded 2 t.tmMin
  | 'S' => zeroPadded 2 t.tmSec
  | 'z' => strftimeZone t.tmGmtoff
  | c => ['%', c]

/-- `strftime(buf, size, format, &t)` into a buffer large enough. -/
def strftime : List Char → Tm → List Char
  | '%' :: c :: format, t => strftimeConversion t c ++ strftime format t
  | c :: format, t => c :: strftime format t
  | [], _ => []

/-- `std::rotate(first, middle, last)` on positions of a buffer: `[middle, last)` moves in front
of `[first, middle)`. -/
def rotate (first middle last : Nat) (buf : List Char) : List Char :=
  buf.take first ++ (buf.drop middle).take (last - middle) ++
    (buf.drop first).take (middle - first) ++ buf.drop last

/-- `DateStringBuffer::iso8601(date, local)`; `none` is a failed `invariant`. -/
def iso8601 (z : Int) (date : DateT) (isLocal : Bool) : Option (List Char) :=
  if !date.isFormattable then none
  else
    let t := timeTToStruct z date.toTimeT isLocal
    let dateTime := strftime "%Y-%m-%dT%H:%M:%S".toList t
    let millis := '.' :: zeroPadded 3 (date.millis.tmod 1000)
    -- `%z:` writes `+hhmm:`, which the rotation turns into `+hh:mm`
    let zone := if isLocal then (rotate 3 5 6 (strftime "%z:".toList t)).take 6 else ['Z']
    some (dateTime ++ millis ++ zone)

/-- `dateToISOStringUTC(date)`. -/
def dateToISOStringUTC (date : DateT) : Option (List Char) := iso8601 0 date false

/-- `dateToISOStringLocal(date)` in a zone `z` minutes east of UTC. -/
def dateToISOStringLocal (z : Int) (date : DateT) : Option (List Char) := iso8601 z date true

/-! ## Reading a date -/

/-- `std::string::npos`. -/
def npos : Nat := 2 ^ 64 - 1

/-- `i + 1` on `size_t`, where `npos + 1` is `0`. -/
def sizeSucc (i : Nat) : Nat := (i + 1) % 2 ^ 64

/-- `StringData::substr(pos, n)`. -/
def substr (s : List Char) (pos n : Nat) : List Char := (s.drop pos).take n

/-- `getNextToken(currentString, terminalChars, startIndex, &endIndex)`: the token from
`startIndex` up to the first terminal character, and the index of that character, `npos` when
the token runs to the end. -/
def getNextToken (currentString terminalChars : List Char) (startIndex : Nat) :
    List Char × Nat :=
  if startIndex = npos then ([], npos)
  else
    let token := (currentString.drop startIndex).takeWhile fun c => !terminalChars.contains c
    let index := startIndex + token.length
    (token, if index < currentString.length then index else npos)

/-- `isOnlyDigits(toCheck)`. -/
def isOnlyDigits (toCheck : List Char) : Bool := toCheck.all fun c => "0123456789".toList.contains c

/-- How a parse fails: a `Status` with its reason, or a failed `fassert`, which ends the
process. -/
inductive ParseFailure
  | status (reason : String)
  | fassert (msgid : Nat)
  deriving DecidableEq, Repr

/-- `NumberParser().base(10)(s, &result)` into an `int`. -/
def parseInt (s : List Char) : Except ParseFailure Int :=
  (parseInteger { base := 10 } .int s).mapError fun e => .status e.reason

/-- `parseTimeZoneFromToken(tzStr, &tzAdjSecs)`: the seconds to add to the time read to get
UTC. -/
def parseTimeZoneFromToken (tzStr : List Char) : Except ParseFailure Int :=
  match tzStr with
  | [] => .error (.status "Missing required time zone specifier for date")
  | c :: _ =>
    if c = 'Z' then
      if tzStr.length ≠ 1 then
        .error (.status ("Found trailing characters in time zone specifier:  " ++
          String.ofList tzStr))
      else .ok 0
    else if c = '+' ∨ c = '-' then do
      let validLegacyFormat := decide (tzStr.length = 5) && isOnlyDigits (substr tzStr 1 4)
      let validISO8601Format := decide (tzStr.length = 6) && isOnlyDigits (substr tzStr 1 2) &&
        decide (tzStr.getD 3 ' ' = ':') && isOnlyDigits (substr tzStr 4 2)
      if !validLegacyFormat && !validISO8601Format then
        throw (.status ("Time zone adjustment string should be four digits:  " ++
          String.ofList tzStr))
      -- the sign stays with the hours, for `NumberParser` to read
      let tzAdjHours ← parseInt (substr tzStr 0 3)
      if tzAdjHours < -23 ∨ tzAdjHours > 23 then
        throw (.status ("Time zone hours adjustment out of range:  " ++ toString tzAdjHours))
      let minStart := if validISO8601Format then 4 else 3
      let tzAdjMinutes ← parseInt (substr tzStr minStart 2)
      if tzAdjMinutes < 0 ∨ tzAdjMinutes > 59 then
        throw (.status ("Time zone minutes adjustment out of range:  " ++ toString tzAdjMinutes))
      let tzAdjSecs :=
        (-1) * ((if tzAdjHours < 0 then -1 else 1) * (tzAdjMinutes * 60) + tzAdjHours * 60 * 60)
      if ¬ (tzAdjSecs > -86400 ∧ tzAdjSecs < 86400) then throw (.fassert 17318)
      return tzAdjSecs
    else
      .error (.status ("Invalid time zone string:  \"" ++ String.ofList tzStr ++
        "\".  Found invalid character at the beginning of time " ++ "zone specifier: " ++
        String.singleton c))

/-- `parseMillisFromToken(millisStr, &resultMillis)`: one digit is hundreds of milliseconds,
two are tens. -/
def parseMillisFromToken (millisStr : List Char) : Except ParseFailure Int := do
  if millisStr.isEmpty then return 0
  if millisStr.length > 3 ∨ !isOnlyDigits millisStr then
    throw (.status ("Millisecond string should be at most three digits:  " ++
      String.ofList millisStr))
  let resultMillis ← parseInt millisStr
  let millisMagnitude : Int :=
    if millisStr.length = 2 then 10 else if millisStr.length = 1 then 100 else 1
  let resultMillis := resultMillis * millisMagnitude
  if resultMillis < 0 ∨ resultMillis > 1000 then
    throw (.status ("Millisecond out of range:  " ++ toString resultMillis))
  return resultMillis

/-- One field of `parseTmFromTokens`: `length` digits, parsed, in `[lo, hi]`. -/
def parseTmField (name lengthName : String) (length : Nat) (lo hi : Int) (s : List Char) :
    Except ParseFailure Int := do
  if s.length ≠ length ∨ !isOnlyDigits s then
    throw (.status (name ++ " string should be " ++ lengthName ++ " digits:  " ++
      String.ofList s))
  let value ← parseInt s
  if value < lo ∨ value > hi then
    throw (.status (name ++ " out of range:  " ++ toString value))
  return value

/-- `parseTmFromTokens`: the year, month, day, hour and minute, and the second when there is
one. -/
def parseTmFromTokens (yearStr monthStr dayStr hourStr minStr secStr : List Char) :
    Except ParseFailure Tm := do
  let year ← parseTmField "Year" "four" 4 1970 9999 yearStr
  let mon ← parseTmField "Month" "two" 2 1 12 monthStr
  let mday ← parseTmField "Day" "two" 2 1 31 dayStr
  let hour ← parseTmField "Hour" "two" 2 0 23 hourStr
  let min ← parseTmField "Minute" "two" 2 0 59 minStr
  -- Parse second if it exists
  let sec ← if secStr.isEmpty then pure 0 else parseTmField "Second" "two" 2 0 59 secStr
  return ⟨sec, min, hour, mday, mon - 1, year - 1900, 0⟩

/-- `parseTm(dateString, &resultTm, &resultMillis, &tzAdjSecs)`. -/
def parseTm (dateString : List Char) : Except ParseFailure (Tm × Int × Int) := do
  let (yearStr, yearEnd) := getNextToken dateString "-".toList 0
  let (monthStr, monthEnd) := getNextToken dateString "-".toList (sizeSucc yearEnd)
  let (dayStr, dayEnd) := getNextToken dateString "T".toList (sizeSucc monthEnd)
  let (hourStr, hourEnd) := getNextToken dateString ":".toList (sizeSucc dayEnd)
  let (minStr, minEnd) := getNextToken dateString ":+-Z".toList (sizeSucc hourEnd)
  -- Only look for seconds if the character we matched for the end of the minutes token is a
  -- colon
  let (secStr, secEnd) ← if minEnd ≠ npos ∧ dateString.getD minEnd ' ' = ':' then do
      if minEnd = dateString.length - 1 then
        throw (.status ("Invalid date:  " ++ String.ofList dateString ++ ".  Ends with \"" ++
          String.singleton (dateString.getD minEnd ' ') ++ "\" character"))
      let (secStr, secEnd) := getNextToken dateString ".+-Z".toList (sizeSucc minEnd)
      if secStr.isEmpty then
        throw (.status ("Missing seconds in date: " ++ String.ofList dateString))
      pure (secStr, secEnd)
    else pure ([], npos)
  -- Only look for milliseconds if the character we matched for the end of the seconds token
  -- is a period
  let (millisStr, millisEnd) ← if secEnd ≠ npos ∧ dateString.getD secEnd ' ' = '.' then do
      if secEnd = dateString.length - 1 then
        throw (.status ("Invalid date:  " ++ String.ofList dateString ++ ".  Ends with \"" ++
          String.singleton (dateString.getD secEnd ' ') ++ "\" character"))
      let (millisStr, millisEnd) := getNextToken dateString "+-Z".toList (sizeSucc secEnd)
      if millisStr.isEmpty then
        throw (.status ("Missing seconds in date: " ++ String.ofList dateString))
      pure (millisStr, millisEnd)
    else pure ([], npos)
  -- Now look for the time zone specifier depending on which prefix of the time we provided
  let tzStr :=
    if millisEnd ≠ npos then (getNextToken dateString [] millisEnd).1
    else if secEnd ≠ npos ∧ dateString.getD secEnd ' ' ≠ '.' then
      (getNextToken dateString [] secEnd).1
    else if minEnd ≠ npos ∧ dateString.getD minEnd ' ' ≠ ':' then
      (getNextToken dateString [] minEnd).1
    else []
  let resultTm ← parseTmFromTokens yearStr monthStr dayStr hourStr minStr secStr
  let tzAdjSecs ← parseTimeZoneFromToken tzStr
  let resultMillis ← parseMillisFromToken millisStr
  return (resultTm, resultMillis, tzAdjSecs)

/-- `dateFromISOString(dateString)`. The sum is taken in `unsigned long long`, so a time before
the epoch wraps around and reads as too far in the future. -/
def dateFromISOString (dateString : List Char) : Except ParseFailure DateT := do
  let (theTime, millis, tzAdjSecs) ← parseTm dateString
  let resultMillis := (1000 * (timegm theTime % 2 ^ 64) + millis) % 2 ^ 64
  let resultMillis := (resultMillis + tzAdjSecs * 1000) % 2 ^ 64
  if resultMillis > 2 ^ 63 - 1 then
    throw (.status (String.ofList dateString ++ " is too far in the future"))
  return ⟨resultMillis⟩

end Mongo.TimeSupport
