import BengalMarket.Reader.Decimal

namespace BengalMarket

def readComponent (result : UInt32) : Bytes → Option UInt32
  | [] => some result
  | character :: rest =>
    if Decimal.isDigit character then
      readComponent (result * 10 + UInt32.ofNat (Decimal.digitValue character)) rest
    else none

def parseComponent (value : Bytes) (offset length : Nat) : Option UInt32 :=
  if offset + length > value.length then none
  else readComponent 0 ((value.drop offset).take length)

def isLeapYear (year : UInt32) : Bool :=
  year % 4 == 0 && (year % 100 != 0 || year % 400 == 0)

def monthDays : List UInt32 := [31, 28, 31, 30, 31, 30, 31, 31, 30, 31, 30, 31]

def daysInMonth (year month : UInt32) : UInt32 :=
  if month = 2 && isLeapYear year then 29
  else monthDays.getD (month - 1).toNat 0

def daysFromCivil (year : Int32) (month day : UInt32) : Int64 :=
  let year := if month ≤ 2 then year - 1 else year
  let era := (if year ≥ 0 then year else year - 399) / 400
  let yearOfEra := (year - era * 400).toUInt32
  let dayOfYear := (153 * (if month > 2 then month - 3 else month + 9) + 2) / 5 + day - 1
  let dayOfEra := yearOfEra * 365 + yearOfEra / 4 - yearOfEra / 100 + dayOfYear
  era.toInt64 * 146097 + dayOfEra.toUInt64.toInt64 - 719468

def zulu : UInt8 := 90

/-- The loop over the digits after the dot: their number and value, and the unread rest. -/
def readFractionDigits (digits : Nat) (fraction : UInt64) :
    Bytes → Option (Nat × UInt64 × Bytes)
  | [] => some (digits, fraction, [])
  | character :: rest =>
    if character = zulu then some (digits, fraction, character :: rest)
    else if digits = 9 || !Decimal.isDigit character then none
    else readFractionDigits (digits + 1)
      (fraction * 10 + UInt64.ofNat (Decimal.digitValue character)) rest

def parseFraction (value : Bytes) : Option (Nat × UInt64 × Bytes) :=
  match value.drop 19 with
  | 46 :: rest =>
    match readFractionDigits 0 0 rest with
    | none => none
    | some (digits, fraction, unread) =>
      if digits = 0 then none else some (digits, fraction, unread)
  | unread => some (0, 0, unread)

structure CivilTime where
  year : UInt32
  month : UInt32
  day : UInt32
  hour : UInt32
  minute : UInt32
  second : UInt32
  deriving DecidableEq

def hasSeparators (value : Bytes) : Bool :=
  value.length ≥ 20 && value[4]? == some 45 && value[7]? == some 45 &&
    value[10]? == some 84 && value[13]? == some 58 && value[16]? == some 58

def parseCivilTime (value : Bytes) : Option CivilTime := do
  let year ← parseComponent value 0 4
  let month ← parseComponent value 5 2
  let day ← parseComponent value 8 2
  let hour ← parseComponent value 11 2
  let minute ← parseComponent value 14 2
  let second ← parseComponent value 17 2
  if year < 1970 || month < 1 || month > 12 || day < 1 || day > daysInMonth year month ||
      hour > 23 || minute > 59 || second > 59 then none
  else some { year, month, day, hour, minute, second }

def CivilTime.nanoseconds (time : CivilTime) (fraction : UInt64) : Option UInt64 :=
  let days := daysFromCivil time.year.toInt32 time.month time.day
  if days < 0 then none
  else
    let seconds := days.toUInt64 * 86400 + time.hour.toUInt64 * 3600 +
      time.minute.toUInt64 * 60 + time.second.toUInt64
    if seconds > (0xffffffffffffffff - fraction) / 1000000000 then none
    else some (seconds * 1000000000 + fraction)

def parseTimestampNs (value : Bytes) : Option UInt64 :=
  if !hasSeparators value then none
  else match parseCivilTime value, parseFraction value with
    | some time, some (digits, fraction, unread) =>
      if unread ≠ [zulu] then none
      else time.nanoseconds (scaleByTen (9 - digits) fraction)
    | _, _ => none

example : parseTimestampNs (ascii "2026-01-01T00:00:00.000000001Z") =
    some 1767225600000000001 := by decide
example : parseTimestampNs (ascii "2026-02-30T00:00:00Z") = none := by decide

end BengalMarket
