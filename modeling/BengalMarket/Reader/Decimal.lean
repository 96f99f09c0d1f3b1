import BengalMarket.Library.Decimal
import BengalMarket.Model

namespace BengalMarket

/-- `std::from_chars` of an unsigned 64-bit number: the value and the unread rest,
`none` where the error code is set. -/
def fromChars (text : Bytes) : Option (UInt64 × Bytes) :=
  let digits := text.takeWhile Decimal.isDigit
  if digits = [] then none
  else if Decimal.ofDigits digits < 2 ^ 64 then
    some (UInt64.ofNat (Decimal.ofDigits digits), text.dropWhile Decimal.isDigit)
  else none

def readFraction (fraction : UInt64) : Bytes → Option UInt64
  | [] => some fraction
  | character :: rest =>
    if Decimal.isDigit character then
      readFraction (fraction * 10 + UInt64.ofNat (Decimal.digitValue character)) rest
    else none

/-- The loop that multiplies by ten `times` times. -/
def scaleByTen : Nat → UInt64 → UInt64
  | 0, fraction => fraction
  | times + 1, fraction => scaleByTen times (fraction * 10)

def plus : UInt8 := 43

def minus : UInt8 := 45

def dot : UInt8 := 46

def combine (negative : Bool) (whole fraction : UInt64) : Option Int64 :=
  let limit : UInt64 := if negative then 9223372036854775807 + 1 else 9223372036854775807
  let scale := UInt64.ofNat decimalScale
  if whole > limit / scale then none
  else
    let scaled := whole * scale
    if fraction > limit - scaled then none
    else
      let magnitude := scaled + fraction
      if negative && magnitude == limit then some Int64.minValue
      else
        let signedValue := magnitude.toInt64
        some (if negative then -signedValue else signedValue)

def parseMagnitude (negative : Bool) (wholeText fractionText : Bytes) : Option Int64 :=
  match fromChars wholeText with
  | none => none
  | some (whole, unread) =>
    if unread ≠ [] then none
    else match readFraction 0 fractionText with
      | none => none
      | some digits => combine negative whole (scaleByTen (8 - fractionText.length) digits)

def parseUnsigned (negative : Bool) (value : Bytes) : Option Int64 :=
  if value = [] then none
  else
    let position := value.findIdx? (· == dot)
    let wholeText := value.take (position.getD value.length)
    let fractionText := match position with
      | none => []
      | some index => value.drop (index + 1)
    if wholeText = [] ∨ fractionText.length > 8 ∨ dot ∈ fractionText then none
    else parseMagnitude negative wholeText fractionText

def parseDecimal (value : Bytes) : Option Int64 :=
  match value with
  | [] => none
  | front :: rest =>
    parseUnsigned (front == minus) (if front = minus ∨ front = plus then rest else value)

/-- The stream pads the fraction to a width of eight; trailing zeros are popped again. -/
def formatDecimal (value : Int64) : Bytes :=
  let negative := value < 0
  let magnitude := if negative then 0 - value.toUInt64 else value.toUInt64
  let scale := UInt64.ofNat decimalScale
  let whole := magnitude / scale
  let fraction := magnitude % scale
  let output := (if negative then [minus] else []) ++ Decimal.text whole.toNat
  if fraction ≠ 0 then
    (output ++ dot :: Decimal.padded 8 fraction.toNat).rdropWhile (· == Decimal.zero)
  else output

example : parseDecimal (ascii "-0.00000001") = some (-1) := by decide
example : parseDecimal (ascii "1.000000001") = none := by decide

end BengalMarket
