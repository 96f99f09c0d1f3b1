import Mathlib.Data.List.Basic

/-! JSON values as a C++ library holds them, and the accessors of such a library.
Strings are byte strings; numbers keep the three C++ representations.  What the
library does with text and with doubles is a parameter. -/

inductive Json (Double : Type) : Type
  | null
  | bool (value : Bool)
  | unsigned (value : UInt64)
  | integer (value : Int64)
  | float (value : Double)
  | string (value : List UInt8)
  | array (elements : List (Json Double))
  | object (members : List (List UInt8 × Json Double))

namespace Json

variable {Double : Type}

/-- `at(key)`: `none` is an exception, of a missing member or of a value that is no object. -/
def at? (key : List UInt8) : Json Double → Option (Json Double)
  | .object members => members.lookup key
  | _ => none

def contains (key : List UInt8) : Json Double → Bool
  | .object members => (members.lookup key).isSome
  | _ => false

def string? : Json Double → Option (List UInt8)
  | .string value => some value
  | _ => none

def bool? : Json Double → Option Bool
  | .bool value => some value
  | _ => none

def isArray : Json Double → Bool
  | .array _ => true
  | _ => false

/-- The values a range-for visits: the elements of an array, the values of an object,
nothing for null, and any other value itself once. -/
def children : Json Double → List (Json Double)
  | .array elements => elements
  | .object members => members.map Prod.snd
  | .null => []
  | value => [value]

end Json

/-- A JSON library: its double type with the casts that accessors perform, its parser
(`none` is an exception) and its serializer. -/
structure JsonLibrary where
  Double : Type
  toUInt64 : Double → UInt64
  equalsInt : Double → Int64 → Bool
  parse : List UInt8 → Option (Json Double)
  dump : Json Double → Except String (List UInt8)

namespace JsonLibrary

variable (J : JsonLibrary)

abbrev Value := Json J.Double

/-- `get<std::uint64_t>()`: any number is cast, whatever its sign or fraction. -/
def uint64? : J.Value → Option UInt64
  | .unsigned value => some value
  | .integer value => some value.toUInt64
  | .float value => some (J.toUInt64 value)
  | _ => none

/-- `operator==` with an integer: unsigned values are compared as signed ones. -/
def equals (expected : Int64) : J.Value → Bool
  | .unsigned value => value.toInt64 == expected
  | .integer value => value == expected
  | .float value => J.equalsInt value expected
  | _ => false

end JsonLibrary

theorem Json.contains_eq_isSome {Double : Type} (key : List UInt8) (value : Json Double) :
    value.contains key = (value.at? key).isSome := by
  cases value <;> rfl
