import AssemblyInfo.Binary64.Shortest
import AssemblyInfo.Text.Basic

/-! JSON numbers. A numeral is a number as written, by its digits. It stands for an integer when
it has neither fraction nor exponent and the integer fits in 64 bits (signed if negative), else
for a float. -/

namespace AssemblyInfo.Json

/-- How many words of 64 bits there are: `2 ^ 64`. -/
abbrev wordCount : Nat := 0x10000000000000000

/-- How many of them have the top bit: `2 ^ 63`. -/
abbrev topBit : Nat := 0x8000000000000000

/-- A number: an integer of 64 bits, signed if negative, or a finite float. -/
inductive Number where
  | integer (value : Int) (low : -(topBit : Int) ≤ value) (high : value < wordCount)
  | float (negative : Bool) (magnitude : Binary64.Magnitude)
  deriving DecidableEq, Repr

namespace Number

/-- The integer `n`, if it has 64 bits. -/
def ofInt? (n : Int) : Option Number :=
  if h : -(topBit : Int) ≤ n ∧ n < wordCount then some (.integer n h.1 h.2) else none

/-- The float with a bit pattern, if it is finite. -/
def ofBits? (bits : UInt64) : Option Number :=
  let rank := bits.toNat % topBit
  if h : rank < Binary64.finiteCount then
    some (.float (decide (topBit ≤ bits.toNat)) ⟨rank, h⟩)
  else none

/-- Floats are positional from `1e-5` to below `1e16`. -/
def layout : Binary64.Layout := { low := -5, high := 16, mark := 'e' }

/-- The number as it is written. -/
def write : Number → Text
  | .integer n _ _ => if n < 0 then '-' :: Text.decimal n.natAbs else Text.decimal n.natAbs
  | .float negative m =>
    let digits := layout.write m.shortest
    if negative then '-' :: digits else digits

end Number

/-- A number as written: sign, whole digits, fraction digits, and the exponent's sign and
digits. -/
structure Numeral where
  negative : Bool
  whole : Text
  fraction : Option Text
  exponent : Option (Bool × Text)
  deriving DecidableEq, Repr

namespace Numeral

/-- The digits that a text starts with, at least one, and the rest. -/
def readDigits? (t : Text) : Option (Text × Text) :=
  let digits := t.takeWhile Char.isDigit
  if digits = [] then none else some (digits, t.dropWhile Char.isDigit)

/-- Whole digits: a zero stands alone. -/
def readWhole? (t : Text) : Option (Text × Text) := do
  let (digits, rest) ← readDigits? t
  if digits.head? = some '0' ∧ digits ≠ ['0'] then none else some (digits, rest)

/-- A point and digits, or nothing. -/
def readFraction? : Text → Option (Option Text × Text)
  | '.' :: t => (readDigits? t).map fun (digits, rest) => (some digits, rest)
  | t => some (none, t)

/-- The sign of an exponent, true for a minus. -/
def readSign : Text → Bool × Text
  | '+' :: t => (false, t)
  | '-' :: t => (true, t)
  | t => (false, t)

/-- A mark, a sign and digits, or nothing. -/
def readExponent? : Text → Option (Option (Bool × Text) × Text)
  | [] => some (none, [])
  | c :: t =>
    if c = 'e' ∨ c = 'E' then
      let (negative, t) := readSign t
      (readDigits? t).map fun (digits, rest) => (some (negative, digits), rest)
    else some (none, c :: t)

/-- Reads a numeral, with a minus in front or not. -/
def read? (t : Text) : Option (Numeral × Text) := do
  let (negative, t) := match t with
    | '-' :: t => (true, t)
    | t => (false, t)
  let (whole, t) ← readWhole? t
  let (fraction, t) ← readFraction? t
  let (exponent, t) ← readExponent? t
  some ({ negative, whole, fraction, exponent }, t)

/-- Adds digits to a significand for as long as it fits in 64 bits; what is left starts with the
first digit that does not. -/
def gather (significand : Nat) : Text → Nat × Text
  | [] => (significand, [])
  | c :: digits =>
    let next := significand * 10 + (c.toNat - '0'.toNat)
    if next < wordCount then gather next digits else (significand, c :: digits)

/-- The float that a numeral stands for. Whole digits that do not fit the significand count as
zeros, fraction digits that do not fit are without effect. -/
def float? (n : Numeral) : Option Number :=
  let fraction := n.fraction.getD []
  let (whole, wholeLeft) := gather 0 n.whole
  let (significand, fractionLeft) := gather whole fraction
  let shift : Int := wholeLeft.length - (fraction.length - fractionLeft.length)
  let exponent : Int := match n.exponent with
    | none => 0
    | some (negative, digits) =>
      if negative then -(Nat.ofDigitChars 10 digits 0) else Nat.ofDigitChars 10 digits 0
  (Binary64.scaled? significand (shift + exponent)).map (.float n.negative)

/-- The number that a numeral stands for, if its size is in range. The negative zero is a
float. -/
def number? (n : Numeral) : Option Number :=
  let value := Nat.ofDigitChars 10 n.whole 0
  if n.fraction.isSome ∨ n.exponent.isSome ∨ (n.negative ∧ value = 0) then n.float?
  else (Number.ofInt? (if n.negative then -value else value)).or n.float?

end Numeral

end AssemblyInfo.Json
