/-! Finite binary64 numbers, by exact arithmetic on natural numbers. All of them are multiples of
`2 ^ -1074`, so a magnitude is counted in these units. Each operation forms the exact result and
rounds it once, to the nearest number, and to the one with even rank when two are as near. -/

namespace AssemblyInfo.Binary64

/-- How many numbers lie from a power of two to below the next one: `2 ^ 52`. -/
abbrev binade : Nat := 0x10000000000000

/-- How many finite magnitudes there are: all below the 2047th range of exponents. -/
abbrev finiteCount : Nat := 2047 * binade

/-- How many units make one: `2 ^ 1074`. -/
abbrev unitsPerOne : Nat := Nat.pow 2 1074

/-- A finite binary64 number without its sign, named by its rank: the zero has rank 0, the next
larger number rank 1, and so on. The rank is also the bit pattern of the number. -/
structure Magnitude where
  rank : Nat
  finite : rank < finiteCount
  deriving DecidableEq, Repr

namespace Magnitude

def zero : Magnitude := ⟨0, by decide⟩

/-- The value, in units of `2 ^ -1074`. -/
def units (m : Magnitude) : Nat :=
  let exponent := m.rank / binade
  let fraction := m.rank % binade
  if exponent = 0 then fraction else (binade + fraction) * Nat.pow 2 (exponent - 1)

end Magnitude

/-- The whole number nearest to `num / den`, the even one when two are as near. -/
def roundDiv (num den : Nat) : Nat :=
  let quotient := num / den
  let rest := num % den
  if 2 * rest < den ∨ (2 * rest = den ∧ quotient % 2 = 0) then quotient else quotient + 1

/-- Rank of the number nearest to `num / den`, as if there were no largest one. -/
def nearestRank (num den : Nat) : Nat :=
  let scaled := num * unitsPerOne
  let shift := (scaled / den).log2 - 52
  shift * binade + roundDiv scaled (den * Nat.pow 2 shift)

/-- The number nearest to `num / den`, if it is finite. -/
def nearest? (num den : Nat) : Option Magnitude :=
  let rank := nearestRank num den
  if h : rank < finiteCount then some ⟨rank, h⟩ else none

/-- The rounded product, if it is finite. -/
def Magnitude.mul? (a b : Magnitude) : Option Magnitude :=
  nearest? (a.units * b.units) (unitsPerOne * unitsPerOne)

/-- The rounded quotient, if it is finite. -/
def Magnitude.div? (a b : Magnitude) : Option Magnitude := nearest? a.units b.units

/-- The number nearest to `10 ^ k`; finite for `k` up to 308. -/
def powerOfTen? (k : Nat) : Option Magnitude := nearest? (Nat.pow 10 k) 1

/-- Divides by `10 ^ k`, by `10 ^ 308` at a time. -/
def Magnitude.lower? (m : Magnitude) (k : Nat) : Option Magnitude :=
  if k ≤ 308 then powerOfTen? k >>= m.div?
  else if m = zero then some m
  else do
    let m' ← powerOfTen? 308 >>= m.div?
    m'.lower? (k - 308)
termination_by k

/-- The number for `significand * 10 ^ exponent`, with a rounding of the significand and of each
multiplication or division by a power of ten. -/
def scaled? (significand : Nat) (exponent : Int) : Option Magnitude := do
  let m ← nearest? significand 1
  match exponent with
  | .ofNat k =>
    if k ≤ 308 then powerOfTen? k >>= m.mul?
    else if m = .zero then some m
    else none
  | .negSucc k => m.lower? (k + 1)

end AssemblyInfo.Binary64
