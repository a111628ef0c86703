import AssemblyInfo.Binary64.Basic

/-! The shortest decimal of a binary64 number: the fewest digits that round to the number, of
those the nearest to it, and of two as near the even one. Decimals are counted in units of
`10 ^ -342`, of which the smallest positive number takes more than `10 ^ 17`. -/

namespace AssemblyInfo.Binary64

/-- A decimal `d₀.d₁d₂… * 10 ^ exponent` with the digits `d₀d₁d₂…`. -/
structure Decimal where
  digits : List Char
  exponent : Int
  deriving DecidableEq, Repr

def Decimal.zero : Decimal := ⟨['0'], 0⟩

/-- The decimal with the digits of `n`, zeros at the end left out, whose last digit stands for
`10 ^ place`. -/
def Decimal.ofNat (n : Nat) (place : Int) : Decimal :=
  let digits := Nat.toDigits 10 n
  if n = 0 then .zero
  else ⟨(digits.reverse.dropWhile (· == '0')).reverse, place + (digits.length - 1 : Nat)⟩

/-- How many decimal units make one: `10 ^ 342`. -/
abbrev decimalsPerOne : Nat := Nat.pow 10 342

namespace Magnitude

/-- Whether `n * 10 ^ place`, in units of `10 ^ -342`, rounds to `m`. -/
def isNearest (m : Magnitude) (n place : Nat) : Bool :=
  nearestRank (n * Nat.pow 10 place) decimalsPerOne == m.rank

/-- The multiple of `10 ^ place` that rounds to `m`, if there is one next to `m`. -/
def multiple? (m : Magnitude) (place : Nat) : Option Nat :=
  let num := m.units * decimalsPerOne
  let den := unitsPerOne * Nat.pow 10 place
  let below := num / den
  let nearer := roundDiv num den
  let farther := if nearer = below then below + 1 else below
  if m.isNearest nearer place then some nearer
  else if m.isNearest farther place then some farther
  else none

/-- The multiple of a power of ten with the fewest digits that rounds to `m`, and the power.
Seventeen digits are enough for every number. -/
def shortestMultiple? (m : Magnitude) : Option (Nat × Nat) :=
  let length := (Nat.toDigits 10 (m.units * decimalsPerOne / unitsPerOne)).length
  (List.range 17).findSome? fun i =>
    (m.multiple? (length - (i + 1))).map fun n => (n, length - (i + 1))

/-- The shortest decimal of `m`. -/
def shortest (m : Magnitude) : Decimal :=
  (m.shortestMultiple?.map fun (n, place) => .ofNat n (place - 342 : Int)).getD .zero

end Magnitude

/-- How a decimal is laid out. Exponents from `low` to below `high` are written positionally, with
at least one digit after the point; all others with `mark`, a sign and the exponent. -/
structure Layout where
  low : Int
  high : Int
  mark : Char
  deriving DecidableEq, Repr

/-- A decimal in a layout. -/
def Layout.write (layout : Layout) (d : Decimal) : List Char :=
  if layout.low ≤ d.exponent ∧ d.exponent < layout.high then
    match d.exponent with
    | .ofNat k =>
      let whole := d.digits.take (k + 1)
      let fraction := d.digits.drop (k + 1)
      whole ++ List.replicate (k + 1 - d.digits.length) '0' ++ '.' ::
        (if fraction = [] then ['0'] else fraction)
    | .negSucc k => '0' :: '.' :: List.replicate k '0' ++ d.digits
  else
    let fraction := d.digits.drop 1
    d.digits.take 1 ++ (if fraction = [] then [] else '.' :: fraction) ++
      layout.mark :: (if d.exponent < 0 then '-' else '+') :: Nat.toDigits 10 d.exponent.natAbs

end AssemblyInfo.Binary64
