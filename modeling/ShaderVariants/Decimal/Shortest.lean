import ShaderVariants.Decimal.Binary64

/-!
# The shortest decimal of a magnitude

Of all decimals that round to a given magnitude, `Binary64.shortest` is one with the fewest digits
and, among those, the nearest. It is found on the decimal grids of 1, 2, … 17 digits: if any point
of a grid rounds to the magnitude, one of the two points next to the magnitude does. `Style` says
how the digits are laid out as text.
-/

namespace ShaderVariants

/-- The number `digits * 10 ^ exponent`. -/
structure Decimal where
  digits : Nat
  exponent : Int
deriving DecidableEq

namespace Decimal

/-- The same number without zeros at the end of its digits, of which there are at most `fuel`. -/
def trim : Nat → Decimal → Decimal
  | 0, d => d
  | fuel + 1, d =>
    if d.digits ≠ 0 ∧ d.digits % 10 = 0 then trim fuel ⟨d.digits / 10, d.exponent + 1⟩ else d

namespace Binary64

/-- The magnitudes that round to `x` lie between `low / den` and `high / den`, and `x` is
`mid / den`; the ends belong to it when `ends` holds. -/
structure Interval where
  low : Nat
  mid : Nat
  high : Nat
  den : Nat
  ends : Bool

/-- The ratios that round to a magnitude. Below a power of two the format is twice as fine. -/
def interval (x : Binary64) : Interval :=
  let e := x.exponent - 2
  let unit := Nat.pow 2 e.toNat
  let below := if x.significand = leastSignificand ∧ minExponent < x.exponent then 1 else 2
  { low := (4 * x.significand - below) * unit
    mid := 4 * x.significand * unit
    high := (4 * x.significand + 2) * unit
    den := Nat.pow 2 (-e).toNat
    ends := x.significand % 2 = 0 }

namespace Interval

/-- The interval in units of `10 ^ e`. -/
def scaled (i : Interval) (e : Int) : Interval :=
  let up := Nat.pow 10 (-e).toNat
  let down := Nat.pow 10 e.toNat
  { i with low := i.low * up, mid := i.mid * up, high := i.high * up, den := i.den * down }

/-- A whole number lies in the interval. -/
def holds (i : Interval) (c : Nat) : Bool :=
  if i.ends then i.low ≤ c * i.den ∧ c * i.den ≤ i.high
  else i.low < c * i.den ∧ c * i.den < i.high

/-- The nearest whole number next to the middle that lies in the interval, the even one of two that
are equally near. -/
def nearest? (i : Interval) : Option Nat :=
  let c := i.mid / i.den
  match i.holds c, i.holds (c + 1) with
  | true, true => some (roundQuotient i.mid i.den)
  | true, false => some c
  | false, true => some (c + 1)
  | false, false => none

end Interval

/-- The least `k` from `k` on with `n < 10 ^ k * d`, at most `fuel` above it. -/
def digitsAbove (n d : Nat) : Nat → Nat → Nat
  | 0, k => k
  | fuel + 1, k => if n < Nat.pow 10 k * d then k else digitsAbove n d fuel (k + 1)

/-- The least `k` with `x < 10 ^ k`, for a positive magnitude. -/
def decimalPoint (i : Interval) : Int :=
  if i.den ≤ i.mid then digitsAbove i.mid i.den 310 1
  else 1 - digitsAbove i.den i.mid 330 0

/-- The grid point of the fewest digits, from `n` digits on, that rounds to a positive magnitude. -/
def search (i : Interval) (point : Int) : Nat → Nat → Decimal
  | 0, n => ⟨(i.scaled (point - n)).mid / (i.scaled (point - n)).den, point - n⟩
  | fuel + 1, n =>
    match (i.scaled (point - n)).nearest? with
    | some c => ⟨c, point - n⟩
    | none => search i point fuel (n + 1)

/-- The shortest decimal that rounds to a magnitude. -/
def shortest (x : Binary64) : Decimal :=
  if x.significand = 0 then ⟨0, 0⟩
  else (search x.interval (decimalPoint x.interval) 17 1).trim 20

end Binary64

/-- How a decimal is written. -/
structure Style where
  /-- From this power of ten on, the first digit's place is shown by the point alone. -/
  plainFrom : Int
  /-- The first power of ten that is written with an exponent again. -/
  plainBelow : Int
  /-- What a whole number ends in. -/
  wholeEnd : String
  /-- What stands before an exponent, and before a negative one. -/
  exponentMark : String
  negativeMark : String

namespace Style

/-- A decimal as text. -/
def write (s : Style) (d : Decimal) : String :=
  let digits := Nat.toDigits 10 d.digits
  let count : Int := digits.length
  let power := if d.digits = 0 then 0 else count - 1 + d.exponent
  let zeros (n : Int) := List.replicate n.toNat '0'
  if s.plainFrom ≤ power ∧ power < s.plainBelow then
    if 0 ≤ d.exponent then String.ofList (digits ++ zeros d.exponent) ++ s.wholeEnd
    else if 0 ≤ power then
      String.ofList (digits.take (power + 1).toNat) ++ "."
        ++ String.ofList (digits.drop (power + 1).toNat)
    else "0." ++ String.ofList (zeros (-power - 1) ++ digits)
  else
    let mantissa := match digits with
      | [] => []
      | [c] => [c]
      | c :: cs => c :: '.' :: cs
    String.ofList mantissa
      ++ (if power < 0 then s.negativeMark else s.exponentMark) ++ toString power.natAbs

end Style

end ShaderVariants.Decimal
