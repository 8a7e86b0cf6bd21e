/-!
# Magnitudes of 64-bit binary numbers

A finite magnitude of the 64-bit binary format is `significand * 2 ^ exponent` with a significand
below `2 ^ 53` and an exponent from `-1074` to `971`. A ratio of natural numbers rounds to the
nearest magnitude, a tie to the even significand (`ofRatio`), or is too large for the format.
Products and quotients are rounded ratios of exact integers, so nothing here is approximate except
by that one rule.
-/

namespace ShaderVariants.Decimal

/-- The number `significand * 2 ^ exponent`. -/
structure Binary64 where
  significand : Nat
  exponent : Int
deriving DecidableEq

namespace Binary64

/-- The least exponent. -/
def minExponent : Int :=
  -1074

/-- The greatest exponent. -/
def maxExponent : Int :=
  971

/-- The least significand of a magnitude that is not in the lowest range: `2 ^ 52`. -/
def leastSignificand : Nat :=
  4503599627370496

/-- Zero. -/
def zero : Binary64 :=
  ⟨0, minExponent⟩

/-- The quotient of two numbers rounded to the nearest, a tie to the even one. -/
def roundQuotient (num den : Nat) : Nat :=
  let low := num / den
  let rest := num % den
  if 2 * rest < den then low
  else if den < 2 * rest then low + 1
  else low + low % 2

/-- The numerator and denominator of `num / den / 2 ^ e`. -/
def shifted (num den : Nat) (e : Int) : Nat × Nat :=
  (num * Nat.pow 2 (-e).toNat, den * Nat.pow 2 e.toNat)

/-- The exponent of two just below a positive ratio. -/
def ratioLog (num den : Nat) : Int :=
  let e : Int := num.log2 - den.log2
  let (n, d) := shifted num den e
  if n < d then e - 1 else e

/-- The magnitude nearest to a ratio, if the ratio is within the format. -/
def ofRatio (num den : Nat) : Option Binary64 :=
  if num = 0 then some zero
  else
    let e := max (ratioLog num den - 52) minExponent
    let (n, d) := shifted num den e
    let m := roundQuotient n d
    let rounded : Binary64 := if m = 2 * leastSignificand then ⟨leastSignificand, e + 1⟩ else ⟨m, e⟩
    if rounded.exponent ≤ maxExponent then some rounded else none

/-- The magnitude nearest to a natural number. -/
def ofNat (n : Nat) : Option Binary64 :=
  ofRatio n 1

/-- The rounded product. -/
def mul (a b : Binary64) : Option Binary64 :=
  let e := a.exponent + b.exponent
  ofRatio (a.significand * b.significand * Nat.pow 2 e.toNat) (Nat.pow 2 (-e).toNat)

/-- The rounded quotient. -/
def div (a b : Binary64) : Option Binary64 :=
  let e := a.exponent - b.exponent
  ofRatio (a.significand * Nat.pow 2 e.toNat) (b.significand * Nat.pow 2 (-e).toNat)

/-- Half a unit above two equal halves is a tie, which goes to the even number. -/
example : roundQuotient 5 2 = 2 ∧ roundQuotient 7 2 = 4 ∧ roundQuotient 8 3 = 3 := by decide

end Binary64

end ShaderVariants.Decimal
