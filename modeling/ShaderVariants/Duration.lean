/-!
# Spans of time

A span of time counts nanoseconds. For people it is written in the largest unit of seconds,
milliseconds, microseconds and nanoseconds of which it has at least one, with as many digits after
the point as it needs.
-/

namespace ShaderVariants

/-- A span of time. -/
structure Duration where
  nanoseconds : Nat
deriving DecidableEq

namespace Duration

/-- A number of seconds. -/
def ofSeconds (n : Nat) : Duration :=
  ⟨n * 1000000000⟩

/-- A number of milliseconds. -/
def ofMilliseconds (n : Nat) : Duration :=
  ⟨n * 1000000⟩

/-- The quotient of `n` by `10 ^ places` in decimal, without zeros at the end of the fraction. -/
def quotientText (n places : Nat) : String :=
  let fraction := Nat.toDigits 10 (n % Nat.pow 10 places)
  let padded := List.replicate (places - fraction.length) '0' ++ fraction
  let needed := (padded.reverse.dropWhile (· = '0')).reverse
  toString (n / Nat.pow 10 places) ++ (if needed.isEmpty then "" else "." ++ String.ofList needed)

/-- The span in words. -/
def text (d : Duration) : String :=
  let n := d.nanoseconds
  if 1000000000 ≤ n then quotientText n 9 ++ "s"
  else if 1000000 ≤ n then quotientText n 6 ++ "ms"
  else if 1000 ≤ n then quotientText n 3 ++ "µs"
  else quotientText n 0 ++ "ns"

end Duration

end ShaderVariants
