import ShaderVariants.Checked
import ShaderVariants.Decimal.Binary64

/-!
# Numbers in JSON texts

A number without a fraction and an exponent is an integer if it is a 64-bit one, signed when it has
a minus sign and unsigned otherwise. Every other number is a double, and so is `-0`.

The double of a number is found in two roundings at most for the usual exponents: as many digits as
fit a 64-bit significand are kept, the others only count as powers of ten, and the rounded
significand is multiplied or divided by a rounded power of ten. A number too large for a double has
no value.
-/

namespace ShaderVariants.Json

open Decimal (Binary64)

/-- Where a text stops being JSON: at a character that cannot stand there, or at its end. -/
inductive Fault where
  | malformed
  | truncated
deriving DecidableEq

/-- The value of a number. -/
inductive Number where
  /-- A signed or unsigned 64-bit integer. -/
  | integer (n : Int)
  | double (negative : Bool) (magnitude : Binary64)
deriving DecidableEq

/-- The parts of a number as it is written. -/
structure Numeral where
  negative : Bool
  whole : List Char
  /-- The digits after the point. -/
  fraction : Option (List Char)
  /-- Whether the exponent has a minus sign, and its digits. -/
  exponent : Option (Bool × List Char)
deriving DecidableEq

namespace Numeral

/-- A character that cannot stand where a digit is due, or the end of the text there. -/
def cut : List Char → Fault
  | [] => .truncated
  | _ :: _ => .malformed

/-- The digits that a text starts with, at least one, and what follows them. -/
def scanDigits (cs : List Char) : Except Fault (List Char × List Char) :=
  match cs.takeWhile Char.isDigit with
  | [] => .error (cut cs)
  | ds => .ok (ds, cs.dropWhile Char.isDigit)

/-- The whole part: a zero stands alone. -/
def scanWhole (cs : List Char) : Except Fault (List Char × List Char) :=
  match scanDigits cs with
  | .ok ('0' :: _ :: _, _) => .error .malformed
  | r => r

/-- The fraction, if the text starts with one. -/
def scanFraction : List Char → Except Fault (Option (List Char) × List Char)
  | '.' :: cs => (scanDigits cs).map fun (ds, rest) => (some ds, rest)
  | cs => .ok (none, cs)

/-- A sign, if the text starts with one: whether it is a minus sign. -/
def scanSign : List Char → Bool × List Char
  | '-' :: cs => (true, cs)
  | '+' :: cs => (false, cs)
  | cs => (false, cs)

/-- The exponent, if the text starts with one. -/
def scanExponent : List Char → Except Fault (Option (Bool × List Char) × List Char)
  | c :: cs =>
    if c = 'e' ∨ c = 'E' then
      (scanDigits (scanSign cs).2).map fun (ds, rest) => (some ((scanSign cs).1, ds), rest)
    else .ok (none, c :: cs)
  | [] => .ok (none, [])

/-- A minus sign, if the text starts with one. -/
def scanMinus : List Char → Bool × List Char
  | '-' :: cs => (true, cs)
  | cs => (false, cs)

/-- The number that a text starts with, and what follows it. -/
def scan (cs : List Char) : Except Fault (Numeral × List Char) := do
  let (whole, afterWhole) ← scanWhole (scanMinus cs).2
  let (fraction, afterFraction) ← scanFraction afterWhole
  let (exponent, rest) ← scanExponent afterFraction
  return (⟨(scanMinus cs).1, whole, fraction, exponent⟩, rest)

/-- The value of a digit. -/
def digit (c : Char) : Nat :=
  c.toNat - '0'.toNat

/-- The number that digits write. -/
def ofDigits (ds : List Char) : Nat :=
  ds.foldl (fun n c => n * 10 + digit c) 0

/-- The digits taken into a significand as long as it is a 64-bit one, and the digits left over. -/
def gather (significand : Nat) : List Char → Nat × List Char
  | [] => (significand, [])
  | c :: cs =>
    if significand * 10 + digit c < Checked.limit64 then gather (significand * 10 + digit c) cs
    else (significand, c :: cs)

/-- A magnitude times a power of ten, none if it is too large. Powers of ten beyond the format are
divided away one greatest power at a time, until the magnitude is zero. -/
def scale (x : Binary64) (e : Int) : Option Binary64 :=
  if x.significand = 0 then some x
  else if 308 < e then none
  else if 0 ≤ e then (Binary64.ofNat (Nat.pow 10 e.toNat)).bind x.mul
  else if -308 ≤ e then (Binary64.ofNat (Nat.pow 10 (-e).toNat)).bind x.div
  else ((Binary64.ofNat (Nat.pow 10 308)).bind x.div).bind fun y => scale y (e + 308)
termination_by e.natAbs
decreasing_by omega

/-- The exponent of a numeral as a number. -/
def power (n : Numeral) : Int :=
  match n.exponent with
  | none => 0
  | some (true, ds) => -ofDigits ds
  | some (false, ds) => ofDigits ds

/-- The value of a number without fraction and exponent whose digits are a 64-bit number. -/
def integral (negative : Bool) (n : Nat) : Option Number :=
  if negative then
    if n = 0 ∨ Checked.limit63 < n then (Binary64.ofNat n).map (.double true)
    else some (.integer (-n))
  else some (.integer n)

/-- The value of a number, none if it is too large for a double. -/
def value (n : Numeral) : Option Number :=
  let (whole, left) := gather 0 n.whole
  match n.fraction, n.exponent, left with
  | none, none, [] => integral n.negative whole
  | _, _, _ =>
    let fraction := n.fraction.getD []
    let (significand, beyond) := gather whole fraction
    let shift : Int := left.length - (fraction.length - beyond.length : Nat)
    ((Binary64.ofNat significand).bind (scale · (shift + n.power))).map (.double n.negative)

/-- Digits are cut off the front of a text, at least one. -/
theorem length_lt_of_scanDigits {cs ds rest : List Char} (h : scanDigits cs = .ok (ds, rest)) :
    rest.length < cs.length := by
  unfold scanDigits at h
  split at h
  · cases h
  · rename_i hne
    cases h
    have hlen :=
      congrArg List.length (List.takeWhile_append_dropWhile (p := Char.isDigit) (l := cs))
    have hpos := List.length_pos_iff.2 hne
    rw [List.length_append] at hlen
    omega

/-- The whole part is cut off the front of a text. -/
theorem length_lt_of_scanWhole {cs ds rest : List Char} (h : scanWhole cs = .ok (ds, rest)) :
    rest.length < cs.length := by
  unfold scanWhole at h
  split at h
  · cases h
  · exact length_lt_of_scanDigits h

/-- The fraction is cut off the front of a text. -/
theorem length_le_of_scanFraction {cs rest : List Char} {f : Option (List Char)}
    (h : scanFraction cs = .ok (f, rest)) : rest.length ≤ cs.length := by
  unfold scanFraction at h
  split at h
  · rename_i cs
    cases hd : scanDigits cs with
    | error e => simp [hd, Except.map] at h
    | ok r =>
      simp only [hd, Except.map, Except.ok.injEq, Prod.mk.injEq] at h
      have := length_lt_of_scanDigits hd
      simp only [List.length_cons, ← h.2]
      omega
  · cases h
    exact Nat.le_refl _

/-- A sign is cut off the front of a text. -/
theorem length_scanSign_le (cs : List Char) : (scanSign cs).2.length ≤ cs.length := by
  unfold scanSign
  split <;> simp

/-- The exponent is cut off the front of a text. -/
theorem length_le_of_scanExponent {cs rest : List Char} {e : Option (Bool × List Char)}
    (h : scanExponent cs = .ok (e, rest)) : rest.length ≤ cs.length := by
  unfold scanExponent at h
  split at h
  · rename_i c cs
    split at h
    · cases hd : scanDigits (scanSign cs).2 with
      | error e => simp [hd, Except.map] at h
      | ok r =>
        simp only [hd, Except.map, Except.ok.injEq, Prod.mk.injEq] at h
        have := length_lt_of_scanDigits hd
        have := length_scanSign_le cs
        simp only [List.length_cons, ← h.2]
        omega
    · cases h
      exact Nat.le_refl _
  · cases h
    exact Nat.le_refl _

/-- A minus sign is cut off the front of a text. -/
theorem length_scanMinus_le (cs : List Char) : (scanMinus cs).2.length ≤ cs.length := by
  unfold scanMinus
  split <;> simp

/-- A number is cut off the front of a text. -/
theorem length_lt_of_scan {cs rest : List Char} {n : Numeral} (h : scan cs = .ok (n, rest)) :
    rest.length < cs.length := by
  simp only [scan, bind, Except.bind] at h
  cases hw : scanWhole (scanMinus cs).2 with
  | error e => simp [hw] at h
  | ok w =>
    simp only [hw] at h
    cases hf : scanFraction w.2 with
    | error e => simp [hf] at h
    | ok f =>
      simp only [hf] at h
      cases he : scanExponent f.2 with
      | error e => simp [he] at h
      | ok x =>
        simp only [he, pure, Except.pure, Except.ok.injEq, Prod.mk.injEq] at h
        have h₀ := length_scanMinus_le cs
        have h₁ := length_lt_of_scanWhole hw
        have h₂ := length_le_of_scanFraction hf
        have h₃ := length_le_of_scanExponent he
        rw [← h.2]
        omega

end Numeral

end ShaderVariants.Json
