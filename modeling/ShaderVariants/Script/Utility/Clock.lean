import ShaderVariants.Script.Arithmetic
import ShaderVariants.Script.Utility.Fields

/-!
# Utilities for time

Letting time pass, and ending at once.
-/

namespace ShaderVariants.Script.Utility

/-- As long as any limit. -/
def forever : Nat :=
  Nat.pow 10 30

/-- The nanoseconds that a number of seconds is, which may have a unit. -/
def nanoseconds? (s : String) : Option Nat := do
  let (n, rest) ← Real.ofChars s.toList
  let unit ← match rest with
    | [] => some 1
    | ['s'] => some 1
    | ['m'] => some 60
    | ['h'] => some 3600
    | ['d'] => some 86400
    | _ => none
  guard (!n.negative || (n.num = 0 && !n.endless))
  if n.endless then return forever
  return min forever (n.num * unit * 1000000000 / n.den)

/-- A text is no span of time. -/
def badInterval (tool s : String) : Run Unit :=
  complain tool ("invalid time interval " ++ cited s)

/-- Let time pass. -/
def sleep : Utility :=
  withOptions {} fun tool g => do
    if g.operands.isEmpty then lacking tool 1
    else
      let bad := g.operands.filter fun s => (nanoseconds? s).isNone
      if bad.isEmpty then
        Run.wait ((g.operands.filterMap nanoseconds?).foldl (· + ·) 0)
        return 0
      else
        bad.forM (badInterval tool)
        advise tool
        return 1

/-- The utilities that run no other programs. -/
def all : List (String × Utility) := [
  ("true", fun _ _ => return 0), ("false", fun _ _ => return 1), ("sleep", sleep)]

end ShaderVariants.Script.Utility
