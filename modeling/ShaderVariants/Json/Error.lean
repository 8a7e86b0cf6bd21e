import ShaderVariants.Decimal.Shortest
import ShaderVariants.Json.Value
import ShaderVariants.Text.Quoted

/-!
# What can be wrong with a document

A document that is read as something either is no JSON text, as far as it was read, or it holds
another thing than what is expected (`Mismatch`). A mismatch has a message, which shows what was
found: numbers and text as `Found.describe` writes them.
-/

namespace ShaderVariants.Json

/-- Doubles in messages are written with a point from a hundred-thousandth up to sixteen digits
before the point, and a whole number ends in `.0`. -/
def Number.style : Decimal.Style :=
  ⟨-5, 16, ".0", "e+", "e-"⟩

namespace Found

/-- What was found, in words. -/
def describe : Found → String
  | null => "null"
  | boolean b => "boolean `" ++ (if b then "true" else "false") ++ "`"
  | number (.integer n) => "integer `" ++ toString n ++ "`"
  | number (.double negative x) =>
    "floating point `" ++ (if negative then "-" else "") ++ Number.style.write x.shortest ++ "`"
  | text s => "string " ++ Text.quoted s
  | sequence => "sequence"
  | map => "map"

end Found

/-- How a document's value differs from what is expected. -/
inductive Mismatch where
  /-- Another kind of value. -/
  | wrongType (found : Found) (expected : String)
  /-- A number outside the range. -/
  | outOfRange (n : Int) (expected : String)
  /-- An array with a number of elements that does not do. -/
  | wrongLength (length : Nat) (expected : String)
  | duplicateField (name : String)
  | missingField (name : String)
  | unknownField (name : String) (known : List String)
  | unknownVariant (name : String) (known : List String)
deriving DecidableEq

namespace Mismatch

/-- Names in a message that offers them. -/
def oneOf (names : List String) : String :=
  "expected one of " ++ ", ".intercalate (names.map fun name => "`" ++ name ++ "`")

/-- The mismatch in words. -/
def message : Mismatch → String
  | wrongType found expected => "invalid type: " ++ found.describe ++ ", expected " ++ expected
  | outOfRange n expected => "invalid value: integer `" ++ toString n ++ "`, expected " ++ expected
  | wrongLength length expected =>
    "invalid length " ++ toString length ++ ", expected " ++ expected
  | duplicateField name => "duplicate field `" ++ name ++ "`"
  | missingField name => "missing field `" ++ name ++ "`"
  | unknownField name known => "unknown field `" ++ name ++ "`, " ++ oneOf known
  | unknownVariant name known => "unknown variant `" ++ name ++ "`, " ++ oneOf known

end Mismatch

/-- Why a document was not read. -/
inductive ReadError where
  | fault (f : Fault)
  | mismatch (m : Mismatch)
deriving DecidableEq

/-- A way to read a value. -/
abbrev Reader (α : Type) := Value → Except ReadError α

namespace ReadError

/-- A fault met on the way, if there is one. -/
def passing : Passed → Except ReadError Unit
  | .ok () => .ok ()
  | .error f => .error (.fault f)

/-- The value of a token. -/
def ofToken {α : Type} : Except Flaw α → Except ReadError α
  | .ok a => .ok a
  | .error f => .error (.fault f.reading)

/-- Another value than expected. A flaw of the value comes first. -/
def unexpected {α : Type} (v : Value) (expected : String) : Except ReadError α :=
  match v.found with
  | .ok found => .error (.mismatch (.wrongType found expected))
  | .error f => .error (.fault f)

end ReadError

end ShaderVariants.Json
