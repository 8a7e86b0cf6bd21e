import ShaderVariants.Checked
import ShaderVariants.Json.Error
import ShaderVariants.Table

/-!
# Reading plain values

Readers for text, numbers, lists, tables and names of alternatives. Each walks its value in the
order of the text and stops at the first thing that it objects to.
-/

namespace ShaderVariants.Json

namespace Reader

/-- A text. -/
def text : Reader String
  | .text s => ReadError.ofToken s
  | v => ReadError.unexpected v "a string"

/-- An integer from `low` up to and including `high`. -/
def integer (low high : Int) (expected : String) : Reader Int
  | .atom (.ok (.number (.integer n))) =>
    if low ≤ n ∧ n ≤ high then .ok n else .error (.mismatch (.outOfRange n expected))
  | v => ReadError.unexpected v expected

/-- A 32-bit word. -/
def word : Reader UInt32 := fun v =>
  (integer 0 (Checked.limit32 - 1) "u32" v).map fun n => UInt32.ofNat n.toNat

/-- A signed 64-bit integer. -/
def integer64 : Reader Int :=
  integer (-Checked.limit63) (Checked.limit63 - 1) "i64"

/-- Nothing but the null value. -/
def null : Reader Unit
  | .atom (.ok .null) => .ok ()
  | v => ReadError.unexpected v "unit"

/-- An array of elements that `read` reads. -/
def list {α : Type} (read : Reader α) : Reader (List α)
  | .array elements cut => do
    let as ← elements.mapM read
    ReadError.passing (Passed.of cut)
    return as
  | v => ReadError.unexpected v "a sequence"

/-- The null value, or what `read` reads. -/
def optional {α : Type} (read : Reader α) : Reader (Option α)
  | .atom (.ok .null) => .ok none
  | v => (read v).map some

/-- One member of a table. -/
def binding {α : Type} (read : Reader α) (member : Except Flaw String × Value) :
    Except ReadError (String × α) := do
  let name ← ReadError.ofToken member.1
  return (name, ← read member.2)

/-- An object whose members have any names and values that `read` reads. The last member of a name
counts. -/
def table {α : Type} (read : Reader α) : Reader (Table String α)
  | .object members ending => do
    let bindings ← members.mapM (binding read)
    ReadError.passing (Passed.of ending.fault?)
    return Table.ofList bindings
  | v => ReadError.unexpected v "a map"

/-- The alternative of a name. -/
def alternative {α : Type} (alternatives : List (String × α)) (name : String) :
    Except ReadError α :=
  match Table.lookup name alternatives with
  | some a => .ok a
  | none => .error (.mismatch (.unknownVariant name (alternatives.map Prod.fst)))

/-- The name of an alternative: a text, or an object with the name as its only member and the null
value in it. -/
def choice {α : Type} (alternatives : List (String × α)) : Reader α
  | .text name => do alternative alternatives (← ReadError.ofToken name)
  | .object ((name, v) :: members) ending => do
    let a ← alternative alternatives (← ReadError.ofToken name)
    null v
    match members, ending with
    | [], .closed => return a
    | [], .cut f => throw (.fault f)
    | _, _ => throw (.fault .malformed)
  | .object [] (.nameless f) => .error (.fault f)
  | .missing f => .error (.fault f)
  | _ => .error (.fault .malformed)

end Reader

/-- What `read` reads in a text that holds nothing else. -/
def Document.read {α : Type} (read : Reader α) (text : String) : Except ReadError α := do
  let document := Document.ofText text
  let a ← read document.value
  if document.trailing then throw (.fault .malformed)
  return a

end ShaderVariants.Json
