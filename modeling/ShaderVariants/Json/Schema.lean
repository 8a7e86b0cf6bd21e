import ShaderVariants.Json.Reader

/-!
# Reading records

A record is written as an object, or as an array of its fields in the order of their declaration. A
`Schema` lists the fields with their readers and says what stands for an absent one. While an object
is read, a `Draft` holds what the fields met so far contain; `Draft.enter` fills one field, at most
once. The complete contents are a `Row`, from which the schema builds its value.
-/

namespace ShaderVariants.Json

/-- What happens when a field is absent. -/
inductive Absence (α : Type) where
  /-- The record cannot be read. -/
  | refused
  /-- In an object the field contains `a`; in an array it must be there. -/
  | inObject (a : α)
  /-- The field contains `a`. -/
  | anywhere (a : α)

namespace Absence

/-- What an absent member of an object contains. -/
def inObject? {α : Type} : Absence α → Option α
  | refused => none
  | inObject a => some a
  | anywhere a => some a

/-- What an absent element of an array contains. -/
def inArray? {α : Type} : Absence α → Option α
  | refused => none
  | inObject _ => none
  | anywhere a => some a

end Absence

/-- A field of a record. -/
structure Field where
  name : String
  Content : Type
  read : Reader Content
  absent : Absence Content

namespace Field

/-- A field that must be there. -/
def required {α : Type} (name : String) (read : Reader α) : Field :=
  ⟨name, α, read, .refused⟩

/-- A field that contains `a` if it is absent. -/
def defaulted {α : Type} (name : String) (read : Reader α) (a : α) : Field :=
  ⟨name, α, read, .anywhere a⟩

end Field

/-- The contents of all fields. -/
@[reducible] def Row : List Field → Type
  | [] => Unit
  | f :: fs => f.Content × Row fs

/-- The contents of the fields that were met. -/
@[reducible] def Draft : List Field → Type
  | [] => Unit
  | f :: fs => Option f.Content × Draft fs

/-- How a record is read. -/
structure Schema (α : Type) where
  /-- The name of the record in messages. -/
  title : String
  fields : List Field
  /-- Members that are no fields are refused. -/
  closed : Bool
  build : Row fields → α

namespace Draft

/-- No field was met. -/
def blank : (fs : List Field) → Draft fs
  | [] => ()
  | _ :: fs => (none, blank fs)

/-- The draft with the field `name` read from a value, none if there is no such field. -/
def enter : (fs : List Field) → Draft fs → (name : String) → Value →
    Except ReadError (Option (Draft fs))
  | [], _, _, _ => .ok none
  | f :: fs, (content, rest), name, v =>
    if f.name = name then
      match content with
      | some _ => .error (.mismatch (.duplicateField name))
      | none => (f.read v).map fun a => some (some a, rest)
    else (enter fs rest name v).map (Option.map (content, ·))

/-- The contents of all fields, those of absent ones as declared. -/
def complete : (fs : List Field) → Draft fs → Except ReadError (Row fs)
  | [], _ => .ok ()
  | f :: fs, (content, rest) => do
    let a ← match content.or f.absent.inObject? with
      | some a => pure a
      | none => throw (.mismatch (.missingField f.name))
    return (a, ← complete fs rest)

end Draft

namespace Row

/-- The contents of fields from the elements of an array that ends at `cut`, and the elements that
are left. The error for an absent element is `short` of its place. -/
def ofElements (short : Nat → ReadError) (cut : Option Fault) :
    (fs : List Field) → (place : Nat) → List Value → Except ReadError (Row fs × List Value)
  | [], _, vs => .ok ((), vs)
  | f :: fs, place, v :: vs => do
    let a ← f.read v
    let (row, rest) ← ofElements short cut fs (place + 1) vs
    return ((a, row), rest)
  | f :: fs, place, [] => do
    ReadError.passing (Passed.of cut)
    let a ← match f.absent.inArray? with
      | some a => pure a
      | none => throw (short place)
    let (row, rest) ← ofElements short cut fs (place + 1) []
    return ((a, row), rest)

end Row

namespace Schema

variable {α : Type}

/-- The length of the array form, in words. -/
def arrayForm (s : Schema α) : String :=
  "struct " ++ s.title ++ " with " ++ toString s.fields.length
    ++ (if s.fields.length = 1 then " element" else " elements")

/-- The draft after one more member. -/
def member (s : Schema α) (draft : Draft s.fields) (member : Except Flaw String × Value) :
    Except ReadError (Draft s.fields) := do
  let name ← ReadError.ofToken member.1
  match ← draft.enter s.fields name member.2 with
  | some draft => return draft
  | none =>
    if s.closed then throw (.mismatch (.unknownField name (s.fields.map Field.name)))
    ReadError.passing member.2.skip
    return draft

/-- A record, where `excess` is the error for an array with more elements than fields, given their
number. -/
def readWith (excess : Nat → ReadError) (s : Schema α) : Reader α
  | .object members ending => do
    let draft ← members.foldlM s.member (Draft.blank s.fields)
    ReadError.passing (Passed.of ending.fault?)
    return s.build (← draft.complete s.fields)
  | .array elements cut => do
    let short place := .mismatch (.wrongLength place s.arrayForm)
    let (row, rest) ← Row.ofElements short cut s.fields 0 elements
    unless rest.isEmpty do throw (excess elements.length)
    ReadError.passing (Passed.of cut)
    return s.build row
  | v => ReadError.unexpected v ("struct " ++ s.title)

/-- A record of a text. An array that goes on after the last field breaks the text there. -/
def read (s : Schema α) : Reader α :=
  s.readWith fun _ => .fault .malformed

end Schema

end ShaderVariants.Json
