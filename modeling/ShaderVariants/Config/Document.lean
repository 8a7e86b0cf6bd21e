import ShaderVariants.Config
import ShaderVariants.Json.Schema

/-!
# Reading a macro configuration

The document is an object. Its member `all` lists the names of groups in order, and the other
members give the groups by name; a member that is not listed is ignored, though it has to be a
proper value. A name that is listed twice gives two equal groups.

Since a member may be a group or not, it is kept as a value first. `Value.settle` reads any value
completely: no token may be flawed, containers may be nested only so deep, and of several members of
one name the last one is kept.
-/

namespace ShaderVariants

open Json (Fault Flaw Value Reader Schema ReadError Mismatch Ending)
open Json.Field (required)

namespace Json.Value

/-- The fault that a reader of the whole value meets at a token. -/
def whole {α : Type} : Except Flaw α → Except Fault α
  | .ok a => .ok a
  | .error f => .error f.reading

/-- Members in the order of their names with one more, which replaces the one of its name. -/
def insertMember (name : String) (v : Value) : List (String × Value) → List (String × Value)
  | [] => [(name, v)]
  | (n, w) :: ms =>
    if name < n then (name, v) :: (n, w) :: ms
    else if name = n then (name, v) :: ms
    else (n, w) :: insertMember name v ms

mutual

/-- The value with every part read, or the first fault in it. Containers may be nested `room`
deep. The members of an object are put in the order of their names, the last of each name. -/
def settle (room : Nat) : Value → Except Fault Value
  | atom a => (whole a).map fun a => .atom (.ok a)
  | text s => (whole s).map fun s => .text (.ok s)
  | missing f => .error f
  | array elements cut =>
    match room with
    | 0 => .error .malformed
    | room + 1 => do
      let settled ← settleElements room elements
      match cut with
      | none => return .array settled none
      | some f => throw f
  | object members ending =>
    match room with
    | 0 => .error .malformed
    | room + 1 => do
      let settled ← settleMembers room [] members
      match ending.fault? with
      | none => return .object (settled.map fun m => (.ok m.1, m.2)) .closed
      | some f => throw f

/-- The same for elements. -/
def settleElements (room : Nat) : List Value → Except Fault (List Value)
  | [] => .ok []
  | v :: vs => do
    let v ← settle room v
    return v :: (← settleElements room vs)

/-- The same for members, which are entered among those settled before. -/
def settleMembers (room : Nat) (before : List (String × Value)) :
    List (Except Flaw String × Value) → Except Fault (List (String × Value))
  | [] => .ok before
  | (name, v) :: ms => do
    let name ← whole name
    let v ← settle room v
    settleMembers room (insertMember name v before) ms

end

end Json.Value

namespace MacroGroup

/-- The record of a group (`RawMacroGroup`): its macros, and its kind by number. -/
def schema : Schema (List String × Int) where
  title := "RawMacroGroup"
  fields := [required "macros" (Reader.list Reader.text), required "type" Reader.integer64]
  closed := false
  build := fun (macros, kind, ()) => (macros, kind)

/-- The error for an array with more elements than the group has fields. -/
def excess (length : Nat) : ReadError :=
  .mismatch (.wrongLength length "fewer elements in array")

/-- The group that a settled value describes, under its name. -/
def ofValue (name : String) (v : Value) : Except ReadError MacroGroup :=
  (schema.readWith excess v).map fun (macros, kind) =>
    { name, kind := GroupKind.ofInt kind, macros }

end MacroGroup

/-- The parts of a configuration's document (`RawMacroConfig`). -/
structure ConfigDocument where
  /-- The names of the groups in order. -/
  names : List String
  /-- The values of the other members. -/
  members : Table String Value

namespace ConfigDocument

/-- How deep the values of members may be nested: the document itself is one container more. -/
def memberRoom : Nat :=
  126

/-- The parts of a document after one more member; the list of names is there at most once. -/
def member (parts : Option (List String) × Table String Value) (m : Except Flaw String × Value) :
    Except ReadError (Option (List String) × Table String Value) := do
  let name ← ReadError.ofToken m.1
  if name = "all" then
    if parts.1.isSome then throw (.mismatch (.duplicateField name))
    return (some (← Reader.list Reader.text m.2), parts.2)
  else
    let v ← (m.2.settle memberRoom).mapError .fault
    return (parts.1, parts.2.insert name v)

/-- The parts of a document. -/
def read : Reader ConfigDocument
  | .object members ending => do
    let (names, members) ← members.foldlM member (none, Table.empty)
    ReadError.passing (Json.Passed.of ending.fault?)
    match names with
    | some names => return ⟨names, members⟩
    | none => throw (.mismatch (.missingField "all"))
  | v => ReadError.unexpected v "struct RawMacroConfig"

end ConfigDocument

/-- Why a text gives no configuration. -/
inductive ConfigTextError where
  /-- It is not read as a configuration's document. -/
  | unread (e : ReadError)
  /-- A group is listed and has no member. -/
  | missingGroup (name : String)
  /-- The groups are not acceptable. -/
  | invalid (e : ConfigError)
deriving DecidableEq

namespace ConfigTextError

/-- The error in words. -/
def message : ConfigTextError → String
  | unread _ => "the macro configuration is not valid json"
  | missingGroup name => "macro group `" ++ name ++ "` is listed but not defined"
  | invalid e => e.message

end ConfigTextError

namespace ConfigDocument

/-- The group listed under a name. -/
def group (d : ConfigDocument) (name : String) : Except ConfigTextError MacroGroup :=
  match d.members.get? name with
  | none => .error (.missingGroup name)
  | some v => (MacroGroup.ofValue name v).mapError .unread

/-- The configuration that a document describes. Every listed group is read before any of them is
judged. -/
def config (d : ConfigDocument) : Except ConfigTextError MacroConfig := do
  let groups ← d.names.mapM d.group
  (MacroConfig.ofGroups groups).mapError .invalid

end ConfigDocument

/-- The configuration that a text holds (`parse_str`). -/
def MacroConfig.ofText (text : String) : Except ConfigTextError MacroConfig := do
  let d ← (Json.Document.read ConfigDocument.read text).mapError .unread
  d.config

end ShaderVariants
