import ShaderVariants.Json.Printer
import ShaderVariants.Json.Schema
import ShaderVariants.Resource

/-!
# Resource tables as documents

A resource table is stored as an object with the array of its rows, each an object with all fields
in a fixed order. `ResourceBundle.ofText` reads what `ResourceBundle.text` writes.
-/

namespace ShaderVariants

open Json (Reader Schema Value)
open Json.Field (required)

namespace Resource

/-- The record of a row. -/
def schema : Schema Resource where
  title := "ShaderResource"
  fields := [required "stages" Reader.word, required "type" (Reader.choice ResourceKind.named),
    required "mode" (Reader.choice BindingMode.named), required "set" Reader.word,
    required "binding" Reader.word, required "location" Reader.word,
    required "input_attachment_index" Reader.word, required "vec_size" Reader.word,
    required "columns" Reader.word, required "array_size" Reader.word,
    required "offset" Reader.word, required "size" Reader.word,
    required "constant_id" Reader.word, required "qualifiers" Reader.word,
    required "name" Reader.text]
  closed := false
  build := fun (stages, kind, mode, set, binding, location, attachmentIndex, vectorSize, columns,
      arraySize, offset, size, constantId, qualifiers, name, ()) =>
    { stages := ⟨stages⟩, kind, mode, set, binding, location, attachmentIndex, vectorSize, columns,
      arraySize, offset, size, constantId, qualifiers, name }

/-- A row as a value. -/
def value (r : Resource) : Value :=
  .ofMembers [
    ("stages", .word r.stages.bits), ("type", .ofText r.kind.label), ("mode", .ofText r.mode.label),
    ("set", .word r.set), ("binding", .word r.binding), ("location", .word r.location),
    ("input_attachment_index", .word r.attachmentIndex), ("vec_size", .word r.vectorSize),
    ("columns", .word r.columns), ("array_size", .word r.arraySize), ("offset", .word r.offset),
    ("size", .word r.size), ("constant_id", .word r.constantId),
    ("qualifiers", .word r.qualifiers), ("name", .ofText r.name)]

end Resource

namespace ResourceBundle

/-- The record of a table. -/
def schema : Schema ResourceBundle where
  title := "ResourceBundle"
  fields := [required "resources" (Reader.list Resource.schema.read)]
  closed := false
  build := fun (resources, ()) => ⟨resources⟩

/-- A table as a value. -/
def value (b : ResourceBundle) : Value :=
  .ofMembers [("resources", .ofElements (b.resources.map Resource.value))]

/-- The text that a table is stored as. -/
def text (b : ResourceBundle) : String :=
  String.ofList b.value.print

/-- The table that a text holds. -/
def ofText (text : String) : Except Json.ReadError ResourceBundle :=
  Json.Document.read schema.read text

end ResourceBundle

end ShaderVariants
