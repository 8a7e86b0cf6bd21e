import ShaderVariants.Stage

/-!
# Resource tables

The resource table of a variant has one row of fixed width for each input, output, texture, buffer
and constant. Every row has every field; one that does not apply to a kind of resource is zero.

The way a row is bound can be changed later by name (`ResourceBundle.setMode`), except that only a
uniform buffer can be bound dynamically.
-/

namespace ShaderVariants

/-- What a row describes (`ShaderResourceType`). -/
inductive ResourceKind where
  | input
  | inputAttachment
  | output
  | imageSampler
  | uniformBuffer
  | pushConstant
  | specializationConstant
deriving DecidableEq

namespace ResourceKind

/-- The kinds by name. -/
def named : List (String × ResourceKind) := [
  ("Input", input), ("InputAttachment", inputAttachment), ("Output", output),
  ("ImageSampler", imageSampler), ("BufferUniform", uniformBuffer),
  ("PushConstant", pushConstant), ("SpecializationConstant", specializationConstant)]

/-- The name of a kind. -/
def label : ResourceKind → String
  | input => "Input"
  | inputAttachment => "InputAttachment"
  | output => "Output"
  | imageSampler => "ImageSampler"
  | uniformBuffer => "BufferUniform"
  | pushConstant => "PushConstant"
  | specializationConstant => "SpecializationConstant"

/-- A kind is found under its name. -/
example : ∀ entry ∈ named, entry.2.label = entry.1 := by decide

end ResourceKind

/-- How a resource is bound when the program runs (`ShaderResourceMode`). -/
inductive BindingMode where
  | static
  | dynamic
  | updateAfterBind
deriving DecidableEq

namespace BindingMode

/-- The modes by name. -/
def named : List (String × BindingMode) :=
  [("Static", static), ("Dynamic", dynamic), ("UpdateAfterBind", updateAfterBind)]

/-- The name of a mode. -/
def label : BindingMode → String
  | static => "Static"
  | dynamic => "Dynamic"
  | updateAfterBind => "UpdateAfterBind"

/-- A mode is found under its name. -/
example : ∀ entry ∈ named, entry.2.label = entry.1 := by decide

end BindingMode

/-- One row of a resource table (`ShaderResource`). -/
structure Resource where
  stages : StageMask
  kind : ResourceKind
  mode : BindingMode := .static
  set : UInt32 := 0
  binding : UInt32 := 0
  location : UInt32 := 0
  attachmentIndex : UInt32 := 0
  vectorSize : UInt32 := 0
  columns : UInt32 := 0
  arraySize : UInt32 := 0
  offset : UInt32 := 0
  size : UInt32 := 0
  constantId : UInt32 := 0
  qualifiers : UInt32 := 0
  name : String
deriving DecidableEq

/-- The resource table of a variant. -/
structure ResourceBundle where
  resources : List Resource
deriving DecidableEq

namespace ResourceBundle

/-- The table without rows. -/
def empty : ResourceBundle :=
  ⟨[]⟩

/-- The first row of a name (`find`). -/
def find? (b : ResourceBundle) (name : String) : Option Resource :=
  b.resources.find? fun r => r.name = name

/-- The row can be bound in the given way: only uniform buffers can be bound dynamically. -/
def allows (r : Resource) (mode : BindingMode) : Bool :=
  mode ≠ .dynamic || r.kind = .uniformBuffer

/-- The rows with the mode of the first row of a name changed, unless there is none or it does not
allow the mode. -/
def rebind (name : String) (mode : BindingMode) : List Resource → Option (List Resource)
  | [] => none
  | r :: rs =>
    if r.name = name then
      if allows r mode then some ({ r with mode } :: rs) else none
    else (rebind name mode rs).map (r :: ·)

/-- The table after a request to bind the first resource of a name in a given way
(`set_resource_mode`), and whether the request was granted. -/
def setMode (b : ResourceBundle) (name : String) (mode : BindingMode) : Bool × ResourceBundle :=
  match rebind name mode b.resources with
  | some resources => (true, ⟨resources⟩)
  | none => (false, b)

/-- The table with one more row, at the end. -/
def push (b : ResourceBundle) (r : Resource) : ResourceBundle :=
  ⟨b.resources ++ [r]⟩

end ResourceBundle

end ShaderVariants
