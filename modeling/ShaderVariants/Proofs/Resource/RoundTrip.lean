import ShaderVariants.Proofs.Json.Fields
import ShaderVariants.Resource.Document

/-!
# Resource tables are read back

The text of a resource table holds a whole value, from which every row is read back with all its
fields.
-/

namespace ShaderVariants

open Json (Value Row Reader)

/-- The value of a word is whole. -/
theorem Json.Value.whole_word (n : UInt32) : (Value.word n).Whole := by
  have hn : n.toNat < 4294967296 := n.toNat_lt
  refine .count ?_
  unfold Checked.limit64
  omega

namespace Resource

/-- A kind is found under its name. -/
theorem lookup_kind (kind : ResourceKind) :
    Table.lookup kind.label ResourceKind.named = some kind := by
  cases kind <;> rfl

/-- A mode is found under its name. -/
theorem lookup_mode (mode : BindingMode) :
    Table.lookup mode.label BindingMode.named = some mode := by
  cases mode <;> rfl

/-- The value of a row is whole. -/
theorem whole_value (r : Resource) : r.value.Whole := by
  refine .object fun m hm => ?_
  simp only [List.mem_cons, List.not_mem_nil, or_false] at hm
  rcases hm with rfl | rfl | rfl | rfl | rfl | rfl | rfl | rfl | rfl | rfl | rfl | rfl | rfl | rfl |
    rfl
  all_goals first | exact Value.whole_word _ | exact .text _

/-- The contents of the fields of a row. -/
def row (r : Resource) : Row schema.fields :=
  (r.stages.bits, r.kind, r.mode, r.set, r.binding, r.location, r.attachmentIndex, r.vectorSize,
    r.columns, r.arraySize, r.offset, r.size, r.constantId, r.qualifiers, r.name, ())

/-- A row is read back. -/
theorem read_value (r : Resource) : schema.read r.value = .ok r := by
  have hkind : Reader.choice ResourceKind.named (.ofText r.kind.label) = .ok r.kind :=
    Reader.choice_ofText (lookup_kind r.kind)
  have hmode : Reader.choice BindingMode.named (.ofText r.mode.label) = .ok r.mode :=
    Reader.choice_ofText (lookup_mode r.mode)
  have hword := Reader.word_word
  refine schema.readWith_ofMembers _ (by decide) (?_ : Row.ReadFrom schema.fields r.row _)
  exact ⟨⟨rfl, hword _⟩, ⟨rfl, hkind⟩, ⟨rfl, hmode⟩, ⟨rfl, hword _⟩, ⟨rfl, hword _⟩, ⟨rfl, hword _⟩,
    ⟨rfl, hword _⟩, ⟨rfl, hword _⟩, ⟨rfl, hword _⟩, ⟨rfl, hword _⟩, ⟨rfl, hword _⟩, ⟨rfl, hword _⟩,
    ⟨rfl, hword _⟩, ⟨rfl, hword _⟩, ⟨rfl, Reader.text_ofText _⟩, trivial⟩

end Resource

namespace ResourceBundle

/-- The array of the rows is whole. -/
theorem whole_resources (b : ResourceBundle) :
    (Value.ofElements (b.resources.map Resource.value)).Whole := by
  refine .array fun v hv => ?_
  obtain ⟨r, -, rfl⟩ := List.mem_map.1 hv
  exact r.whole_value

/-- The value of a table is whole. -/
theorem whole_value (b : ResourceBundle) : b.value.Whole :=
  .object (List.forall_mem_singleton.2 b.whole_resources)

/-- A table is read back from its value. -/
theorem read_value (b : ResourceBundle) : schema.read b.value = .ok b := by
  have hresources : Reader.list Resource.schema.read
      (.ofElements (b.resources.map Resource.value)) = .ok b.resources :=
    Reader.list_ofElements fun r _ => r.read_value
  refine schema.readWith_ofMembers _ (by decide)
    (?_ : Row.ReadFrom schema.fields (b.resources, ()) _)
  exact ⟨⟨rfl, hresources⟩, trivial⟩

/-- **Every resource table is read back from its text**, whatever its rows hold. -/
theorem ofText_text (b : ResourceBundle) : ofText b.text = .ok b := by
  rw [ofText, text, Json.Document.read_print _ b.whole_value]
  exact b.read_value

end ResourceBundle

end ShaderVariants
