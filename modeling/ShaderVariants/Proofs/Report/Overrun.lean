import ShaderVariants.Proofs.Json.Overrun
import ShaderVariants.Proofs.Json.Settled
import ShaderVariants.Proofs.Report.Overflow
import ShaderVariants.Proofs.Report.Tolerance

/-!
# Reports that overrun

A text that writes a sound value is in no way broken, whatever the value is. Still the text of a
report may be refused as if it were: where a record is an array that goes on after the last field,
and what stands before it is read (`Report.Overruns`). This is the only such place
(`Report.bundleOfText_classified`). All other values that are no report are refused for what they
are.
-/

namespace ShaderVariants

open Json (Reader ReadError Value)
open Json.Reader (BreaksAt ListOverruns TableOverruns)

namespace BlockType

/-- The value overruns in a block's type: it goes on after the members, or it overruns in one of
them. -/
def Overruns : Value → Prop :=
  schema.Overruns fun name v =>
    name = "members" ∧ ListOverruns BlockMember.schema.read BlockMember.schema.Exceeded v

/-- The reading of a block's type breaks where the value overruns. -/
theorem breaksAt_schema : BreaksAt schema.read Overruns := by
  refine Json.Schema.breaksAt_read rfl (by decide) ?_
  have hmembers := BlockMember.plain_schema.breaksAt.list
  simp only [schema, List.forall_mem_cons]
  refine ⟨?_, ?_, List.forall_mem_nil _⟩
  · simpa [Json.Field.defaulted] using Reader.breaksAt_text
  · simpa [Json.Field.defaulted] using hmembers

end BlockType

namespace Report

/-- The value overruns in the list or table that a field of a report contains. -/
def PartOverruns : String → Value → Prop
  | "entryPoints" => ListOverruns EntryPoint.schema.read EntryPoint.schema.Exceeded
  | "types" => TableOverruns BlockType.schema.read BlockType.Overruns
  | "inputs" | "outputs" =>
    ListOverruns InterfaceVariable.schema.read InterfaceVariable.schema.Exceeded
  | "subpass_inputs" => ListOverruns SubpassInput.schema.read SubpassInput.schema.Exceeded
  | "textures" => ListOverruns Texture.schema.read Texture.schema.Exceeded
  | "ubos" => ListOverruns UniformBuffer.schema.read UniformBuffer.schema.Exceeded
  | "push_constants" => ListOverruns PushConstant.schema.read PushConstant.schema.Exceeded
  | "specialization_constants" =>
    ListOverruns SpecializationConstant.schema.read SpecializationConstant.schema.Exceeded
  | _ => fun _ => False

/-- The value overruns in a report: somewhere a record is an array that goes on after the last
field, and everything before is read. -/
def Overruns : Value → Prop :=
  schema.Overruns PartOverruns

/-- The reading of a report breaks where the value overruns. -/
theorem breaksAt_schema : BreaksAt schema.read Overruns := by
  refine Json.Schema.breaksAt_read rfl nodup_names ?_
  have hvariables := InterfaceVariable.plain_schema.breaksAt.list
  have houtputs := hvariables.optional fun h => by cases h
  simp only [schema, List.forall_mem_cons]
  exact ⟨EntryPoint.plain_schema.breaksAt.list, BlockType.breaksAt_schema.table, hvariables,
    SubpassInput.plain_schema.breaksAt.list, houtputs, Texture.plain_schema.breaksAt.list,
    UniformBuffer.plain_schema.breaksAt.list, PushConstant.plain_schema.breaksAt.list,
    SpecializationConstant.plain_schema.breaksAt.list, List.forall_mem_nil _⟩

variable {text : String} {v : Value} {tables : Tables}

/-- There is a fault instead of a resource table if the text holds no report, or if its report has
none. -/
theorem bundleOfText_eq_fault_iff {e : BundleError} :
    bundleOfText text tables = .error (.fault e) ↔
      (∃ e', ofText text = .error e' ∧ e = .ofReadError e') ∨
      ∃ report e', ofText text = .ok report ∧ report.bundle tables = .error (.fault e') ∧
        e = .report e' := by
  unfold bundleOfText
  cases ofText text with
  | error e' => simp [eq_comm]
  | ok report =>
    simp only [Except.ok.injEq, reduceCtorEq, false_and, exists_false, false_or,
      exists_and_left, exists_eq_left']
    cases report.bundle tables with
    | ok b => simp [Except.mapError]
    | error halt => cases halt <;> simp [Except.mapError, Halt.map, eq_comm]

/-- The text of a sound value is refused as broken exactly if the value overruns. -/
theorem bundleOfText_eq_unread_iff (hwrites : v.Writes text.toList) (hsound : v.Sound)
    {e : ReadError} :
    bundleOfText text tables = .error (.fault (.unread e)) ↔
      Overruns v ∧ e = .fault .malformed := by
  have hread : ofText text = schema.read v := Json.Document.read_of_writes schema.read hwrites
  rw [bundleOfText_eq_fault_iff, hread]
  constructor
  · rintro (⟨e', hreport, he⟩ | ⟨_, _, _, _, he⟩)
    · cases e' with
      | fault f =>
        cases he
        obtain ⟨hoverruns, rfl⟩ := (breaksAt_schema v hsound f).1 hreport
        exact ⟨hoverruns, rfl⟩
      | mismatch m => cases he
    · cases he
  · rintro ⟨hoverruns, rfl⟩
    exact .inl ⟨_, (breaksAt_schema v hsound .malformed).2 ⟨hoverruns, rfl⟩, rfl⟩

/-- **The text of a sound value is refused as broken exactly if the value overruns.** Otherwise it
has a resource table, it is refused for what the value or the report is, or a push constant block
is too large. -/
theorem bundleOfText_classified {text : String} {v : Value} (hwrites : v.Writes text.toList)
    (hsound : v.Sound) (tables : Tables) :
    (∀ e, bundleOfText text tables = .error (.fault (.unread e)) ↔
      Overruns v ∧ e = .fault .malformed) ∧
    (¬Overruns v →
      (∃ b, bundleOfText text tables = .ok b) ∨
      (∃ m, bundleOfText text tables = .error (.fault (.misshapen m))) ∨
      (∃ e, bundleOfText text tables = .error (.fault (.report e))) ∨
      bundleOfText text tables = .error .overflow ∧
        ∃ report, ofText text = .ok report ∧ report.Overflows tables) := by
  refine ⟨fun e => bundleOfText_eq_unread_iff hwrites hsound, fun hnot => ?_⟩
  cases hbundle : bundleOfText text tables with
  | ok b => exact .inl ⟨b, rfl⟩
  | error halt =>
    cases halt with
    | overflow => exact .inr (.inr (.inr ⟨rfl, bundleOfText_eq_overflow_iff.1 hbundle⟩))
    | fault e =>
      cases e with
      | file p e =>
        -- No file is touched.
        rcases bundleOfText_eq_fault_iff.1 hbundle with ⟨e', -, he⟩ | ⟨_, _, _, _, he⟩
        · cases e' <;> cases he
        · cases he
      | unread e => exact absurd ((bundleOfText_eq_unread_iff hwrites hsound).1 hbundle).1 hnot
      | misshapen m => exact .inr (.inl ⟨m, rfl⟩)
      | report e => exact .inr (.inr (.inl ⟨e, rfl⟩))

/-- A report whose only entry point is an array of these texts. -/
def listing (entry : List String) : Value :=
  .ofMembers [("entryPoints", .ofElements [.ofElements (entry.map .ofText)]),
    ("outputs", .ofElements [])]

/-- The text of such a report. -/
def listingText (entry : List String) : String :=
  String.ofList (listing entry).print

/-- Such a report is a whole value. -/
theorem whole_listing (entry : List String) : (listing entry).Whole := by
  have hentry : (Value.ofElements (entry.map .ofText)).Whole :=
    .array (List.forall_mem_map.2 fun s _ => .text s)
  refine .object (List.forall_mem_cons.2 ⟨.array (List.forall_mem_singleton.2 hentry), ?_⟩)
  exact List.forall_mem_singleton.2 (.array nofun)

/-- The text of such a report writes it. -/
theorem writes_listing (entry : List String) :
    (listing entry).Writes (listingText entry).toList := by
  rw [listingText, String.toList_ofList]
  exact (whole_listing entry).writes

/-- The reading of such a text is the reading of the report. -/
theorem ofText_listing (entry : List String) :
    ofText (listingText entry) = schema.read (listing entry) :=
  Json.Document.read_print _ (whole_listing entry)

/-- An entry point of one text is refused for its length, so the report does not overrun. With three
texts it does. -/
theorem bundleOfText_classified_listing :
    bundleOfText (listingText ["main"]) .standard = .error (.fault (.misshapen
        (.wrongLength 1 "struct RawEntryPoint with 2 elements"))) ∧
      ¬Overruns (listing ["main"]) ∧ Overruns (listing ["main", "frag", "vert"]) := by
  have hshort : bundleOfText (listingText ["main"]) .standard = .error (.fault (.misshapen
      (.wrongLength 1 "struct RawEntryPoint with 2 elements"))) := by
    rw [bundleOfText, ofText_listing]
    rfl
  have hlong : bundleOfText (listingText ["main", "frag", "vert"]) .standard =
      .error (.fault (.unread (.fault .malformed))) := by
    rw [bundleOfText, ofText_listing]
    rfl
  refine ⟨hshort, fun hoverruns => ?_, ?_⟩
  · cases hshort.symm.trans ((bundleOfText_classified (writes_listing ["main"])
      (whole_listing _).sound .standard).1 _ |>.2 ⟨hoverruns, rfl⟩)
  · exact ((bundleOfText_classified (writes_listing ["main", "frag", "vert"])
      (whole_listing _).sound .standard).1 _ |>.1 hlong).1

/-- An entry point of three texts is refused as broken, though the text writes a sound value of few
levels. -/
theorem unread_listing :
    ∃ (text : String) (v : Value), v.Writes text.toList ∧ v.Sound ∧ v.Nests 127 ∧
      bundleOfText text .standard = .error (.fault (.unread (.fault .malformed))) := by
  refine ⟨_, _, writes_listing ["main", "frag", "vert"], (whole_listing _).sound, ?_, ?_⟩
  · have hentry : (Value.ofElements (["main", "frag", "vert"].map .ofText)).Nests 125 :=
      .array (List.forall_mem_map.2 fun s _ => .text (.ok s))
    exact .object (List.forall_mem_cons.2 ⟨.array (List.forall_mem_singleton.2 hentry),
      List.forall_mem_singleton.2 (.array nofun)⟩)
  · rw [bundleOfText, ofText_listing]
    rfl

end Report

end ShaderVariants
