import ShaderVariants.Proofs.Json.Edits
import ShaderVariants.Proofs.Report.File
import ShaderVariants.Report.Document

/-!
# Reports with other members

A report may have members that no schema names, at any of its records, and its objects may have
their members in any order. Such an edit of a report leaves every category as it is and finds the
same types (`Report.Same`), so any number of them leaves the resource table, or the reason why there
is none (`Report.bundleOfText_of_edited`).
-/

namespace ShaderVariants

open Json (Field Schema Shape Value)
open Json.Reader (Thorough Tolerates Survives)
open Json.Value (Edited)
open Relation (ReflTransGen)

/-! ## The records of a report -/

/-- Entry points are plain records. -/
theorem EntryPoint.plain_schema : schema.Plain := by
  refine ⟨rfl, by decide, ?_⟩
  simp only [schema, List.forall_mem_cons]
  exact ⟨.text _ _, .text _ _, nofun⟩

/-- Variables are plain records. -/
theorem InterfaceVariable.plain_schema : schema.Plain := by
  refine ⟨rfl, by decide, ?_⟩
  simp only [schema, List.forall_mem_cons]
  exact ⟨.text _ _, .text _ _, .word _ _, nofun⟩

/-- Subpass inputs are plain records. -/
theorem SubpassInput.plain_schema : schema.Plain := by
  refine ⟨rfl, by decide, ?_⟩
  simp only [schema, List.forall_mem_cons]
  exact ⟨.text _ _, .word _ _, .word _ _, .word _ _, nofun⟩

/-- Textures are plain records. -/
theorem Texture.plain_schema : schema.Plain := by
  refine ⟨rfl, by decide, ?_⟩
  simp only [schema, List.forall_mem_cons]
  exact ⟨.text _ _, .word _ _, .word _ _, nofun⟩

/-- Uniform buffers are plain records. -/
theorem UniformBuffer.plain_schema : schema.Plain := by
  refine ⟨rfl, by decide, ?_⟩
  simp only [schema, List.forall_mem_cons]
  exact ⟨.text _ _, .word _ _, .word _ _, .word _ _, nofun⟩

/-- Push constants are plain records. -/
theorem PushConstant.plain_schema : schema.Plain := by
  refine ⟨rfl, by decide, ?_⟩
  simp only [schema, List.forall_mem_cons]
  exact ⟨.text _ _, .text _ _, nofun⟩

/-- Specialization constants are plain records. -/
theorem SpecializationConstant.plain_schema : schema.Plain := by
  refine ⟨rfl, by decide, ?_⟩
  simp only [schema, List.forall_mem_cons]
  exact ⟨.text _ _, .word _ _, nofun⟩

/-- Members of blocks are plain records. -/
theorem BlockMember.plain_schema : schema.Plain := by
  refine ⟨rfl, by decide, ?_⟩
  simp only [schema, List.forall_mem_cons]
  exact ⟨.text _ _, .text _ _, .word _ _, nofun⟩

namespace BlockType

/-- The shape of a block's type. -/
def shape : Shape :=
  .record [("name", .other), ("members", .list BlockMember.schema.flat)]

/-- A block's type is walked to its end. -/
theorem thorough_schema : Thorough schema.read := by
  refine Schema.thorough_readWith (by decide) ?_
  simp only [schema, List.forall_mem_cons]
  exact ⟨Json.Reader.thorough_text, BlockMember.plain_schema.thorough.list, nofun⟩

/-- A block's type tolerates edits. -/
theorem tolerates_schema : Tolerates shape schema.read := by
  refine Schema.tolerates_readWith (Schema.fits_record rfl (by decide) rfl) ?_
  simp only [schema, List.forall_mem_cons]
  exact ⟨Json.Reader.tolerates_text _, BlockMember.plain_schema.tolerates.list, nofun⟩

end BlockType

namespace Report

/-- The shape of a report. -/
def shape : Shape :=
  .record [
    ("entryPoints", .list EntryPoint.schema.flat), ("types", .table BlockType.shape),
    ("inputs", .list InterfaceVariable.schema.flat),
    ("subpass_inputs", .list SubpassInput.schema.flat),
    ("outputs", .list InterfaceVariable.schema.flat), ("textures", .list Texture.schema.flat),
    ("ubos", .list UniformBuffer.schema.flat), ("push_constants", .list PushConstant.schema.flat),
    ("specialization_constants", .list SpecializationConstant.schema.flat)]

/-- The fields of a report have different names. -/
theorem nodup_names : schema.names.Nodup := by
  decide

/-- A report is walked to its end. -/
theorem thorough_schema : Thorough schema.read := by
  refine Schema.thorough_readWith nodup_names ?_
  simp only [schema, List.forall_mem_cons]
  exact ⟨EntryPoint.plain_schema.thorough.list, BlockType.thorough_schema.table,
    InterfaceVariable.plain_schema.thorough.list, SubpassInput.plain_schema.thorough.list,
    InterfaceVariable.plain_schema.thorough.list.optional, Texture.plain_schema.thorough.list,
    UniformBuffer.plain_schema.thorough.list, PushConstant.plain_schema.thorough.list,
    SpecializationConstant.plain_schema.thorough.list, nofun⟩

/-! ## Edited reports -/

/-- The reports have the same entries in every category, and find the same types. -/
structure Same (report report' : Report) : Prop where
  entries : report' = { report with types := report'.types }
  types : ∀ name, report'.types.get? name = report.types.get? name

variable {report report' : Report} {tables : Tables} {v v' : Value}

/-- A report is the same as itself. -/
theorem same_self (report : Report) : report.Same report :=
  ⟨rfl, fun _ => rfl⟩

/-- What is the same as the same is the same. -/
theorem Same.trans {report'' : Report} (h : report.Same report') (h' : report'.Same report'') :
    report.Same report'' where
  entries := by rw [h'.entries, h.entries]
  types name := (h'.types name).trans (h.types name)

/-- The same reports have the same resource table, or none for the same reason. -/
theorem Same.bundle_eq (h : report.Same report') (tables : Tables) :
    report'.bundle tables = report.bundle tables := by
  obtain ⟨hentries, htypes⟩ := h
  generalize report'.types = types at hentries htypes
  subst hentries
  have hsize : ({ report with types } : Report).pushConstantSize tables =
      report.pushConstantSize tables := by
    funext c
    unfold pushConstantSize
    rw [htypes]
  unfold bundle pushConstantRows
  rw [hsize]
  rfl

/-- Edits of the types are survived. -/
theorem survives_types : Survives (.table BlockType.shape)
    (Json.Reader.table BlockType.schema.read) := by
  intro v v' t hedited ht
  obtain ⟨t', ht', -⟩ := Json.Reader.table_of_edited BlockType.tolerates_schema hedited ht
  exact ⟨t', ht'⟩

/-- Edits of the types leave what is found. -/
theorem get?_of_follows {t t' : Table String BlockType}
    (h : Json.Reader.Follows (.table BlockType.shape)
      (Json.Reader.table BlockType.schema.read) t t') (name : String) :
    t'.get? name = t.get? name := by
  rcases h with rfl | ⟨v, v', hedited, ht, ht'⟩
  · rfl
  · obtain ⟨read, hread, hsame⟩ := Json.Reader.table_of_edited BlockType.tolerates_schema hedited ht
    obtain rfl : read = t' := Except.ok.inj (hread.symm.trans ht')
    exact hsame name

/-- Of an edited report the same report is read. -/
theorem read_of_edited (hedited : Edited shape v v') (h : schema.read v = .ok report) :
    ∃ report', schema.read v' = .ok report' ∧ report.Same report' := by
  obtain ⟨row, hrow, rfl⟩ := (Schema.readWith_eq_ok_iff nodup_names).1 h
  have hpoints := EntryPoint.plain_schema.tolerates.list
  have hvariables := InterfaceVariable.plain_schema.tolerates.list
  have hsubpass := SubpassInput.plain_schema.tolerates.list
  have htextures := Texture.plain_schema.tolerates.list
  have hbuffers := UniformBuffer.plain_schema.tolerates.list
  have hpush := PushConstant.plain_schema.tolerates.list
  have hconstants := SpecializationConstant.plain_schema.tolerates.list
  have hsurvives : ∀ f ∈ schema.fields, Survives (shape.member (.ok f.name)) f.read := by
    simp only [schema, List.forall_mem_cons]
    exact ⟨hpoints.survives, survives_types, hvariables.survives, hsubpass.survives,
      hvariables.optional.survives, htextures.survives, hbuffers.survives, hpush.survives,
      hconstants.survives, nofun⟩
  obtain ⟨row', hrow', hfollows⟩ :=
    hrow.edited (Schema.fits_record rfl nodup_names rfl) hedited hsurvives
  -- All fields contain what they did, but the types may be in another order.
  refine ⟨schema.build row', (Schema.readWith_eq_ok_iff nodup_names).2 ⟨row', hrow', rfl⟩, ?_⟩
  obtain ⟨entryPoints, types, inputs, subpassInputs, outputs, textures, uniformBuffers,
    pushConstants, constants, _⟩ := row
  obtain ⟨entryPoints', types', inputs', subpassInputs', outputs', textures', uniformBuffers',
    pushConstants', constants', _⟩ := row'
  obtain ⟨hpoints', htypes', hinputs', hsubpass', houtputs', htextures', hbuffers', hpush',
    hconstants', -⟩ := hfollows
  obtain rfl := hpoints'.eq hpoints
  obtain rfl := hinputs'.eq hvariables
  obtain rfl := hsubpass'.eq hsubpass
  obtain rfl := houtputs'.eq hvariables.optional
  obtain rfl := htextures'.eq htextures
  obtain rfl := hbuffers'.eq hbuffers
  obtain rfl := hpush'.eq hpush
  obtain rfl := hconstants'.eq hconstants
  exact ⟨rfl, get?_of_follows htypes'⟩

/-- Of a report that was edited any number of times the same report is read. -/
theorem read_of_edits (hedits : ReflTransGen (Edited shape) v v') (h : schema.read v = .ok report) :
    ∃ report', schema.read v' = .ok report' ∧ report.Same report' := by
  induction hedits with
  | refl => exact ⟨report, h, same_self report⟩
  | tail _ hedited ih =>
    obtain ⟨between, hbetween, hsame⟩ := ih
    obtain ⟨report', hreport', hsame'⟩ := read_of_edited hedited hbetween
    exact ⟨report', hreport', hsame.trans hsame'⟩

/-- A report that was edited any number of times is written by some text. -/
theorem written_of_edits (hedits : ReflTransGen (Edited shape) v v') (h : v.Written) :
    v'.Written := by
  induction hedits with
  | refl => exact h
  | tail _ hedited ih => exact hedited.written ih

/-- **What no schema names is of no account, and neither is the order of members.** A text from
which a report is read writes a value. After any number of edits the value is written by a text, and
whichever text writes it has the same resource table, or none for the same reason: edits insert
members that are no fields in any record of the report, with any values, or change the order of the
members of any object. -/
theorem bundleOfText_of_edited {text : String} (h : ofText text = .ok report) :
    (∃ v : Value, v.Writes text.toList) ∧
      ∀ v v' : Value, v.Writes text.toList → ReflTransGen (Edited shape) v v' →
        (∃ text' : String, v'.Writes text'.toList) ∧
          ∀ (text' : String) (tables : Tables), v'.Writes text'.toList →
            bundleOfText text' tables = bundleOfText text tables := by
  constructor
  · obtain ⟨v, hv, -⟩ := (Json.Document.read_eq_ok_iff thorough_schema).1 h
    exact ⟨v, hv⟩
  · intro v v' hv hedits
    constructor
    · obtain ⟨cs, hcs⟩ := written_of_edits hedits ⟨_, hv⟩
      exact ⟨String.ofList cs, by rwa [String.toList_ofList]⟩
    · intro text' tables hv'
      have hread : schema.read v = .ok report := by
        rw [← Json.Document.read_of_writes schema.read hv]
        exact h
      obtain ⟨report', hreport', hsame⟩ := read_of_edits hedits hread
      have htext' : ofText text' = .ok report' := by
        rw [ofText, Json.Document.read_of_writes schema.read hv', hreport']
      rw [bundleOfText, bundleOfText, h, htext']
      dsimp only
      rw [hsame.bundle_eq]

/-! ### A report with a member that no schema names -/

/-- A value of several levels, with brackets and quotes in a text. -/
def foreign : Value :=
  .ofMembers [("entryPoints", .ofElements [.ofText misleading, .ofElements [.word 7]])]

/-- The report with one constant, and a foreign member in the constant. -/
def sprinkledReport : Value :=
  .ofMembers [
    ("entryPoints", .ofElements [.ofMembers [("name", .ofText "main"), ("mode", .ofText "frag")]]),
    ("outputs", .ofElements []),
    ("specialization_constants",
      .ofElements [.ofMembers [("name", .ofText misleading), ("debug", foreign), ("id", .word 3)]])]

/-- The report with the foreign member, and its own members in another order. -/
def shuffledReport : Value :=
  .ofMembers [
    ("outputs", .ofElements []),
    ("specialization_constants",
      .ofElements [.ofMembers [("name", .ofText misleading), ("debug", foreign), ("id", .word 3)]]),
    ("entryPoints", .ofElements [.ofMembers [("name", .ofText "main"), ("mode", .ofText "frag")]])]

/-- The foreign value is a whole value. -/
theorem whole_foreign : foreign.Whole := by
  have hword : (Value.ofElements [.word 7]).Whole :=
    .array (List.forall_mem_singleton.2 (Value.whole_word 7))
  exact .object (List.forall_mem_singleton.2 (.array (List.forall_mem_cons.2
    ⟨.text _, List.forall_mem_singleton.2 hword⟩)))

/-- The foreign member is inserted with one edit. -/
theorem edited_sprinkledReport : Edited shape constantReport sprinkledReport := by
  have hconstant : Edited SpecializationConstant.schema.flat
      (.ofMembers [("name", .ofText misleading), ("id", .word 3)])
      (.ofMembers [("name", .ofText misleading), ("debug", foreign), ("id", .word 3)]) :=
    @Edited.insert _ _ _ [(.ok "name", .ofText misleading)] [(.ok "id", .word 3)]
      (Schema.lacks_flat (by decide)) ⟨_, whole_foreign.writes⟩
  have hconstants : Edited (shape.member (.ok "specialization_constants"))
      (.ofElements [.ofMembers [("name", .ofText misleading), ("id", .word 3)]])
      (.ofElements [.ofMembers
        [("name", .ofText misleading), ("debug", foreign), ("id", .word 3)]]) :=
    @Edited.element _ _ _ [] [] hconstant
  exact @Edited.member _ _ _ _ [(.ok "entryPoints", _), (.ok "outputs", _)] [] hconstants

/-- The members are shuffled with another. -/
theorem edited_shuffledReport : Edited shape sprinkledReport shuffledReport :=
  .permute (by decide) (@List.perm_append_comm _ [_] [_, _])

/-- The resource table of the shuffled report has the row of the constant. -/
theorem bundleOfText_of_edited_shuffled :
    ∃ text bundle, shuffledReport.Writes text.toList ∧
      bundleOfText text .standard = .ok bundle ∧
      bundle.resources.map Resource.name = [misleading] := by
  have hreport : ∃ report, ofText (String.ofList constantReport.print) = .ok report := by
    rw [ofText, Json.Document.read_print _ whole_constantReport]
    exact ⟨_, rfl⟩
  obtain ⟨report, hreport⟩ := hreport
  have hwrites : constantReport.Writes (String.ofList constantReport.print).toList := by
    rw [String.toList_ofList]
    exact whole_constantReport.writes
  have hedits : ReflTransGen (Edited shape) constantReport shuffledReport :=
    .tail (.single edited_sprinkledReport) edited_shuffledReport
  obtain ⟨⟨text, htext⟩, hsame⟩ := (bundleOfText_of_edited hreport).2 _ _ hwrites hedits
  obtain ⟨bundle, hbundle, hnames⟩ := bundleOfText_constantReport
  exact ⟨text, bundle, htext, (hsame text .standard htext).trans hbundle, hnames⟩

end Report

end ShaderVariants
