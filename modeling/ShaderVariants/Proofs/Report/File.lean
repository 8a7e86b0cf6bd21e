import ShaderVariants.Proofs.Resource.File

/-!
# Reports in files

The resource table of a report in a file is stored by one edit (`normalizeFile_eq_ok`). It may take
the place of the report, but a resource table is no report itself: its only member is no field of
one, so it reads as the report without entry points, whatever its rows hold. The second replacement
of a file therefore fails, and so does every one after it, and the file stays as the first one left
it (`replaceAll_of_replaced`).
-/

namespace ShaderVariants.Report

open Store (Edit)

variable {s stored : Store} {p raw output : Path} {tables : Tables} {bundle : ResourceBundle}
  {text : String}

/-! ## Storing the resource table -/

/-- A resource table is made of the text of a report, and stored by writing its own text. -/
theorem normalizeFile_eq_ok (h : normalizeFile s raw output tables = .ok (bundle, stored)) :
    (∃ text, s.content raw = .ok (.text text) ∧ bundleOfText text tables = .ok bundle) ∧
      ∃ e, s.writing output (.text bundle.text) = .ok e ∧ stored = e.on s := by
  unfold normalizeFile at h
  obtain ⟨text, hread, h⟩ := Sequence.bind_eq_ok_iff.1 h
  obtain ⟨made, hmade, h⟩ := Sequence.bind_eq_ok_iff.1 h
  obtain ⟨saved, hsaved, h⟩ := Sequence.bind_eq_ok_iff.1 h
  cases h
  rw [Sequence.ofExcept_eq_ok_iff, Sequence.mapError_eq_ok_iff, Store.read_eq_ok_iff] at hread
  exact ⟨⟨text, hread, hmade⟩, ResourceBundle.save_eq_ok (Sequence.ofExcept_eq_ok_iff.1 hsaved)⟩

/-- The resource table of a report in a file is stored exactly if the report is read, it has the
table, and the text of the table can be written. -/
theorem normalizeFile_eq_ok_iff :
    normalizeFile s raw output tables = .ok (bundle, stored) ↔ ∃ text, s.read raw = .ok text ∧
      bundleOfText text tables = .ok bundle ∧ s.write output bundle.text = .ok stored := by
  unfold normalizeFile
  simp only [Sequence.bind_eq_ok_iff, Sequence.ofExcept_eq_ok_iff, Sequence.mapError_eq_ok_iff,
    ResourceBundle.save]
  constructor
  · rintro ⟨text, hread, made, hmade, saved, hsaved, hstored⟩
    cases hstored
    exact ⟨text, hread, hmade, hsaved⟩
  · rintro ⟨text, hread, hmade, hsaved⟩
    exact ⟨text, hread, bundle, hmade, stored, hsaved, rfl⟩

/-- Once the report was read and its resource table made, the table is left to be saved. -/
theorem normalizeFile_of_bundle (hread : s.read raw = .ok text)
    (hbundle : bundleOfText text tables = .ok bundle) :
    normalizeFile s raw output tables = (do
      let stored ← Halt.ofExcept (bundle.save s output)
      return (bundle, stored)) := by
  unfold normalizeFile
  rw [hread]
  show (bundleOfText text tables >>= _) = _
  rw [hbundle]
  rfl

/-- The resource table of a report that is read is stored where its text can be written. -/
theorem normalizeFile_of_find {place : Place} {e : Edit} (hread : s.read raw = .ok text)
    (hbundle : bundleOfText text tables = .ok bundle) (hslash : Path.endsInSlash output = false)
    (hfind : s.find output true = .ok place)
    (hedit : Store.writeEdit (.text bundle.text) place = .ok e) :
    normalizeFile s raw output tables = .ok (bundle, e.on s) := by
  rw [normalizeFile_of_bundle hread hbundle, ResourceBundle.save_of_find hslash hfind hedit]
  rfl

/-- There is no resource table of a report without text. -/
theorem bundleOfText_empty (tables : Tables) (bundle : ResourceBundle) :
    bundleOfText "" tables ≠ .ok bundle := by
  have hempty : ∃ e, ofText "" = .error e := by
    rw [ofText, Json.Document.read, Json.Document.ofText_empty]
    exact ⟨_, rfl⟩
  obtain ⟨e, he⟩ := hempty
  rw [bundleOfText, he]
  intro h
  cases h

/-! ## Resource tables are no reports -/

/-- Why a resource table has no resource table: there are no entry points in it. -/
def noEntryPoints : Halt BundleError :=
  .fault (.report (.malformed (.entryPointCount 0)))

/-- A resource table reads as a report without entries, in which no outputs are listed. -/
theorem read_value_bundle (b : ResourceBundle) :
    schema.read b.value = .ok ⟨[], .empty, [], [], none, [], [], [], []⟩ := by
  have hmember : "resources" ∉ schema.fields.map Json.Field.name := by decide
  -- The rows are passed over as one value, so what they hold does not matter.
  rw [Json.Schema.read, ResourceBundle.value, schema.readWith_of_notMem _ rfl
    (List.forall_mem_singleton.2 ⟨hmember, b.whole_resources⟩)]
  rfl

/-- The text of a resource table has no resource table. -/
theorem bundleOfText_text (b : ResourceBundle) (tables : Tables) :
    bundleOfText b.text tables = .error noEntryPoints := by
  have hread : ofText b.text = .ok ⟨[], .empty, [], [], none, [], [], [], []⟩ := by
    rw [ofText, ResourceBundle.text, Json.Document.read_print _ b.whole_value]
    exact read_value_bundle b
  -- The entry points are counted before the outputs are missed.
  rw [bundleOfText, hread]
  rfl

/-! ## Replacing reports -/

/-- What replaced a report is in its file. -/
theorem content_of_normalizeInPlace (h : normalizeInPlace s p tables = .ok (bundle, stored)) :
    stored.content p = .ok (.text bundle.text) := by
  obtain ⟨⟨text, hcontent, hbundle⟩, e, he, rfl⟩ := normalizeFile_eq_ok h
  refine Store.content_of_writing he fun l hdevice => ?_
  -- A device would swallow the table, but no report was in it.
  cases (Store.content_of_find_device hdevice).symm.trans hcontent
  exact bundleOfText_empty tables bundle hbundle

/-- What holds a resource table is not replaced. -/
theorem normalizeInPlace_of_content (h : s.content p = .ok (.text bundle.text))
    (tables : Tables) : normalizeInPlace s p tables = .error noEntryPoints := by
  have hread : s.read p = .ok bundle.text := Store.read_eq_ok_iff.2 h
  unfold normalizeInPlace normalizeFile
  rw [hread]
  show (bundleOfText bundle.text tables >>= _) = _
  rw [bundleOfText_text]
  rfl

/-- The store after the report in a file was to be replaced, and what came of it. A failure leaves
the store as it is. -/
def replace (p : Path) (s : Store) (tables : Tables) :
    Store × Except (Halt BundleError) ResourceBundle :=
  match normalizeInPlace s p tables with
  | .ok (bundle, stored) => (stored, .ok bundle)
  | .error e => (s, .error e)

/-- The store after the report in a file was to be replaced time and again, and what came of it each
time. -/
def replaceAll (p : Path) : Store → List Tables →
    Store × List (Except (Halt BundleError) ResourceBundle)
  | s, [] => (s, [])
  | s, tables :: later =>
    let (stored, result) := replace p s tables
    let (last, results) := replaceAll p stored later
    (last, result :: results)

/-- Where a file holds a resource table, one attempt changes nothing. -/
theorem replace_of_content (h : s.content p = .ok (.text bundle.text)) (tables : Tables) :
    replace p s tables = (s, .error noEntryPoints) := by
  rw [replace, normalizeInPlace_of_content h]

/-- Where a file holds a resource table, no number of attempts changes anything. -/
theorem replaceAll_of_content (h : s.content p = .ok (.text bundle.text)) (later : List Tables) :
    replaceAll p s later = (s, later.map fun _ => .error noEntryPoints) := by
  induction later with
  | nil => rfl
  | cons tables later ih =>
    rw [replaceAll, replace_of_content h]
    dsimp only
    rw [ih, List.map_cons]

/-- **No report is replaced twice.** The text of a resource table has no resource table, whatever
its rows hold and whatever the tables are. So once a report was replaced, its file holds the text of
the resource table, and every later attempt fails for want of an entry point and changes nothing. -/
theorem replaceAll_of_replaced :
    (∀ (b : ResourceBundle) (tables : Tables), bundleOfText b.text tables = .error noEntryPoints) ∧
      ∀ (s : Store) (p : Path) (tables : Tables) (bundle : ResourceBundle) (stored : Store),
        normalizeInPlace s p tables = .ok (bundle, stored) →
          stored.content p = .ok (.text bundle.text) ∧
            ∀ later, replaceAll p stored later =
              (stored, later.map fun _ => .error noEntryPoints) := by
  refine ⟨bundleOfText_text, fun s p tables bundle stored h => ?_⟩
  have hcontent := content_of_normalizeInPlace h
  exact ⟨hcontent, replaceAll_of_content hcontent⟩

/-! ### A report with one constant -/

/-- A name that looks like the end of the rows with another member after it. -/
def misleading : String :=
  "]\x7d, \"entryPoints\": ["

/-- A report of one entry point and one specialization constant of that name. -/
def constantReport : Json.Value :=
  .ofMembers [
    ("entryPoints", .ofElements [.ofMembers [("name", .ofText "main"), ("mode", .ofText "frag")]]),
    ("outputs", .ofElements []),
    ("specialization_constants",
      .ofElements [.ofMembers [("name", .ofText misleading), ("id", .word 3)]])]

/-- The report is a whole value. -/
theorem whole_constantReport : constantReport.Whole := by
  have hpoint : ∀ m ∈ [("name", Json.Value.ofText "main"), ("mode", .ofText "frag")], m.2.Whole :=
    List.forall_mem_cons.2 ⟨.text _, List.forall_mem_singleton.2 (.text _)⟩
  have hconstant : ∀ m ∈ [("name", Json.Value.ofText misleading), ("id", .word 3)],
      m.2.Whole :=
    List.forall_mem_cons.2 ⟨.text _, List.forall_mem_singleton.2 (Json.Value.whole_word _)⟩
  refine .object (List.forall_mem_cons.2 ⟨?_, List.forall_mem_cons.2 ⟨.array nofun,
    List.forall_mem_singleton.2 ?_⟩⟩)
  · exact .array (List.forall_mem_singleton.2 (.object hpoint))
  · exact .array (List.forall_mem_singleton.2 (.object hconstant))

/-- The report has a resource table with one row. -/
theorem bundleOfText_constantReport :
    ∃ bundle, bundleOfText (String.ofList constantReport.print) .standard = .ok bundle ∧
      bundle.resources.map Resource.name = [misleading] := by
  rw [bundleOfText, ofText, Json.Document.read_print _ whole_constantReport]
  exact ⟨_, rfl, rfl⟩

/-- The only file of a store is replaced if it holds a report with a resource table. -/
theorem exists_normalizeInPlace (hbundle : bundleOfText text tables = .ok bundle) :
    ∃ stored, normalizeInPlace
      { home := [], nodes := .ofList [(["x.json"], .file (.text text) false)] } "x.json" tables =
        .ok (bundle, stored) := by
  let s : Store := { home := [], nodes := .ofList [(["x.json"], .file (.text text) false)] }
  have hfind : s.find "x.json" true = .ok ⟨["x.json"], some (.file (.text text) false)⟩ :=
    Store.find_of_within 2 (by simp [Path.holdsNul]) rfl (by decide) rfl
  exact ⟨_, normalizeFile_of_find (Store.read_of_find_file hfind) hbundle (by decide) hfind rfl⟩

/-- The report in a file can be replaced by its resource table, and the table by nothing. -/
theorem replaceAll_constantReport :
    ∃ s bundle stored, normalizeInPlace s "x.json" .standard = .ok (bundle, stored) ∧
      bundle.resources.map Resource.name = [misleading] ∧
      stored.content "x.json" = .ok (.text bundle.text) ∧
      replaceAll "x.json" stored [.standard, .standard] =
        (stored, [.error noEntryPoints, .error noEntryPoints]) := by
  obtain ⟨bundle, hbundle, hnames⟩ := bundleOfText_constantReport
  obtain ⟨stored, hreplaced⟩ := exists_normalizeInPlace hbundle
  obtain ⟨hcontent, hlater⟩ := replaceAll_of_replaced.2 _ _ _ _ _ hreplaced
  exact ⟨_, bundle, stored, hreplaced, hnames, hcontent, hlater [.standard, .standard]⟩

end ShaderVariants.Report
