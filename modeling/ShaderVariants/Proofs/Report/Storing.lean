import ShaderVariants.Proofs.Report.File
import ShaderVariants.Proofs.Resource.File

/-!
# What storing a resource table leaves

Making a resource table and storing it is work on a store, in which every step could change
something and fail later (`Report.normalizing`). Only the last step changes anything, and nothing
fails after it (`Report.normalizing_eq`). So a failure leaves every file as it was, and success
changes no file but the one that the output leads to (`Report.normalizing_outcome`). This is said of
files and not of paths, since other paths may lead to the same file, and the output may be a device
that keeps nothing (`Report.normalizing_elsewhere`).
-/

namespace ShaderVariants

namespace Store

variable {s : Store} {p q : Path} {content written : Content} {e : Edit}

/-- What a path leads to stays as it is when a file is written that it does not lead to. -/
theorem content_on_of_writing (hwrite : s.writing p written = .ok e)
    (h : s.content q = .ok content) (hapart : ∀ l ∈ s.Writes p, l ∉ s.Writes q) :
    (e.on s).content q = .ok content := by
  have hframe : Framed (s.Sees q) s (e.on s) := (framed_of_writing hwrite).symm
  obtain ⟨l, node, hfind, hnode⟩ := exists_of_content h
  have hdir : some node ≠ some .directory := by
    rcases hnode with ⟨executable, rfl⟩ | rfl <;> simp
  obtain ⟨-, -, hat⟩ := find_place hfind hdir
  -- The way leads to the same place, and nothing was written there.
  have hout : outline ((e.on s).find q true) = some (l, lasting (some node)) := by
    rw [← outline_find_congr hframe, hfind, outline]
  rcases hnode with ⟨executable, rfl⟩ | rfl
  · obtain ⟨-, hfind', -⟩ := find_of_outline hout (by simp [lasting])
    have hleads : l ∈ s.Writes q := by
      show outline (s.find q true) = _
      rw [hfind]
      rfl
    have hkept : (e.on s).node? l = s.node? l := Edit.node?_on_of_ne fun htarget =>
      hapart l (mem_writes_of_writing hwrite htarget) hleads
    rw [hkept, hat] at hfind'
    exact content_of_find_file hfind'
  · obtain ⟨-, hfind', hlasting⟩ := find_of_outline hout (by simp [lasting])
    rw [lasting_eq_some hlasting] at hfind'
    rw [content_of_find_device hfind', ← h, content_of_find_device hfind]

end Store

namespace Report

open Store (Edit)

variable {s t : Store} {p raw output : Path} {tables : Tables} {bundle : ResourceBundle}

/-! ## The work step by step -/

/-- Work on a store. It may have changed the store when it fails. -/
abbrev Work (α : Type) :=
  ExceptT (Halt BundleError) (StateM Store) α

namespace Work

/-- What is computed leaves the store. -/
def computing {α : Type} (result : Except (Halt BundleError) α) : Work α :=
  fun s => (result, s)

/-- The text of a file is read. -/
def reading (p : Path) : Work String :=
  fun s => (Halt.ofExcept ((s.read p).mapError (.file p)), s)

/-- A resource table is saved. A file that cannot be written is left. -/
def saving (b : ResourceBundle) (p : Path) : Work Unit :=
  fun s =>
    match b.save s p with
    | .ok stored => (.ok (), stored)
    | .error e => (.error (.fault e), s)

variable {α β : Type} {x : Work α} {f : α → Work β}

/-- After work that gave a result comes what follows it, in the store that it left. -/
theorem bind_of_ok {a : α} (h : x s = (.ok a, t)) : (x >>= f) s = f a t := by
  simp only [bind, ExceptT.bind, ExceptT.mk, StateT.bind, h]
  rfl

/-- After failed work comes nothing, and the store is as it was left. -/
theorem bind_of_error {e : Halt BundleError} (h : x s = (.error e, t)) :
    (x >>= f) s = (.error e, t) := by
  simp only [bind, ExceptT.bind, ExceptT.mk, StateT.bind, h]
  rfl

end Work

open Work (computing reading saving bind_of_ok bind_of_error)

/-- The resource table of the report in one file is made and saved in another. -/
def normalizing (raw output : Path) (tables : Tables) : Work ResourceBundle := do
  let text ← reading raw
  let bundle ← computing (bundleOfText text tables)
  saving bundle output
  return bundle

/-- Nothing but the last step changes the store, and nothing fails after it. -/
theorem normalizing_eq (raw output : Path) (tables : Tables) (s : Store) :
    normalizing raw output tables s =
      match normalizeFile s raw output tables with
      | .ok (bundle, stored) => (.ok bundle, stored)
      | .error e => (.error e, s) := by
  unfold normalizing normalizeFile
  -- One case for each step that can fail, and one for success.
  cases hread : s.read raw with
  | error e =>
    have hreading : reading raw s = (.error (.fault (.file raw e)), s) := by
      rw [reading, hread]
      rfl
    rw [bind_of_error hreading]
    rfl
  | ok text =>
    have hreading : reading raw s = (.ok text, s) := by
      rw [reading, hread]
      rfl
    rw [bind_of_ok hreading]
    show _ = match (bundleOfText text tables >>= _ : Except _ (ResourceBundle × Store)) with
      | .ok (bundle, stored) => (Except.ok bundle, stored)
      | .error e => (Except.error e, s)
    cases hbundle : bundleOfText text tables with
    | error e =>
      have hcomputing : computing (.error e) s = ((.error e : Except _ ResourceBundle), s) := rfl
      rw [bind_of_error hcomputing]
      rfl
    | ok bundle =>
      have hcomputing : computing (.ok bundle) s = (.ok bundle, s) := rfl
      rw [bind_of_ok hcomputing, Sequence.ok_bind]
      cases hsave : bundle.save s output with
      | error e =>
        have hsaving : saving bundle output s = (.error (.fault e), s) := by
          rw [saving, hsave]
        rw [bind_of_error hsaving]
        rfl
      | ok stored =>
        have hsaving : saving bundle output s = (.ok (), stored) := by
          rw [saving, hsave]
        rw [bind_of_ok hsaving]
        rfl

/-! ## What is left -/

/-- A failure leaves the store. -/
theorem normalizing_eq_error {e : Halt BundleError}
    (h : normalizing raw output tables s = (.error e, t)) :
    t = s ∧ normalizeFile s raw output tables = .error e := by
  rw [normalizing_eq] at h
  split at h
  · cases h
  · rename_i hfile
    cases h
    exact ⟨rfl, hfile⟩

/-- Success is that of storing the resource table. -/
theorem normalizing_eq_ok (h : normalizing raw output tables s = (.ok bundle, t)) :
    normalizeFile s raw output tables = .ok (bundle, t) := by
  rw [normalizing_eq] at h
  split at h
  · rename_i hfile
    cases h
    exact hfile
  · cases h

/-- **Storing a resource table changes one file, or none if it fails.** Whatever the failure is, the
store is as it was before. After success only the location that the output leads to has changed, so
every file that another location holds is still there, the report among them. The resource table is
loaded from the output again, unless the output is a device, and then nothing has changed. -/
theorem normalizing_outcome {result : Except (Halt BundleError) ResourceBundle}
    (h : normalizing raw output tables s = (result, t)) :
    (∀ e, result = .error e → normalizeFile s raw output tables = .error e ∧ t = s) ∧
      ∀ bundle, result = .ok bundle →
        normalizeFile s raw output tables = .ok (bundle, t) ∧
        (t.toGround = s.toGround ∧ ∀ l, l ∉ s.Writes output → t.node? l = s.node? l) ∧
        (∀ q content, s.content q = .ok content → (∀ l ∈ s.Writes output, l ∉ s.Writes q) →
          t.content q = .ok content) ∧
        (∃ text, s.content raw = .ok (.text text) ∧
          ((∀ l ∈ s.Writes output, l ∉ s.Writes raw) → t.content raw = .ok (.text text))) ∧
        ((∀ l, s.find output true ≠ .ok ⟨l, some .device⟩) →
          ResourceBundle.load t output = .ok bundle) ∧
        ((∃ l, s.find output true = .ok ⟨l, some .device⟩) → t = s) := by
  constructor
  · rintro e rfl
    exact (normalizing_eq_error h).symm
  · rintro bundle rfl
    have hfile := normalizing_eq_ok h
    obtain ⟨⟨text, htext, -⟩, e, hwrite, rfl⟩ := normalizeFile_eq_ok hfile
    -- What holds of every path that leads elsewhere holds of the report.
    have hkeeps : ∀ q content, s.content q = .ok content →
        (∀ l ∈ s.Writes output, l ∉ s.Writes q) → (e.on s).content q = .ok content :=
      fun q content => Store.content_on_of_writing hwrite
    refine ⟨hfile, ⟨Edit.ground_on e s, fun l hl => ?_⟩, hkeeps,
      ⟨text, htext, hkeeps raw _ htext⟩, fun hdevice => ?_, ?_⟩
    · exact Edit.node?_on_of_ne fun htarget => hl (Store.mem_writes_of_writing hwrite htarget)
    · exact ResourceBundle.load_of_content (Store.content_of_writing hwrite hdevice)
    · rintro ⟨l, hdevice⟩
      rw [Store.writing, hdevice] at hwrite
      cases hwrite
      rfl

/-- A store with a report in one file. -/
def reportStore : Store :=
  { home := []
    nodes := .ofList (Store.fixtures ++
      [(["x.json"], .file (.text (String.ofList constantReport.print)) false)]) }

/-- The report is found under its name. -/
theorem find_reportStore : reportStore.find "x.json" true =
    .ok ⟨["x.json"], some (.file (.text (String.ofList constantReport.print)) false)⟩ :=
  Store.find_of_within 2 (by simp [Path.holdsNul]) rfl (by decide) rfl

/-- The report has a resource table, which is stored where a file can be written. -/
theorem exists_normalizeFile_reportStore :
    ∃ bundle, bundleOfText (String.ofList constantReport.print) .standard = .ok bundle ∧
      ∀ output place e, Path.endsInSlash output = false →
        reportStore.find output true = .ok place →
        Store.writeEdit (.text bundle.text) place = .ok e →
        normalizeFile reportStore "x.json" output .standard = .ok (bundle, e.on reportStore) := by
  obtain ⟨bundle, hbundle, -⟩ := bundleOfText_constantReport
  exact ⟨bundle, hbundle, fun output place e =>
    normalizeFile_of_find (Store.read_of_find_file find_reportStore) hbundle⟩

/-- A resource table that is stored next to its report leaves the report. -/
theorem normalizing_outcome_next : ∃ bundle t,
    normalizing "x.json" "y.json" .standard reportStore = (.ok bundle, t) ∧
      t.content "x.json" = .ok (.text (String.ofList constantReport.print)) ∧
      ResourceBundle.load t "y.json" = .ok bundle := by
  obtain ⟨bundle, -, hstored⟩ := exists_normalizeFile_reportStore
  have hfind : reportStore.find "y.json" true = .ok ⟨["y.json"], none⟩ :=
    Store.find_of_within 2 (by simp [Path.holdsNul]) rfl (by decide) rfl
  have hfile := hstored "y.json" _ _ (by decide) hfind rfl
  have hwork := normalizing_eq "x.json" "y.json" .standard reportStore
  rw [hfile] at hwork
  obtain ⟨-, -, hkeeps, -, hload, -⟩ := (normalizing_outcome hwork).2 bundle rfl
  refine ⟨bundle, _, hwork, hkeeps "x.json" _ (Store.content_of_find_file find_reportStore) ?_,
    hload fun l hdevice => ?_⟩
  · intro l hout hraw
    have hl : Store.outline (reportStore.find "y.json" true) = some (l, none) := hout
    have hl' : Store.outline (reportStore.find "x.json" true) = some (l, none) := hraw
    rw [hfind] at hl
    rw [find_reportStore] at hl'
    have hsame : some ["y.json"] = some ["x.json"] :=
      (congrArg (Option.map Prod.fst) hl).trans (congrArg (Option.map Prod.fst) hl').symm
    exact absurd hsame (by decide)
  · rw [hfind] at hdevice
    cases hdevice

/-- **A file is not its path.** What is stored in a device cannot be loaded from there, and storing
in a file by another path changes what the first path leads to. -/
theorem normalizing_elsewhere :
    ∃ text bundle t, reportStore.content "x.json" = .ok (.text text) ∧
      normalizeFile reportStore "x.json" "/dev/null" .standard = .ok (bundle, reportStore) ∧
      ResourceBundle.load reportStore "/dev/null" = .error (.unread (.fault .truncated)) ∧
      normalizeFile reportStore "x.json" "./x.json" .standard = .ok (bundle, t) ∧
      t.content "x.json" = .ok (.text bundle.text) ∧ bundle.text ≠ text := by
  obtain ⟨bundle, hbundle, hstored⟩ := exists_normalizeFile_reportStore
  have hdevice : reportStore.find "/dev/null" true = .ok ⟨["dev", "null"], some .device⟩ :=
    Store.find_of_within 3 (by simp [Path.holdsNul]) rfl (by decide) rfl
  have hsame : reportStore.find "./x.json" true = reportStore.find "x.json" true := by
    rw [find_reportStore]
    exact Store.find_of_within 3 (by simp [Path.holdsNul]) rfl (by decide) rfl
  have hsaved : bundle.save reportStore "/dev/null" = .ok reportStore := by
    rw [ResourceBundle.save, Store.write_of_find (by decide) hdevice rfl]
    rfl
  have hreplaced := hstored "./x.json" _ _ (by decide) (hsame.trans find_reportStore) rfl
  refine ⟨_, bundle, _, Store.content_of_find_file find_reportStore,
    hstored "/dev/null" _ _ (by decide) hdevice rfl,
    ResourceBundle.load_of_save_device hsaved hdevice, hreplaced, ?_, fun heq => ?_⟩
  · have hwrite : reportStore.writing "x.json" (.text bundle.text) =
        .ok (.put ["x.json"] (.file (.text bundle.text) false)) := by
      rw [Store.writing, find_reportStore]
      rfl
    refine Store.content_of_writing hwrite fun l hfound => ?_
    rw [find_reportStore] at hfound
    cases hfound
  · -- The report has a resource table, and the text of a resource table has none.
    rw [← heq, bundleOfText_text] at hbundle
    cases hbundle

end Report

end ShaderVariants
