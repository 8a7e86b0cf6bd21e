import ShaderVariants.Proofs.Report.Rows
import ShaderVariants.Proofs.Resource.File

/-!
# Changing how resources are bound

A request to change the mode of a name is about the first row of the name (`Leads`): it is granted
if there is such a row and it allows the mode, and then changes this row and no other
(`setMode_eq_true_iff`, `setMode_of_true`). A table that is saved and loaded again is the same
(`Request.result_reload`).

So whatever is asked of a table that was made of a report, its rows stay what they were but for
their modes, and only uniform buffers are dynamic (`Kept`): one request keeps this (`Kept.result`),
and therefore any number of requests does (`Kept.serve`).
-/

namespace ShaderVariants.ResourceBundle

open Store (Edit)

variable {s t : Store} {p : Path} {original b : ResourceBundle} {name : String}
  {mode : BindingMode} {r : Resource} {rows rows' : List Resource}

/-! ## Requests for a mode -/

/-- The row is the first one of the name. -/
structure Leads (name : String) (rows before : List Resource) (r : Resource)
    (after : List Resource) : Prop where
  rows : rows = before ++ r :: after
  others : ∀ q ∈ before, q.name ≠ name
  name : r.name = name

/-- A row of a name is found if and only if it is the first one. -/
theorem find?_eq_some_iff :
    b.find? name = some r ↔ ∃ before after, Leads name b.resources before r after := by
  rw [find?, List.find?_eq_some_iff_append]
  simp only [decide_eq_true_eq, Bool.not_eq_true', decide_eq_false_iff_not]
  constructor
  · rintro ⟨hname, before, after, hrows, hothers⟩
    exact ⟨before, after, hrows, hothers, hname⟩
  · rintro ⟨before, after, hrows, hothers, hname⟩
    exact ⟨hname, before, after, hrows, hothers⟩

/-- Rows are rebound exactly where the first row of the name allows the mode, and this row alone
changes. -/
theorem rebind_eq_some_iff :
    rebind name mode rows = some rows' ↔ ∃ before r after, Leads name rows before r after ∧
      allows r mode = true ∧ rows' = before ++ { r with mode } :: after := by
  induction rows generalizing rows' with
  | nil =>
    constructor
    · intro h
      cases h
    · rintro ⟨before, r, after, hleads, -⟩
      exact absurd hleads.rows.symm (List.append_ne_nil_of_right_ne_nil _ (List.cons_ne_nil _ _))
  | cons q rows ih =>
    rw [rebind]
    by_cases hname : q.name = name
    · -- The row at the head is the first one of the name, so nothing is looked for after it.
      rw [if_pos hname]
      constructor
      · intro h
        split at h
        · rename_i hallows
          cases h
          exact ⟨[], q, rows, ⟨rfl, nofun, hname⟩, hallows, rfl⟩
        · cases h
      · rintro ⟨before, r, after, hleads, hallows, rfl⟩
        cases before with
        | nil =>
          cases hleads.rows
          exact if_pos hallows
        | cons _ before =>
          cases hleads.rows
          exact absurd hname (hleads.others _ List.mem_cons_self)
    · rw [if_neg hname, Option.map_eq_some_iff]
      constructor
      · rintro ⟨rows', h, rfl⟩
        obtain ⟨before, r, after, hleads, hallows, rfl⟩ := ih.1 h
        refine ⟨q :: before, r, after, ⟨?_, ?_, hleads.name⟩, hallows, rfl⟩
        · rw [hleads.rows, List.cons_append]
        · exact List.forall_mem_cons.2 ⟨hname, hleads.others⟩
      · rintro ⟨before, r, after, hleads, hallows, rfl⟩
        cases before with
        | nil =>
          cases hleads.rows
          exact absurd hleads.name hname
        | cons _ before =>
          cases hleads.rows
          have hothers := (List.forall_mem_cons.1 hleads.others).2
          exact ⟨_, ih.2 ⟨before, r, after, ⟨rfl, hothers, hleads.name⟩, hallows, rfl⟩, rfl⟩

/-- A row allows every mode but one, which only uniform buffers allow. -/
theorem allows_iff : allows r mode = true ↔ mode ≠ .dynamic ∨ r.kind = .uniformBuffer := by
  simp [allows]

/-- A request is granted exactly if a row has the name, and the mode is not dynamic or the first row
of the name is a uniform buffer. -/
theorem setMode_eq_true_iff :
    (b.setMode name mode).1 = true ↔ (∃ r ∈ b.resources, r.name = name) ∧
      (mode ≠ .dynamic ∨ ∃ before r after,
        Leads name b.resources before r after ∧ r.kind = .uniformBuffer) := by
  have hgranted : (b.setMode name mode).1 = true ↔ ∃ rows', rebind name mode b.resources =
      some rows' := by
    unfold setMode
    cases rebind name mode b.resources <;> simp
  simp only [hgranted, rebind_eq_some_iff, allows_iff]
  constructor
  · rintro ⟨_, before, r, after, hleads, hallows, -⟩
    refine ⟨⟨r, ?_, hleads.name⟩, hallows.imp_right fun hkind => ⟨before, r, after, hleads, hkind⟩⟩
    simp [hleads.rows]
  · rintro ⟨⟨r, hr, hname⟩, hmode | ⟨before, r, after, hleads, hkind⟩⟩
    · obtain ⟨q, hq⟩ : ∃ q, b.find? name = some q := by
        rw [← Option.isSome_iff_exists, find?, List.find?_isSome]
        exact ⟨r, hr, by simp [hname]⟩
      obtain ⟨before, after, hleads⟩ := find?_eq_some_iff.1 hq
      exact ⟨_, before, q, after, hleads, .inl hmode, rfl⟩
    · exact ⟨_, before, r, after, hleads, .inr hkind, rfl⟩

/-- A request that is granted changes the mode of the first row of the name and nothing else, and
this row is found then. -/
theorem setMode_of_true (h : (b.setMode name mode).1 = true) :
    ∃ before r after, Leads name b.resources before r after ∧
      (mode ≠ .dynamic ∨ r.kind = .uniformBuffer) ∧
      (b.setMode name mode).2 = ⟨before ++ { r with mode } :: after⟩ ∧
      (b.setMode name mode).2.find? name = some { r with mode } := by
  unfold setMode at h ⊢
  cases hrebind : rebind name mode b.resources with
  | none =>
    rw [hrebind] at h
    cases h
  | some rows =>
    obtain ⟨before, r, after, hleads, hallows, rfl⟩ := rebind_eq_some_iff.1 hrebind
    exact ⟨before, r, after, hleads, allows_iff.1 hallows, rfl,
      find?_eq_some_iff.2 ⟨before, after, rfl, hleads.others, hleads.name⟩⟩

/-- A request that is not granted changes nothing. -/
theorem setMode_of_false (h : (b.setMode name mode).1 = false) : (b.setMode name mode).2 = b := by
  unfold setMode at h ⊢
  split at h
  · cases h
  · rfl

/-! ## Series of requests -/

/-- What is asked of a resource table. -/
inductive Request where
  /-- To bind the resource of a name in a given way. -/
  | bind (name : String) (mode : BindingMode)
  /-- To save the table in a file and to load it from there. -/
  | reload (p : Path)

/-- The store and the table after a request. A table that was not saved or not loaded again stays as
it is. -/
def Request.result : Request → Store × ResourceBundle → Store × ResourceBundle
  | bind name mode, (s, b) => (s, (b.setMode name mode).2)
  | reload p, (s, b) =>
    match b.save s p with
    | .error _ => (s, b)
    | .ok stored =>
      match load stored p with
      | .error _ => (stored, b)
      | .ok loaded => (stored, loaded)

/-- The store and the table after requests. -/
def serve (requests : List Request) (state : Store × ResourceBundle) : Store × ResourceBundle :=
  requests.foldl (fun state request => request.result state) state

/-- A table that is saved and loaded again is the same. -/
theorem Request.result_reload (p : Path) (s : Store) (b : ResourceBundle) :
    ((reload p).result (s, b)).2 = b := by
  rw [result]
  split
  · rfl
  · rename_i stored hsave
    -- What a device swallowed is not loaded, and the table stays as it is.
    by_cases hdevice : ∃ l, s.find p true = .ok ⟨l, some .device⟩
    · obtain ⟨l, hfind⟩ := hdevice
      rw [load_of_save_device hsave hfind]
    · rw [load_of_save hsave fun l hfind => hdevice ⟨l, hfind⟩]

/-- The rows differ in nothing but their modes. -/
def Alike (r r' : Resource) : Prop :=
  r' = { r with mode := r'.mode }

/-- Rows are alike to themselves. -/
theorem alike_same (rows : List Resource) : List.Forall₂ Alike rows rows :=
  List.forall₂_same.2 fun _ _ => rfl

/-- The rows of a table are those of another one but for their modes, and only uniform buffers are
dynamic. -/
structure Kept (original b : ResourceBundle) : Prop where
  rows : List.Forall₂ Alike original.resources b.resources
  dynamic : ∀ r ∈ b.resources, r.mode = .dynamic → r.kind = .uniformBuffer

/-- A table in which nothing is dynamic is kept by itself. -/
theorem kept_self (h : ∀ r ∈ b.resources, r.mode ≠ .dynamic) : b.Kept b where
  rows := alike_same b.resources
  dynamic r hr hmode := absurd hmode (h r hr)

/-- The rows of a report are not dynamic. -/
theorem mode_of_bundle {report : Report} {tables : Tables} (h : report.bundle tables = .ok b)
    (hr : r ∈ b.resources) : r.mode = .static := by
  obtain ⟨mask, -, -, hrows⟩ := Report.bundle_eq_ok_iff_mapM.1 h
  obtain ⟨e, -, he⟩ := Sequence.exists_of_forall₂ (Sequence.mapM_eq_ok_iff.1 hrows) hr
  exact (ReportEntry.rowOf_of_row he).mode

/-- A request for a mode keeps the rows. -/
theorem Kept.setMode (h : original.Kept b) (name : String) (mode : BindingMode) :
    original.Kept (b.setMode name mode).2 := by
  cases hgranted : (b.setMode name mode).1 with
  | false => rwa [setMode_of_false hgranted]
  | true =>
    obtain ⟨before, r, after, hleads, hallows, hchanged, -⟩ := setMode_of_true hgranted
    have hrows := h.rows
    have hdynamic := h.dynamic
    rw [hleads.rows] at hrows hdynamic
    rw [hchanged]
    refine ⟨?_, fun q hq hmode => ?_⟩
    · -- One row differs in its mode, which rows that are alike may do.
      have hone : List.Forall₂ Alike (before ++ r :: after) (before ++ { r with mode } :: after) :=
        List.rel_append (alike_same before) (.cons rfl (alike_same after))
      refine Sequence.forall₂_of_forall₂ hrows.flip hone fun q q₀ q' hq hq' => ?_
      rw [Alike, hq', hq]
    · rcases List.mem_append.1 hq with hq | hq
      · exact hdynamic q (List.mem_append_left _ hq) hmode
      · rcases List.mem_cons.1 hq with rfl | hq
        · exact hallows.resolve_left (not_not_intro hmode)
        · exact hdynamic q (List.mem_append_right _ (List.mem_cons_of_mem _ hq)) hmode

/-- A request keeps the rows. -/
theorem Kept.result {state : Store × ResourceBundle} (h : original.Kept state.2)
    (request : Request) : original.Kept (request.result state).2 := by
  obtain ⟨s, b⟩ := state
  cases request with
  | bind name mode => exact h.setMode name mode
  | reload p => rwa [Request.result_reload]

/-- Any number of requests keep the rows. -/
theorem Kept.serve {state : Store × ResourceBundle} (h : original.Kept state.2)
    (requests : List Request) : original.Kept (serve requests state).2 := by
  induction requests generalizing state with
  | nil => exact h
  | cons request requests ih => exact ih (h.result request)

/-- **Whatever is asked of the resource table of a report, only uniform buffers are dynamic.** After
any series of requests the rows are those of the report but for their modes, a table that is saved
can be loaded unless a device took it, and a request for a mode is granted exactly if a row has the
name, and the mode is not dynamic or the first row of the name is a uniform buffer. It changes the
mode of this row and nothing else if it is granted, and nothing at all if it is not. -/
theorem serve_bundle {report : Report} {tables : Tables} (h : report.bundle tables = .ok original)
    (requests : List Request) (s : Store) :
    ∃ t b, serve requests (s, original) = (t, b) ∧
      (∀ r ∈ b.resources, r.mode = .dynamic → r.kind = .uniformBuffer) ∧
      List.Forall₂ Alike original.resources b.resources ∧
      (∀ p stored, b.save t p = .ok stored →
        load stored p = .ok b ∨ ∃ l, t.find p true = .ok ⟨l, some .device⟩) ∧
      ∀ name mode,
        ((b.setMode name mode).1 = true ↔ (∃ r ∈ b.resources, r.name = name) ∧
          (mode ≠ .dynamic ∨ ∃ before r after,
            Leads name b.resources before r after ∧ r.kind = .uniformBuffer)) ∧
        ((b.setMode name mode).1 = true → ∃ before r after, Leads name b.resources before r after ∧
          (b.setMode name mode).2 = ⟨before ++ { r with mode } :: after⟩ ∧
          (b.setMode name mode).2.find? name = some { r with mode }) ∧
        ((b.setMode name mode).1 = false → (b.setMode name mode).2 = b) := by
  have hstart : original.Kept original := by
    refine kept_self fun r hr => ?_
    rw [mode_of_bundle h hr]
    decide
  have hkept : original.Kept (serve requests (s, original)).2 := hstart.serve requests
  rcases hstate : serve requests (s, original) with ⟨t, b⟩
  rw [hstate] at hkept
  refine ⟨t, b, rfl, hkept.dynamic, hkept.rows, fun p stored hsave => ?_, fun name mode =>
    ⟨setMode_eq_true_iff, fun hgranted => ?_, setMode_of_false⟩⟩
  · by_cases hdevice : ∃ l, t.find p true = .ok ⟨l, some .device⟩
    · exact .inr hdevice
    · exact .inl (load_of_save hsave fun l hfind => hdevice ⟨l, hfind⟩)
  · obtain ⟨before, r, after, hleads, -, hchanged, hfound⟩ := setMode_of_true hgranted
    exact ⟨before, r, after, hleads, hchanged, hfound⟩

/-- A report of an input and two uniform buffers, of which one has the name of the input. -/
def sharingReport : Report where
  entryPoints := [⟨"main", "frag"⟩]
  types := .empty
  inputs := [⟨"a", "vec4", 0⟩]
  subpassInputs := []
  outputs := some []
  textures := []
  uniformBuffers := [⟨"a", 0, 0, 16⟩, ⟨"b", 0, 1, 16⟩]
  pushConstants := []
  specializationConstants := []

/-- Requests for both names, after which the table is saved and loaded again. -/
def sharingRequests : List Request :=
  [.bind "b" .dynamic, .bind "a" .dynamic, .bind "a" .updateAfterBind, .reload "x.json"]

/-- The input is the first row of the shared name, so the uniform buffer of this name is never
bound otherwise. -/
theorem serve_bundle_sharing : ∃ original t b,
    sharingReport.bundle .standard = .ok original ∧
      serve sharingRequests ({ home := [], nodes := .empty }, original) = (t, b) ∧
      b.resources.map Resource.mode = [.updateAfterBind, .static, .dynamic] ∧
      (∀ r ∈ b.resources, r.mode = .dynamic → r.kind = .uniformBuffer) ∧
      (b.setMode "a" .dynamic).2 = b := by
  have hmade : ∃ original last, sharingReport.bundle .standard = .ok original ∧
      (((original.setMode "b" .dynamic).2.setMode "a" .dynamic).2.setMode "a"
        .updateAfterBind).2 = last ∧
      last.resources.map Resource.mode = [.updateAfterBind, .static, .dynamic] ∧
      (last.setMode "a" .dynamic).1 = false := ⟨_, _, rfl, rfl, rfl, rfl⟩
  obtain ⟨original, last, hbundle, hlast, hmodes, hrefused⟩ := hmade
  obtain ⟨t, b, hserve, hdynamic, -, -, hrequests⟩ :=
    serve_bundle hbundle sharingRequests { home := [], nodes := .empty }
  have hreloaded : (serve sharingRequests ({ home := [], nodes := .empty }, original)).2 = _ :=
    Request.result_reload "x.json" { home := [], nodes := .empty } _
  rw [hserve] at hreloaded
  obtain rfl : b = last := hreloaded.trans hlast
  exact ⟨original, t, b, hbundle, hserve, hmodes, hdynamic, (hrequests "a" .dynamic).2.2 hrefused⟩

end ShaderVariants.ResourceBundle
