import ShaderVariants.Proofs.Json.Edits
import ShaderVariants.Proofs.Json.Mismatch

/-!
# Records that overrun

A record of a text may be given as an array of its fields. An array that goes on after the last
field breaks the reading, as a text does that is broken there. In a sound value nothing else does:
the reading of a record breaks exactly where the value overruns in the record (`Schema.Overruns`),
that is, where the first thing that is objected to, in the order of the text, is an array with an
element too many. What stands before it is read: the elements of an array and the entries of a
table, and of a record the fields.

`Reader.BreaksAt` says of a reader in which sound values it breaks. The readers of plain values
never do; lists, tables, optional values and records break where their parts do.
-/

namespace ShaderVariants.Json

open Sequence
open Value (Sound valuesOf mem_valuesOf_iff)

variable {α : Type}

/-- A mismatch is no fault. -/
theorem Mismatches.ne_fault {x : Except ReadError α} (h : Mismatches x) (f : Fault) :
    x ≠ .error (.fault f) := by
  intro hfault
  obtain ⟨m, hm⟩ := h _ hfault
  cases hm

/-- A field without members is none that was repeated, and the missing ones are mismatches. -/
theorem Draft.complete_mismatches {fs : List Field} (draft : Draft fs) :
    Mismatches (Draft.complete fs draft) := by
  induction fs with
  | nil => exact .ok ()
  | cons f fs ih =>
    obtain ⟨content, draft⟩ := draft
    rw [complete]
    cases content.or f.absent.inObject? with
    | some a => exact (ih draft).bind fun row => .ok (a, row)
    | none => exact .mismatch _

namespace Reader

variable {read : Reader α} {p : Value → Prop}

/-- Of sound values the reader objects to those where `p` holds as it does to a broken text, and to
no others. -/
def BreaksAt (read : Reader α) (p : Value → Prop) : Prop :=
  ∀ v : Value, v.Sound → ∀ f, read v = .error (.fault f) ↔ p v ∧ f = .malformed

/-- Where a reader breaks it reads nothing. -/
theorem BreaksAt.not_of_ok (h : BreaksAt read p) {v : Value} (hv : v.Sound) {a : α}
    (ha : read v = .ok a) : ¬p v := by
  intro hp
  cases ha.symm.trans ((h v hv .malformed).2 ⟨hp, rfl⟩)

/-- A reader that meets nothing worse than mismatches never breaks. -/
theorem breaksAt_nowhere (h : ∀ v : Value, v.Sound → Mismatches (read v)) :
    BreaksAt read fun _ => False :=
  fun v hv f => iff_of_false ((h v hv).ne_fault f) fun hp => hp.1

/-- Texts never break. -/
theorem breaksAt_text : BreaksAt text fun _ => False :=
  breaksAt_nowhere fun _ hv => hv.text_mismatches

/-- Words never break. -/
theorem breaksAt_word : BreaksAt word fun _ => False :=
  breaksAt_nowhere fun _ hv => (hv.integer_mismatches _ _ _).map _

/-! ## Lists, tables and optional values -/

/-- An element of an array is broken, and those before it are read. -/
inductive ListOverruns (read : Reader α) (p : Value → Prop) : Value → Prop where
  | element {before after : List Value} {v : Value} (hbefore : ∀ u ∈ before, ∃ a, read u = .ok a)
      (hv : p v) : ListOverruns read p (.ofElements (before ++ v :: after))

/-- The value of a member is broken, and those before it are read. -/
inductive TableOverruns (read : Reader α) (p : Value → Prop) : Value → Prop where
  | member {before after : List (String × Value)} {name : String} {v : Value}
      (hbefore : ∀ m ∈ before, ∃ a, read m.2 = .ok a) (hv : p v) :
      TableOverruns read p (.ofMembers (before ++ (name, v) :: after))

/-- Lists break where their elements do. -/
theorem BreaksAt.list (h : BreaksAt read p) : BreaksAt (list read) (ListOverruns read p) := by
  intro v hv f
  cases hv with
  | atom a => exact iff_of_false (((Sound.atom a).unexpected _).ne_fault f) nofun
  | text s => exact iff_of_false (((Sound.text s).unexpected _).ne_fault f) nofun
  | object hms => exact iff_of_false (((Sound.object hms).unexpected _).ne_fault f) nofun
  | @array vs hvs =>
    have hlist : Reader.list read (.ofElements vs) = .error (.fault f) ↔
        vs.mapM read = .error (.fault f) := by
      rw [Value.ofElements, Reader.list, bind_eq_error_iff]
      exact or_iff_left (by rintro ⟨as, -, has⟩; cases has)
    rw [hlist, mapM_eq_error_iff]
    constructor
    · rintro ⟨before, v, after, rfl, hbefore, hfails⟩
      obtain ⟨hp, rfl⟩ := (h v (hvs v (by simp)) f).1 hfails
      exact ⟨.element hbefore hp, rfl⟩
    · rintro ⟨hoverruns, rfl⟩
      generalize hu : Value.ofElements vs = u at hoverruns
      cases hoverruns with
      | @element before after v hbefore hp =>
        obtain ⟨rfl, -⟩ := Value.array.inj hu
        exact ⟨before, v, after, rfl, hbefore, (h v (hvs v (by simp)) _).2 ⟨hp, rfl⟩⟩

/-- Tables break where their entries do. -/
theorem BreaksAt.table (h : BreaksAt read p) : BreaksAt (table read) (TableOverruns read p) := by
  intro v hv f
  cases hv with
  | atom a => exact iff_of_false (((Sound.atom a).unexpected _).ne_fault f) nofun
  | text s => exact iff_of_false (((Sound.text s).unexpected _).ne_fault f) nofun
  | array hvs => exact iff_of_false (((Sound.array hvs).unexpected _).ne_fault f) nofun
  | @object ms hms =>
    have hmember : ∀ m : String × Value, binding read (.ok m.1, m.2) =
        (read m.2).map fun a => (m.1, a) := fun m => by
      rw [binding, ReadError.ofToken, ok_bind]
      cases read m.2 <;> rfl
    have htable : Reader.table read (.ofMembers ms) = .error (.fault f) ↔
        (ms.mapM fun m => (read m.2).map fun a => (m.1, a)) = .error (.fault f) := by
      rw [Value.ofMembers, Reader.table, List.mapM_map, bind_eq_error_iff]
      simp only [Function.comp_def, hmember]
      exact or_iff_left (by rintro ⟨bindings, -, hbindings⟩; cases hbindings)
    rw [htable, mapM_eq_error_iff]
    simp only [exists_map_iff, map_eq_error_iff]
    constructor
    · rintro ⟨before, m, after, rfl, hbefore, hfails⟩
      obtain ⟨hp, rfl⟩ := (h m.2 (hms m (by simp)) f).1 hfails
      exact ⟨.member hbefore hp, rfl⟩
    · rintro ⟨hoverruns, rfl⟩
      generalize hu : Value.ofMembers ms = u at hoverruns
      cases hoverruns with
      | @member before after name v hbefore hp =>
        obtain rfl := Value.ofMembers_inj hu
        exact ⟨before, (name, v), after, rfl, hbefore,
          (h v (hms (name, v) (by simp)) _).2 ⟨hp, rfl⟩⟩

/-- Optional values break where they do when they are there. -/
theorem BreaksAt.optional (h : BreaksAt read p) (hnull : ¬p (.atom (.ok .null))) :
    BreaksAt (optional read) p := by
  intro v hv f
  unfold Reader.optional
  split
  · exact iff_of_false nofun fun hp => hnull hp.1
  · rw [map_eq_error_iff]
    exact h v hv f

end Reader

open Reader (BreaksAt)

/-! ## Records -/

/-- Elements overrun the fields that they are read for: one of them is broken, or there are more of
them than fields. Those before are read. -/
def Row.Overruns (p : String → Value → Prop) : List Field → List Value → Prop
  | [], vs => vs ≠ []
  | _ :: _, [] => False
  | f :: fs, v :: vs => p f.name v ∨ (∃ a, f.read v = .ok a) ∧ Overruns p fs vs

/-- The members fill fields: each field has no member, or one of which it is read. -/
def Row.Fills (fs : List Field) (ms : List (String × Value)) : Prop :=
  ∀ f ∈ fs, valuesOf f.name ms = [] ∨ ∃ v a, valuesOf f.name ms = [v] ∧ f.read v = .ok a

/-- The reading of a row stops with a fault, or leaves elements, which is one. -/
def Row.Stops {fs : List Field} (x : Except ReadError (Row fs × List Value)) (fault : Fault) :
    Prop :=
  x = .error (.fault fault) ∨
    (∃ row rest, x = .ok (row, rest) ∧ rest ≠ []) ∧ fault = .malformed

variable {p : String → Value → Prop} {fs : List Field}

/-- With one more field in front the reading stops where it did. -/
theorem Row.stops_cons {f : Field} (a : f.Content) {x : Except ReadError (Row fs × List Value)}
    {fault : Fault} :
    @Stops (f :: fs) (x.map fun result => ((a, result.1), result.2)) fault ↔ Stops x fault := by
  unfold Stops
  cases x with
  | error e => simp [Except.map]
  | ok result =>
    obtain ⟨row, rest⟩ := result
    simp [Except.map]

section

variable {short : Nat → ReadError} {f : Field} {a : f.Content} {place : Nat} {v : Value}
  {vs : List Value}

/-- After an element that is read the others are read for the other fields. -/
theorem Row.ofElements_cons (h : f.read v = .ok a) :
    ofElements short none (f :: fs) place (v :: vs) =
      (ofElements short none fs (place + 1) vs).map fun result => ((a, result.1), result.2) := by
  rw [ofElements, h, ok_bind]
  cases ofElements short none fs (place + 1) vs <;> rfl

/-- After the last element a field contains what stands for an absent one in an array. -/
theorem Row.ofElements_nil (h : f.absent.inArray? = some a) :
    ofElements short none (f :: fs) place [] =
      (ofElements short none fs (place + 1) []).map fun result => ((a, result.1), result.2) := by
  rw [ofElements, h]
  cases ofElements short none fs (place + 1) [] <;> rfl

/-- If nothing stands for an absent field, the array is too short. -/
theorem Row.ofElements_nil_of_none (h : f.absent.inArray? = none) :
    ofElements short none (f :: fs) place [] = .error (short place) := by
  rw [ofElements, h]
  rfl

end

/-- Elements overrun their fields where the reading of the row stops. -/
theorem Row.stops_ofElements_iff {short : Nat → ReadError}
    (hshort : ∀ n, ∃ m, short n = .mismatch m)
    (hfields : ∀ f ∈ fs, BreaksAt f.read (p f.name)) {vs : List Value} (hvs : ∀ v ∈ vs, v.Sound)
    (place : Nat) {fault : Fault} :
    Stops (ofElements short none fs place vs) fault ↔ Overruns p fs vs ∧ fault = .malformed := by
  induction fs generalizing vs place with
  | nil => simp [Stops, ofElements, Overruns]
  | cons f fs ih =>
    rw [List.forall_mem_cons] at hfields
    cases vs with
    | nil =>
      refine iff_of_false ?_ fun h => h.1
      cases habsent : f.absent.inArray? with
      | none =>
        obtain ⟨m, hm⟩ := hshort place
        simp [ofElements_nil_of_none habsent, Stops, hm]
      | some a =>
        -- Where no elements are left, none are broken and none are too many.
        have hnone : ¬Overruns p fs [] := by
          cases fs with
          | nil => exact fun h => h rfl
          | cons g gs => exact id
        rw [ofElements_nil habsent, stops_cons, ih hfields.2 hvs]
        exact fun h => hnone h.1
    | cons v vs =>
      rw [List.forall_mem_cons] at hvs
      have hfirst := hfields.1 v hvs.1
      cases hread : f.read v with
      | error e =>
        have hstops : Stops (ofElements short none (f :: fs) place (v :: vs)) fault ↔
            f.read v = .error (.fault fault) := by
          rw [ofElements, hread, error_bind, Stops]
          simp
        rw [hstops, hfirst, Overruns, hread]
        simp
      | ok a =>
        have hnot : ¬p f.name v := hfields.1.not_of_ok hvs.1 hread
        rw [ofElements_cons hread, stops_cons, ih hfields.2 hvs.2, Overruns, hread]
        simp [hnot]

/-- A draft is met by members exactly if they fill the fields. -/
theorem Draft.exists_meets_iff {ms : List (String × Value)} :
    (∃ draft, Meets ms fs (blank fs) draft) ↔ Row.Fills fs ms := by
  induction fs with
  | nil => exact ⟨fun _ => nofun, fun _ => ⟨(), trivial⟩⟩
  | cons f fs ih =>
    have hfield : (∃ content, f.Meets none (valuesOf f.name ms) content) ↔
        valuesOf f.name ms = [] ∨ ∃ v a, valuesOf f.name ms = [v] ∧ f.read v = .ok a := by
      rcases valuesOf f.name ms with _ | ⟨v, _ | ⟨w, vs⟩⟩
      · simp [Field.Meets]
      · simp [Field.Meets]
      · simp [Field.Meets]
    rw [Row.Fills, List.forall_mem_cons, ← hfield]
    show _ ↔ _ ∧ Row.Fills fs ms
    rw [← ih]
    constructor
    · rintro ⟨⟨content, draft⟩, hfirst, hrest⟩
      exact ⟨⟨content, hfirst⟩, draft, hrest⟩
    · rintro ⟨⟨content, hfirst⟩, draft, hrest⟩
      exact ⟨(content, draft), hfirst, hrest⟩

/-- After members that were met, a member breaks the reading if it is the first of a field and is
broken. -/
theorem Draft.enter_eq_fault_iff (hnodup : (fs.map Field.name).Nodup)
    {ms : List (String × Value)} {draft : Draft fs} (hmeets : Meets ms fs (blank fs) draft)
    {name : String} {v : Value} {fault : Fault} :
    enter fs draft name v = .error (.fault fault) ↔
      ∃ f ∈ fs, f.name = name ∧ valuesOf name ms = [] ∧ f.read v = .error (.fault fault) := by
  induction fs with
  | nil => simp [enter]
  | cons f fs ih =>
    obtain ⟨content, draft⟩ := draft
    obtain ⟨hfirst, hrest⟩ := hmeets
    rw [List.map_cons, List.nodup_cons] at hnodup
    by_cases hname : f.name = name
    · subst hname
      -- No other field has the name.
      have honly : (∃ g ∈ f :: fs, g.name = f.name ∧ valuesOf f.name ms = [] ∧
          g.read v = .error (.fault fault)) ↔
            valuesOf f.name ms = [] ∧ f.read v = .error (.fault fault) := by
        constructor
        · rintro ⟨g, hg, hsame, h⟩
          rcases List.mem_cons.1 hg with rfl | hg
          · exact h
          · exact absurd (hsame ▸ List.mem_map_of_mem hg) hnodup.1
        · exact fun h => ⟨f, List.mem_cons_self, rfl, h⟩
      rw [honly]
      rcases hvalues : valuesOf f.name ms with _ | ⟨w, _ | ⟨u, vs⟩⟩
      · rw [hvalues] at hfirst
        obtain rfl : content = none := hfirst
        rw [enter, if_pos rfl, map_eq_error_iff]
        simp
      · rw [hvalues] at hfirst
        obtain ⟨-, a, -, rfl⟩ := hfirst
        rw [enter, if_pos rfl]
        simp
      · rw [hvalues] at hfirst
        exact absurd hfirst id
    · rw [enter_cons _ _ _ hname, map_eq_error_iff, ih hnodup.2 hrest]
      simp [hname]

namespace Schema

variable {s : Schema α}

/-- The value overruns in the record: it is an array whose elements overrun the fields, or an object
in which the member of a field is broken, after members that fill fields. -/
inductive Overruns (s : Schema α) (p : String → Value → Prop) : Value → Prop where
  | elements {vs : List Value} (h : Row.Overruns p s.fields vs) : Overruns s p (.ofElements vs)
  | member {before after : List (String × Value)} {f : Field} {v : Value} (hf : f ∈ s.fields)
      (hbefore : Row.Fills s.fields before) (hfirst : valuesOf f.name before = [])
      (hv : p f.name v) : Overruns s p (.ofMembers (before ++ (f.name, v) :: after))

/-- A member of an open record breaks the reading where the field does. -/
theorem member_eq_fault_iff (hopen : s.closed = false) {draft : Draft s.fields} {name : String}
    {v : Value} (hv : v.Sound) {fault : Fault} :
    s.member draft (.ok name, v) = .error (.fault fault) ↔
      draft.enter s.fields name v = .error (.fault fault) := by
  rw [member, ReadError.ofToken, ok_bind]
  cases draft.enter s.fields name v with
  | error e => simp
  | ok entered =>
    rw [ok_bind]
    cases entered with
    | some draft => simp [pure, Except.pure]
    | none =>
      simp only [hopen, hv.skip]
      simp [ReadError.passing, pure, Except.pure]

/-- Members break the reading at the first of a field that is broken, if those before it fill
fields. -/
theorem foldlM_member_eq_fault_iff (hopen : s.closed = false) (hnodup : s.names.Nodup)
    {ms : List (String × Value)} (hms : ∀ m ∈ ms, m.2.Sound) {fault : Fault} :
    (ms.map fun m => ((.ok m.1 : Except Flaw String), m.2)).foldlM s.member
        (Draft.blank s.fields) = .error (.fault fault) ↔
      ∃ before f v after, ms = before ++ (f.name, v) :: after ∧ f ∈ s.fields ∧
        Row.Fills s.fields before ∧ valuesOf f.name before = [] ∧
        f.read v = .error (.fault fault) := by
  rw [foldlM_eq_error_iff]
  constructor
  · rintro ⟨before, m, after, draft, hsplit, hdraft, hfails⟩
    obtain ⟨before, rest, rfl, rfl, hrest⟩ := List.map_eq_append_iff.1 hsplit
    obtain ⟨⟨name, v⟩, after, rfl, rfl, rfl⟩ := List.map_eq_cons_iff.1 hrest
    obtain ⟨before', hbefore, -, hmeets⟩ := (foldlM_member_eq_ok_iff hnodup).1 hdraft
    obtain rfl := Value.ofMembers_inj (congrArg (Value.object · .closed) hbefore)
    rw [s.member_eq_fault_iff hopen (hms (name, v) (by simp)),
      Draft.enter_eq_fault_iff hnodup hmeets] at hfails
    obtain ⟨f, hf, rfl, hfirst, hread⟩ := hfails
    exact ⟨before, f, v, after, rfl, hf, Draft.exists_meets_iff.1 ⟨draft, hmeets⟩, hfirst, hread⟩
  · rintro ⟨before, f, v, after, rfl, hf, hbefore, hfirst, hread⟩
    obtain ⟨draft, hmeets⟩ := Draft.exists_meets_iff.2 hbefore
    rw [List.forall_mem_append, List.forall_mem_cons] at hms
    refine ⟨_, _, _, draft, by rw [List.map_append, List.map_cons], ?_, ?_⟩
    · exact (foldlM_member_eq_ok_iff hnodup).2
        ⟨before, rfl, fun m hm => .inr ⟨hopen, (hms.1 m hm).passable⟩, hmeets⟩
    · rw [s.member_eq_fault_iff hopen hms.2.1, Draft.enter_eq_fault_iff hnodup hmeets]
      exact ⟨f, hf, rfl, hfirst, hread⟩

/-- **The reading of an open record breaks where the value overruns**, and only there. -/
theorem breaksAt_read (hopen : s.closed = false) (hnodup : s.names.Nodup)
    (hfields : ∀ f ∈ s.fields, BreaksAt f.read (p f.name)) :
    BreaksAt s.read (s.Overruns p) := by
  intro v hv fault
  cases hv with
  | atom a => exact iff_of_false (((Sound.atom a).unexpected _).ne_fault fault) nofun
  | text t => exact iff_of_false (((Sound.text t).unexpected _).ne_fault fault) nofun
  | @array vs hvs =>
    have hoverruns : s.Overruns p (.ofElements vs) ↔ Row.Overruns p s.fields vs := by
      refine ⟨fun h => ?_, .elements⟩
      generalize hu : Value.ofElements vs = u at h
      cases h with
      | elements h => exact (Value.array.inj hu).1 ▸ h
      | member => cases hu
    let short (place : ℕ) : ReadError := .mismatch (.wrongLength place s.arrayForm)
    have hshort : ∀ n, ∃ m, short n = .mismatch m := fun n => ⟨_, rfl⟩
    rw [hoverruns, ← Row.stops_ofElements_iff hshort hfields hvs 0, Value.ofElements, read,
      readWith, Row.Stops]
    cases Row.ofElements short none s.fields 0 vs with
    | error e => simp
    | ok result =>
      obtain ⟨row, _ | ⟨v, rest⟩⟩ := result
      · simp [ReadError.passing, Passed.of, pure, Except.pure]
      · show (Except.error (.fault .malformed) : Except ReadError α) = _ ↔ _
        simp [eq_comm (a := Fault.malformed)]
  | @object ms hms =>
    have hread : s.read (.ofMembers ms) = .error (.fault fault) ↔
        (ms.map fun m => ((.ok m.1 : Except Flaw String), m.2)).foldlM s.member
          (Draft.blank s.fields) = .error (.fault fault) := by
      rw [Value.ofMembers, read, readWith, bind_eq_error_iff]
      refine or_iff_left ?_
      rintro ⟨draft, -, hrest⟩
      have hmismatches : Mismatches (do return s.build (← draft.complete s.fields)) :=
        draft.complete_mismatches.bind fun row => .ok (s.build row)
      exact hmismatches.ne_fault fault hrest
    rw [hread, foldlM_member_eq_fault_iff hopen hnodup hms]
    constructor
    · rintro ⟨before, f, v, after, rfl, hf, hbefore, hfirst, hfails⟩
      obtain ⟨hp, rfl⟩ := (hfields f hf v (hms (f.name, v) (by simp)) fault).1 hfails
      exact ⟨.member hf hbefore hfirst hp, rfl⟩
    · rintro ⟨hoverruns, rfl⟩
      generalize hu : Value.ofMembers ms = u at hoverruns
      cases hoverruns with
      | elements => cases hu
      | @member before after f v hf hbefore hfirst hp =>
        obtain rfl := Value.ofMembers_inj hu
        exact ⟨before, f, v, after, rfl, hf, hbefore, hfirst,
          (hfields f hf v (hms (f.name, v) (by simp)) _).2 ⟨hp, rfl⟩⟩

end Schema

/-! ## Plain records -/

/-- Plain fields do not break. -/
theorem Field.Plain.breaksAt {f : Field} (h : f.Plain) : BreaksAt f.read fun _ => False := by
  cases h with
  | text => exact Reader.breaksAt_text
  | word => exact Reader.breaksAt_word

/-- Elements overrun fields that do not break if there are more of them, and the first are the
fields. -/
theorem Row.overruns_iff_of_plain {vs : List Value} :
    Overruns (fun _ _ => False) fs vs ↔
      ∃ us v after, vs = us ++ v :: after ∧
        List.Forall₂ (fun f u => ∃ a, f.read u = .ok a) fs us := by
  induction fs generalizing vs with
  | nil =>
    constructor
    · intro h
      obtain ⟨v, after, rfl⟩ := List.exists_cons_of_ne_nil h
      exact ⟨[], v, after, rfl, .nil⟩
    · rintro ⟨us, v, after, rfl, -⟩
      exact List.append_ne_nil_of_right_ne_nil _ (List.cons_ne_nil _ _)
  | cons f fs ih =>
    cases vs with
    | nil =>
      refine iff_of_false id ?_
      rintro ⟨us, v, after, h, -⟩
      exact absurd h.symm (List.append_ne_nil_of_right_ne_nil _ (List.cons_ne_nil _ _))
    | cons w vs =>
      rw [Overruns, ih]
      constructor
      · rintro (h | ⟨hw, us, v, after, rfl, hus⟩)
        · exact absurd h id
        · exact ⟨w :: us, v, after, rfl, .cons hw hus⟩
      · rintro ⟨us, v, after, hsplit, hus⟩
        cases hus with
        | @cons _ u _ us hu hus =>
          obtain ⟨rfl, rfl⟩ := List.cons.inj hsplit
          exact .inr ⟨hu, us, v, after, rfl, hus⟩

namespace Schema

/-- The value is an array that goes on after the fields. -/
def Exceeded (s : Schema α) (v : Value) : Prop :=
  ∃ us u after, v = .ofElements (us ++ u :: after) ∧
    List.Forall₂ (fun f u => ∃ a, f.read u = .ok a) s.fields us

/-- A value overruns in a record of fields that do not break if it goes on after them. -/
theorem overruns_iff_exceeded {s : Schema α} {v : Value} :
    s.Overruns (fun _ _ => False) v ↔ s.Exceeded v := by
  constructor
  · intro h
    cases h with
    | elements h =>
      obtain ⟨us, u, after, rfl, hus⟩ := Row.overruns_iff_of_plain.1 h
      exact ⟨us, u, after, rfl, hus⟩
    | member _ _ _ h => exact absurd h id
  · rintro ⟨us, u, after, rfl, hus⟩
    exact .elements (Row.overruns_iff_of_plain.2 ⟨us, u, after, rfl, hus⟩)

/-- A plain record breaks in an array that goes on after its fields, and nowhere else. -/
theorem Plain.breaksAt {s : Schema α} (h : s.Plain) : BreaksAt s.read s.Exceeded := by
  intro v hv f
  rw [← overruns_iff_exceeded]
  exact breaksAt_read h.isOpen h.nodup (fun f hf => (h.fields f hf).breaksAt) v hv f

end Schema

end ShaderVariants.Json
