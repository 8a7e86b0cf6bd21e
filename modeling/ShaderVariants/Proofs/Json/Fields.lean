import ShaderVariants.Json.Schema
import ShaderVariants.Proofs.Json.Recognition
import ShaderVariants.Proofs.Json.Records

/-!
# What a record is read from

A record is read from a value exactly if the value holds a row of contents for its fields
(`Schema.readWith_eq_ok_iff`). An object holds a row if no field has two members, what each field
contains is read from its member or is what stands for an absent one, and the other members can be
passed over; the order of the members is of no account. An array holds a row if its elements are the
contents of the first fields, and the others may be absent. So a record is read back from an object
of its fields in the order of their declaration (`Schema.readWith_ofMembers`).
-/

namespace ShaderVariants.Json

open Sequence
open Value (Passable)

namespace Value

/-- The values that members bind to a name, in order. -/
def valuesOf (name : String) (ms : List (String × Value)) : List Value :=
  (ms.filter fun m => m.1 = name).map Prod.snd

variable {name other : String} {v : Value} {ms : List (String × Value)}

/-- A member of the name gives it one more value. -/
theorem valuesOf_cons_self (name : String) (v : Value) (ms : List (String × Value)) :
    valuesOf name ((name, v) :: ms) = v :: valuesOf name ms := by
  simp [valuesOf]

/-- A member of another name gives it none. -/
theorem valuesOf_cons_of_ne (h : other ≠ name) (v : Value) (ms : List (String × Value)) :
    valuesOf name ((other, v) :: ms) = valuesOf name ms := by
  simp [valuesOf, h]

/-- The values of a name are those before and after a place. -/
theorem valuesOf_append (name : String) (before after : List (String × Value)) :
    valuesOf name (before ++ after) = valuesOf name before ++ valuesOf name after := by
  rw [valuesOf, List.filter_append, List.map_append]
  rfl

/-- The values of a name are those of members. -/
theorem mem_valuesOf_iff : v ∈ valuesOf name ms ↔ (name, v) ∈ ms := by
  simp only [valuesOf, List.mem_map, List.mem_filter, decide_eq_true_eq]
  constructor
  · rintro ⟨⟨_, _⟩, ⟨hm, rfl⟩, rfl⟩
    exact hm
  · intro h
    exact ⟨(name, v), ⟨h, rfl⟩, rfl⟩

/-- A name that no member has has no values. -/
theorem valuesOf_eq_nil (h : ∀ m ∈ ms, m.1 ≠ name) : valuesOf name ms = [] := by
  rw [List.eq_nil_iff_forall_not_mem]
  intro v hv
  exact h _ (mem_valuesOf_iff.1 hv) rfl

end Value

open Value (valuesOf valuesOf_cons_self valuesOf_cons_of_ne mem_valuesOf_iff)

/-! ## Objects -/

namespace Field

/-- What a field contained before and contains after members with these values. -/
def Meets (f : Field) (before : Option f.Content) (vs : List Value) (after : Option f.Content) :
    Prop :=
  match vs with
  | [] => after = before
  | [v] => before = none ∧ ∃ a, f.read v = .ok a ∧ after = some a
  | _ :: _ :: _ => False

/-- What a field contains if its members have these values. -/
def Gives (f : Field) (vs : List Value) (a : f.Content) : Prop :=
  match vs with
  | [] => f.absent.inObject? = some a
  | [v] => f.read v = .ok a
  | _ :: _ :: _ => False

variable {f : Field} {before after : Option f.Content}

/-- After one more member a field contains what it would have contained with this member first. -/
theorem meets_cons {v : Value} {vs : List Value} :
    f.Meets before (v :: vs) after ↔
      ∃ between, f.Meets before [v] between ∧ f.Meets between vs after := by
  cases vs with
  | nil =>
    constructor
    · intro h
      exact ⟨after, h, rfl⟩
    · rintro ⟨between, h, rfl⟩
      exact h
  | cons w vs =>
    constructor
    · intro h
      exact absurd h id
    · -- The field is filled by its first member, so there is no place for a second one.
      rintro ⟨_, ⟨-, a, -, rfl⟩, hlater⟩
      cases vs with
      | nil => cases hlater.1
      | cons u vs => exact absurd hlater id

end Field

namespace Draft

/-- The drafts before and after members. -/
def Meets (ms : List (String × Value)) : (fs : List Field) → Draft fs → Draft fs → Prop
  | [], _, _ => True
  | f :: fs, (content, draft), (content', draft') =>
    f.Meets content (valuesOf f.name ms) content' ∧ Meets ms fs draft draft'

variable {fs : List Field} {draft draft' : Draft fs} {name : String} {v : Value}
  {ms : List (String × Value)}

/-- Members that are no fields leave the draft as it is. -/
theorem meets_of_notMem (h : ∀ m ∈ ms, m.1 ∉ fs.map Field.name) :
    Meets ms fs draft draft' ↔ draft' = draft := by
  induction fs with
  | nil => exact ⟨fun _ => rfl, fun _ => trivial⟩
  | cons f fs ih =>
    obtain ⟨content, draft⟩ := draft
    obtain ⟨content', draft'⟩ := draft'
    have hnone : valuesOf f.name ms = [] :=
      Value.valuesOf_eq_nil fun m hm hname => h m hm (hname ▸ List.mem_cons_self)
    rw [Meets, hnone, ih fun m hm hmem => h m hm (List.mem_cons_of_mem _ hmem), Field.Meets,
      Prod.mk.injEq]

/-- A member is met before those after it. -/
theorem meets_cons {m : String × Value} :
    Meets (m :: ms) fs draft draft' ↔
      ∃ between, Meets [m] fs draft between ∧ Meets ms fs between draft' := by
  induction fs with
  | nil => exact ⟨fun _ => ⟨(), trivial, trivial⟩, fun _ => trivial⟩
  | cons f fs ih =>
    obtain ⟨content, draft⟩ := draft
    obtain ⟨content', draft'⟩ := draft'
    obtain ⟨name, v⟩ := m
    have hfield : f.Meets content (valuesOf f.name ((name, v) :: ms)) content' ↔
        ∃ between, f.Meets content (valuesOf f.name [(name, v)]) between ∧
          f.Meets between (valuesOf f.name ms) content' := by
      by_cases hname : name = f.name
      · subst hname
        rw [valuesOf_cons_self, valuesOf_cons_self]
        exact Field.meets_cons
      · rw [valuesOf_cons_of_ne hname, valuesOf_cons_of_ne hname]
        exact ⟨fun h => ⟨content, rfl, h⟩, fun ⟨_, hsame, h⟩ => hsame ▸ h⟩
    rw [Meets, hfield, ih]
    constructor
    · rintro ⟨⟨c, hc, hc'⟩, d, hd, hd'⟩
      exact ⟨(c, d), ⟨hc, hd⟩, hc', hd'⟩
    · rintro ⟨⟨c, d⟩, ⟨hc, hd⟩, hc', hd'⟩
      exact ⟨⟨c, hc, hc'⟩, d, hd, hd'⟩

/-- A member that is a field is entered where the draft meets it. -/
theorem enter_eq_ok_iff (hnodup : (fs.map Field.name).Nodup) (hname : name ∈ fs.map Field.name) :
    enter fs draft name v = .ok (some draft') ↔ Meets [(name, v)] fs draft draft' := by
  induction fs with
  | nil => cases hname
  | cons f fs ih =>
    obtain ⟨content, draft⟩ := draft
    obtain ⟨content', draft'⟩ := draft'
    rw [List.map_cons, List.nodup_cons] at hnodup
    by_cases hfirst : f.name = name
    · subst hfirst
      -- No other field has the name, so the rest of the draft stays.
      have hother : ∀ m ∈ [(f.name, v)], m.1 ∉ fs.map Field.name :=
        List.forall_mem_singleton.2 hnodup.1
      rw [Meets, meets_of_notMem hother, valuesOf_cons_self]
      cases content with
      | some a =>
        rw [enter, if_pos rfl]
        constructor
        · intro h
          cases h
        · rintro ⟨⟨hnone, -⟩, -⟩
          cases hnone
      | none =>
        rw [enter, if_pos rfl, map_eq_ok_iff]
        constructor
        · rintro ⟨a, ha, h⟩
          cases h
          exact ⟨⟨rfl, a, ha, rfl⟩, rfl⟩
        · rintro ⟨⟨-, a, ha, rfl⟩, rfl⟩
          exact ⟨a, ha, rfl⟩
    · have hrest : name ∈ fs.map Field.name :=
        (List.mem_cons.1 hname).resolve_left fun h => hfirst h.symm
      rw [enter_cons _ _ _ hfirst, Meets, valuesOf_cons_of_ne (Ne.symm hfirst),
        ← ih hnodup.2 hrest, map_eq_ok_iff]
      constructor
      · rintro ⟨entered, hentered, h⟩
        obtain ⟨d, rfl, h⟩ := Option.map_eq_some_iff.1 h
        cases h
        exact ⟨rfl, hentered⟩
      · rintro ⟨hsame, hentered⟩
        cases hsame
        exact ⟨_, hentered, rfl⟩

/-- A name of a field fills one, if it fills any. -/
theorem enter_ne_ok_none (hname : name ∈ fs.map Field.name) :
    enter fs draft name v ≠ .ok none := by
  induction fs with
  | nil => cases hname
  | cons f fs ih =>
    obtain ⟨content, draft⟩ := draft
    by_cases hfirst : f.name = name
    · intro h
      cases content with
      | some a =>
        rw [enter, if_pos hfirst] at h
        cases h
      | none =>
        rw [enter, if_pos hfirst] at h
        obtain ⟨a, -, h⟩ := map_eq_ok_iff.1 h
        cases h
    · have hrest : name ∈ fs.map Field.name :=
        (List.mem_cons.1 hname).resolve_left fun h => hfirst h.symm
      rw [enter_cons _ _ _ hfirst]
      intro h
      obtain ⟨entered, hentered, hnone⟩ := map_eq_ok_iff.1 h
      rw [Option.map_eq_none_iff.1 hnone] at hentered
      exact ih hrest hentered

end Draft

/-- The row that members give to fields. -/
def Row.Gives (ms : List (String × Value)) : (fs : List Field) → Row fs → Prop
  | [], _ => True
  | f :: fs, (a, row) => f.Gives (valuesOf f.name ms) a ∧ Gives ms fs row

/-- Members give the same row if they have the same values for the fields. -/
theorem Row.Gives.congr {ms ms' : List (String × Value)} {fs : List Field} {row : Row fs}
    (h : Gives ms fs row) (hvalues : ∀ f ∈ fs, valuesOf f.name ms' = valuesOf f.name ms) :
    Gives ms' fs row := by
  induction fs with
  | nil => trivial
  | cons f fs ih =>
    rw [List.forall_mem_cons] at hvalues
    obtain ⟨a, row⟩ := row
    rw [Gives, hvalues.1]
    exact ⟨h.1, ih h.2 hvalues.2⟩

/-- The draft that members fill from the start is complete where the members give a row. -/
theorem Row.gives_iff {ms : List (String × Value)} {fs : List Field} {row : Row fs} :
    Gives ms fs row ↔
      ∃ draft, Draft.Meets ms fs (Draft.blank fs) draft ∧ Draft.complete fs draft = .ok row := by
  induction fs with
  | nil => exact ⟨fun _ => ⟨(), trivial, rfl⟩, fun _ => trivial⟩
  | cons f fs ih =>
    obtain ⟨a, row⟩ := row
    -- A field that no member filled contains what stands for an absent one.
    have hfield : f.Gives (valuesOf f.name ms) a ↔
        ∃ content, f.Meets none (valuesOf f.name ms) content ∧
          content.or f.absent.inObject? = some a := by
      rcases valuesOf f.name ms with _ | ⟨v, _ | ⟨w, vs⟩⟩
      · exact ⟨fun h => ⟨none, rfl, h⟩, fun ⟨_, hnone, h⟩ => by rwa [hnone] at h⟩
      · constructor
        · intro h
          exact ⟨some a, ⟨rfl, a, h, rfl⟩, rfl⟩
        · rintro ⟨_, ⟨-, b, hb, rfl⟩, h⟩
          cases h
          exact hb
      · exact ⟨fun h => absurd h id, fun ⟨_, h, _⟩ => absurd h id⟩
    rw [Gives, hfield, ih]
    constructor
    · rintro ⟨⟨content, hmeets, ha⟩, draft, hmeets', hcomplete⟩
      refine ⟨(content, draft), ⟨hmeets, hmeets'⟩, ?_⟩
      rw [Draft.complete, ha, hcomplete]
      rfl
    · rintro ⟨⟨content, draft⟩, ⟨hmeets, hmeets'⟩, hcomplete⟩
      rw [Draft.complete] at hcomplete
      cases ha : content.or f.absent.inObject? with
      | none =>
        rw [ha] at hcomplete
        cases hcomplete
      | some b =>
        rw [ha] at hcomplete
        obtain ⟨_, hb, hrest⟩ := bind_eq_ok_iff.1 hcomplete
        obtain ⟨row', hrow, h⟩ := bind_eq_ok_iff.1 hrest
        cases hb
        cases h
        exact ⟨⟨content, hmeets, ha⟩, draft, hmeets', hrow⟩

namespace Schema

variable {α : Type} {s : Schema α}

/-- The names of the fields. -/
def names (s : Schema α) : List String :=
  s.fields.map Field.name

/-- A member is a field, or an open record passes it over. -/
def Admits (s : Schema α) (m : String × Value) : Prop :=
  m.1 ∈ s.names ∨ s.closed = false ∧ m.2.Passable

/-- A member is entered in the draft if it is a field, and else passed over. -/
theorem member_eq_ok_iff (hnodup : s.names.Nodup) {draft draft' : Draft s.fields}
    {m : Except Flaw String × Value} :
    s.member draft m = .ok draft' ↔
      ∃ name, m.1 = .ok name ∧ s.Admits (name, m.2) ∧
        Draft.Meets [(name, m.2)] s.fields draft draft' := by
  obtain ⟨_ | name, v⟩ := m
  · simp [member, ReadError.ofToken]
  rw [member, ReadError.ofToken, ok_bind]
  simp only [Except.ok.injEq, exists_eq_left']
  by_cases hname : name ∈ s.names
  · have hadmits : s.Admits (name, v) := .inl hname
    rw [← Draft.enter_eq_ok_iff hnodup hname, bind_eq_ok_iff]
    constructor
    · rintro ⟨entered, hentered, h⟩
      cases entered with
      | some draft =>
        cases h
        exact ⟨hadmits, hentered⟩
      | none => exact absurd hentered (Draft.enter_ne_ok_none hname)
    · rintro ⟨-, hentered⟩
      exact ⟨some draft', hentered, rfl⟩
  · -- A foreign member leaves the draft, if the record is open and its value can be passed over.
    have hother : ∀ m ∈ [(name, v)], m.1 ∉ s.fields.map Field.name :=
      List.forall_mem_singleton.2 hname
    rw [Draft.enter_of_notMem draft v hname, ok_bind, Draft.meets_of_notMem hother]
    cases hclosed : s.closed with
    | true =>
      simp only [Admits, hname, hclosed, Bool.true_eq_false, false_and, or_false, iff_false]
      intro h
      cases h
    | false =>
      simp only [Admits, hname, hclosed, false_or, true_and, ← Value.skip_eq_ok_iff]
      cases v.skip with
      | error f => simp [ReadError.passing]
      | ok _ => simp [ReadError.passing, eq_comm]

/-- Members are met one after another. -/
theorem foldlM_member_eq_ok_iff (hnodup : s.names.Nodup) {draft draft' : Draft s.fields}
    {members : List (Except Flaw String × Value)} :
    members.foldlM s.member draft = .ok draft' ↔
      ∃ ms : List (String × Value), members = ms.map (fun m => (.ok m.1, m.2)) ∧
        (∀ m ∈ ms, s.Admits m) ∧ Draft.Meets ms s.fields draft draft' := by
  induction members generalizing draft with
  | nil =>
    have hnone : Draft.Meets [] s.fields draft draft' ↔ draft' = draft :=
      Draft.meets_of_notMem nofun
    constructor
    · intro h
      cases h
      exact ⟨[], rfl, nofun, hnone.2 rfl⟩
    · rintro ⟨ms, hms, -, hmeets⟩
      rw [List.map_eq_nil_iff.1 hms.symm, hnone] at hmeets
      rw [hmeets]
      rfl
  | cons m members ih =>
    rw [List.foldlM_cons, bind_eq_ok_iff]
    simp only [member_eq_ok_iff hnodup, ih]
    constructor
    · rintro ⟨between, ⟨name, hname, hadmits, hmeets⟩, ms, rfl, hall, hlater⟩
      refine ⟨(name, m.2) :: ms, ?_, List.forall_mem_cons.2 ⟨hadmits, hall⟩,
        Draft.meets_cons.2 ⟨between, hmeets, hlater⟩⟩
      rw [List.map_cons, ← hname]
    · rintro ⟨ms, hms, hall, hmeets⟩
      obtain ⟨⟨name, v⟩, ms, rfl, rfl, rfl⟩ := List.map_eq_cons_iff.1 hms.symm
      rw [List.forall_mem_cons] at hall
      obtain ⟨between, hfirst, hlater⟩ := Draft.meets_cons.1 hmeets
      exact ⟨between, ⟨name, rfl, hall.1, hfirst⟩, ms, rfl, hall.2, hlater⟩

end Schema

/-! ## Arrays -/

/-- The row that elements give to fields one by one. Only fields that may be absent anywhere follow
the last element. -/
def Row.Lists : (fs : List Field) → List Value → Row fs → Prop
  | [], vs, _ => vs = []
  | f :: fs, [], (a, row) => f.absent.inArray? = some a ∧ Lists fs [] row
  | f :: fs, v :: vs, (a, row) => f.read v = .ok a ∧ Lists fs vs row

/-- The elements of an array give a row where none of them is left. -/
theorem Row.lists_iff {short : Nat → ReadError} {fs : List Field} {place : Nat} {vs : List Value}
    {row : Row fs} : Row.ofElements short none fs place vs = .ok (row, []) ↔ Lists fs vs row := by
  induction fs generalizing place vs with
  | nil => simp [Row.ofElements, Row.Lists]
  | cons f fs ih =>
    obtain ⟨a, row⟩ := row
    cases vs with
    | nil =>
      rw [Row.Lists, ← @ih (place + 1), Row.ofElements]
      cases f.absent.inArray? with
      | none => simp [ReadError.passing, Passed.of, throw, throwThe, MonadExceptOf.throw]
      | some b => simp [ReadError.passing, Passed.of, bind_eq_ok_iff, pure, Except.pure, and_comm]
    | cons v vs =>
      rw [Row.Lists, ← @ih (place + 1), Row.ofElements]
      simp [bind_eq_ok_iff, pure, Except.pure]

namespace Schema

variable {α : Type} {s : Schema α}

/-- A value holds a row of contents for the fields of a record. -/
inductive Holds (s : Schema α) : Value → Row s.fields → Prop where
  | object {ms : List (String × Value)} {row : Row s.fields} (hadmits : ∀ m ∈ ms, s.Admits m)
      (hgives : Row.Gives ms s.fields row) : Holds s (.ofMembers ms) row
  | array {vs : List Value} {row : Row s.fields} (hlists : Row.Lists s.fields vs row) :
      Holds s (.ofElements vs) row

/-- **A record is read from a value exactly if the value holds a row from which it is built.** -/
theorem readWith_eq_ok_iff {excess : Nat → ReadError} (hnodup : s.names.Nodup) {v : Value} {a : α} :
    s.readWith excess v = .ok a ↔ ∃ row, s.Holds v row ∧ s.build row = a := by
  constructor
  · intro h
    cases v with
    | object members ending =>
      obtain ⟨draft, hdraft, hrest⟩ := bind_eq_ok_iff.1 h
      obtain ⟨ms, rfl, hadmits, hmeets⟩ := (foldlM_member_eq_ok_iff hnodup).1 hdraft
      cases ending with
      | cut f => cases hrest
      | nameless f => cases hrest
      | closed =>
        obtain ⟨_, -, hcomplete⟩ := bind_eq_ok_iff.1 hrest
        obtain ⟨row, hrow, hbuild⟩ := bind_eq_ok_iff.1 hcomplete
        cases hbuild
        exact ⟨row, .object hadmits (Row.gives_iff.2 ⟨draft, hmeets, hrow⟩), rfl⟩
    | array elements cut =>
      obtain ⟨⟨row, rest⟩, hrow, hrest⟩ := bind_eq_ok_iff.1 h
      cases rest with
      | cons v vs => cases hrest
      | nil =>
        cases cut with
        | some f => cases hrest
        | none =>
          cases hrest
          exact ⟨row, .array (Row.lists_iff.1 hrow), rfl⟩
    | atom a => cases a <;> cases h
    | text s => cases s <;> cases h
    | missing f => cases h
  · rintro ⟨row, hholds, rfl⟩
    cases hholds with
    | object hadmits hgives =>
      obtain ⟨draft, hmeets, hrow⟩ := Row.gives_iff.1 hgives
      have hfilled := (foldlM_member_eq_ok_iff hnodup).2 ⟨_, rfl, hadmits, hmeets⟩
      rw [Value.ofMembers, readWith, hfilled, ok_bind]
      show (do return s.build (← draft.complete s.fields)) = _
      rw [hrow]
      rfl
    | array hlists =>
      rw [Value.ofElements, readWith, Row.lists_iff.2 hlists]
      rfl

end Schema

/-! ## Fields in order -/

/-- The members are the fields in order, and `row` holds what is read from them. -/
def Row.ReadFrom : (fs : List Field) → Row fs → List (String × Value) → Prop
  | [], _, [] => True
  | f :: fs, (a, row), m :: ms => (m.1 = f.name ∧ f.read m.2 = .ok a) ∧ ReadFrom fs row ms
  | [], _, _ :: _ => False
  | _ :: _, _, [] => False

namespace Row.ReadFrom

variable {fs : List Field} {row : Row fs} {ms : List (String × Value)}

/-- The members that a row is read from have the names of the fields. -/
theorem names (h : ReadFrom fs row ms) : ms.map Prod.fst = fs.map Field.name := by
  induction fs generalizing ms with
  | nil =>
    cases ms with
    | nil => rfl
    | cons m ms => exact absurd h id
  | cons f fs ih =>
    cases ms with
    | nil => exact absurd h id
    | cons m ms =>
      obtain ⟨⟨hname, -⟩, hrest⟩ := h
      rw [List.map_cons, List.map_cons, hname, ih hrest]

/-- The members that a row is read from give it to the fields. -/
theorem gives (hnodup : (fs.map Field.name).Nodup) (h : ReadFrom fs row ms) :
    Gives ms fs row := by
  induction fs generalizing ms with
  | nil => trivial
  | cons f fs ih =>
    cases ms with
    | nil => exact absurd h id
    | cons m ms =>
      obtain ⟨name, v⟩ := m
      obtain ⟨a, row⟩ := row
      obtain ⟨⟨rfl, hread⟩, hrest⟩ := h
      rw [List.map_cons, List.nodup_cons] at hnodup
      -- The other fields have other names, and so have the later members.
      have hlater : ∀ m ∈ ms, m.1 ≠ f.name := by
        intro m hm heq
        apply hnodup.1
        rw [← hrest.names, ← heq]
        exact List.mem_map_of_mem hm
      have hothers : ∀ g ∈ fs, f.name ≠ g.name := fun g hg heq =>
        hnodup.1 (heq ▸ List.mem_map_of_mem hg)
      refine ⟨?_, (ih hnodup.2 hrest).congr fun g hg => valuesOf_cons_of_ne (hothers g hg) v ms⟩
      rw [valuesOf_cons_self, Value.valuesOf_eq_nil hlater]
      exact hread

end Row.ReadFrom

/-- A record is read back from an object of its fields in order. -/
theorem Schema.readWith_ofMembers {α : Type} (excess : Nat → ReadError) (s : Schema α)
    (hnodup : s.names.Nodup) {row : Row s.fields} {ms : List (String × Value)}
    (h : Row.ReadFrom s.fields row ms) : s.readWith excess (.ofMembers ms) = .ok (s.build row) := by
  refine (readWith_eq_ok_iff hnodup).2 ⟨row, .object (fun m hm => .inl ?_) (h.gives hnodup), rfl⟩
  rw [names, ← h.names]
  exact List.mem_map_of_mem hm

end ShaderVariants.Json
