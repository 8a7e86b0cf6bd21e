import ShaderVariants.Proofs.Json.Thorough
import ShaderVariants.Proofs.Report.Faults
import ShaderVariants.Proofs.Resource.RoundTrip
import ShaderVariants.Proofs.Table
import ShaderVariants.Tables.Document

/-!
# Layers of tables

A document gives bindings for each of the three tables (`Overrides`), and which ones is said of the
value that its text writes (`Overrides.Holds`): an object has a member for some of the tables, in
any order, and an array has the first of them. A text gives tables exactly if it describes
bindings, and then gives those bindings over the standard entries (`Tables.ofText_eq_ok_iff`).

Tables do not repeat names (`Tables.Distinct`). What is found in extended tables is then what the
extension binds, or else what was found, so layers add up: the tables of a document over those of
another one have the bindings of the upper document, the standard entries under them, which the
upper tables bring along, and the bindings of the lower document only of the names that are left.
-/

namespace ShaderVariants

open Json (Field Value)
open Sequence

/-! ## The three tables -/

/-- One of the three tables. -/
inductive TableKind where
  | stages
  | vectorSizes
  | byteSizes
deriving DecidableEq

namespace TableKind

/-- The tables in the order of a document. -/
def all : List TableKind :=
  [stages, vectorSizes, byteSizes]

/-- The name of a table in a document. -/
def field : TableKind → String
  | stages => "stages"
  | vectorSizes => "vec_sizes"
  | byteSizes => "byte_sizes"

/-- The error for a name that a table does not have. -/
def unknown : TableKind → String → LookupError
  | stages => .unknownStage
  | vectorSizes => .unknownType
  | byteSizes => .unknownType

/-- What looking up a name comes to, given its entry. -/
def outcome (kind : TableKind) (name : String) : Option UInt32 → Except LookupError UInt32
  | some n => .ok n
  | none => .error (kind.unknown name)

/-- The place of a table in a document that is an array. -/
def place : TableKind → Nat
  | stages => 0
  | vectorSizes => 1
  | byteSizes => 2

end TableKind

namespace Tables

/-- The entry of a name in a table, a mask as its bits. -/
def found? (t : Tables) : TableKind → String → Option UInt32
  | .stages, name => (t.stages.get? name).map StageMask.bits
  | .vectorSizes, name => t.vectorSizes.get? name
  | .byteSizes, name => t.byteSizes.get? name

/-- A name looked up in a table, a mask as its bits. -/
def look (t : Tables) : TableKind → String → Except LookupError UInt32
  | .stages, name => (t.stage name).map StageMask.bits
  | .vectorSizes, name => t.vectorSize name
  | .byteSizes, name => t.byteSize name

/-- No table has two entries of a name. -/
structure Distinct (t : Tables) : Prop where
  stages : t.stages.Distinct
  vectorSizes : t.vectorSizes.Distinct
  byteSizes : t.byteSizes.Distinct

variable {t other : Tables}

/-- A name is looked up by its entry. -/
theorem look_eq (t : Tables) (kind : TableKind) (name : String) :
    t.look kind name = kind.outcome name (t.found? kind name) := by
  cases kind with
  | stages =>
    rw [look, stage, found?]
    cases t.stages.get? name <;> rfl
  | vectorSizes =>
    rw [look, vectorSize, found?]
    cases t.vectorSizes.get? name <;> rfl
  | byteSizes =>
    rw [look, byteSize, found?]
    cases t.byteSizes.get? name <;> rfl

/-- The standard tables do not repeat names. -/
theorem distinct_standard : standard.Distinct :=
  ⟨by decide, by decide, by decide⟩

/-- Extending tables does not repeat names. -/
theorem Distinct.extend (h : t.Distinct) (other : Tables) : (t.extend other).Distinct :=
  ⟨h.stages.extend _, h.vectorSizes.extend _, h.byteSizes.extend _⟩

/-- The entries of extended tables are those of the extension, or else those that were there. -/
theorem Distinct.found?_extend (h : other.Distinct) (t : Tables) (kind : TableKind)
    (name : String) :
    (t.extend other).found? kind name = (other.found? kind name).or (t.found? kind name) := by
  cases kind with
  | stages =>
    rw [found?, found?, found?, Tables.extend, h.stages.get?_extend]
    exact Option.map_or
  | vectorSizes => exact h.vectorSizes.get?_extend t.vectorSizes name
  | byteSizes => exact h.byteSizes.get?_extend t.byteSizes name

/-- Extensions may be grouped in either way. -/
theorem Distinct.extend_assoc (h : other.Distinct) (t last : Tables) :
    (t.extend other).extend last = t.extend (other.extend last) := by
  unfold Tables.extend
  rw [h.stages.extend_assoc, h.vectorSizes.extend_assoc, h.byteSizes.extend_assoc]

/-- Tables that are extended by themselves stay as they are. -/
theorem Distinct.extend_self (h : t.Distinct) : t.extend t = t := by
  unfold Tables.extend
  rw [h.stages.extend_self, h.vectorSizes.extend_self, h.byteSizes.extend_self]

end Tables

/-! ## Documents -/

/-- The bindings that a document gives for each table, in its order and with those that are replaced
by later ones. -/
abbrev Overrides := TableKind → List (String × UInt32)

namespace Overrides

/-- Bindings as an object. -/
def ofBindings (bindings : List (String × UInt32)) : Value :=
  .ofMembers (bindings.map fun b => (b.1, .word b.2))

/-- For each table one value was found, which has its bindings, or none, and it has no bindings. -/
def Matches (o : Overrides) (found : TableKind → List Value) : Prop :=
  ∀ kind, found kind = [ofBindings (o kind)] ∨ found kind = [] ∧ o kind = []

/-- The value gives these bindings: as an object with a member for some of the tables, or as an
array of the first tables. -/
inductive Holds (o : Overrides) : Value → Prop where
  | object {ms : List (String × Value)} (hnames : ∀ m ∈ ms, ∃ kind : TableKind, m.1 = kind.field)
      (htables : o.Matches fun kind => Value.valuesOf kind.field ms) : Holds o (.ofMembers ms)
  | array {vs : List Value} (hlength : vs.length ≤ TableKind.all.length)
      (htables : o.Matches fun kind => vs[kind.place]?.toList) : Holds o (.ofElements vs)

/-- The text writes a value that gives these bindings. -/
def Describes (o : Overrides) (text : String) : Prop :=
  ∃ v : Value, v.Writes text.toList ∧ o.Holds v

/-- The last binding of a name. -/
def last? (o : Overrides) (kind : TableKind) (name : String) : Option UInt32 :=
  Table.lookup name (o kind).reverse

/-- The tables of the bindings alone. -/
def tables (o : Overrides) : Tables where
  stages := (Table.ofList (o .stages)).map StageMask.mk
  vectorSizes := Table.ofList (o .vectorSizes)
  byteSizes := Table.ofList (o .byteSizes)

/-- The tables of bindings do not repeat names. -/
theorem distinct_tables (o : Overrides) : o.tables.Distinct :=
  ⟨(Table.distinct_ofList _).map _, Table.distinct_ofList _, Table.distinct_ofList _⟩

/-- The entry of a name in the tables of bindings is the last one. -/
theorem found?_tables (o : Overrides) (kind : TableKind) (name : String) :
    o.tables.found? kind name = o.last? kind name := by
  cases kind with
  | stages =>
    rw [Tables.found?, tables, Table.get?_map, Table.get?_ofList, Option.map_map]
    exact Option.map_id'
  | vectorSizes => exact Table.get?_ofList _ name
  | byteSizes => exact Table.get?_ofList _ name

/-- A table of words is read from an object of bindings. -/
theorem table_word_eq_ok_iff {v : Value} {t : Table String UInt32} :
    Json.Reader.table Json.Reader.word v = .ok t ↔
      ∃ bindings, v = ofBindings bindings ∧ Table.ofList bindings = t := by
  rw [Json.Reader.table_eq_ok_iff]
  simp only [Json.Reader.word_eq_ok_iff]
  constructor
  · rintro ⟨ms, bindings, rfl, heach, rfl⟩
    refine ⟨bindings, ?_, rfl⟩
    have hms : List.Forall₂ (· = ·) ms (bindings.map fun b => (b.1, Value.word b.2)) := by
      rw [List.forall₂_map_right_iff]
      exact heach.imp fun m b hb => Prod.ext hb.1.symm hb.2
    rw [List.forall₂_eq_eq_eq] at hms
    rw [hms, ofBindings]
  · rintro ⟨bindings, rfl, rfl⟩
    refine ⟨_, bindings, rfl, ?_, rfl⟩
    rw [List.forall₂_map_left_iff, List.forall₂_same]
    exact fun b _ => ⟨rfl, rfl⟩

/-- The contents of the fields of a document. -/
def row (o : Overrides) : Json.Row Tables.schema.fields :=
  (Table.ofList (o .stages), Table.ofList (o .vectorSizes), Table.ofList (o .byteSizes), ())

/-- The field of a table in a document. -/
def field (kind : TableKind) : Field :=
  .defaulted kind.field (Json.Reader.table Json.Reader.word) Table.empty

/-- A field contains the table of the bindings that were found, and else the empty table. -/
theorem gives_field_iff {kind : TableKind} {vs : List Value} {t : Table String UInt32} :
    (field kind).Gives vs t ↔
      ∃ bindings, (vs = [ofBindings bindings] ∨ vs = [] ∧ bindings = []) ∧
        Table.ofList bindings = t := by
  rcases vs with _ | ⟨v, _ | ⟨w, vs⟩⟩
  · constructor
    · intro h
      exact ⟨[], .inr ⟨rfl, rfl⟩, Option.some.inj h⟩
    · rintro ⟨bindings, h | ⟨-, rfl⟩, rfl⟩
      · cases h
      · rfl
  · refine table_word_eq_ok_iff.trans ?_
    simp
  · constructor
    · intro h
      exact absurd h id
    · rintro ⟨bindings, h | ⟨h, -⟩, -⟩ <;> cases h

/-- The fields contain the tables of the bindings that were found. -/
theorem gives_row_iff {found : TableKind → List Value} {r : Json.Row Tables.schema.fields} :
    ((field .stages).Gives (found .stages) r.1 ∧
        (field .vectorSizes).Gives (found .vectorSizes) r.2.1 ∧
        (field .byteSizes).Gives (found .byteSizes) r.2.2.1) ↔
      ∃ o : Overrides, o.Matches found ∧ o.row = r := by
  constructor
  · rintro ⟨hstages, hvectors, hbytes⟩
    obtain ⟨stages, hstages, hs⟩ := gives_field_iff.1 hstages
    obtain ⟨vectors, hvectors, hv⟩ := gives_field_iff.1 hvectors
    obtain ⟨bytes, hbytes, hb⟩ := gives_field_iff.1 hbytes
    -- The bindings of the three tables were found one by one.
    refine ⟨fun | .stages => stages | .vectorSizes => vectors | .byteSizes => bytes, ?_, ?_⟩
    · rintro (_ | _ | _)
      · exact hstages
      · exact hvectors
      · exact hbytes
    · rw [row, hs, hv, hb]
      rfl
  · rintro ⟨o, h, rfl⟩
    exact ⟨gives_field_iff.2 ⟨_, h .stages, rfl⟩, gives_field_iff.2 ⟨_, h .vectorSizes, rfl⟩,
      gives_field_iff.2 ⟨_, h .byteSizes, rfl⟩⟩

/-- The names of the fields are those of the tables. -/
theorem mem_names_iff {name : String} :
    name ∈ Tables.schema.names ↔ ∃ kind : TableKind, name = kind.field := by
  constructor
  · intro h
    obtain ⟨kind, -, rfl⟩ := List.mem_map.1 (show name ∈ TableKind.all.map TableKind.field from h)
    exact ⟨kind, rfl⟩
  · rintro ⟨kind, rfl⟩
    cases kind <;> decide

/-- Members give a row exactly if the tables are found in the members of their names. -/
theorem gives_schema_iff {ms : List (String × Value)} {r : Json.Row Tables.schema.fields} :
    Json.Row.Gives ms Tables.schema.fields r ↔
      ∃ o : Overrides, o.Matches (fun kind => Value.valuesOf kind.field ms) ∧ o.row = r := by
  rw [← gives_row_iff]
  constructor
  · rintro ⟨hstages, hvectors, hbytes, -⟩
    exact ⟨hstages, hvectors, hbytes⟩
  · rintro ⟨hstages, hvectors, hbytes⟩
    exact ⟨hstages, hvectors, hbytes, trivial⟩

/-- Elements give a row exactly if the tables are found in their places, and nothing after them. -/
theorem lists_schema_iff {vs : List Value} {r : Json.Row Tables.schema.fields} :
    Json.Row.Lists Tables.schema.fields vs r ↔
      vs.length ≤ TableKind.all.length ∧
        ∃ o : Overrides, o.Matches (fun kind => vs[kind.place]?.toList) ∧ o.row = r := by
  rw [← gives_row_iff]
  -- An array has a field for each of its elements, so there is a case for each length.
  constructor
  · intro h
    rcases vs with _ | ⟨v, _ | ⟨w, _ | ⟨u, _ | ⟨x, vs⟩⟩⟩⟩
    all_goals obtain ⟨hstages, hvectors, hbytes, hend⟩ := h
    · exact ⟨Nat.zero_le 3, hstages, hvectors, hbytes⟩
    · exact ⟨Nat.succ_le_succ (Nat.zero_le 2), hstages, hvectors, hbytes⟩
    · exact ⟨Nat.le_succ 2, hstages, hvectors, hbytes⟩
    · exact ⟨Nat.le_refl 3, hstages, hvectors, hbytes⟩
    · cases hend
  · rintro ⟨hlength, hstages, hvectors, hbytes⟩
    rcases vs with _ | ⟨v, _ | ⟨w, _ | ⟨u, _ | ⟨x, vs⟩⟩⟩⟩
    · exact ⟨hstages, hvectors, hbytes, rfl⟩
    · exact ⟨hstages, hvectors, hbytes, rfl⟩
    · exact ⟨hstages, hvectors, hbytes, rfl⟩
    · exact ⟨hstages, hvectors, hbytes, rfl⟩
    · exact absurd hlength (by simp [TableKind.all])

/-- A document holds the tables of the bindings that it gives. -/
theorem holds_schema_iff {v : Value} {r : Json.Row Tables.schema.fields} :
    Tables.schema.Holds v r ↔ ∃ o : Overrides, o.Holds v ∧ o.row = r := by
  constructor
  · rintro (⟨hadmits, hgives⟩ | hlists)
    · obtain ⟨o, htables, rfl⟩ := gives_schema_iff.1 hgives
      refine ⟨o, .object (fun m hm => ?_) htables, rfl⟩
      exact mem_names_iff.1 ((hadmits m hm).resolve_right fun h => absurd h.1 (by decide))
    · obtain ⟨hlength, o, htables, rfl⟩ := lists_schema_iff.1 hlists
      exact ⟨o, .array hlength htables, rfl⟩
  · rintro ⟨o, ⟨hnames, htables⟩ | ⟨hlength, htables⟩, rfl⟩
    · exact .object (fun m hm => .inl (mem_names_iff.2 (hnames m hm)))
        (gives_schema_iff.2 ⟨o, htables, rfl⟩)
    · exact .array (lists_schema_iff.2 ⟨hlength, o, htables, rfl⟩)

/-- Bindings as a document. -/
def value (o : Overrides) : Value :=
  .ofMembers (TableKind.all.map fun kind => (kind.field, ofBindings (o kind)))

/-- Bindings as a text. -/
def text (o : Overrides) : String :=
  String.ofList o.value.print

/-- The text of bindings describes them. -/
theorem describes_text (o : Overrides) : o.Describes o.text := by
  refine ⟨o.value, ?_, .object (List.forall_mem_map.2 fun kind _ => ⟨kind, rfl⟩) fun kind => ?_⟩
  · rw [text, String.toList_ofList]
    refine (Value.Whole.object (List.forall_mem_map.2 fun kind _ => ?_)).writes
    exact .object (List.forall_mem_map.2 fun b _ => Value.whole_word b.2)
  · cases kind <;> exact .inl rfl

end Overrides

namespace Tables

variable {text : String} {t : Tables}

/-- The fields of a document have different names. -/
theorem nodup_names : schema.names.Nodup := by
  decide

/-- A document is walked to its end. -/
theorem thorough_schema : Json.Reader.Thorough schema.read := by
  refine Json.Schema.thorough_readWith nodup_names ?_
  have htable := Json.Reader.thorough_word.table
  simp only [schema, List.forall_mem_cons]
  exact ⟨htable, htable, htable, List.forall_mem_nil _⟩

/-- Tables are read from the values that give their bindings. -/
theorem read_schema_eq_ok_iff {v : Value} :
    schema.read v = .ok t ↔ ∃ o : Overrides, o.Holds v ∧ o.tables = t := by
  rw [Json.Schema.read, Json.Schema.readWith_eq_ok_iff nodup_names]
  constructor
  · rintro ⟨_, hrow, rfl⟩
    obtain ⟨o, ho, rfl⟩ := Overrides.holds_schema_iff.1 hrow
    exact ⟨o, ho, rfl⟩
  · rintro ⟨o, ho, rfl⟩
    exact ⟨o.row, Overrides.holds_schema_iff.2 ⟨o, ho, rfl⟩, rfl⟩

/-- Tables are read from a text exactly if it describes bindings, and are those bindings over the
standard entries. -/
theorem ofText_eq_ok_iff :
    ofText text = .ok t ↔ ∃ o : Overrides, o.Describes text ∧ standard.extend o.tables = t := by
  rw [ofText, map_eq_ok_iff]
  constructor
  · rintro ⟨_, h, rfl⟩
    obtain ⟨v, hv, hread⟩ := (Json.Document.read_eq_ok_iff thorough_schema).1 h
    obtain ⟨o, ho, rfl⟩ := read_schema_eq_ok_iff.1 hread
    exact ⟨o, ⟨v, hv, ho⟩, rfl⟩
  · rintro ⟨o, ⟨v, hv, ho⟩, rfl⟩
    have hread := read_schema_eq_ok_iff.2 ⟨o, ho, rfl⟩
    exact ⟨o.tables, (Json.Document.read_eq_ok_iff thorough_schema).2 ⟨v, hv, hread⟩, rfl⟩

/-- The tables of a text do not repeat names. -/
theorem distinct_of_ofText (h : ofText text = .ok t) : t.Distinct := by
  obtain ⟨o, -, rfl⟩ := ofText_eq_ok_iff.1 h
  exact distinct_standard.extend o.tables

/-- The entries of the tables of a text are its last bindings, or else the standard entries. -/
theorem found?_of_describes {o : Overrides} (ho : o.Describes text) (h : ofText text = .ok t)
    (kind : TableKind) (name : String) :
    t.found? kind name = (o.last? kind name).or (standard.found? kind name) := by
  have hsame : ofText text = .ok (standard.extend o.tables) := ofText_eq_ok_iff.2 ⟨o, ho, rfl⟩
  rw [hsame] at h
  rw [← Except.ok.inj h, o.distinct_tables.found?_extend, o.found?_tables]

/-- **Among layers of tables the last one that has a name counts.** The tables of a document have
its last bindings over the standard entries. Extended tables have the entries of the extension over
their own; extensions may be grouped in either way, and extending tables by themselves changes
nothing. Tables do not repeat names, which is all that this needs of the extension. So the tables of
one document extended by those of another have the bindings of the second, then the standard entries
whether or not the first document replaced them, and then the bindings of the first. -/
theorem look_layered :
    (∀ text t, ofText text = .ok t → t.Distinct ∧ (∃ o : Overrides, o.Describes text) ∧
      ∀ o : Overrides, o.Describes text → ∀ kind name, t.look kind name =
        kind.outcome name ((o.last? kind name).or (standard.found? kind name))) ∧
    (standard.Distinct ∧ ∀ s t : Tables, s.Distinct → (s.extend t).Distinct) ∧
    (∀ s t : Tables, t.Distinct → ∀ kind name, (s.extend t).look kind name =
      kind.outcome name ((t.found? kind name).or (s.found? kind name))) ∧
    (∀ r s t : Tables, s.Distinct → (r.extend s).extend t = r.extend (s.extend t)) ∧
    (∀ t : Tables, t.Distinct → t.extend t = t) ∧
    (∀ lower upper s t, ofText lower = .ok s → ofText upper = .ok t →
      ∀ o p : Overrides, o.Describes lower → p.Describes upper → ∀ kind name,
        (s.extend t).look kind name = kind.outcome name
          ((p.last? kind name).or ((standard.found? kind name).or (o.last? kind name)))) := by
  refine ⟨fun text t h => ?_, ⟨distinct_standard, fun s t hs => hs.extend t⟩,
    fun s t ht kind name => ?_, fun r s t hs => hs.extend_assoc r t, fun t ht => ht.extend_self, ?_⟩
  · obtain ⟨o, ho, -⟩ := ofText_eq_ok_iff.1 h
    refine ⟨distinct_of_ofText h, ⟨o, ho⟩, fun o ho kind name => ?_⟩
    rw [look_eq, found?_of_describes ho h]
  · rw [look_eq, ht.found?_extend]
  · intro lower upper s t hs ht o p ho hp kind name
    rw [look_eq, (distinct_of_ofText ht).found?_extend, found?_of_describes hp ht,
      found?_of_describes ho hs]
    -- A standard entry is in both layers, and the upper one hides the lower bindings of its name.
    cases standard.found? kind name <;> cases p.last? kind name <;> simp

/-- A document that gives the fragment stage another mask, and the compute stage two. -/
def redefining : Overrides
  | .stages => [("comp", 64), ("frag", 7), ("comp", 32)]
  | _ => []

/-- A document that gives the compute stage a mask. -/
def adding : Overrides
  | .stages => [("comp", 33)]
  | _ => []

/-- Under the second document the fragment stage has its standard mask again, and the compute stage
has the mask of the second document. -/
theorem look_layered_redefining : ∃ s t, ofText redefining.text = .ok s ∧
    ofText adding.text = .ok t ∧ s.look .stages "comp" = .ok 32 ∧ s.look .stages "frag" = .ok 7 ∧
    (s.extend t).look .stages "comp" = .ok 33 ∧ (s.extend t).look .stages "frag" = .ok 16 ∧
    (s.extend t).look .byteSizes "mat4" = .error (.unknownType "mat4") ∧
    (s.extend t).extend t = s.extend t := by
  have hs := ofText_eq_ok_iff.2 ⟨redefining, redefining.describes_text, rfl⟩
  have ht := ofText_eq_ok_iff.2 ⟨adding, adding.describes_text, rfl⟩
  obtain ⟨hdocument, -, -, hassoc, hself, htwo⟩ := look_layered
  obtain ⟨-, -, hlower⟩ := hdocument _ _ hs
  obtain ⟨hdistinct, -, -⟩ := hdocument _ _ ht
  have hboth := htwo _ _ _ _ hs ht _ _ redefining.describes_text adding.describes_text
  refine ⟨_, _, hs, ht, ?_, ?_, ?_, ?_, ?_, ?_⟩
  · rw [hlower _ redefining.describes_text]
    rfl
  · rw [hlower _ redefining.describes_text]
    rfl
  · rw [hboth]
    rfl
  · rw [hboth]
    rfl
  · rw [hboth]
    rfl
  · rw [hassoc _ _ _ hdistinct, hself _ hdistinct]

end Tables

end ShaderVariants
