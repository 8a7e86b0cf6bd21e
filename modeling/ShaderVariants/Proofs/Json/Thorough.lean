import ShaderVariants.Proofs.Json.Fields

/-!
# Readers that walk the whole value

A reader is thorough if it reads nothing from a value that cannot be passed over
(`Reader.Thorough`). The plain readers are, lists, tables and optional values of what a thorough
reader reads, and records of thorough fields. A text from which a thorough reader reads something is
well-formed: it writes a value (`Document.read_eq_ok_iff`).
-/

namespace ShaderVariants.Json

open Sequence
open Value (Passable mem_valuesOf_iff)

namespace Reader

variable {α : Type} {read : Reader α} {v : Value}

/-- A member is read with its name. -/
theorem binding_eq_ok_iff {m : Except Flaw String × Value} {b : String × α} :
    binding read m = .ok b ↔ m.1 = .ok b.1 ∧ read m.2 = .ok b.2 := by
  obtain ⟨name | name, v⟩ := m
  · constructor
    · intro h
      cases h
    · rintro ⟨h, -⟩
      cases h
  · rw [binding, ReadError.ofToken, ok_bind, bind_eq_ok_iff]
    constructor
    · rintro ⟨a, ha, h⟩
      cases h
      exact ⟨rfl, ha⟩
    · rintro ⟨h, ha⟩
      cases h
      exact ⟨b.2, ha, rfl⟩

/-- Members that are read with their names have names. -/
theorem exists_members {members : List (Except Flaw String × Value)} {bindings : List (String × α)}
    (h : List.Forall₂ (fun m b => m.1 = .ok b.1 ∧ read m.2 = .ok b.2) members bindings) :
    ∃ ms : List (String × Value), members = ms.map (fun m => (.ok m.1, m.2)) ∧
      List.Forall₂ (fun m b => b.1 = m.1 ∧ read m.2 = .ok b.2) ms bindings := by
  induction h with
  | nil => exact ⟨[], rfl, .nil⟩
  | @cons m b _ _ hm _ ih =>
    obtain ⟨ms, rfl, hms⟩ := ih
    obtain ⟨name, v⟩ := m
    obtain ⟨rfl, ha⟩ := hm
    exact ⟨(b.1, v) :: ms, rfl, .cons ⟨rfl, ha⟩ hms⟩

/-- A table is read from nothing but a closed object. -/
theorem table_eq_ok_iff {t : Table String α} :
    table read v = .ok t ↔
      ∃ (ms : List (String × Value)) (bindings : List (String × α)), v = .ofMembers ms ∧
        List.Forall₂ (fun m b => b.1 = m.1 ∧ read m.2 = .ok b.2) ms bindings ∧
        Table.ofList bindings = t := by
  constructor
  · intro h
    cases v with
    | object members ending =>
      obtain ⟨bindings, hbindings, hrest⟩ := bind_eq_ok_iff.1 h
      cases ending with
      | cut f => cases hrest
      | nameless f => cases hrest
      | closed =>
        cases hrest
        have heach := mapM_eq_ok_iff.1 hbindings
        simp only [binding_eq_ok_iff] at heach
        obtain ⟨ms, rfl, hms⟩ := exists_members heach
        exact ⟨ms, bindings, rfl, hms, rfl⟩
    | atom a => cases a <;> cases h
    | text s => cases s <;> cases h
    | missing f => cases h
    | array elements cut => cases h
  · rintro ⟨ms, bindings, rfl, h, rfl⟩
    have heach : (ms.map fun m => ((.ok m.1 : Except Flaw String), m.2)).mapM (binding read) =
        .ok bindings := by
      rw [mapM_eq_ok_iff, List.forall₂_map_left_iff]
      exact h.imp fun m b hb => binding_eq_ok_iff.2 ⟨congrArg Except.ok hb.1.symm, hb.2⟩
    rw [Value.ofMembers, table, heach]
    rfl

/-- The null value or what else is read. -/
theorem optional_eq_ok_iff {o : Option α} :
    optional read v = .ok o ↔
      v = .atom (.ok .null) ∧ o = none ∨
        v ≠ .atom (.ok .null) ∧ ∃ a, read v = .ok a ∧ some a = o := by
  unfold optional
  split
  · simp [eq_comm]
  · rename_i hnull
    have hnull : v ≠ .atom (.ok .null) := hnull
    simp [map_eq_ok_iff, hnull]

/-! ## Thorough readers -/

/-- What is read is read from a value that can be passed over. -/
def Thorough (read : Reader α) : Prop :=
  ∀ v a, read v = .ok a → v.Passable

/-- Texts are walked to their end. -/
theorem thorough_text : Thorough text := by
  intro v s h
  rw [text_eq_ok_iff.1 h]
  exact .text rfl

/-- Words are walked to their end. -/
theorem thorough_word : Thorough word := by
  intro v n h
  rw [word_eq_ok_iff.1 h]
  exact .atom rfl

/-- Lists are walked to their end if their elements are. -/
theorem Thorough.list (h : Thorough read) : Thorough (list read) := by
  intro v as has
  obtain ⟨vs, rfl, heach⟩ := list_eq_ok_iff.1 has
  refine .array fun v hv => ?_
  obtain ⟨a, -, ha⟩ := exists_of_forall₂ heach.flip hv
  exact h v a ha

/-- Tables are walked to their end if their entries are. -/
theorem Thorough.table (h : Thorough read) : Thorough (table read) := by
  intro v t ht
  obtain ⟨ms, bindings, rfl, heach, -⟩ := table_eq_ok_iff.1 ht
  refine .object (List.forall_mem_map.2 fun _ _ => rfl) (List.forall_mem_map.2 fun m hm => ?_)
  obtain ⟨b, -, -, hb⟩ := exists_of_forall₂ heach.flip hm
  exact h m.2 b.2 hb

/-- Optional values are walked to their end if they are there. -/
theorem Thorough.optional (h : Thorough read) : Thorough (optional read) := by
  intro v o ho
  rcases optional_eq_ok_iff.1 ho with ⟨rfl, -⟩ | ⟨-, a, ha, -⟩
  · exact .atom rfl
  · exact h v a ha

end Reader

open Reader (Thorough)

/-- The member of a field is read where members give the fields a row. -/
theorem Row.Gives.exists_read {fs : List Field} {row : Row fs} {ms : List (String × Value)}
    (h : Row.Gives ms fs row) {m : String × Value} (hm : m ∈ ms)
    (hname : m.1 ∈ fs.map Field.name) : ∃ f ∈ fs, ∃ a, f.read m.2 = .ok a := by
  induction fs with
  | nil => cases hname
  | cons f fs ih =>
    obtain ⟨a, row⟩ := row
    obtain ⟨hfirst, hrest⟩ := h
    rcases List.mem_cons.1 hname with hname | hname
    · have hvalue : m.2 ∈ Value.valuesOf f.name ms := by
        rw [mem_valuesOf_iff, ← hname]
        exact hm
      refine ⟨f, List.mem_cons_self, a, ?_⟩
      unfold Field.Gives at hfirst
      split at hfirst
      · rename_i hnone
        rw [hnone] at hvalue
        cases hvalue
      · rename_i hone
        rw [hone] at hvalue
        rwa [List.mem_singleton.1 hvalue]
      · exact absurd hfirst id
    · obtain ⟨g, hg, hread⟩ := ih hrest hname
      exact ⟨g, List.mem_cons_of_mem _ hg, hread⟩

/-- Every element is read where elements give the fields a row. -/
theorem Row.Lists.exists_read {fs : List Field} {row : Row fs} {vs : List Value}
    (h : Row.Lists fs vs row) {v : Value} (hv : v ∈ vs) : ∃ f ∈ fs, ∃ a, f.read v = .ok a := by
  induction fs generalizing vs with
  | nil =>
    rw [show vs = [] from h] at hv
    cases hv
  | cons f fs ih =>
    obtain ⟨a, row⟩ := row
    cases vs with
    | nil => cases hv
    | cons w vs =>
      rcases List.mem_cons.1 hv with rfl | hv
      · exact ⟨f, List.mem_cons_self, a, h.1⟩
      · obtain ⟨g, hg, hread⟩ := ih h.2 hv
        exact ⟨g, List.mem_cons_of_mem _ hg, hread⟩

/-- A value that holds a row for thorough fields can be passed over. -/
theorem Schema.Holds.passable {α : Type} {s : Schema α} {v : Value} {row : Row s.fields}
    (h : s.Holds v row) (hfields : ∀ f ∈ s.fields, Thorough f.read) : v.Passable := by
  cases h with
  | object hadmits hgives =>
    refine .object (List.forall_mem_map.2 fun _ _ => rfl) (List.forall_mem_map.2 fun m hm => ?_)
    rcases hadmits m hm with hname | ⟨-, hpass⟩
    · obtain ⟨f, hf, a, ha⟩ := hgives.exists_read hm hname
      exact hfields f hf _ a ha
    · exact hpass
  | array hlists =>
    refine .array fun v hv => ?_
    obtain ⟨f, hf, a, ha⟩ := hlists.exists_read hv
    exact hfields f hf v a ha

/-- Records of thorough fields are walked to their end. -/
theorem Schema.thorough_readWith {α : Type} {excess : Nat → ReadError} {s : Schema α}
    (hnodup : s.names.Nodup) (hfields : ∀ f ∈ s.fields, Thorough f.read) :
    Thorough (s.readWith excess) := by
  intro v a ha
  obtain ⟨row, hrow, -⟩ := (readWith_eq_ok_iff hnodup).1 ha
  exact hrow.passable hfields

/-- **What a thorough reader reads from a text is read from the value that the text writes.** -/
theorem Document.read_eq_ok_iff {α : Type} {read : Reader α} (hread : Thorough read)
    {text : String} {a : α} :
    Document.read read text = .ok a ↔ ∃ v : Value, v.Writes text.toList ∧ read v = .ok a := by
  constructor
  · intro h
    obtain ⟨b, hb, hrest⟩ := bind_eq_ok_iff.1 h
    rcases hdocument : Document.ofText text with ⟨v, trailing⟩
    rw [hdocument] at hb hrest
    cases trailing with
    | true => cases hrest
    | false =>
      cases hrest
      -- The reader has walked the whole value, so nothing in it breaks the text.
      exact ⟨v, Document.writes_of_passable hdocument (hread v a hb), hb⟩
  · rintro ⟨v, hv, ha⟩
    rw [Document.read_of_writes read hv, ha]

end ShaderVariants.Json
