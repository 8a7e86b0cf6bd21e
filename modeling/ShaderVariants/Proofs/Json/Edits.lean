import Mathlib.Data.List.Perm.Basic
import Mathlib.Logic.Relation
import ShaderVariants.Proofs.Json.Printing
import ShaderVariants.Proofs.Json.Thorough
import ShaderVariants.Proofs.Table

/-!
# Edits that a reader does not notice

A `Shape` says which parts of a value are read as records, and which fields those have. An edit of a
value inserts a member of another name in a record, wherever it is and whatever value it has, or
changes the order of the members of an object without repeated names (`Edited`). The edited value is
written by some text if the value is (`Edited.written`).

Such an edit leaves what is read. Plain readers do not get to see it, and readers of lists, optional
values and records read the same if the readers of their parts do (`Reader.Tolerates`). A table has
its members in another order then, and finds the same (`Reader.table_of_edited`). What becomes of
the fields of a record is said for each of them alone, so one field may be read differently
(`Schema.Holds.edited`).
-/

namespace ShaderVariants.Json

open Sequence
open Value (Passable valuesOf mem_valuesOf_iff)

/-- What a value and its parts are read as. -/
inductive Shape where
  /-- Nothing that has parts, or something that is passed over. -/
  | other
  | list (element : Shape)
  | table (entry : Shape)
  /-- A record with fields of these names. -/
  | record (fields : List (String × Shape))

namespace Shape

/-- The shape of an element. -/
def element : Shape → Nat → Shape
  | list s, _ => s
  | record fields, place => (fields[place]?.map Prod.snd).getD other
  | _, _ => other

/-- The shape of the value of a member. -/
def member : Shape → Except Flaw String → Shape
  | table s, _ => s
  | record fields, .ok name => (Table.lookup name fields).getD other
  | _, _ => other

/-- It is a record without a field of the name. -/
def Lacks (name : String) : Shape → Prop
  | record fields => name ∉ fields.map Prod.fst
  | _ => False

end Shape

namespace Value

/-- The names of members, without those that are no text. -/
def names (members : List (Except Flaw String × Value)) : List String :=
  members.filterMap fun m => m.1.toOption

/-- The value is written by some text. -/
def Written (v : Value) : Prop :=
  ∃ cs, v.Writes cs

/-- One edit of a value of a shape. -/
inductive Edited : Shape → Value → Value → Prop where
  /-- A member that is no field, with any value that can be written, is inserted in a record. -/
  | insert {shape : Shape} {name : String} {v : Value}
      {before after : List (Except Flaw String × Value)} (hname : shape.Lacks name)
      (hv : v.Written) :
      Edited shape (.object (before ++ after) .closed)
        (.object (before ++ (.ok name, v) :: after) .closed)
  /-- The members of an object change their order. No name is repeated. -/
  | permute {shape : Shape} {members members' : List (Except Flaw String × Value)}
      (hnodup : (names members).Nodup) (h : members.Perm members') :
      Edited shape (.object members .closed) (.object members' .closed)
  | element {shape : Shape} {v v' : Value} {before after : List Value}
      (h : Edited (shape.element before.length) v v') :
      Edited shape (.array (before ++ v :: after) none) (.array (before ++ v' :: after) none)
  | member {shape : Shape} {name : Except Flaw String} {v v' : Value}
      {before after : List (Except Flaw String × Value)} (h : Edited (shape.member name) v v') :
      Edited shape (.object (before ++ (name, v) :: after) .closed)
        (.object (before ++ (name, v') :: after) .closed)

/-! ## Edited values -/

variable {shape : Shape} {v v' : Value} {ms : List (String × Value)} {vs : List Value}

/-- What is written can be passed over. -/
theorem Written.passable (h : v.Written) : v.Passable := by
  obtain ⟨cs, h⟩ := h
  induction h with
  | null => exact .atom rfl
  | boolean b => exact .atom rfl
  | @number n cs h =>
    refine .atom ?_
    unfold Numeral.atom
    split <;> rfl
  | @text pieces cs h =>
    refine .text ?_
    unfold Token.ofPieces
    dsimp only
    split <;> rfl
  | emptyArray h => exact .array (List.forall_mem_nil _)
  | array _ ih => exact .array (List.forall_mem_map.2 ih)
  | emptyObject h => exact .object (List.forall_mem_nil _) (List.forall_mem_nil _)
  | object _ _ ihnames ih =>
    refine .object (List.forall_mem_map.2 fun m hm => ?_) (List.forall_mem_map.2 ih)
    cases ihnames m hm with
    | text h => exact h
  | blankBefore _ _ ih => exact ih
  | blankAfter _ _ ih => exact ih

/-- What can be passed over can be passed over when it was edited. -/
theorem Edited.passable (h : Edited shape v v') (hpass : v.Passable) : v'.Passable := by
  induction h with
  | insert _ hv =>
    cases hpass with
    | object hnames hall =>
      rw [List.forall_mem_append] at hnames hall
      exact .object
        (List.forall_mem_append.2 ⟨hnames.1, List.forall_mem_cons.2 ⟨rfl, hnames.2⟩⟩)
        (List.forall_mem_append.2 ⟨hall.1, List.forall_mem_cons.2 ⟨hv.passable, hall.2⟩⟩)
  | permute _ hperm =>
    cases hpass with
    | object hnames hall =>
      exact .object (fun m hm => hnames m (hperm.mem_iff.2 hm))
        fun m hm => hall m (hperm.mem_iff.2 hm)
  | element _ ih =>
    cases hpass with
    | array hall =>
      rw [List.forall_mem_append, List.forall_mem_cons] at hall
      exact .array (List.forall_mem_append.2
        ⟨hall.1, List.forall_mem_cons.2 ⟨ih hall.2.1, hall.2.2⟩⟩)
  | member _ ih =>
    cases hpass with
    | object hnames hall =>
      rw [List.forall_mem_append, List.forall_mem_cons] at hnames hall
      exact .object
        (List.forall_mem_append.2 ⟨hnames.1, List.forall_mem_cons.2 hnames.2⟩)
        (List.forall_mem_append.2 ⟨hall.1, List.forall_mem_cons.2 ⟨ih hall.2.1, hall.2.2⟩⟩)

/-! ### Written values -/

/-- An array is written if its elements are. -/
theorem written_array_iff : (array vs none).Written ↔ ∀ v ∈ vs, v.Written := by
  constructor
  · rintro ⟨cs, h⟩
    generalize hu : array vs none = u at h
    induction h with
    | emptyArray =>
      cases hu
      exact List.forall_mem_nil _
    | array hparts =>
      cases hu
      exact List.forall_mem_map.2 fun p hp => ⟨p.2, hparts p hp⟩
    | blankBefore _ _ ih => exact ih hu
    | blankAfter _ _ ih => exact ih hu
    | _ => cases hu
  · intro h
    choose! chars hchars using h
    have hwrites := @Writes.array (vs.map fun v => (v, chars v)) (List.forall_mem_map.2 hchars)
    have hvalues : (vs.map fun v => (v, chars v)).map Prod.fst = vs := by
      rw [List.map_map]
      exact List.map_id' vs
    rw [hvalues] at hwrites
    exact ⟨_, hwrites⟩

/-- An object is written if its names and its values are. -/
theorem written_object_iff {members : List (Except Flaw String × Value)} :
    (object members .closed).Written ↔ ∀ m ∈ members, (text m.1).Written ∧ m.2.Written := by
  constructor
  · rintro ⟨cs, h⟩
    generalize hu : object members .closed = u at h
    induction h with
    | emptyObject =>
      cases hu
      exact List.forall_mem_nil _
    | object hnames hvalues =>
      cases hu
      exact List.forall_mem_map.2 fun m hm => ⟨⟨_, hnames m hm⟩, ⟨_, hvalues m hm⟩⟩
    | blankBefore _ _ ih => exact ih hu
    | blankAfter _ _ ih => exact ih hu
    | _ => cases hu
  · intro h
    choose! nameChars valueChars hchars using fun m hm => exists_and_exists_comm.1 (h m hm)
    let written (m : Except Flaw String × Value) : WrittenMember :=
      ⟨m.1, m.2, nameChars m, valueChars m⟩
    have hwrites := @Writes.object (members.map written)
      (List.forall_mem_map.2 fun m hm => (hchars m hm).1)
      (List.forall_mem_map.2 fun m hm => (hchars m hm).2)
    have hmembers : (members.map written).map WrittenMember.member = members := by
      rw [List.map_map]
      exact List.map_id' members
    rw [hmembers] at hwrites
    exact ⟨_, hwrites⟩

/-- What is written is written when it was edited. -/
theorem Edited.written (h : Edited shape v v') (hwritten : v.Written) : v'.Written := by
  induction h with
  | @insert _ name _ _ _ _ hv =>
    rw [written_object_iff, List.forall_mem_append] at hwritten
    exact written_object_iff.2 (List.forall_mem_append.2 ⟨hwritten.1, List.forall_mem_cons.2
      ⟨⟨⟨_, writes_printText name⟩, hv⟩, hwritten.2⟩⟩)
  | permute _ hperm =>
    rw [written_object_iff] at hwritten
    exact written_object_iff.2 fun m hm => hwritten m (hperm.mem_iff.2 hm)
  | element _ ih =>
    rw [written_array_iff, List.forall_mem_append, List.forall_mem_cons] at hwritten
    exact written_array_iff.2 (List.forall_mem_append.2
      ⟨hwritten.1, List.forall_mem_cons.2 ⟨ih hwritten.2.1, hwritten.2.2⟩⟩)
  | member _ ih =>
    rw [written_object_iff, List.forall_mem_append, List.forall_mem_cons] at hwritten
    obtain ⟨hbefore, ⟨hname, hvalue⟩, hafter⟩ := hwritten
    exact written_object_iff.2 (List.forall_mem_append.2
      ⟨hbefore, List.forall_mem_cons.2 ⟨⟨hname, ih hvalue⟩, hafter⟩⟩)

/-! ### The parts of what was edited -/

/-- An atom is not edited. -/
theorem not_edited_atom {a : Except Flaw Atom} : ¬Edited shape (.atom a) v' := by
  rintro (_ | _ | _ | _)

/-- A text is not edited. -/
theorem not_edited_text {s : Except Flaw String} : ¬Edited shape (.text s) v' := by
  rintro (_ | _ | _ | _)

/-- An array is edited in one of its elements. -/
theorem Edited.of_elements (h : Edited shape (.ofElements vs) v') :
    ∃ before v w after, vs = before ++ v :: after ∧ Edited (shape.element before.length) v w ∧
      v' = .ofElements (before ++ w :: after) := by
  generalize hu : Value.ofElements vs = u at h
  cases h with
  | insert => cases hu
  | permute => cases hu
  | member => cases hu
  | element h =>
    cases hu
    exact ⟨_, _, _, _, rfl, h, rfl⟩

/-- An edit of an object with proper names: a member is inserted, the members are in another order,
or one of them is edited. -/
inductive EditedMembers (shape : Shape) (ms : List (String × Value)) :
    List (String × Value) → Prop where
  | insert {name : String} {v : Value} {before after : List (String × Value)}
      (hms : ms = before ++ after) (hname : shape.Lacks name) (hv : v.Passable) :
      EditedMembers shape ms (before ++ (name, v) :: after)
  | permute {ms' : List (String × Value)} (hnodup : (ms.map Prod.fst).Nodup) (h : ms.Perm ms') :
      EditedMembers shape ms ms'
  | member {name : String} {v v' : Value} {before after : List (String × Value)}
      (hms : ms = before ++ (name, v) :: after) (h : Edited (shape.member (.ok name)) v v') :
      EditedMembers shape ms (before ++ (name, v') :: after)

/-- The names of members with proper names are their names. -/
theorem names_map (ms : List (String × Value)) :
    names (ms.map fun m => (.ok m.1, m.2)) = ms.map Prod.fst := by
  rw [names, List.filterMap_map, ← List.filterMap_eq_map]
  rfl

/-- An object with proper names is edited in its members. -/
theorem Edited.of_members (h : Edited shape (.ofMembers ms) v') :
    ∃ ms', v' = .ofMembers ms' ∧ EditedMembers shape ms ms' := by
  generalize hu : Value.ofMembers ms = u at h
  cases h with
  | element => cases hu
  | @insert _ name v before after hname hv =>
    obtain ⟨before, after, rfl, rfl, rfl⟩ := List.map_eq_append_iff.1 (Value.object.inj hu).1
    refine ⟨before ++ (name, v) :: after, ?_, .insert rfl hname hv.passable⟩
    rw [ofMembers, List.map_append, List.map_cons]
  | @permute _ members members' hnodup hperm =>
    obtain ⟨rfl, -⟩ := Value.object.inj hu
    have hnamed : List.Forall₂ (fun (m : Except Flaw String × Value) (n : String × Value) =>
        m = (.ok n.1, n.2)) (ms.map fun m => (.ok m.1, m.2)) ms := by
      rw [List.forall₂_map_left_iff, List.forall₂_same]
      exact fun _ _ => rfl
    -- The members in the other order have proper names too.
    obtain ⟨ms', hms', hperm⟩ := List.perm_comp_forall₂ hperm.symm hnamed
    have hmap : List.Forall₂ (· = ·) members' (ms'.map fun m => (.ok m.1, m.2)) :=
      List.forall₂_map_right_iff.2 hms'
    rw [List.forall₂_eq_eq_eq] at hmap
    rw [names_map] at hnodup
    exact ⟨ms', by rw [hmap, ofMembers], .permute hnodup hperm.symm⟩
  | @member _ name v w before after h =>
    obtain ⟨before, rest, rfl, rfl, hrest⟩ := List.map_eq_append_iff.1 (Value.object.inj hu).1
    obtain ⟨m, after, rfl, hm, rfl⟩ := List.map_eq_cons_iff.1 hrest
    obtain ⟨rfl, rfl⟩ := Prod.mk.inj hm
    refine ⟨before ++ (m.1, w) :: after, ?_, .member rfl h⟩
    rw [ofMembers, List.map_append, List.map_cons]

end Value

open Value (Edited EditedMembers not_edited_atom not_edited_text)

/-- A part of a list may be replaced by one that is related to the same. -/
theorem forall₂_replace {α β : Type} {R : α → β → Prop} {before after : List α} {a a' : α}
    {bs : List β} (h : List.Forall₂ R (before ++ a :: after) bs) (ha : ∀ b, R a b → R a' b) :
    List.Forall₂ R (before ++ a' :: after) bs := by
  induction before generalizing bs with
  | nil =>
    cases h with
    | cons hb hrest => exact .cons (ha _ hb) hrest
  | cons c before ih =>
    cases h with
    | cons hc hrest => exact .cons hc (ih hrest)

/-! ## Plain readers, lists and tables -/

namespace Reader

variable {α : Type} {read : Reader α} {shape : Shape} {v v' : Value}

/-- What is read of a value is read of it when it was edited. -/
def Tolerates (shape : Shape) (read : Reader α) : Prop :=
  ∀ ⦃v v' a⦄, Edited shape v v' → read v = .ok a → read v' = .ok a

/-- Something is read of an edited value if something was read before. -/
def Survives (shape : Shape) (read : Reader α) : Prop :=
  ∀ ⦃v v' a⦄, Edited shape v v' → read v = .ok a → ∃ a', read v' = .ok a'

/-- What is read after an edit is what was read before, or what is read of the edited value. -/
def Follows (shape : Shape) (read : Reader α) (a a' : α) : Prop :=
  a' = a ∨ ∃ v v', Edited shape v v' ∧ read v = .ok a ∧ read v' = .ok a'

/-- Where edits are tolerated the same is read. -/
theorem Follows.eq {a a' : α} (h : Follows shape read a a') (hread : Tolerates shape read) :
    a' = a := by
  rcases h with ha | ⟨v, v', hedited, hv, hv'⟩
  · exact ha
  · exact Except.ok.inj (hv'.symm.trans (hread hedited hv))

/-- A reader to which nothing changes has something to read. -/
theorem Tolerates.survives (h : Tolerates shape read) : Survives shape read :=
  fun _ _ a hedited ha => ⟨a, h hedited ha⟩

/-- No edit changes a text. -/
theorem tolerates_text (shape : Shape) : Tolerates shape text := by
  intro v v' s hedited h
  rw [text_eq_ok_iff.1 h] at hedited
  exact absurd hedited not_edited_text

/-- No edit changes a word. -/
theorem tolerates_word (shape : Shape) : Tolerates shape word := by
  intro v v' n hedited h
  rw [word_eq_ok_iff.1 h] at hedited
  exact absurd hedited not_edited_atom

/-- A list tolerates what its elements tolerate. -/
theorem Tolerates.list (h : Tolerates shape read) : Tolerates (.list shape) (list read) := by
  intro v v' as hedited has
  obtain ⟨vs, rfl, heach⟩ := list_eq_ok_iff.1 has
  obtain ⟨before, v, w, after, rfl, helement, rfl⟩ := hedited.of_elements
  exact list_eq_ok_iff.2 ⟨_, rfl, forall₂_replace heach fun a ha => h helement ha⟩

/-- An optional value tolerates what it tolerates when it is there. -/
theorem Tolerates.optional (h : Tolerates shape read) : Tolerates shape (optional read) := by
  intro v v' o hedited ho
  rcases optional_eq_ok_iff.1 ho with ⟨rfl, -⟩ | ⟨-, a, ha, rfl⟩
  · exact absurd hedited not_edited_atom
  · refine optional_eq_ok_iff.2 (.inr ⟨?_, a, h hedited ha, rfl⟩)
    rintro rfl
    cases hedited

/-- The members of a table have the names of its bindings. -/
theorem keys_eq {ms : List (String × Value)} {bindings : List (String × α)}
    (h : List.Forall₂ (fun m b => b.1 = m.1 ∧ read m.2 = .ok b.2) ms bindings) :
    bindings.map Prod.fst = ms.map Prod.fst := by
  induction h with
  | nil => rfl
  | cons hb _ ih => rw [List.map_cons, List.map_cons, hb.1, ih]

/-- An edited table finds what it found. -/
theorem table_of_edited (h : Tolerates shape read) (hedited : Edited (.table shape) v v')
    {t : Table String α} (ht : table read v = .ok t) :
    ∃ t', table read v' = .ok t' ∧ ∀ key, t'.get? key = t.get? key := by
  obtain ⟨ms, bindings, rfl, heach, rfl⟩ := table_eq_ok_iff.1 ht
  obtain ⟨ms', rfl, hmembers⟩ := hedited.of_members
  cases hmembers with
  | insert _ hname => exact absurd hname id
  | permute hnodup hperm =>
    obtain ⟨bindings', heach', hbindings⟩ := List.perm_comp_forall₂ hperm.symm heach
    refine ⟨_, table_eq_ok_iff.2 ⟨ms', bindings', rfl, heach', rfl⟩, fun key => ?_⟩
    rw [← keys_eq heach] at hnodup
    -- Where no key is repeated, it does not matter which binding of a key is the last one.
    have hnodup' : (bindings'.map Prod.fst).Nodup := (hbindings.map Prod.fst).nodup_iff.2 hnodup
    rw [Table.get?_ofList, Table.get?_ofList, Table.lookup_reverse hnodup,
      Table.lookup_reverse hnodup', Table.lookup_perm hbindings hnodup']
  | member hms hmember =>
    rw [hms] at heach
    exact ⟨_, table_eq_ok_iff.2 ⟨_, bindings, rfl, forall₂_replace heach fun b hb =>
      ⟨hb.1, h hmember hb.2⟩, rfl⟩, fun _ => rfl⟩

end Reader

open Reader (Thorough Tolerates Survives)

/-! ## Records -/

namespace Field

variable {f : Field} {before after vs : List Value} {v : Value} {a : f.Content}

/-- The values of a field are in one order. -/
theorem eq_of_perm {vs' : List Value} (h : f.Gives vs a) (hperm : vs'.Perm vs) : vs' = vs := by
  rcases vs with _ | ⟨v, _ | ⟨w, vs⟩⟩
  · exact List.perm_nil.1 hperm
  · exact List.perm_singleton.1 hperm
  · exact absurd h id

/-- A value of a field is the only one, and what the field contains is read of it. -/
theorem eq_of_mem (h : f.Gives (before ++ v :: after) a) :
    before = [] ∧ after = [] ∧ f.read v = .ok a := by
  rcases before with _ | ⟨u, before⟩
  · rcases after with _ | ⟨w, after⟩
    · exact ⟨rfl, rfl, h⟩
    · exact absurd h id
  · rcases before with _ | ⟨u', before⟩ <;> exact absurd h id

end Field

namespace Row

/-- What each field contains after an edit follows what it contained before. -/
def Follows (shape : Shape) : (fs : List Field) → Row fs → Row fs → Prop
  | [], _, _ => True
  | f :: fs, (a, row), (a', row') =>
    Reader.Follows (shape.member (.ok f.name)) f.read a a' ∧ Follows shape fs row row'

variable {shape : Shape} {fs : List Field} {row row' : Row fs} {ms ms' : List (String × Value)}
  {name : String} {v v' : Value}

/-- Contents that stay follow themselves. -/
theorem follows_self (shape : Shape) (fs : List Field) (row : Row fs) :
    Follows shape fs row row := by
  induction fs with
  | nil => trivial
  | cons f fs ih => exact ⟨.inl rfl, ih row.2⟩

/-- Fields that tolerate edits contain what they did. -/
theorem Follows.eq (h : Follows shape fs row row')
    (hfields : ∀ f ∈ fs, Tolerates (shape.member (.ok f.name)) f.read) : row' = row := by
  induction fs with
  | nil => rfl
  | cons f fs ih =>
    rw [List.forall_mem_cons] at hfields
    obtain ⟨a, row⟩ := row
    obtain ⟨a', row'⟩ := row'
    obtain ⟨hfirst, hrest⟩ := h
    rw [hfirst.eq hfields.1, ih hrest hfields.2]

/-- Members in another order give the same row. -/
theorem Gives.perm (h : Gives ms fs row) (hperm : ms.Perm ms') : Gives ms' fs row := by
  induction fs with
  | nil => trivial
  | cons f fs ih =>
    obtain ⟨a, row⟩ := row
    have hvalues : valuesOf f.name ms' = valuesOf f.name ms := by
      refine Field.eq_of_perm h.1 ?_
      exact (hperm.symm.filter _).map _
    rw [Gives, hvalues]
    exact ⟨h.1, ih h.2⟩

/-- An edited member gives a row that follows. -/
theorem Gives.member {before after : List (String × Value)}
    (h : Gives (before ++ (name, v) :: after) fs row)
    (hedited : Edited (shape.member (.ok name)) v v')
    (hfields : ∀ f ∈ fs, Survives (shape.member (.ok f.name)) f.read) :
    ∃ row', Gives (before ++ (name, v') :: after) fs row' ∧ Follows shape fs row row' := by
  induction fs with
  | nil => exact ⟨(), trivial, trivial⟩
  | cons f fs ih =>
    rw [List.forall_mem_cons] at hfields
    obtain ⟨a, row⟩ := row
    obtain ⟨hfirst, hrest⟩ := h
    obtain ⟨row', hgives, hfollows⟩ := ih hrest hfields.2
    by_cases hname : name = f.name
    · subst hname
      -- The member is the only one of the field, so the field is read of the edited value.
      rw [Value.valuesOf_append, Value.valuesOf_cons_self] at hfirst
      obtain ⟨hbefore, hafter, hread⟩ := Field.eq_of_mem hfirst
      obtain ⟨a', ha'⟩ := hfields.1 hedited hread
      refine ⟨(a', row'), ⟨?_, hgives⟩, .inr ⟨v, v', hedited, hread, ha'⟩, hfollows⟩
      rw [Value.valuesOf_append, Value.valuesOf_cons_self, hbefore, hafter]
      exact ha'
    · refine ⟨(a, row'), ⟨?_, hgives⟩, .inl rfl, hfollows⟩
      rw [Value.valuesOf_append, Value.valuesOf_cons_of_ne hname] at hfirst ⊢
      exact hfirst

/-- An edited element gives a row that follows. -/
theorem Lists.element {before after : List Value} {place : Nat → Shape}
    (h : Lists fs (before ++ v :: after) row) (hedited : Edited (place before.length) v v')
    (hplace : ∀ i f, fs[i]? = some f → place i = shape.member (.ok f.name))
    (hfields : ∀ f ∈ fs, Survives (shape.member (.ok f.name)) f.read) :
    ∃ row', Lists fs (before ++ v' :: after) row' ∧ Follows shape fs row row' := by
  induction fs generalizing before place with
  | nil => exact absurd h (List.append_ne_nil_of_right_ne_nil _ (List.cons_ne_nil _ _))
  | cons f fs ih =>
    rw [List.forall_mem_cons] at hfields
    obtain ⟨a, row⟩ := row
    cases before with
    | nil =>
      obtain ⟨hread, hrest⟩ := h
      rw [List.length_nil, hplace 0 f rfl] at hedited
      obtain ⟨a', ha'⟩ := hfields.1 hedited hread
      exact ⟨(a', row), ⟨ha', hrest⟩, .inr ⟨v, v', hedited, hread, ha'⟩,
        follows_self shape fs row⟩
    | cons u before =>
      obtain ⟨hread, hrest⟩ := h
      -- Behind the first field every place is one further.
      obtain ⟨row', hlists, hfollows⟩ := @ih _ _ (fun i => place (i + 1)) hrest hedited
        (fun i g hg => hplace (i + 1) g hg) hfields.2
      exact ⟨(a, row'), ⟨hread, hlists⟩, .inl rfl, hfollows⟩

end Row

namespace Schema

variable {α : Type} {s : Schema α} {shape : Shape} {v v' : Value} {row : Row s.fields}

/-- The shape is that of an open record with the fields of the schema. -/
structure Fits (s : Schema α) (shape : Shape) : Prop where
  isOpen : s.closed = false
  nodup : s.names.Nodup
  lacks : ∀ name, shape.Lacks name → name ∉ s.names
  element : ∀ i f, s.fields[i]? = some f → shape.element i = shape.member (.ok f.name)

/-- A record of the names of the fields is such a shape. -/
theorem fits_record {fields : List (String × Shape)} (hopen : s.closed = false)
    (hnodup : s.names.Nodup) (hnames : fields.map Prod.fst = s.names) :
    s.Fits (.record fields) where
  isOpen := hopen
  nodup := hnodup
  lacks name h := by rwa [← hnames]
  element i f hf := by
    have hname : (fields.map Prod.fst)[i]? = some f.name := by
      rw [hnames, names, List.getElem?_map, hf]
      rfl
    rw [List.getElem?_map, Option.map_eq_some_iff] at hname
    obtain ⟨⟨name, shape⟩, hfield, rfl⟩ := hname
    have hlookup : Table.lookup f.name fields = some shape :=
      Table.lookup_of_mem (by rwa [hnames]) (List.mem_of_getElem? hfield)
    rw [Shape.element, hfield, Shape.member, hlookup]
    rfl

/-- **An edited record holds a row that follows the one it held.** Each field contains what it did
or what is read of its edited value. -/
theorem Holds.edited (h : s.Holds v row) (hfits : s.Fits shape) (hedited : Edited shape v v')
    (hfields : ∀ f ∈ s.fields, Survives (shape.member (.ok f.name)) f.read) :
    ∃ row', s.Holds v' row' ∧ Row.Follows shape s.fields row row' := by
  cases h with
  | array hlists =>
    obtain ⟨before, v, w, after, rfl, helement, rfl⟩ := hedited.of_elements
    obtain ⟨row', hlists', hfollows⟩ := hlists.element helement hfits.element hfields
    exact ⟨row', .array hlists', hfollows⟩
  | object hadmits hgives =>
    obtain ⟨ms', rfl, hmembers⟩ := hedited.of_members
    cases hmembers with
    | @insert name v before after hms hname hv =>
      have hlacks : name ∉ s.names := hfits.lacks name hname
      rw [hms] at hadmits hgives
      rw [List.forall_mem_append] at hadmits
      refine ⟨row, .object (List.forall_mem_append.2 ⟨hadmits.1, List.forall_mem_cons.2
        ⟨.inr ⟨hfits.isOpen, hv⟩, hadmits.2⟩⟩) (hgives.congr fun f hf => ?_),
        Row.follows_self shape s.fields row⟩
      -- A new member is none of the fields, so their values are the same.
      have hne : name ≠ f.name := fun heq => hlacks (heq ▸ List.mem_map_of_mem hf)
      rw [Value.valuesOf_append, Value.valuesOf_cons_of_ne hne, Value.valuesOf_append]
    | permute _ hperm =>
      exact ⟨row, .object (fun m hm => hadmits m (hperm.mem_iff.2 hm)) (hgives.perm hperm),
        Row.follows_self shape s.fields row⟩
    | @member name v w before after hms hmember =>
      rw [hms] at hadmits hgives
      rw [List.forall_mem_append, List.forall_mem_cons] at hadmits
      obtain ⟨row', hgives', hfollows⟩ := hgives.member hmember hfields
      have hadmitted : s.Admits (name, w) :=
        hadmits.2.1.imp_right fun h => ⟨h.1, hmember.passable h.2⟩
      exact ⟨row', .object (List.forall_mem_append.2 ⟨hadmits.1, List.forall_mem_cons.2
        ⟨hadmitted, hadmits.2.2⟩⟩) hgives', hfollows⟩

/-- A record tolerates what its fields tolerate. -/
theorem tolerates_readWith {excess : Nat → ReadError} (hfits : s.Fits shape)
    (hfields : ∀ f ∈ s.fields, Tolerates (shape.member (.ok f.name)) f.read) :
    Tolerates shape (s.readWith excess) := by
  intro v v' a hedited ha
  obtain ⟨row, hrow, rfl⟩ := (readWith_eq_ok_iff hfits.nodup).1 ha
  obtain ⟨row', hrow', hfollows⟩ :=
    hrow.edited hfits hedited fun f hf => (hfields f hf).survives
  rw [hfollows.eq hfields] at hrow'
  exact (readWith_eq_ok_iff hfits.nodup).2 ⟨row, hrow', rfl⟩

end Schema

/-! ## Plain records -/

/-- A field that contains a text or a word. -/
inductive Field.Plain : Field → Prop where
  | text (name : String) (absent : Absence String) : Plain ⟨name, String, Reader.text, absent⟩
  | word (name : String) (absent : Absence UInt32) : Plain ⟨name, UInt32, Reader.word, absent⟩

/-- A plain field is walked to its end. -/
theorem Field.Plain.thorough {f : Field} (h : f.Plain) : Thorough f.read := by
  cases h with
  | text => exact Reader.thorough_text
  | word => exact Reader.thorough_word

/-- No edit changes a plain field. -/
theorem Field.Plain.tolerates {f : Field} (h : f.Plain) (shape : Shape) :
    Tolerates shape f.read := by
  cases h with
  | text => exact Reader.tolerates_text shape
  | word => exact Reader.tolerates_word shape

namespace Schema

variable {α : Type} {s : Schema α}

/-- The shape of a record whose fields have no parts. -/
def flat (s : Schema α) : Shape :=
  .record (s.names.map (·, .other))

/-- The fields of this shape have the names of the fields. -/
theorem keys_flat (s : Schema α) : (s.names.map (·, Shape.other)).map Prod.fst = s.names := by
  rw [List.map_map]
  exact List.map_id' _

/-- What is no field is none of this shape. -/
theorem lacks_flat {name : String} (h : name ∉ s.names) : s.flat.Lacks name := by
  rwa [flat, Shape.Lacks, keys_flat]

/-- An open record of plain fields. -/
structure Plain (s : Schema α) : Prop where
  isOpen : s.closed = false
  nodup : s.names.Nodup
  fields : ∀ f ∈ s.fields, f.Plain

/-- A plain record is walked to its end. -/
theorem Plain.thorough (h : s.Plain) : Thorough s.read :=
  thorough_readWith h.nodup fun f hf => (h.fields f hf).thorough

/-- A plain record tolerates edits. -/
theorem Plain.tolerates (h : s.Plain) : Tolerates s.flat s.read := by
  exact tolerates_readWith (fits_record h.isOpen h.nodup s.keys_flat) fun f hf =>
    (h.fields f hf).tolerates _

end Schema

end ShaderVariants.Json
