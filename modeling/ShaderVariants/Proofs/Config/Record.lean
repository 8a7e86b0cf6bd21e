import Mathlib.Algebra.Ring.Int.Defs
import ShaderVariants.Proofs.Json.Mismatch
import ShaderVariants.Proofs.Json.Settled

/-!
# The record of a group

A value describes a group (`MacroGroup.Describes`) if it is an object whose last member `macros` is
a list of texts and whose last member `type` is a signed 64-bit integer, or an array of just these
two. The group is read from what the value is settled to exactly if the value describes it
(`readWith_eq_ok_iff`); otherwise the value does not match the record (`readWith_mismatches`).

Values are alike as groups (`MacroGroup.Alike`) if they are the same or are objects with the same
last members of these two names. From such values the same is read (`readWith_congr`).
-/

namespace ShaderVariants

open Json (Value Reader ReadError Draft Schema)
open Json.Value (last)
open Sequence

namespace MacroGroup

/-- The value describes a group of these macros and of the kind of this number. -/
inductive Describes : Value → List String → ℤ → Prop where
  | object {ms : List (String × Value)} {macros : List String} {kind : ℤ}
      (hmacros : last "macros" ms = some (.ofElements (macros.map .ofText)))
      (hkind : last "type" ms = some (.atom (.ok (.number (.integer kind)))))
      (hrange : -2 ^ 63 ≤ kind ∧ kind < 2 ^ 63) : Describes (.ofMembers ms) macros kind
  | array {macros : List String} {kind : ℤ} (hrange : -2 ^ 63 ≤ kind ∧ kind < 2 ^ 63) :
      Describes
        (.ofElements [.ofElements (macros.map .ofText), .atom (.ok (.number (.integer kind)))])
        macros kind

/-- An object describes a group by its last members of the two names. -/
theorem Describes.of_object {ms : List (String × Value)} {macros : List String} {kind : ℤ}
    (h : Describes (.ofMembers ms) macros kind) :
    last "macros" ms = some (.ofElements (macros.map .ofText)) ∧
      last "type" ms = some (.atom (.ok (.number (.integer kind)))) ∧
      -2 ^ 63 ≤ kind ∧ kind < 2 ^ 63 := by
  generalize hv : Value.ofMembers ms = v at h
  cases h with
  | object hmacros hkind hrange =>
    rw [Value.ofMembers_inj hv]
    exact ⟨hmacros, hkind, hrange⟩
  | array hrange => cases hv

/-- As groups the values are alike: they are the same, or objects in which the last members of the
two names are. -/
inductive Alike : Value → Value → Prop where
  | same {v w : Value} (h : Value.Same v w) : Alike v w
  | fields {ms ns : List (String × Value)}
      (h : ∀ field ∈ ["macros", "type"], Option.Rel Value.Same (last field ms) (last field ns)) :
      Alike (.ofMembers ms) (.ofMembers ns)

/-- What is read for a field from its value, if it has one. -/
def entered {α : Type} (read : Reader α) (before : Option α) (v : Option Value) :
    Except ReadError (Option α) :=
  match v with
  | none => .ok before
  | some v => (read v).map some

/-- What is read for the record from the values of its fields. -/
def ofFields (macros kind : Option Value) : Except ReadError (List String × ℤ) := do
  let macros ← entered (Reader.list Reader.text) none macros
  let kind ← entered Reader.integer64 none kind
  match macros, kind with
  | none, _ => .error (.mismatch (.missingField "macros"))
  | some _, none => .error (.mismatch (.missingField "type"))
  | some macros, some kind => .ok (macros, kind)

/-- The draft in which these fields were met. -/
def draft (macros : Option (List String)) (kind : Option ℤ) : Draft schema.fields :=
  (macros, kind, ())

/-- What is read for the record from the elements of an array. -/
def ofElements : List Value → Except ReadError (List String × ℤ)
  | [] => .error (.mismatch (.wrongLength 0 schema.arrayForm))
  | [v] => do
    let _ ← Reader.list Reader.text v
    .error (.mismatch (.wrongLength 1 schema.arrayForm))
  | v :: w :: rest => do
    let macros ← Reader.list Reader.text v
    let kind ← Reader.integer64 w
    if rest.isEmpty then .ok (macros, kind) else .error (excess (rest.length + 2))

variable {l : List (String × Value)} {macros : Option (List String)} {kind : Option ℤ}

/-- The macros are entered from their member. -/
theorem member_macros (v : Value) :
    schema.member (draft none kind) (.ok "macros", v) =
      (Reader.list Reader.text v).map fun macros => draft (some macros) kind := by
  have henter : (draft none kind).enter schema.fields "macros" v =
      (Reader.list Reader.text v).map fun macros => some (draft (some macros) kind) := rfl
  rw [Schema.member, ReadError.ofToken, ok_bind, henter]
  cases Reader.list Reader.text v <;> rfl

/-- The kind is entered from its member. -/
theorem member_type (v : Value) :
    schema.member (draft macros none) (.ok "type", v) =
      (Reader.integer64 v).map fun kind => draft macros (some kind) := by
  have henter : (draft macros none).enter schema.fields "type" v =
      ((Reader.integer64 v).map fun kind => some (some kind, ())).map
        (Option.map fun rest => (macros, rest)) := rfl
  rw [Schema.member, ReadError.ofToken, ok_bind, henter]
  cases Reader.integer64 v <;> rfl

/-- Members in order fill the two fields, first the macros and then the kind. -/
theorem foldlM_member_of_ordered (hordered : Value.Ordered l) (hskip : ∀ m ∈ l, m.2.skip = .ok ())
    (hmacros : macros = none ∨ Table.lookup "macros" l = none)
    (hkind : kind = none ∨ Table.lookup "type" l = none) :
    (l.map fun m => ((.ok m.1 : Except Json.Flaw String), m.2)).foldlM schema.member
        (draft macros kind) = do
      let macros ← entered (Reader.list Reader.text) macros (Table.lookup "macros" l)
      let kind ← entered Reader.integer64 kind (Table.lookup "type" l)
      return draft macros kind := by
  induction l generalizing macros kind with
  | nil => rfl
  | cons m l ih =>
    obtain ⟨name, v⟩ := m
    obtain ⟨hfirst, hrest⟩ := List.pairwise_cons.1 hordered
    have hskips : ∀ m ∈ l, m.2.skip = .ok () := fun m hm => hskip m (List.mem_cons_of_mem _ hm)
    have hlater : Table.lookup name l = none := Value.lookup_eq_none_of_lt hfirst
    rw [List.map_cons, List.foldlM_cons]
    rw [Table.lookup] at hmacros hkind
    rw [Table.lookup, Table.lookup]
    by_cases hm : name = "macros"
    · subst hm
      have hnone : macros = none := hmacros.resolve_right (by simp)
      subst hnone
      rw [if_neg (by decide)] at hkind
      rw [if_pos rfl, if_neg (by decide), member_macros, entered]
      dsimp only
      cases Reader.list Reader.text v with
      | error e => rfl
      | ok macros =>
        show List.foldlM _ (draft (some macros) kind) _ = _
        rw [ih hrest hskips (.inr hlater) hkind, hlater]
        rfl
    · by_cases ht : name = "type"
      · subst ht
        have hnone : kind = none := hkind.resolve_right (by simp)
        subst hnone
        -- The name of the macros comes first in the order, so it is not among later ones.
        have habsent : Table.lookup "macros" l = none :=
          Value.lookup_eq_none_of_lt fun m hm =>
            String.lt_trans (by decide : "macros" < "type") (hfirst m hm)
        rw [if_neg (by decide), if_pos rfl, member_type, habsent]
        cases hread : Reader.integer64 v with
        | error e =>
          simp [entered, hread]
          rfl
        | ok kind =>
          show List.foldlM _ (draft macros (some kind)) _ = _
          rw [ih hrest hskips (.inr habsent) (.inr hlater), habsent, hlater]
          simp [entered, hread]
          rfl
      · have hname : name ∉ schema.fields.map Json.Field.name := by
          show name ∉ ["macros", "type"]
          simp [hm, ht]
        rw [if_neg hm] at hmacros ⊢
        rw [if_neg ht] at hkind ⊢
        rw [schema.member_of_notMem rfl _ hname (hskip _ List.mem_cons_self), ok_bind]
        exact ih hrest hskips hmacros hkind

/-- The record of an object whose members are in order is read from the values of its fields. -/
theorem readWith_of_ordered (hordered : Value.Ordered l) (hskip : ∀ m ∈ l, m.2.skip = .ok ()) :
    schema.readWith excess (.ofMembers l) =
      ofFields (Table.lookup "macros" l) (Table.lookup "type" l) := by
  have hfold := foldlM_member_of_ordered hordered hskip (.inl rfl : none = none ∨ _)
    (.inl rfl : none = none ∨ _)
  rw [Value.ofMembers, Schema.readWith]
  show (List.foldlM schema.member (draft none none) _ >>= _) = _
  rw [hfold]
  unfold ofFields
  cases entered (Reader.list Reader.text) none (Table.lookup "macros" l) with
  | error e => rfl
  | ok macros =>
    cases entered Reader.integer64 none (Table.lookup "type" l) with
    | error e => rfl
    | ok kind => cases macros <;> cases kind <;> rfl

/-- The record of an array is read from its elements, of which there have to be two. -/
theorem readWith_ofElements (vs : List Value) :
    schema.readWith excess (.ofElements vs) = ofElements vs := by
  match vs with
  | [] => rfl
  | [v] =>
    rw [Value.ofElements, Schema.readWith, ofElements]
    show (Json.Row.ofElements _ none [_, _] 0 [v] >>= _) = _
    rw [Json.Row.ofElements]
    show ((Reader.list Reader.text v >>= _) >>= _) = _
    cases Reader.list Reader.text v with
    | error e => rfl
    | ok macros => rfl
  | v :: w :: rest =>
    rw [Value.ofElements, Schema.readWith, ofElements]
    show (Json.Row.ofElements _ none [_, _] 0 (v :: w :: rest) >>= _) = _
    rw [Json.Row.ofElements, Json.Row.ofElements]
    show ((Reader.list Reader.text v >>= _) >>= _) = _
    cases Reader.list Reader.text v with
    | error e => rfl
    | ok macros =>
      show (((Reader.integer64 w >>= _) >>= _) >>= _) = _
      cases Reader.integer64 w with
      | error e => rfl
      | ok kind => cases rest <;> rfl

/-! ## What a value describes -/

variable {v v' w w' : Value} {room : ℕ} {texts : List String} {n : ℤ}

/-- An integer is read from nothing but a signed 64-bit integer. -/
theorem integer64_eq_ok_iff :
    Reader.integer64 v = .ok n ↔
      v = .atom (.ok (.number (.integer n))) ∧ -2 ^ 63 ≤ n ∧ n < 2 ^ 63 := by
  rw [Reader.integer64, Reader.integer_eq_ok_iff, Checked.limit63]
  refine and_congr_right fun _ => ?_
  omega

/-- The record is read from settled values of its fields as from the values. -/
theorem ofFields_eq {x x' y y' : Option Value} (hx : Option.Rel (Value.Settles room) x x')
    (hy : Option.Rel (Value.Settles room) y y') : ofFields x' y' = ofFields x y := by
  have hmacros : entered (Reader.list Reader.text) none x' =
      entered (Reader.list Reader.text) none x := by
    cases hx with
    | none => rfl
    | some h => rw [entered, entered, h.texts_eq]
  have hkind : entered Reader.integer64 none y' = entered Reader.integer64 none y := by
    cases hy with
    | none => rfl
    | some h => rw [entered, entered, Reader.integer64, h.integer_eq]
  rw [ofFields, ofFields, hmacros, hkind]

/-- The record is read from settled elements as from the elements. -/
theorem ofElements_eq {vs ws : List Value} (h : List.Forall₂ (Value.Settles room) vs ws) :
    ofElements ws = ofElements vs := by
  cases h with
  | nil => rfl
  | cons hv hrest =>
    cases hrest with
    | nil => rw [ofElements, ofElements, hv.texts_eq]
    | cons hw hrest =>
      have hempty : ∀ {vs ws : List Value}, List.Forall₂ (Value.Settles room) vs ws →
          ws.isEmpty = vs.isEmpty := fun h => by cases h <;> rfl
      rw [ofElements, ofElements, hv.texts_eq, Reader.integer64, hw.integer_eq, hempty hrest,
        hrest.length_eq]

/-- The record is read from the values of fields exactly if both are there, as they have to be. -/
theorem ofFields_eq_ok_iff {x y : Option Value} {macros : List String} {kind : ℤ} :
    ofFields x y = .ok (macros, kind) ↔ x = some (.ofElements (macros.map .ofText)) ∧
      y = some (.atom (.ok (.number (.integer kind)))) ∧ -2 ^ 63 ≤ kind ∧ kind < 2 ^ 63 := by
  constructor
  · intro h
    obtain ⟨macros?, hmacros, h⟩ := bind_eq_ok_iff.1 h
    obtain ⟨kind?, hkind, h⟩ := bind_eq_ok_iff.1 h
    cases macros? with
    | none => cases h
    | some macros' =>
      cases kind? with
      | none => cases h
      | some kind' =>
        cases h
        cases x with
        | none => cases hmacros
        | some v =>
          cases y with
          | none => cases hkind
          | some w =>
            obtain ⟨_, hv, hsome⟩ := map_eq_ok_iff.1 hmacros
            cases hsome
            obtain ⟨_, hw, hsome⟩ := map_eq_ok_iff.1 hkind
            cases hsome
            obtain ⟨rfl, hrange⟩ := integer64_eq_ok_iff.1 hw
            exact ⟨congrArg some (Reader.texts_eq_ok_iff.1 hv), rfl, hrange⟩
  · rintro ⟨rfl, rfl, hrange⟩
    rw [ofFields, entered, entered, Reader.texts_eq_ok_iff.2 rfl,
      integer64_eq_ok_iff.2 ⟨rfl, hrange⟩]
    rfl

/-- The record is read from elements exactly if there are two, as they have to be. -/
theorem ofElements_eq_ok_iff {vs : List Value} {macros : List String} {kind : ℤ} :
    ofElements vs = .ok (macros, kind) ↔
      vs = [.ofElements (macros.map .ofText), .atom (.ok (.number (.integer kind)))] ∧
        -2 ^ 63 ≤ kind ∧ kind < 2 ^ 63 := by
  constructor
  · intro h
    match vs with
    | [] => cases h
    | [v] =>
      obtain ⟨_, -, h⟩ := bind_eq_ok_iff.1 h
      cases h
    | v :: w :: rest =>
      obtain ⟨macros', hmacros, h⟩ := bind_eq_ok_iff.1 h
      obtain ⟨kind', hkind, h⟩ := bind_eq_ok_iff.1 h
      cases rest with
      | cons u rest => cases h
      | nil =>
        cases h
        obtain ⟨rfl, hrange⟩ := integer64_eq_ok_iff.1 hkind
        rw [Reader.texts_eq_ok_iff.1 hmacros]
        exact ⟨rfl, hrange⟩
  · rintro ⟨rfl, hrange⟩
    rw [ofElements, Reader.texts_eq_ok_iff.2 rfl, integer64_eq_ok_iff.2 ⟨rfl, hrange⟩]
    rfl

/-- A sound value is a list of texts, or does not match one. -/
theorem texts_mismatches (h : v.Sound) : Json.Mismatches (Reader.list Reader.text v) :=
  h.list_mismatches fun _ h => h.text_mismatches

/-- Sound values of fields are a record, or do not match one. -/
theorem ofFields_mismatches {x y : Option Value} (hx : ∀ v ∈ x, v.Sound) (hy : ∀ v ∈ y, v.Sound) :
    Json.Mismatches (ofFields x y) := by
  have hmacros : Json.Mismatches (entered (Reader.list Reader.text) none x) := by
    cases x with
    | none => exact .ok none
    | some v => exact (texts_mismatches (hx v rfl)).map some
  have hkind : Json.Mismatches (entered Reader.integer64 none y) := by
    cases y with
    | none => exact .ok none
    | some v => exact ((hy v rfl).integer_mismatches _ _ _).map some
  refine hmacros.bind fun macros => hkind.bind fun kind => ?_
  cases macros with
  | none => exact .mismatch _
  | some macros =>
    cases kind with
    | none => exact .mismatch _
    | some kind => exact .ok _

/-- Sound elements are a record, or do not match one. -/
theorem ofElements_mismatches {vs : List Value} (h : ∀ v ∈ vs, v.Sound) :
    Json.Mismatches (ofElements vs) := by
  match vs with
  | [] => exact .mismatch _
  | [v] => exact (texts_mismatches (h v (by simp))).bind fun _ => .mismatch _
  | v :: w :: rest =>
    refine (texts_mismatches (h v (by simp))).bind fun macros => ?_
    refine ((h w (by simp)).integer_mismatches _ _ _).bind fun kind => ?_
    split
    · exact .ok _
    · exact .mismatch _

/-- The record of an object whose members were entered is read from the values of its fields. -/
theorem readWith_enterAll {settled : List (String × Value)}
    (hsound : (Value.ofMembers (Value.enterAll [] settled)).Sound) :
    schema.readWith excess (.ofMembers (Value.enterAll [] settled)) =
      ofFields (Table.lookup "macros" (Value.enterAll [] settled))
        (Table.lookup "type" (Value.enterAll [] settled)) :=
  readWith_of_ordered (Value.ordered_enterAll settled) fun _ hm => (hsound.of_mem hm).skip

section

variable (hv : v.Sound) (hw : Value.settle room v = .ok w)
include hv hw

/-- The record is read from a settled value exactly if the value describes it. -/
theorem readWith_eq_ok_iff {macros : List String} {kind : ℤ} :
    schema.readWith excess w = .ok (macros, kind) ↔ Describes v macros kind := by
  have hsound := hv.of_settle hw
  cases hv.settles hw with
  | atom a =>
    constructor
    · intro h
      cases h
    · intro h
      cases h
  | text s =>
    constructor
    · intro h
      cases h
    · intro h
      cases h
  | array hvs hws =>
    rw [readWith_ofElements, ofElements_eq (Value.forall₂_settles hvs hws), ofElements_eq_ok_iff]
    constructor
    · rintro ⟨rfl, hrange⟩
      exact .array hrange
    · intro h
      cases h with
      | array hrange => exact ⟨rfl, hrange⟩
  | object hms hsettled =>
    have hlookup := Value.lookup_settles hms hsettled
    rw [readWith_enterAll hsound, ofFields_eq (hlookup "macros") (hlookup "type"),
      ofFields_eq_ok_iff]
    constructor
    · rintro ⟨hmacros, hkind, hrange⟩
      exact .object hmacros hkind hrange
    · intro h
      exact h.of_object

/-- A settled value is the record of a group, or it does not match one. -/
theorem readWith_mismatches : Json.Mismatches (schema.readWith excess w) := by
  have hsound := hv.of_settle hw
  cases hv.settles hw with
  | atom a => exact hsound.unexpected _
  | text s => exact hsound.unexpected _
  | array => exact readWith_ofElements _ ▸ ofElements_mismatches fun _ => hsound.of_mem_elements
  | object =>
    rw [readWith_enterAll hsound]
    exact ofFields_mismatches (fun v hv => hsound.of_mem (Table.mem_of_lookup hv))
      fun v hv => hsound.of_mem (Table.mem_of_lookup hv)

/-- From values that are alike as groups the same is read, if only a mismatch. -/
theorem readWith_congr (hv' : v'.Sound) (hw' : Value.settle room v' = .ok w') (h : Alike v v') :
    schema.readWith excess w = schema.readWith excess w' := by
  cases h with
  | same h => rw [h.settle_eq hw hw']
  | fields h =>
    have hsound := hv.of_settle hw
    have hsound' := hv'.of_settle hw'
    obtain ⟨n, settled, rfl, hsettled, rfl⟩ := Value.settle_ofMembers.1 hw
    obtain ⟨_, settled', hroom, hsettled', rfl⟩ := Value.settle_ofMembers.1 hw'
    cases hroom
    have hlookup : ∀ field ∈ ["macros", "type"],
        Table.lookup field (Value.enterAll [] settled) =
          Table.lookup field (Value.enterAll [] settled') := fun field hfield =>
      Value.lookup_enterAll_eq (fun _ _ _ _ => Value.Same.settle_eq) (h field hfield) hsettled
        hsettled'
    rw [readWith_enterAll hsound, readWith_enterAll hsound', hlookup "macros" (by simp),
      hlookup "type" (by simp)]

end

end MacroGroup

end ShaderVariants
