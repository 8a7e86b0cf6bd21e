import ShaderVariants.Json.Printer
import ShaderVariants.Json.Schema
import ShaderVariants.Proofs.Json.Printing
import ShaderVariants.Proofs.Sequence

/-!
# Reading back plain values

Words, texts, names of alternatives and lists are read back from the values that stand for them.

A value is passed over where no one asks for it exactly if no token in it breaks the text and no
bracket is missing (`Value.skip_eq_ok_iff`). A whole value is, whatever texts and brackets it holds,
so an object whose members are no fields of an open record reads as an object without members
(`Schema.readWith_of_notMem`).
-/

namespace ShaderVariants.Json

open Sequence

namespace Reader

/-- A word is read back. -/
@[simp]
theorem word_word (n : UInt32) : word (.word n) = .ok n := by
  have hn : n.toNat < 4294967296 := n.toNat_lt
  have hbounds : (0 : Int) ≤ n.toNat ∧ (n.toNat : Int) ≤ Checked.limit32 - 1 := by
    unfold Checked.limit32
    omega
  unfold word integer Value.word
  simp only [if_pos hbounds, Except.map, Int.toNat_natCast, UInt32.ofNat_toNat]

/-- A text is read back. -/
@[simp]
theorem text_ofText (s : String) : text (.ofText s) = .ok s := rfl

/-- An alternative is read back from its name. -/
theorem choice_ofText {α : Type} {alternatives : List (String × α)} {name : String} {a : α}
    (h : Table.lookup name alternatives = some a) :
    choice alternatives (.ofText name) = .ok a := by
  show alternative alternatives name = .ok a
  rw [alternative, h]

/-- A text is read from nothing but a text. -/
theorem text_eq_ok_iff {v : Value} {s : String} : text v = .ok s ↔ v = .ofText s := by
  constructor
  · intro h
    cases v with
    | text s' =>
      cases s' with
      | ok s' =>
        cases h
        rfl
      | error f => cases h
    | atom a => cases a <;> cases h
    | missing f => cases h
    | array elements cut => cases h
    | object members ending => cases h
  · rintro rfl
    rfl

/-- An integer is read from nothing but an integer within the bounds. -/
theorem integer_eq_ok_iff {low high n : Int} {expected : String} {v : Value} :
    integer low high expected v = .ok n ↔
      v = .atom (.ok (.number (.integer n))) ∧ low ≤ n ∧ n ≤ high := by
  constructor
  · intro h
    unfold integer at h
    split at h
    · split at h
      · rename_i hbounds
        cases h
        exact ⟨rfl, hbounds⟩
      · cases h
    · unfold ReadError.unexpected at h
      split at h <;> cases h
  · rintro ⟨rfl, hbounds⟩
    exact if_pos hbounds

/-- A word is read from nothing but a word. -/
theorem word_eq_ok_iff {v : Value} {n : UInt32} : word v = .ok n ↔ v = .word n := by
  constructor
  · intro h
    obtain ⟨k, hk, rfl⟩ := map_eq_ok_iff.1 h
    obtain ⟨rfl, hlow, hhigh⟩ := integer_eq_ok_iff.1 hk
    have hlt : k.toNat < 2 ^ 32 := by
      unfold Checked.limit32 at hhigh
      omega
    rw [Value.word, UInt32.toNat_ofNat_of_lt' hlt, Int.toNat_of_nonneg hlow]
  · rintro rfl
    exact word_word n

/-- A list is read from nothing but a closed array. -/
theorem list_eq_ok_iff {α : Type} {read : Reader α} {v : Value} {as : List α} :
    list read v = .ok as ↔
      ∃ vs, v = .ofElements vs ∧ List.Forall₂ (fun v a => read v = .ok a) vs as := by
  constructor
  · intro h
    cases v with
    | array elements cut =>
      obtain ⟨as', has', h⟩ := bind_eq_ok_iff.1 h
      cases cut with
      | some f => cases h
      | none =>
        cases h
        exact ⟨elements, rfl, mapM_eq_ok_iff.1 has'⟩
    | atom a => cases a <;> cases h
    | text s => cases s <;> cases h
    | missing f => cases h
    | object members ending => cases h
  · rintro ⟨vs, rfl, h⟩
    rw [Value.ofElements, list, mapM_eq_ok_iff.2 h]
    rfl

/-- A list is read back if its elements are. -/
theorem list_ofElements {α : Type} {read : Reader α} {value : α → Value} {as : List α}
    (h : ∀ a ∈ as, read (value a) = .ok a) : list read (.ofElements (as.map value)) = .ok as :=
  list_eq_ok_iff.2 ⟨_, rfl, List.forall₂_map_left_iff.2 (List.forall₂_same.2 h)⟩

/-- Texts are read from nothing but a closed array of texts. -/
theorem texts_eq_ok_iff {v : Value} {texts : List String} :
    list text v = .ok texts ↔ v = .ofElements (texts.map .ofText) := by
  constructor
  · intro h
    obtain ⟨vs, rfl, heach⟩ := list_eq_ok_iff.1 h
    simp only [text_eq_ok_iff] at heach
    have hvs : List.Forall₂ (· = ·) vs (texts.map .ofText) := List.forall₂_map_right_iff.2 heach
    rw [List.forall₂_eq_eq_eq] at hvs
    rw [hvs]
  · rintro rfl
    exact list_ofElements fun s _ => text_ofText s

end Reader

/-! ## Passing over members -/

namespace Value

/-- No token in the value breaks the text, and no bracket is missing. -/
inductive Passable : Value → Prop where
  | atom {a : Except Flaw Atom} (h : Passed.token a = .ok ()) : Passable (.atom a)
  | text {s : Except Flaw String} (h : Passed.token s = .ok ()) : Passable (.text s)
  | array {elements : List Value} (h : ∀ v ∈ elements, Passable v) :
      Passable (.array elements none)
  | object {members : List (Except Flaw String × Value)}
      (hnames : ∀ m ∈ members, Passed.token m.1 = .ok ()) (h : ∀ m ∈ members, Passable m.2) :
      Passable (.object members .closed)

/-- Elements are passed over exactly if each is. -/
theorem skipElements_eq_ok_iff {vs : List Value} :
    skipElements vs = .ok () ↔ ∀ v ∈ vs, v.skip = .ok () := by
  induction vs with
  | nil => simp [skipElements]
  | cons v vs ih =>
    rw [skipElements, bind_eq_ok_iff, List.forall_mem_cons, ← ih]
    exact ⟨fun ⟨_, hv, hvs⟩ => ⟨hv, hvs⟩, fun ⟨hv, hvs⟩ => ⟨(), hv, hvs⟩⟩

/-- Members are passed over exactly if their names and their values are. -/
theorem skipMembers_eq_ok_iff {ms : List (Except Flaw String × Value)} :
    skipMembers ms = .ok () ↔ ∀ m ∈ ms, Passed.token m.1 = .ok () ∧ m.2.skip = .ok () := by
  induction ms with
  | nil => simp [skipMembers]
  | cons m ms ih =>
    obtain ⟨name, v⟩ := m
    rw [skipMembers, bind_eq_ok_iff, List.forall_mem_cons, ← ih]
    simp only [bind_eq_ok_iff]
    exact ⟨fun ⟨_, hname, _, hv, hms⟩ => ⟨⟨hname, hv⟩, hms⟩,
      fun ⟨⟨hname, hv⟩, hms⟩ => ⟨(), hname, (), hv, hms⟩⟩

/-- What is passed over without a fault is passable. -/
theorem passable_of_skip : ∀ v : Value, v.skip = .ok () → v.Passable
  | .atom a, h => .atom (by rwa [skip] at h)
  | .text s, h => .text (by rwa [skip] at h)
  | .missing f, h => by
    rw [skip] at h
    cases h
  | .array elements cut, h => by
    rw [skip] at h
    obtain ⟨_, helements, hcut⟩ := bind_eq_ok_iff.1 h
    cases cut with
    | some f => cases hcut
    | none =>
      rw [skipElements_eq_ok_iff] at helements
      exact .array fun v hv => passable_of_skip v (helements v hv)
  | .object members ending, h => by
    rw [skip] at h
    obtain ⟨_, hmembers, hending⟩ := bind_eq_ok_iff.1 h
    cases ending with
    | cut f => cases hending
    | nameless f => cases hending
    | closed =>
      rw [skipMembers_eq_ok_iff] at hmembers
      exact .object (fun m hm => (hmembers m hm).1)
        fun m hm => passable_of_skip m.2 (hmembers m hm).2
termination_by v => v
decreasing_by
  · have := List.sizeOf_lt_of_mem hv
    simp only [Value.array.sizeOf_spec]
    omega
  · have := List.sizeOf_lt_of_mem hm
    have hm : sizeOf m = 1 + sizeOf m.1 + sizeOf m.2 := rfl
    simp only [Value.object.sizeOf_spec]
    omega

/-- Exactly the passable values are passed over without a fault. -/
theorem skip_eq_ok_iff {v : Value} : v.skip = .ok () ↔ v.Passable := by
  refine ⟨v.passable_of_skip, fun h => ?_⟩
  induction h with
  | atom h => rwa [skip]
  | text h => rwa [skip]
  | array _ ih =>
    rw [skip, skipElements_eq_ok_iff.2 ih]
    rfl
  | object hnames _ ih =>
    rw [skip, skipMembers_eq_ok_iff.2 fun m hm => ⟨hnames m hm, ih m hm⟩]
    rfl

/-- Nothing in the value is flawed or missing. -/
inductive Sound : Value → Prop where
  | atom (a : Atom) : Sound (.atom (.ok a))
  | text (s : String) : Sound (.ofText s)
  | array {elements : List Value} (h : ∀ v ∈ elements, Sound v) : Sound (.ofElements elements)
  | object {members : List (String × Value)} (h : ∀ m ∈ members, Sound m.2) :
      Sound (.ofMembers members)

/-- The elements of a sound array are sound. -/
theorem Sound.of_mem_elements {vs : List Value} (h : (ofElements vs).Sound) {v : Value}
    (hv : v ∈ vs) : v.Sound := by
  cases h with
  | array h => exact h v hv

/-- Closed objects are the same only if their members are. -/
theorem ofMembers_inj {ms ns : List (String × Value)} (h : ofMembers ms = ofMembers ns) :
    ms = ns := by
  have hinj : Function.Injective fun m : String × Value =>
      ((.ok m.1 : Except Flaw String), m.2) := by
    rintro ⟨name, v⟩ ⟨name', v'⟩ h
    cases h
    rfl
  exact List.map_injective_iff.2 hinj (Value.object.inj h).1

/-- The values of the members of a sound object are sound. -/
theorem Sound.of_mem {ms : List (String × Value)} (h : (ofMembers ms).Sound) {m : String × Value}
    (hm : m ∈ ms) : m.2.Sound := by
  generalize hv : ofMembers ms = v at h
  cases h with
  | atom a => cases hv
  | text s => cases hv
  | array h => cases hv
  | object h =>
    rw [ofMembers_inj hv] at hm
    exact h m hm

/-- A sound value can be passed over. -/
theorem Sound.passable {v : Value} (h : v.Sound) : v.Passable := by
  induction h with
  | atom a => exact .atom rfl
  | text s => exact .text rfl
  | array _ ih => exact .array ih
  | object _ ih =>
    exact .object (List.forall_mem_map.2 fun _ _ => rfl) (List.forall_mem_map.2 ih)

/-- A sound value is passed over. -/
theorem Sound.skip {v : Value} (h : v.Sound) : v.skip = .ok () :=
  skip_eq_ok_iff.2 h.passable

/-- A whole value is sound. -/
theorem Whole.sound {v : Value} (h : v.Whole) : v.Sound := by
  induction h with
  | null => exact .atom _
  | boolean b => exact .atom _
  | count hn => exact .atom _
  | text s => exact .text s
  | array _ ih => exact .array ih
  | object _ ih => exact .object ih

end Value

/-- A member that is not the first field fills one of the others. -/
theorem Draft.enter_cons {f : Field} {fs : List Field} (content : Option f.Content)
    (draft : Draft fs) {name : String} (v : Value) (h : f.name ≠ name) :
    enter (f :: fs) (content, draft) name v =
      (enter fs draft name v).map (Option.map (content, ·)) :=
  if_neg h

/-- A name of no field fills none. -/
theorem Draft.enter_of_notMem {fs : List Field} (draft : Draft fs) {name : String} (v : Value)
    (h : name ∉ fs.map Field.name) : draft.enter fs name v = .ok none := by
  induction fs with
  | nil => rfl
  | cons f fs ih =>
    obtain ⟨content, draft⟩ := draft
    rw [List.map_cons, List.mem_cons, not_or] at h
    rw [enter_cons _ _ _ (Ne.symm h.1), ih draft h.2]
    rfl

namespace Schema

variable {α : Type}

/-- A member that is no field leaves the draft of an open record as it is. -/
theorem member_of_notMem (s : Schema α) (hopen : s.closed = false) (draft : Draft s.fields)
    {name : String} {v : Value} (hname : name ∉ s.fields.map Field.name) (hskip : v.skip = .ok ()) :
    s.member draft (.ok name, v) = .ok draft := by
  rw [member, ReadError.ofToken, ok_bind, Draft.enter_of_notMem draft v hname, ok_bind]
  simp only [hopen, hskip]
  rfl

/-- Whole members that are no fields leave the draft of an open record as it is. -/
theorem foldlM_member_of_notMem (s : Schema α) (hopen : s.closed = false) (draft : Draft s.fields)
    {ms : List (String × Value)} (h : ∀ m ∈ ms, m.1 ∉ s.fields.map Field.name ∧ m.2.Whole) :
    (ms.map fun m => ((.ok m.1 : Except Flaw String), m.2)).foldlM s.member draft = .ok draft := by
  induction ms with
  | nil => rfl
  | cons m ms ih =>
    obtain ⟨hname, hwhole⟩ := h m List.mem_cons_self
    rw [List.map_cons, List.foldlM_cons,
      s.member_of_notMem hopen draft hname hwhole.sound.skip, ok_bind]
    exact ih fun m hm => h m (List.mem_cons_of_mem _ hm)

/-- An object of whole members that are no fields reads, as an open record, like one without
members. -/
theorem readWith_of_notMem (excess : Nat → ReadError) (s : Schema α) (hopen : s.closed = false)
    {ms : List (String × Value)} (h : ∀ m ∈ ms, m.1 ∉ s.fields.map Field.name ∧ m.2.Whole) :
    s.readWith excess (.ofMembers ms) = s.readWith excess (.ofMembers []) := by
  rw [Value.ofMembers, Value.ofMembers, readWith, readWith, s.foldlM_member_of_notMem hopen _ h]
  rfl

end Schema

end ShaderVariants.Json
