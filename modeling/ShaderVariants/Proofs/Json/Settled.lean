import Mathlib.Data.String.Basic
import ShaderVariants.Config.Document
import ShaderVariants.Proofs.Json.Records
import ShaderVariants.Proofs.Table

/-!
# Settled values

A value without flaws whose containers are nested no deeper than there is room is settled
(`Sound.exists_settle`). Its objects then have their members in the order of names, of several
members of one name the last one. So values that differ in the order of members, or in members that
later ones replace (`Same`), are settled to one value (`Same.settle_eq`).

A settled value is one of the same kind (`Settles`), and reads as the value does wherever the
members of an object do not matter (`Settles.text_eq`, `Settles.integer_eq`, `Settles.texts_eq`).
-/

namespace ShaderVariants.Json.Value

open Sequence

/-! ## The last member of a name -/

/-- The last value that members bind to a name. -/
def last (name : String) (ms : List (String × Value)) : Option Value :=
  Table.lookup name ms.reverse

/-- Members in the order of their names, no name twice. -/
def Ordered (ms : List (String × Value)) : Prop :=
  ms.Pairwise fun m n => m.1 < n.1

variable {name : String} {v w : Value} {ms ns : List (String × Value)}

/-- A name that comes before all others is not found. -/
theorem lookup_eq_none_of_lt (h : ∀ m ∈ ms, name < m.1) : Table.lookup name ms = none :=
  Table.lookup_eq_none fun m hm heq => String.lt_irrefl _ (heq ▸ h m hm)

/-- Entering a member changes the value of its name and no other. -/
theorem lookup_insertMember (other : String) :
    Table.lookup other (insertMember name v ms) =
      if name = other then some v else Table.lookup other ms := by
  induction ms with
  | nil => rfl
  | cons m ms ih =>
    obtain ⟨n, w⟩ := m
    rw [insertMember]
    split
    · rfl
    · split
      · rename_i hname
        subst hname
        simp only [Table.lookup]
        split <;> rfl
      · rename_i hname
        simp only [Table.lookup, ih]
        by_cases hother : n = other
        · subst hother
          rw [if_pos rfl, if_neg hname, if_pos rfl]
        · rw [if_neg hother, if_neg hother]

/-- What is entered among members is the member, and those that were there. -/
theorem mem_of_mem_insertMember {m : String × Value} (h : m ∈ insertMember name v ms) :
    m = (name, v) ∨ m ∈ ms := by
  induction ms with
  | nil => exact .inl (List.mem_singleton.1 h)
  | cons n ms ih =>
    rw [insertMember] at h
    split at h
    · exact List.mem_cons.1 h
    · split at h
      · exact (List.mem_cons.1 h).imp_right (List.mem_cons_of_mem _)
      · rcases List.mem_cons.1 h with rfl | h
        · exact .inr List.mem_cons_self
        · exact (ih h).imp_right (List.mem_cons_of_mem _)

/-- A member is entered at its place in the order. -/
theorem Ordered.insertMember (h : Ordered ms) (name : String) (v : Value) :
    Ordered (insertMember name v ms) := by
  induction ms with
  | nil => exact List.pairwise_singleton _ _
  | cons n ms ih =>
    obtain ⟨hfirst, hrest⟩ := List.pairwise_cons.1 h
    rw [Value.insertMember]
    split
    · rename_i hlt
      refine List.pairwise_cons.2 ⟨fun m hm => ?_, h⟩
      rcases List.mem_cons.1 hm with rfl | hm
      · exact hlt
      · exact String.lt_trans hlt (hfirst m hm)
    · rename_i hlt
      split
      · rename_i heq
        subst heq
        exact List.pairwise_cons.2 ⟨hfirst, hrest⟩
      · rename_i hne
        refine List.pairwise_cons.2 ⟨fun m hm => ?_, ih hrest⟩
        rcases mem_of_mem_insertMember hm with rfl | hm
        · exact Std.lt_of_le_of_ne (String.not_lt.1 hlt) (Ne.symm hne)
        · exact hfirst m hm

/-- Members in order are known by the values that are found. -/
theorem Ordered.ext (hms : Ordered ms) (hns : Ordered ns)
    (h : ∀ name, Table.lookup name ms = Table.lookup name ns) : ms = ns := by
  induction ms generalizing ns with
  | nil =>
    cases ns with
    | nil => rfl
    | cons n ns =>
      have hn := h n.1
      rw [Table.lookup, Table.lookup, if_pos rfl] at hn
      cases hn
  | cons m ms ih =>
    have hm := h m.1
    rw [Table.lookup, if_pos rfl] at hm
    obtain ⟨hmfirst, hmrest⟩ := List.pairwise_cons.1 hms
    cases ns with
    | nil => cases hm
    | cons n ns =>
      obtain ⟨hnfirst, hnrest⟩ := List.pairwise_cons.1 hns
      -- The first names are the same, since neither is found among later ones.
      have hname : m.1 = n.1 := by
        by_contra hne
        rcases lt_or_gt_of_ne hne with hlt | hlt
        · rw [Table.lookup, if_neg (Ne.symm hne),
            lookup_eq_none_of_lt fun k hk => String.lt_trans hlt (hnfirst k hk)] at hm
          cases hm
        · have hn := h n.1
          rw [Table.lookup, if_neg hne, Table.lookup, if_pos rfl,
            lookup_eq_none_of_lt fun k hk => String.lt_trans hlt (hmfirst k hk)] at hn
          cases hn
      rw [Table.lookup, if_pos hname.symm] at hm
      have hsame : m = n := Prod.ext hname (Option.some.inj hm)
      subst hsame
      refine congrArg (m :: ·) (ih hmrest hnrest fun name => ?_)
      have hrest := h name
      by_cases hne : m.1 = name
      · subst hne
        rw [lookup_eq_none_of_lt hmfirst, lookup_eq_none_of_lt hnfirst]
      · rwa [Table.lookup, if_neg hne, Table.lookup, if_neg hne] at hrest

/-- Members entered one after another. -/
def enterAll (before : List (String × Value)) (ms : List (String × Value)) :
    List (String × Value) :=
  ms.foldl (fun entered m => insertMember m.1 m.2 entered) before

/-- Of entered members the last of a name is found. -/
theorem lookup_enterAll (before ms : List (String × Value)) (name : String) :
    Table.lookup name (enterAll before ms) = (last name ms).or (Table.lookup name before) := by
  induction ms generalizing before with
  | nil => rfl
  | cons m ms ih =>
    have hstep : enterAll before (m :: ms) = enterAll (insertMember m.1 m.2 before) ms := rfl
    rw [hstep, ih, lookup_insertMember, last, last, List.reverse_cons, Table.lookup_append]
    by_cases hname : m.1 = name <;> simp [Table.lookup, hname]

/-- Members are entered in order. -/
theorem Ordered.enterAll {before : List (String × Value)} (h : Ordered before)
    (ms : List (String × Value)) : Ordered (enterAll before ms) := by
  induction ms generalizing before with
  | nil => exact h
  | cons m ms ih => exact ih (h.insertMember m.1 m.2)

/-- What is found among entered members was there, or is one of them. -/
theorem mem_of_mem_enterAll {before : List (String × Value)} {m : String × Value}
    (h : m ∈ enterAll before ms) : m ∈ before ∨ m ∈ ms := by
  induction ms generalizing before with
  | nil => exact .inl h
  | cons n ms ih =>
    rcases ih h with hbefore | hms
    · rcases mem_of_mem_insertMember hbefore with rfl | hbefore
      · exact .inr List.mem_cons_self
      · exact .inl hbefore
    · exact .inr (List.mem_cons_of_mem _ hms)

/-! ## Settling containers -/

variable {room : ℕ} {vs ws : List Value}

/-- Elements are settled one after another. -/
theorem settleElements_eq (room : ℕ) (vs : List Value) :
    settleElements room vs = vs.mapM (settle room) := by
  induction vs with
  | nil => rw [settleElements]; rfl
  | cons v vs ih =>
    rw [settleElements, List.mapM_cons, ih]

/-- Members are settled one after another, and entered. -/
theorem settleMembers_eq (room : ℕ) (before ms : List (String × Value)) :
    settleMembers room before (ms.map fun m => (.ok m.1, m.2)) =
      (ms.mapM fun m => (settle room m.2).map (Prod.mk m.1)).map (enterAll before) := by
  induction ms generalizing before with
  | nil => rw [List.map_nil, settleMembers]; rfl
  | cons m ms ih =>
    rw [List.map_cons, settleMembers, List.mapM_cons]
    simp only [whole, ok_bind]
    cases settle room m.2 with
    | error e => rfl
    | ok v =>
      rw [ok_bind, ih]
      show _ = Except.map (enterAll before)
        ((ms.mapM fun m => (settle room m.2).map (Prod.mk m.1)) >>= fun rest =>
          pure ((m.1, v) :: rest))
      cases ms.mapM fun m => (settle room m.2).map (Prod.mk m.1) with
      | error e => rfl
      | ok settled => rfl

/-- An array is settled when its elements are. -/
theorem settle_ofElements :
    settle room (.ofElements vs) = .ok w ↔ ∃ n ws, room = n + 1 ∧
      List.Forall₂ (fun v w => settle n v = .ok w) vs ws ∧ w = .ofElements ws := by
  cases room with
  | zero =>
    rw [ofElements, settle]
    simp
  | succ n =>
    rw [ofElements, settle, settleElements_eq, bind_eq_ok_iff]
    simp only [mapM_eq_ok_iff]
    constructor
    · rintro ⟨ws, hws, h⟩
      cases h
      exact ⟨n, ws, rfl, hws, rfl⟩
    · rintro ⟨_, ws, hroom, hws, rfl⟩
      cases hroom
      exact ⟨ws, hws, rfl⟩

/-- Members are settled when their values are. -/
theorem mapM_settle_eq_ok_iff {settled : List (String × Value)} :
    (ms.mapM fun m => (settle room m.2).map (Prod.mk m.1)) = .ok settled ↔
      List.Forall₂ (fun m s => s.1 = m.1 ∧ settle room m.2 = .ok s.2) ms settled := by
  have hmember : ∀ m s : String × Value, (settle room m.2).map (Prod.mk m.1) = .ok s ↔
      s.1 = m.1 ∧ settle room m.2 = .ok s.2 := by
    rintro m ⟨name, v⟩
    rw [map_eq_ok_iff]
    constructor
    · rintro ⟨v, hv, h⟩
      cases h
      exact ⟨rfl, hv⟩
    · rintro ⟨rfl, hv⟩
      exact ⟨v, hv, rfl⟩
  simp only [mapM_eq_ok_iff, hmember]

/-- An object is settled when the values of its members are, and then it has the last of each name
in order. -/
theorem settle_ofMembers :
    settle room (.ofMembers ms) = .ok w ↔ ∃ n settled, room = n + 1 ∧
      List.Forall₂ (fun m s => s.1 = m.1 ∧ settle n m.2 = .ok s.2) ms settled ∧
      w = .ofMembers (enterAll [] settled) := by
  cases room with
  | zero =>
    rw [ofMembers, settle]
    simp
  | succ n =>
    rw [ofMembers, settle, settleMembers_eq, bind_eq_ok_iff]
    simp only [map_eq_ok_iff, mapM_settle_eq_ok_iff]
    constructor
    · rintro ⟨_, ⟨settled, hsettled, rfl⟩, h⟩
      cases h
      exact ⟨n, settled, rfl, hsettled, rfl⟩
    · rintro ⟨_, settled, hroom, hsettled, rfl⟩
      cases hroom
      exact ⟨_, ⟨settled, hsettled, rfl⟩, rfl⟩

/-- Containers in the value are nested at most `room` deep. -/
inductive Nests : ℕ → Value → Prop where
  | atom {room : ℕ} (a : Except Flaw Atom) : Nests room (.atom a)
  | text {room : ℕ} (s : Except Flaw String) : Nests room (.text s)
  | array {room : ℕ} {elements : List Value} {cut : Option Fault}
      (h : ∀ v ∈ elements, Nests room v) : Nests (room + 1) (.array elements cut)
  | object {room : ℕ} {members : List (Except Flaw String × Value)} {ending : Ending}
      (h : ∀ m ∈ members, Nests room m.2) : Nests (room + 1) (.object members ending)

/-- The values of the members of an object are nested less deep. -/
theorem Nests.of_mem (h : Nests (room + 1) (ofMembers ms)) {m : String × Value} (hm : m ∈ ms) :
    Nests room m.2 := by
  cases h with
  | object h => exact h _ (List.mem_map_of_mem hm)

/-- Members can be settled if each of their values can. -/
theorem exists_settled (h : ∀ m ∈ ms, ∃ w, settle room m.2 = .ok w) :
    ∃ settled : List (String × Value),
      List.Forall₂ (fun m s => s.1 = m.1 ∧ settle room m.2 = .ok s.2) ms settled := by
  have hmembers : ∀ m ∈ ms, ∃ s, (settle room m.2).map (Prod.mk m.1) = .ok s := by
    intro m hm
    obtain ⟨w, hw⟩ := h m hm
    exact ⟨(m.1, w), by rw [hw]; rfl⟩
  obtain ⟨settled, hsettled⟩ := exists_mapM_iff.2 hmembers
  exact ⟨settled, mapM_settle_eq_ok_iff.1 hsettled⟩

/-- A sound value is settled if there is room for it. -/
theorem Sound.exists_settle (h : Sound v) (hnests : Nests room v) :
    ∃ w, settle room v = .ok w := by
  induction h generalizing room with
  | atom a => exact ⟨_, by rw [settle]; rfl⟩
  | text s => exact ⟨_, by rw [ofText, settle]; rfl⟩
  | @array vs _ ih =>
    cases hnests with
    | array hnests =>
      obtain ⟨ws, hws⟩ := exists_mapM_iff.2 fun v hv => ih v hv (hnests v hv)
      exact ⟨_, settle_ofElements.2 ⟨_, ws, rfl, mapM_eq_ok_iff.1 hws, rfl⟩⟩
  | @object ms _ ih =>
    obtain ⟨room, rfl⟩ : ∃ n, room = n + 1 := by
      cases hnests
      exact ⟨_, rfl⟩
    obtain ⟨settled, hsettled⟩ := exists_settled fun m hm => ih m hm (hnests.of_mem hm)
    exact ⟨_, settle_ofMembers.2 ⟨room, settled, rfl, hsettled, rfl⟩⟩

/-- What a sound value is settled to is sound. -/
theorem Sound.of_settle (h : Sound v) (hw : settle room v = .ok w) : Sound w := by
  induction h generalizing room w with
  | atom a =>
    cases hw
    exact .atom a
  | text s =>
    cases hw
    exact .text s
  | array _ ih =>
    obtain ⟨n, ws, rfl, hws, rfl⟩ := settle_ofElements.1 hw
    refine .array fun w hmem => ?_
    obtain ⟨v, hv, hsettle⟩ := exists_of_forall₂ hws hmem
    exact ih v hv hsettle
  | object _ ih =>
    obtain ⟨n, settled, rfl, hsettled, rfl⟩ := settle_ofMembers.1 hw
    refine .object fun s hmem => ?_
    rcases mem_of_mem_enterAll hmem with hnone | hmem
    · cases hnone
    · obtain ⟨m, hm, -, hsettle⟩ := exists_of_forall₂ hsettled hmem
      exact ih m hm hsettle

/-! ## Values that are settled alike -/

/-- The values differ at most in the order of members, and in members that later ones of the same
name replace. -/
inductive Same : Value → Value → Prop where
  | atom (a : Except Flaw Atom) : Same (.atom a) (.atom a)
  | text (s : Except Flaw String) : Same (.text s) (.text s)
  | array {pairs : List (Value × Value)} (h : ∀ p ∈ pairs, Same p.1 p.2) :
      Same (.ofElements (pairs.map Prod.fst)) (.ofElements (pairs.map Prod.snd))
  | object {ms ns : List (String × Value)}
      (hnames : ∀ name, (last name ms).isSome = (last name ns).isSome)
      (h : ∀ name v w, last name ms = some v → last name ns = some w → Same v w) :
      Same (.ofMembers ms) (.ofMembers ns)

/-- Of members that are entered, what is found of a name is related to the last value that the name
had. -/
theorem lookup_rel_enterAll {R : Value → Value → Prop} {settled : List (String × Value)}
    (h : List.Forall₂ (fun m s => s.1 = m.1 ∧ R m.2 s.2) ms settled) (name : String) :
    Option.Rel R (last name ms) (Table.lookup name (enterAll [] settled)) := by
  rw [lookup_enterAll, Table.lookup, Option.or_none]
  exact Table.lookup_rel (List.forall₂_reverse_iff.2 h) name

/-- Members are entered in order, whatever their own order is. -/
theorem ordered_enterAll (ms : List (String × Value)) : Ordered (enterAll [] ms) :=
  Ordered.enterAll List.Pairwise.nil ms

/-- If the last values of a name are settled to one value, that is what is found of the name. -/
theorem lookup_enterAll_eq {R : Value → Value → Prop} {settled settled' : List (String × Value)}
    (hR : ∀ v w v' w', R v w → settle room v = .ok v' → settle room w = .ok w' → v' = w')
    (h : Option.Rel R (last name ms) (last name ns))
    (hms : List.Forall₂ (fun m s => s.1 = m.1 ∧ settle room m.2 = .ok s.2) ms settled)
    (hns : List.Forall₂ (fun m s => s.1 = m.1 ∧ settle room m.2 = .ok s.2) ns settled') :
    Table.lookup name (enterAll [] settled) = Table.lookup name (enterAll [] settled') := by
  have hfound := lookup_rel_enterAll (R := fun v w => settle room v = .ok w) hms name
  have hfound' := lookup_rel_enterAll (R := fun v w => settle room v = .ok w) hns name
  generalize last name ms = x, last name ns = y at *
  generalize Table.lookup name (enterAll [] settled) = x',
    Table.lookup name (enterAll [] settled') = y' at *
  cases h with
  | none =>
    cases hfound
    cases hfound'
    rfl
  | some hvw =>
    cases hfound with
    | some hv =>
      cases hfound' with
      | some hw => rw [hR _ _ _ _ hvw hv hw]

/-- Elements that are settled to one value pair by pair are settled to the same elements. -/
theorem eq_of_settled_pairs {pairs : List (Value × Value)}
    (h : ∀ p ∈ pairs, ∀ v w, settle room p.1 = .ok v → settle room p.2 = .ok w → v = w)
    (hvs : List.Forall₂ (fun v w => settle room v = .ok w) (pairs.map Prod.fst) vs)
    (hws : List.Forall₂ (fun v w => settle room v = .ok w) (pairs.map Prod.snd) ws) : vs = ws := by
  induction pairs generalizing vs ws with
  | nil =>
    cases hvs
    cases hws
    rfl
  | cons p pairs ih =>
    obtain ⟨v, vs, hv, hvsrest, rfl⟩ := List.forall₂_cons_left_iff.1 hvs
    obtain ⟨w, ws, hw, hwsrest, rfl⟩ := List.forall₂_cons_left_iff.1 hws
    rw [h p List.mem_cons_self v w hv hw,
      ih (fun q hq => h q (List.mem_cons_of_mem _ hq)) hvsrest hwsrest]

/-- Values that are the same are settled to one value. -/
theorem Same.settle_eq {v' w' : Value} (h : Same v w) (hv : settle room v = .ok v')
    (hw : settle room w = .ok w') : v' = w' := by
  induction h generalizing room v' w' with
  | atom a =>
    cases hv.symm.trans hw
    rfl
  | text s =>
    cases hv.symm.trans hw
    rfl
  | @array pairs _ ih =>
    obtain ⟨n, vs, rfl, hvs, rfl⟩ := settle_ofElements.1 hv
    obtain ⟨_, ws, hroom, hws, rfl⟩ := settle_ofElements.1 hw
    cases hroom
    exact congrArg ofElements (eq_of_settled_pairs (fun p hp _ _ => ih p hp) hvs hws)
  | @object ms ns hnames _ ih =>
    obtain ⟨n, vs, rfl, hvs, rfl⟩ := settle_ofMembers.1 hv
    obtain ⟨_, ws, hroom, hws, rfl⟩ := settle_ofMembers.1 hw
    cases hroom
    -- Both are in order, so it is enough that the same is found in them.
    refine congrArg ofMembers ((ordered_enterAll vs).ext (ordered_enterAll ws) fun name => ?_)
    refine lookup_enterAll_eq
      (R := fun v w => ∀ v' w', settle n v = .ok v' → settle n w = .ok w' → v' = w')
      (fun v w v' w' h hv hw => h v' w' hv hw) ?_ hvs hws
    have hsome := hnames name
    cases hv : last name ms with
    | none =>
      rw [hv] at hsome
      rw [Option.isSome_eq_false_iff.1 hsome.symm |> Option.isNone_iff_eq_none.1]
      exact .none
    | some v =>
      rw [hv] at hsome
      obtain ⟨w, hw⟩ := Option.isSome_iff_exists.1 hsome.symm
      rw [hw]
      exact .some fun v' w' => ih name v w hv hw

/-- A sound value is the same as itself. -/
theorem Sound.same (h : Sound v) : Same v v := by
  induction h with
  | atom a => exact .atom _
  | text s => exact .text _
  | @array vs h ih =>
    have hsame := @Same.array (vs.map fun v => (v, v)) (List.forall_mem_map.2 ih)
    simpa [Function.comp_def] using hsame
  | @object ms h ih =>
    refine .object (fun _ => rfl) fun name v w hv hw => ?_
    cases hv.symm.trans hw
    have hmem := Table.mem_of_lookup hv
    exact ih _ (List.mem_reverse.1 hmem)

/-! ## Reading settled values -/

/-- What a sound value is settled to. -/
inductive Settles : ℕ → Value → Value → Prop where
  | atom {room : ℕ} (a : Atom) : Settles room (.atom (.ok a)) (.atom (.ok a))
  | text {room : ℕ} (s : String) : Settles room (.ofText s) (.ofText s)
  | array {room : ℕ} {vs ws : List Value} (hsound : ∀ v ∈ vs, Sound v)
      (h : List.Forall₂ (fun v w => settle room v = .ok w) vs ws) :
      Settles (room + 1) (.ofElements vs) (.ofElements ws)
  | object {room : ℕ} {ms settled : List (String × Value)} (hsound : ∀ m ∈ ms, Sound m.2)
      (h : List.Forall₂ (fun m s => s.1 = m.1 ∧ settle room m.2 = .ok s.2) ms settled) :
      Settles (room + 1) (.ofMembers ms) (.ofMembers (enterAll [] settled))

/-- A sound value is settled part by part. -/
theorem Sound.settles (h : Sound v) (hw : settle room v = .ok w) : Settles room v w := by
  cases h with
  | atom a =>
    cases hw
    exact .atom a
  | text s =>
    cases hw
    exact .text s
  | array h =>
    obtain ⟨n, ws, hroom, hws, rfl⟩ := settle_ofElements.1 hw
    cases hroom
    exact .array h hws
  | object h =>
    obtain ⟨n, settled, hroom, hsettled, rfl⟩ := settle_ofMembers.1 hw
    cases hroom
    exact .object h hsettled

/-- What is found in a settled object is what the last value of the name is settled to. -/
theorem lookup_settles {settled : List (String × Value)} (hsound : ∀ m ∈ ms, Sound m.2)
    (h : List.Forall₂ (fun m s => s.1 = m.1 ∧ settle room m.2 = .ok s.2) ms settled)
    (name : String) :
    Option.Rel (Settles room) (last name ms) (Table.lookup name (enterAll [] settled)) :=
  lookup_rel_enterAll (((List.forall₂_and_left ms settled).2 ⟨hsound, h⟩).imp fun _ _ hms =>
    ⟨hms.2.1, hms.1.settles hms.2.2⟩) name

/-- Sound elements are settled each for itself. -/
theorem forall₂_settles (hsound : ∀ v ∈ vs, Sound v)
    (h : List.Forall₂ (fun v w => settle room v = .ok w) vs ws) :
    List.Forall₂ (Settles room) vs ws :=
  ((List.forall₂_and_left vs ws).2 ⟨hsound, h⟩).imp fun _ _ hvw => hvw.1.settles hvw.2

/-- A text is read from a settled value as from the value. -/
theorem Settles.text_eq (h : Settles room v w) : Reader.text w = Reader.text v := by
  cases h <;> rfl

/-- An integer is read from a settled value as from the value. -/
theorem Settles.integer_eq (h : Settles room v w) (low high : ℤ) (expected : String) :
    Reader.integer low high expected w = Reader.integer low high expected v := by
  cases h <;> rfl

/-- Texts are read from a settled value as from the value. -/
theorem Settles.texts_eq (h : Settles room v w) :
    Reader.list Reader.text w = Reader.list Reader.text v := by
  cases h with
  | atom a => rfl
  | text s => rfl
  | object hsound h => rfl
  | @array room vs ws hsound h =>
    have helements : vs.mapM Reader.text = ws.mapM Reader.text :=
      mapM_congr ((forall₂_settles hsound h).imp fun _ _ hvw => hvw.text_eq.symm)
    show (ws.mapM Reader.text >>= _) = (vs.mapM Reader.text >>= _)
    rw [helements]

end ShaderVariants.Json.Value
