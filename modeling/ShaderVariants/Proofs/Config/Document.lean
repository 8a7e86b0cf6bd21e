import ShaderVariants.Proofs.Config.Record
import ShaderVariants.Proofs.Json.Printing

/-!
# What a text says about a configuration

A text writes the document of a configuration (`ConfigDocument.Written`) if it is a well-formed
object within the limits of the reader, with one member `all` that lists the names of groups. What
comes of it depends on the listed names and, for each, on the last value that it has
(`MacroConfig.ofText_spec`): the first name without a group decides, and if there is none, the
groups are judged, one for each name in their order. How the text is written does not matter, nor do
the other members, the order of members, and what else a group's object holds.
-/

namespace ShaderVariants

open Json (Value Reader ReadError Flaw)
open Json.Value (last)
open Sequence

namespace ConfigDocument

/-- A text writes an object without flaws, nested at most 127 deep. Its only member `all` lists the
names, and its other members are `others`. -/
inductive Written : String → List String → List (String × Value) → Prop where
  | intro {text : String} {names : List String} {before after : List (String × Value)} {v : Value}
      (hmembers : v = .ofMembers (before ++ ("all", .ofElements (names.map .ofText)) :: after))
      (hothers : ∀ m ∈ before ++ after, m.1 ≠ "all") (hwrites : v.Writes text.toList)
      (hsound : v.Sound) (hnests : v.Nests 127) : Written text names (before ++ after)

/-- The last member of a name describes the group of that name. A group is independent if the number
of its kind is zero, and exclusive otherwise. -/
inductive Defines (others : List (String × Value)) : String → MacroGroup → Prop where
  | intro {name : String} {v : Value} {macros : List String} {kind : ℤ}
      (hlast : last name others = some v) (hdescribes : MacroGroup.Describes v macros kind) :
      Defines others name ⟨name, if kind = 0 then .independent else .exclusive, macros⟩

/-- The name is listed, no group is defined for it, and one is for every name before it. -/
def FirstUndefined (names : List String) (others : List (String × Value)) (name : String) : Prop :=
  ∃ before after, names = before ++ name :: after ∧ (∀ n ∈ before, ∃ g, Defines others n g) ∧
    ∀ g, ¬Defines others name g

/-- What comes of listed names and the other members of a document. -/
structure Outcome (names : List String) (others : List (String × Value))
    (result : Except ConfigTextError MacroConfig) : Prop where
  /-- A configuration of the groups of the names, in their order. -/
  ok_iff : ∀ config, result = .ok config ↔
    ∃ groups, List.Forall₂ (Defines others) names groups ∧ MacroConfig.ofGroups groups = .ok config
  /-- If there is a group for each name, what is wrong with the groups. -/
  invalid_iff : ∀ e, result = .error (.invalid e) ↔
    ∃ groups, List.Forall₂ (Defines others) names groups ∧ MacroConfig.ofGroups groups = .error e
  /-- The first name without a group, if it is not that of a member. -/
  missing_iff : ∀ name, result = .error (.missingGroup name) ↔
    FirstUndefined names others name ∧ last name others = none
  /-- A mismatch of the member of the first name without a group. -/
  mismatch_iff : (∃ m, result = .error (.unread (.mismatch m))) ↔
    ∃ name, FirstUndefined names others name ∧ last name others ≠ none
  /-- No other error of reading. -/
  mismatch_of_unread : ∀ e, result = .error (.unread e) → ∃ m, e = .mismatch m

/-! ## Reading the document -/

variable {text : String} {names : List String} {others ms : List (String × Value)}
  {d : ConfigDocument} {name : String} {g : MacroGroup}

/-- The document has the names, and for each name of a member its last value, settled. -/
structure Holds (d : ConfigDocument) (names : List String) (others : List (String × Value)) :
    Prop where
  names : d.names = names
  members : ∀ name, Option.Rel (fun v w => v.Sound ∧ v.settle memberRoom = .ok w)
    (last name others) (d.members.get? name)

/-- Members other than the list of names are settled and entered. -/
theorem foldlM_member {settled : List (String × Value)} (hothers : ∀ m ∈ ms, m.1 ≠ "all")
    (h : List.Forall₂ (fun m s => s.1 = m.1 ∧ Value.settle memberRoom m.2 = .ok s.2) ms settled)
    (listed : Option (List String)) (t : Table String Value) :
    (ms.map fun m => ((.ok m.1 : Except Flaw String), m.2)).foldlM member (listed, t) =
      .ok (listed, t.insertAll settled) := by
  induction h generalizing t with
  | nil => rfl
  | @cons m s ms settled hms _ ih =>
    have hstep : member (listed, t) (.ok m.1, m.2) = .ok (listed, t.insert s.1 s.2) := by
      rw [member, ReadError.ofToken, ok_bind, if_neg (hothers m List.mem_cons_self), hms.1, hms.2]
      rfl
    rw [List.map_cons, List.foldlM_cons, hstep, ok_bind]
    exact ih (fun n hn => hothers n (List.mem_cons_of_mem _ hn)) _

/-- The list of names is read once. -/
theorem member_all (names : List String) (t : Table String Value) :
    member (none, t) (.ok "all", .ofElements (names.map .ofText)) = .ok (some names, t) := by
  have hnames : Reader.list Reader.text (.ofElements (names.map .ofText)) = .ok names :=
    Reader.texts_eq_ok_iff.2 rfl
  rw [member, ReadError.ofToken, ok_bind, if_pos rfl]
  dsimp only
  rw [hnames]
  rfl

/-- A text that writes the document of a configuration is read as one. -/
theorem Written.exists_read (h : Written text names others) :
    ∃ d, Json.Document.read ConfigDocument.read text = .ok d ∧ d.Holds names others := by
  cases h with
  | @intro before after v hmembers hothers hwrites hsound hnests =>
    subst hmembers
    have hlisted : ∀ m ∈ before ++ after,
        m ∈ before ++ ("all", .ofElements (names.map .ofText)) :: after := by
      intro m hm
      simp only [List.mem_append, List.mem_cons] at hm ⊢
      exact hm.imp_right .inr
    have hmember : ∀ m ∈ before ++ after, m.2.Sound ∧ ∃ w, m.2.settle memberRoom = .ok w := by
      intro m hm
      have hm' := hsound.of_mem (hlisted m hm)
      exact ⟨hm', hm'.exists_settle (hnests.of_mem (hlisted m hm))⟩
    obtain ⟨settledBefore, hbefore⟩ := Value.exists_settled fun m hm =>
      (hmember m (List.mem_append_left _ hm)).2
    obtain ⟨settledAfter, hafter⟩ := Value.exists_settled fun m hm =>
      (hmember m (List.mem_append_right _ hm)).2
    have hsettled := List.rel_append hbefore hafter
    refine ⟨⟨names, Table.ofList (settledBefore ++ settledAfter)⟩, ?_, rfl, fun name => ?_⟩
    · have htable : (Table.empty.insertAll settledBefore).insertAll settledAfter =
          Table.ofList (settledBefore ++ settledAfter) := List.foldl_append.symm
      rw [Json.Document.read_of_writes _ hwrites]
      show (List.foldlM member (none, Table.empty) (List.map _ _) >>= _) = _
      rw [List.map_append, List.foldlM_append,
        foldlM_member (fun m hm => hothers m (List.mem_append_left _ hm)) hbefore, ok_bind,
        List.map_cons, List.foldlM_cons, member_all, ok_bind,
        foldlM_member (fun m hm => hothers m (List.mem_append_right _ hm)) hafter, htable]
      rfl
    · have hsound : List.Forall₂
          (fun m s => s.1 = m.1 ∧ m.2.Sound ∧ Value.settle memberRoom m.2 = .ok s.2)
          (before ++ after) (settledBefore ++ settledAfter) :=
        ((List.forall₂_and_left _ _).2 ⟨fun m hm => (hmember m hm).1, hsettled⟩).imp
          fun _ _ h => ⟨h.2.1, h.1, h.2.2⟩
      rw [Table.ofList, Table.get?_insertAll]
      show Option.Rel _ _ ((Table.lookup name _).or none)
      rw [Option.or_none]
      exact Table.lookup_rel (R := fun v w => v.Sound ∧ Value.settle memberRoom v = .ok w)
        (List.forall₂_reverse_iff.2 hsound) name

/-! ## Reading the groups -/

variable (h : d.Holds names others)
include h

/-- A name that no member has has no group. -/
theorem Holds.group_of_none (hnone : last name others = none) :
    d.group name = .error (.missingGroup name) := by
  have hmember := h.members name
  rw [hnone] at hmember
  rw [group]
  generalize d.members.get? name = x at hmember
  cases hmember
  rfl

/-- The group of a name is read from its last value. -/
theorem Holds.group_of_some {v : Value} (hsome : last name others = some v) :
    ∃ w, v.Sound ∧ v.settle memberRoom = .ok w ∧
      d.group name = (MacroGroup.ofValue name w).mapError .unread := by
  have hmember := h.members name
  rw [hsome] at hmember
  rw [group]
  generalize d.members.get? name = x at hmember
  cases hmember with
  | some hvw => exact ⟨_, hvw.1, hvw.2, rfl⟩

/-- A group is read for a name exactly if its last value describes one. -/
theorem Holds.group_eq_ok_iff : d.group name = .ok g ↔ Defines others name g := by
  constructor
  · intro hgroup
    cases hlast : last name others with
    | none =>
      rw [h.group_of_none hlast] at hgroup
      cases hgroup
    | some v =>
      obtain ⟨w, hsound, hsettle, heq⟩ := h.group_of_some hlast
      rw [heq, mapError_eq_ok_iff, MacroGroup.ofValue, map_eq_ok_iff] at hgroup
      obtain ⟨⟨macros, kind⟩, hread, rfl⟩ := hgroup
      exact .intro hlast ((MacroGroup.readWith_eq_ok_iff hsound hsettle).1 hread)
  · rintro ⟨hlast, hdescribes⟩
    obtain ⟨w, hsound, hsettle, heq⟩ := h.group_of_some hlast
    rw [heq, mapError_eq_ok_iff, MacroGroup.ofValue, map_eq_ok_iff]
    exact ⟨_, (MacroGroup.readWith_eq_ok_iff hsound hsettle).2 hdescribes, rfl⟩

/-- A member that describes no group does not match one. -/
theorem Holds.group_mismatch (hnone : ∀ g, ¬Defines others name g)
    (hsome : last name others ≠ none) :
    ∃ m, d.group name = .error (.unread (.mismatch m)) := by
  obtain ⟨v, hlast⟩ := Option.ne_none_iff_exists'.1 hsome
  obtain ⟨w, hsound, hsettle, heq⟩ := h.group_of_some hlast
  cases hgroup : d.group name with
  | ok g => exact absurd (h.group_eq_ok_iff.1 hgroup) (hnone g)
  | error e =>
    rw [heq, mapError_eq_error_iff] at hgroup
    obtain ⟨e', hvalue, rfl⟩ := hgroup
    obtain ⟨m, rfl⟩ := MacroGroup.readWith_mismatches hsound hsettle e' (map_eq_error_iff.1 hvalue)
    exact ⟨m, rfl⟩

/-- Groups are read for all names exactly if one is defined for each. -/
theorem Holds.groups_eq_ok_iff {groups : List MacroGroup} :
    d.names.mapM d.group = .ok groups ↔ List.Forall₂ (Defines others) names groups := by
  simp only [h.names, mapM_eq_ok_iff, h.group_eq_ok_iff]

/-- Reading groups stops at the first name for which none is defined. -/
theorem Holds.groups_eq_error_iff {e : ConfigTextError} :
    d.names.mapM d.group = .error e ↔
      ∃ name, FirstUndefined names others name ∧ d.group name = .error e := by
  simp only [h.names, mapM_eq_error_iff, h.group_eq_ok_iff]
  constructor
  · rintro ⟨before, name, after, hnames, hbefore, herror⟩
    refine ⟨name, ⟨before, after, hnames, hbefore, fun g hg => ?_⟩, herror⟩
    cases herror.symm.trans (h.group_eq_ok_iff.2 hg)
  · rintro ⟨name, ⟨before, after, hnames, hbefore, -⟩, herror⟩
    exact ⟨before, name, after, hnames, hbefore, herror⟩

/-- There is no configuration if a name has no group, or else if the groups are not acceptable. -/
theorem Holds.config_eq_error_iff {e : ConfigTextError} :
    d.config = .error e ↔
      (∃ name, FirstUndefined names others name ∧ d.group name = .error e) ∨
      ∃ groups, List.Forall₂ (Defines others) names groups ∧
        ∃ e', MacroConfig.ofGroups groups = .error e' ∧ .invalid e' = e := by
  rw [config, bind_eq_error_iff]
  simp only [h.groups_eq_ok_iff, h.groups_eq_error_iff, mapError_eq_error_iff]

/-- Why no group is read for a name. -/
theorem Holds.group_of_undefined (hnone : ∀ g, ¬Defines others name g) :
    last name others = none ∧ d.group name = .error (.missingGroup name) ∨
      last name others ≠ none ∧ ∃ m, d.group name = .error (.unread (.mismatch m)) := by
  by_cases hlast : last name others = none
  · exact .inl ⟨hlast, h.group_of_none hlast⟩
  · exact .inr ⟨hlast, h.group_mismatch hnone hlast⟩

/-- What comes of a document. -/
theorem Holds.outcome : Outcome names others d.config where
  ok_iff config := by
    rw [ConfigDocument.config, bind_eq_ok_iff]
    simp only [h.groups_eq_ok_iff, mapError_eq_ok_iff]
  invalid_iff e := by
    rw [h.config_eq_error_iff]
    constructor
    · rintro (⟨name, ⟨_, _, _, _, hnone⟩, herror⟩ | ⟨groups, hgroups, e', herror, heq⟩)
      · rcases h.group_of_undefined hnone with ⟨-, hgroup⟩ | ⟨-, m, hgroup⟩
        · cases herror.symm.trans hgroup
        · cases herror.symm.trans hgroup
      · cases heq
        exact ⟨groups, hgroups, herror⟩
    · rintro ⟨groups, hgroups, herror⟩
      exact .inr ⟨groups, hgroups, e, herror, rfl⟩
  missing_iff name := by
    rw [h.config_eq_error_iff]
    constructor
    · rintro (⟨name', hfirst, herror⟩ | ⟨groups, hgroups, e', herror, heq⟩)
      · obtain ⟨_, _, _, _, hnone⟩ := id hfirst
        rcases h.group_of_undefined hnone with ⟨hlast, hgroup⟩ | ⟨-, m, hgroup⟩
        · cases herror.symm.trans hgroup
          exact ⟨hfirst, hlast⟩
        · cases herror.symm.trans hgroup
      · cases heq
    · rintro ⟨hfirst, hlast⟩
      exact .inl ⟨name, hfirst, h.group_of_none hlast⟩
  mismatch_iff := by
    constructor
    · rintro ⟨m, herror⟩
      rcases h.config_eq_error_iff.1 herror with ⟨name, hfirst, herror⟩ | ⟨_, _, e', _, heq⟩
      · obtain ⟨_, _, _, _, hnone⟩ := id hfirst
        rcases h.group_of_undefined hnone with ⟨-, hgroup⟩ | ⟨hlast, -⟩
        · cases herror.symm.trans hgroup
        · exact ⟨name, hfirst, hlast⟩
      · cases heq
    · rintro ⟨name, hfirst, hlast⟩
      obtain ⟨_, _, _, _, hnone⟩ := id hfirst
      obtain ⟨m, hgroup⟩ := h.group_mismatch hnone hlast
      exact ⟨m, h.config_eq_error_iff.2 (.inl ⟨name, hfirst, hgroup⟩)⟩
  mismatch_of_unread e herror := by
    rcases h.config_eq_error_iff.1 herror with
      ⟨name, ⟨_, _, _, _, hnone⟩, herror⟩ | ⟨_, _, e', _, heq⟩
    · rcases h.group_of_undefined hnone with ⟨-, hgroup⟩ | ⟨-, m, hgroup⟩
      · cases herror.symm.trans hgroup
      · cases herror.symm.trans hgroup
        exact ⟨m, rfl⟩
    · cases heq

/-- Documents with the same names, in which the last values of each name are alike as groups, come
to the same. -/
theorem Holds.config_congr {d' : ConfigDocument} {others' : List (String × Value)}
    (h' : d'.Holds names others')
    (halike : ∀ name ∈ names, Option.Rel MacroGroup.Alike (last name others) (last name others')) :
    d.config = d'.config := by
  have hgroups : d.names.mapM d.group = d'.names.mapM d'.group := by
    rw [h.names, h'.names]
    refine mapM_congr (List.forall₂_same.2 fun name hname => ?_)
    have hrel := halike name hname
    generalize hlast : last name others = x, hlast' : last name others' = x' at hrel
    cases hrel with
    | none => rw [h.group_of_none hlast, h'.group_of_none hlast']
    | some hrel =>
      obtain ⟨w, hsound, hsettle, heq⟩ := h.group_of_some hlast
      obtain ⟨w', hsound', hsettle', heq'⟩ := h'.group_of_some hlast'
      rw [heq, heq', MacroGroup.ofValue, MacroGroup.ofValue,
        MacroGroup.readWith_congr hsound hsettle hsound' hsettle' hrel]
  rw [config, config, hgroups]

end ConfigDocument

/-- **A configuration depends on the listed names and on the last value of each.** Suppose that a
text writes a document with one list of names. No group is named `all`. What comes of the text is
decided by the first listed name without a group: it is missing if no member has it, and else its
member is a mismatch. If there is none, the groups are judged, one for each name in their order, and
the text gives the configuration of these groups or says what is wrong with them. Every other text
that lists the same names, with alike groups as their last values, comes to the same. -/
theorem MacroConfig.ofText_spec {text : String} {names : List String}
    {others : List (String × Value)} (h : ConfigDocument.Written text names others) :
    last "all" others = none ∧ ConfigDocument.Outcome names others (MacroConfig.ofText text) ∧
      ∀ text' others', ConfigDocument.Written text' names others' →
        (∀ name ∈ names, Option.Rel MacroGroup.Alike (last name others) (last name others')) →
        MacroConfig.ofText text' = MacroConfig.ofText text := by
  have hconfig : ∀ {text others}, ConfigDocument.Written text names others →
      ∃ d, ConfigDocument.Holds d names others ∧ MacroConfig.ofText text = d.config := by
    intro text others h
    obtain ⟨d, hread, hholds⟩ := h.exists_read
    exact ⟨d, hholds, by rw [MacroConfig.ofText, hread]; rfl⟩
  obtain ⟨d, hd, htext⟩ := hconfig h
  refine ⟨?_, htext ▸ hd.outcome, fun text' others' h' halike => ?_⟩
  · cases h with
    | intro _ hothers =>
      exact Table.lookup_eq_none fun m hm => hothers m (List.mem_reverse.1 hm)
  · obtain ⟨d', hd', htext'⟩ := hconfig h'
    rw [htext, htext', hd.config_congr hd' halike]

namespace ConfigDocument

/-- Macros of a group, as a document lists them. -/
def macroX : Value :=
  .ofElements [.ofText "X"]

/-- The members of a document with one group, beside the list of names. -/
def plainMembers : List (String × Value) :=
  [("A", .ofMembers [("macros", macroX), ("type", .atom (.ok (.number (.integer 0))))])]

/-- The same with another group that is not listed, and with more in the group, in another order. -/
def fullMembers : List (String × Value) :=
  [("B", .atom (.ok .null)),
    ("A", .ofMembers [("type", .atom (.ok (.number (.integer 0)))), ("note", .ofText "x"),
      ("macros", macroX)])]

/-- A document that lists one name, before the other members. -/
def plain : Value :=
  .ofMembers (("all", .ofElements [.ofText "A"]) :: plainMembers)

/-- A document that lists one name, after the other members. -/
def full : Value :=
  .ofMembers (fullMembers ++ [("all", .ofElements [.ofText "A"])])

/-- The macros are whole. -/
theorem whole_macroX : macroX.Whole :=
  .array (List.forall_mem_singleton.2 (.text _))

/-- The macros are nested no deeper than a member of a group may be. -/
theorem nests_macroX : macroX.Nests 125 :=
  .array (List.forall_mem_singleton.2 (.text _))

/-- The list of names is whole. -/
theorem whole_names : (Value.ofElements [.ofText "A"]).Whole :=
  .array (List.forall_mem_singleton.2 (.text _))

/-- The text of the first document writes it. -/
theorem written_plain : Written (String.ofList plain.print) ["A"] plainMembers := by
  have hwhole : plain.Whole :=
    .object (List.forall_mem_cons.2 ⟨whole_names, List.forall_mem_singleton.2 (.object
      (List.forall_mem_cons.2 ⟨whole_macroX, List.forall_mem_singleton.2 (.count (by decide))⟩))⟩)
  have hnests : plain.Nests 127 :=
    .object (List.forall_mem_cons.2 ⟨.array (List.forall_mem_singleton.2 (.text _)),
      List.forall_mem_singleton.2 (.object (List.forall_mem_cons.2 ⟨nests_macroX,
        List.forall_mem_singleton.2 (.atom _)⟩))⟩)
  refine @Written.intro _ _ [] plainMembers _ rfl (by decide) ?_ hwhole.sound hnests
  rw [String.toList_ofList]
  exact hwhole.writes

/-- A line feed and the text of the second document write it. -/
theorem written_full : Written (String.ofList ('\n' :: full.print)) ["A"] fullMembers := by
  have hwhole : full.Whole :=
    .object (List.forall_mem_cons.2 ⟨.null, List.forall_mem_cons.2 ⟨.object
      (List.forall_mem_cons.2 ⟨.count (by decide), List.forall_mem_cons.2 ⟨.text _,
        List.forall_mem_singleton.2 whole_macroX⟩⟩), List.forall_mem_singleton.2 whole_names⟩⟩)
  have hnests : full.Nests 127 :=
    .object (List.forall_mem_cons.2 ⟨.atom _, List.forall_mem_cons.2 ⟨.object
      (List.forall_mem_cons.2 ⟨.atom _, List.forall_mem_cons.2 ⟨.text _,
        List.forall_mem_singleton.2 nests_macroX⟩⟩),
      List.forall_mem_singleton.2 (.array (List.forall_mem_singleton.2 (.text _)))⟩⟩)
  refine @Written.intro _ _ fullMembers [] _ rfl (by decide) ?_ hwhole.sound hnests
  rw [String.toList_ofList]
  exact .blankBefore (by decide) hwhole.writes

end ConfigDocument

open ConfigDocument

/-- Both documents give the configuration of their one group. -/
theorem MacroConfig.ofText_spec_full :
    ∃ config, MacroConfig.ofText (String.ofList plain.print) = .ok config ∧
      config.groups = [⟨"A", .independent, ["X"]⟩] ∧
      MacroConfig.ofText (String.ofList ('\n' :: full.print)) = .ok config := by
  obtain ⟨-, houtcome, hcongr⟩ := MacroConfig.ofText_spec written_plain
  have hdefines : Defines plainMembers "A" ⟨"A", .independent, ["X"]⟩ :=
    .intro rfl (@MacroGroup.Describes.object _ ["X"] 0 rfl rfl (by decide))
  have hplain := (houtcome.ok_iff _).2 ⟨_, .cons hdefines .nil, rfl⟩
  have halike : ∀ name ∈ ["A"],
      Option.Rel MacroGroup.Alike (last name plainMembers) (last name fullMembers) := by
    refine List.forall_mem_singleton.2 (.some (.fields ?_))
    refine List.forall_mem_cons.2 ⟨.some ?_, List.forall_mem_singleton.2 (.some (.atom _))⟩
    exact (Value.Sound.array (List.forall_mem_singleton.2 (.text _))).same
  exact ⟨_, hplain, rfl, (hcongr _ _ written_full halike).trans hplain⟩

end ShaderVariants
