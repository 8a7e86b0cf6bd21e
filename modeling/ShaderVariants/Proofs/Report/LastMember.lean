import ShaderVariants.Proofs.Report.Faults

/-!
# The size of a push constant block

A block is measured at one of its members, the first of those with the greatest offset
(`BlockType.Foremost`). The search for it goes through the members in their order and keeps one of
those that it has seen: the one that is foremost among them, which a member with a greater offset
replaces (`Foremost.replace`) and any other leaves (`Foremost.keep`). At the end it is the foremost
of all (`last?_eq_some_iff`), and a list with members has exactly one (`Foremost.unique`).

The size of a block is where this member ends. What comes out instead, when there is no such size,
depends on this member in the same way (`pushConstantSize_outcome`), and nothing depends on the
types of the other members.
-/

namespace ShaderVariants

namespace BlockType

variable {members done before after : List BlockMember} {m n : BlockMember}

/-! ## The foremost member -/

/-- The member has the greatest offset of a list, and those before it have smaller ones: of several
members with the greatest offset it is the first. -/
structure Foremost (members before : List BlockMember) (m : BlockMember)
    (after : List BlockMember) : Prop where
  split : members = before ++ m :: after
  smaller : ∀ b ∈ before, b.offset < m.offset
  notLarger : ∀ a ∈ after, a.offset ≤ m.offset

namespace Foremost

/-- The offset of a foremost member is not exceeded. -/
theorem offset_le (h : Foremost members before m after) (hn : n ∈ members) :
    n.offset ≤ m.offset := by
  rw [h.split, List.mem_append, List.mem_cons] at hn
  rcases hn with hn | rfl | hn
  · exact UInt32.le_of_lt (h.smaller n hn)
  · exact UInt32.le_refl n.offset
  · exact h.notLarger n hn

/-- A further member whose offset is not greater leaves the foremost one. -/
theorem keep (h : Foremost done before m after) (hn : n.offset ≤ m.offset) :
    Foremost (done ++ [n]) before m (after ++ [n]) where
  split := by rw [h.split, List.append_assoc, List.cons_append]
  smaller := h.smaller
  notLarger := by
    intro a ha
    rcases List.mem_append.1 ha with ha | ha
    · exact h.notLarger a ha
    · rwa [List.mem_singleton.1 ha]

/-- A further member with a greater offset is the foremost one. -/
theorem replace (h : Foremost done before m after) (hn : m.offset < n.offset) :
    Foremost (done ++ [n]) done n [] where
  split := rfl
  smaller _ hb := UInt32.lt_of_le_of_lt (h.offset_le hb) hn
  notLarger := nofun

/-- From the foremost of the members that were seen, the search comes to the foremost of all. -/
theorem lastFrom (h : Foremost done before m after) (rest : List BlockMember) :
    ∃ before' after', Foremost (done ++ rest) before' (BlockType.lastFrom m rest) after' := by
  -- Each member of the rest in its turn joins those that were seen.
  induction rest generalizing done before m after with
  | nil =>
    rw [List.append_nil]
    exact ⟨before, after, h⟩
  | cons n rest ih =>
    rw [BlockType.lastFrom, List.append_cons]
    split
    · rename_i hn
      exact ih (h.keep hn)
    · rename_i hn
      exact ih (h.replace (UInt32.not_le.1 hn))

/-- Of two members that stand one before the other, not both are foremost. -/
theorem not_mem (h : Foremost members before m after)
    {before' after' : List BlockMember} {m' : BlockMember}
    (h' : Foremost members before' m' after') (hm : m ∈ before') : m' ∉ after := fun hm' =>
  absurd (h'.smaller m hm) (UInt32.not_lt.2 (h.notLarger m' hm'))

/-- A list has one foremost member, at one place. -/
theorem unique (h : Foremost members before m after)
    {before' after' : List BlockMember} {m' : BlockMember}
    (h' : Foremost members before' m' after') : before = before' ∧ m = m' ∧ after = after' := by
  have hsplit := h.split.symm.trans h'.split
  -- If the places were not the same, one of the members would stand before the other.
  rcases List.append_eq_append_iff.1 hsplit with ⟨between, rfl, hrest⟩ | ⟨between, rfl, hrest⟩
  · cases between with
    | nil =>
      cases hrest
      exact ⟨(List.append_nil before).symm, rfl, rfl⟩
    | cons k between =>
      cases hrest
      exact absurd (by simp) (h.not_mem h' (by simp))
  · cases between with
    | nil =>
      cases hrest
      exact ⟨List.append_nil before', rfl, rfl⟩
    | cons k between =>
      cases hrest
      exact absurd (by simp) (h'.not_mem h (by simp))

/-- In members of the same offsets the foremost one stands at the same place. -/
theorem of_offsets {others : List BlockMember} (h : Foremost members before m after)
    (hoffsets : members.map (·.offset) = others.map (·.offset)) :
    ∃ before' m' after', Foremost others before' m' after' ∧ m'.offset = m.offset := by
  rw [h.split, List.map_append, List.map_cons, eq_comm, List.map_eq_append_iff] at hoffsets
  obtain ⟨before', rest, hothers, hbefore, hrest⟩ := hoffsets
  obtain ⟨m', after', rfl, hm, hafter⟩ := List.map_eq_cons_iff.1 hrest
  -- A member there has the offset of one here, on the same side.
  refine ⟨before', m', after', ⟨hothers, fun b hb => ?_, fun a ha => ?_⟩, hm⟩
  · have hmem : b.offset ∈ before.map (·.offset) := hbefore ▸ List.mem_map_of_mem hb
    obtain ⟨k, hk, hoffset⟩ := List.mem_map.1 hmem
    rw [hm, ← hoffset]
    exact h.smaller k hk
  · have hmem : a.offset ∈ after.map (·.offset) := hafter ▸ List.mem_map_of_mem ha
    obtain ⟨k, hk, hoffset⟩ := List.mem_map.1 hmem
    rw [hm, ← hoffset]
    exact h.notLarger k hk

end Foremost

/-- The last member of a block is the foremost one. -/
theorem last?_eq_some_iff {t : BlockType} :
    t.last? = some m ↔ ∃ before after, Foremost t.members before m after := by
  obtain ⟨name, members⟩ := t
  cases members with
  | nil =>
    constructor
    · intro h
      cases h
    · rintro ⟨before, after, h⟩
      exact absurd h.split.symm (by simp)
  | cons k rest =>
    have hfirst : Foremost [k] [] k [] := ⟨rfl, nofun, nofun⟩
    obtain ⟨before, after, hlast⟩ := hfirst.lastFrom rest
    constructor
    · intro h
      cases h
      exact ⟨before, after, hlast⟩
    · rintro ⟨before', after', h⟩
      exact congrArg some (hlast.unique h).2.1

/-- A block with members has a foremost one. -/
theorem exists_foremost {t : BlockType} (h : t.members ≠ []) :
    ∃ before m after, Foremost t.members before m after := by
  cases hlast : t.last? with
  | some m =>
    obtain ⟨before, after, hm⟩ := last?_eq_some_iff.1 hlast
    exact ⟨before, m, after, hm⟩
  | none =>
    unfold last? at hlast
    split at hlast
    · contradiction
    · cases hlast

/-- Two blocks may differ in names and in the types of members that are not foremost: at every place
they have members of the same offset, and the foremost ones are of one type. -/
structure SameExtent (t t' : BlockType) : Prop where
  offsets : t.members.map (·.offset) = t'.members.map (·.offset)
  typeName : ∀ {before m after before' m' after'}, Foremost t.members before m after →
    Foremost t'.members before' m' after' → m.typeName = m'.typeName

end BlockType

open BlockType (Foremost SameExtent)

namespace Report

variable {report : Report} {tables : Tables} {c : PushConstant} {t : BlockType} {m : BlockMember}

/-! ## The size of a block -/

/-- The member at which a block is measured. -/
def MeasuredAt (report : Report) (c : PushConstant) (m : BlockMember) : Prop :=
  ∃ t before after, report.types.get? c.typeName = some t ∧ Foremost t.members before m after

/-- A block is measured at the last member of its type. -/
theorem measuredAt_iff :
    report.MeasuredAt c m ↔ ∃ t, report.types.get? c.typeName = some t ∧ t.last? = some m := by
  simp only [MeasuredAt, BlockType.last?_eq_some_iff, exists_and_left]

/-- The size of a block is the sum of the offset and the size of the member at which it is
measured. -/
theorem pushConstantSize_of_measuredAt (h : report.MeasuredAt c m) :
    report.pushConstantSize tables c = (do
      let size ← looking (tables.byteSize m.typeName)
      Halt.ofChecked (Checked.add32 m.offset size)) := by
  obtain ⟨t, htype, hlast⟩ := measuredAt_iff.1 h
  unfold pushConstantSize
  rw [htype]
  dsimp only
  rw [hlast]

/-- A block that has a size is measured at a member. -/
theorem exists_measuredAt {n : UInt32} (h : report.pushConstantSize tables c = .ok n) :
    ∃ m, report.MeasuredAt c m := by
  unfold pushConstantSize at h
  split at h
  · cases h
  · rename_i t htype
    split at h
    · cases h
    · rename_i m hlast
      exact ⟨m, measuredAt_iff.2 ⟨t, htype, hlast⟩⟩

/-- A block has a size when that of the member at which it is measured is known and the member ends
at a word. -/
theorem pushConstantSize_eq_ok_iff {n : UInt32} :
    report.pushConstantSize tables c = .ok n ↔
      ∃ m size, report.MeasuredAt c m ∧ tables.byteSizes.get? m.typeName = some size ∧
        m.offset.toNat + size.toNat = n.toNat := by
  constructor
  · intro h
    obtain ⟨m, hm⟩ := exists_measuredAt h
    rw [pushConstantSize_of_measuredAt hm] at h
    obtain ⟨size, hsize, hsum⟩ := Sequence.bind_eq_ok_iff.1 h
    rw [looking_eq_ok_iff, Tables.byteSize_eq_ok_iff] at hsize
    refine ⟨m, size, hm, hsize, ?_⟩
    cases hadd : Checked.add32 m.offset size with
    | error e =>
      rw [hadd] at hsum
      cases hsum
    | ok sum =>
      rw [hadd] at hsum
      cases hsum
      exact Checked.add32_eq_ok_iff.1 hadd
  · rintro ⟨m, size, hm, hsize, hsum⟩
    rw [pushConstantSize_of_measuredAt hm,
      looking_eq_ok_iff.2 (Tables.byteSize_eq_ok_iff.2 hsize), Sequence.ok_bind,
      Checked.add32_eq_ok_iff.2 hsum]
    rfl

/-- A block is oversized when the member at which it is measured ends beyond the largest word. -/
theorem oversized_iff :
    report.Oversized tables c ↔
      ∃ m size, report.MeasuredAt c m ∧ tables.byteSizes.get? m.typeName = some size ∧
        Checked.limit32 ≤ m.offset.toNat + size.toNat := by
  simp only [Oversized, measuredAt_iff, Tables.byteSize_eq_ok_iff]
  constructor
  · rintro ⟨t, m, size, htype, hlast, hsize, hlarge⟩
    exact ⟨m, size, ⟨t, htype, hlast⟩, hsize, hlarge⟩
  · rintro ⟨m, size, ⟨t, htype, hlast⟩, hsize, hlarge⟩
    exact ⟨t, m, size, htype, hlast, hsize, hlarge⟩

/-- What is wrong with a block: its type is not in the report, or has no members, or the type of the
member at which it is measured is unknown. -/
theorem blockFault_iff {e : ReportError} :
    report.BlockFault tables c e ↔
      report.types.get? c.typeName = none ∧ e = .malformed (.missingType c.typeName) ∨
      (∃ t, report.types.get? c.typeName = some t ∧ t.members = [] ∧
        e = .malformed (.emptyBlock c.name)) ∨
      ∃ m, report.MeasuredAt c m ∧ tables.byteSizes.get? m.typeName = none ∧
        e = .lookup (.unknownType m.typeName) := by
  constructor
  · intro h
    cases h with
    | missingType htype => exact .inl ⟨htype, rfl⟩
    | emptyBlock htype hempty => exact .inr (.inl ⟨_, htype, hempty, rfl⟩)
    | unknownType htype hlast hunknown =>
      exact .inr (.inr ⟨_, measuredAt_iff.2 ⟨_, htype, hlast⟩, hunknown, rfl⟩)
  · rintro (⟨htype, rfl⟩ | ⟨t, htype, hempty, rfl⟩ | ⟨m, hm, hunknown, rfl⟩)
    · exact .missingType htype
    · exact .emptyBlock htype hempty
    · obtain ⟨t, htype, hlast⟩ := measuredAt_iff.1 hm
      exact .unknownType htype hlast hunknown

/-- The size of a block is that of any block of the same extent, by tables that have the same entry
for the type of the member at which it is measured. -/
theorem pushConstantSize_congr {report' : Report} {tables' : Tables}
    (htypes : Option.Rel SameExtent (report.types.get? c.typeName)
      (report'.types.get? c.typeName))
    (htables : ∀ m, report.MeasuredAt c m →
      tables.byteSizes.get? m.typeName = tables'.byteSizes.get? m.typeName) :
    report.pushConstantSize tables c = report'.pushConstantSize tables' c := by
  generalize htype : report.types.get? c.typeName = type,
    hother : report'.types.get? c.typeName = other at htypes
  cases htypes with
  | none =>
    unfold pushConstantSize
    rw [htype, hother]
  | @some t t' hsame =>
    by_cases hempty : t.members = []
    · -- Without members there is nothing to measure the block at, here or there.
      have hempty' : t'.members = [] := by
        have hoffsets := hsame.offsets
        rwa [hempty, List.map_nil, eq_comm, List.map_eq_nil_iff] at hoffsets
      unfold pushConstantSize BlockType.last?
      rw [htype, hother]
      dsimp only
      rw [hempty, hempty']
    · obtain ⟨before, m, after, hm⟩ := BlockType.exists_foremost hempty
      obtain ⟨before', m', after', hm', hoffset⟩ := hm.of_offsets hsame.offsets
      have hat : report.MeasuredAt c m := ⟨t, before, after, htype, hm⟩
      have hat' : report'.MeasuredAt c m' := ⟨t', before', after', hother, hm'⟩
      have hlook : tables.byteSize m.typeName = tables'.byteSize m'.typeName := by
        rw [← hsame.typeName hm hm']
        unfold Tables.byteSize
        rw [htables m hat]
      rw [pushConstantSize_of_measuredAt hat, pushConstantSize_of_measuredAt hat', hlook, hoffset]

/-- **The size of a push constant block is where the first of its members with the greatest offset
ends**, if that is a word; otherwise it overflows. There is one such member unless the block has
none. A fault is that the type of the block is not in the report, that it has no members, or that
the type of this member is unknown. Whatever else is in the report and the tables, the names of
members and the types of the other members included, does not matter. -/
theorem pushConstantSize_outcome (report : Report) (tables : Tables) (c : PushConstant) :
    (∀ t : BlockType, t.members ≠ [] →
      ∃! place : List BlockMember × BlockMember × List BlockMember,
        Foremost t.members place.1 place.2.1 place.2.2) ∧
    (∀ n, report.pushConstantSize tables c = .ok n ↔
      ∃ m size, report.MeasuredAt c m ∧ tables.byteSizes.get? m.typeName = some size ∧
        m.offset.toNat + size.toNat = n.toNat) ∧
    (report.pushConstantSize tables c = .error .overflow ↔
      ∃ m size, report.MeasuredAt c m ∧ tables.byteSizes.get? m.typeName = some size ∧
        Checked.limit32 ≤ m.offset.toNat + size.toNat) ∧
    (∀ e, report.pushConstantSize tables c = .error (.fault e) ↔
      report.types.get? c.typeName = none ∧ e = .malformed (.missingType c.typeName) ∨
      (∃ t, report.types.get? c.typeName = some t ∧ t.members = [] ∧
        e = .malformed (.emptyBlock c.name)) ∨
      ∃ m, report.MeasuredAt c m ∧ tables.byteSizes.get? m.typeName = none ∧
        e = .lookup (.unknownType m.typeName)) ∧
    ∀ (report' : Report) (tables' : Tables),
      Option.Rel SameExtent (report.types.get? c.typeName) (report'.types.get? c.typeName) →
      (∀ m, report.MeasuredAt c m →
        tables.byteSizes.get? m.typeName = tables'.byteSizes.get? m.typeName) →
      report.pushConstantSize tables c = report'.pushConstantSize tables' c := by
  refine ⟨fun t ht => ?_, fun n => pushConstantSize_eq_ok_iff, ?_, fun e => ?_,
    fun report' tables' => pushConstantSize_congr⟩
  · obtain ⟨before, m, after, hm⟩ := BlockType.exists_foremost ht
    refine ⟨(before, m, after), hm, fun ⟨before', m', after'⟩ hm' => ?_⟩
    obtain ⟨rfl, rfl, rfl⟩ := hm.unique hm'
    rfl
  · exact pushConstantSize_eq_overflow_iff.trans oversized_iff
  · exact pushConstantSize_eq_fault_iff.trans blockFault_iff

end Report

end ShaderVariants
