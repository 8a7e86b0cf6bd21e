import Mathlib.Order.Bounds.Basic
import ShaderVariants.Proofs.Report.LastMember

/-!
# The extent of a push constant block

The size of a block is read off one member, the first with the greatest offset. If the members are
laid out as members of a block are (`BlockType.LaidOut`: of known sizes, which are not zero, and no
two of them on the same byte), every other member ends before that one begins
(`BlockMember.end_le_offset`). Then the size is the greatest end of all members: it covers the block
and is no larger than that takes, and it does not depend on the order in which the members are
listed (`pushConstantSize_of_laidOut`).
-/

namespace ShaderVariants

namespace BlockMember

variable {tables : Tables} {m n : BlockMember} {stop : ℕ}

/-- The byte is one of those that the member takes up. -/
def Covers (tables : Tables) (m : BlockMember) (byte : ℕ) : Prop :=
  ∃ size, tables.byteSizes.get? m.typeName = some size ∧
    m.offset.toNat ≤ byte ∧ byte < m.offset.toNat + size.toNat

/-- The byte is the first after those of the member. -/
def Ends (tables : Tables) (m : BlockMember) (stop : ℕ) : Prop :=
  ∃ size, tables.byteSizes.get? m.typeName = some size ∧ m.offset.toNat + size.toNat = stop

/-- The bytes of a member of a known size are those from its offset on. -/
theorem covers_iff {size : UInt32} (hsize : tables.byteSizes.get? m.typeName = some size)
    {byte : ℕ} :
    m.Covers tables byte ↔ m.offset.toNat ≤ byte ∧ byte < m.offset.toNat + size.toNat := by
  simp [Covers, hsize]

/-- A member of a known size ends that many bytes after its offset. -/
theorem ends_iff {size : UInt32} (hsize : tables.byteSizes.get? m.typeName = some size) :
    m.Ends tables stop ↔ m.offset.toNat + size.toNat = stop := by
  simp [Ends, hsize]

/-- A member whose offset is not greater than that of another, and which shares no byte with it,
ends before it begins. -/
theorem end_le_offset {size : UInt32}
    (hapart : ∀ byte, ¬(n.Covers tables byte ∧ m.Covers tables byte)) (hle : n.offset ≤ m.offset)
    (hsize : tables.byteSizes.get? m.typeName = some size) (hpos : 0 < size)
    (hend : n.Ends tables stop) : stop ≤ m.offset.toNat := by
  obtain ⟨size', hsize', rfl⟩ := hend
  rw [UInt32.le_iff_toNat_le] at hle
  rw [UInt32.lt_iff_toNat_lt, UInt32.toNat_zero] at hpos
  by_contra hlt
  -- The first byte of the other member would be one of both.
  refine hapart m.offset.toNat ⟨(covers_iff hsize').2 ⟨hle, ?_⟩, (covers_iff hsize).2 ⟨?_, ?_⟩⟩
  all_goals omega

end BlockMember

namespace BlockType

variable {tables : Tables} {t t' : BlockType} {before after : List BlockMember} {m : BlockMember}

/-- The members of a block take up bytes of their own: there are some, each is of a known size that
is not zero, no byte belongs to two of them, and each ends at a word. -/
structure LaidOut (tables : Tables) (t : BlockType) : Prop where
  nonempty : t.members ≠ []
  sized : ∀ m ∈ t.members, ∃ size, tables.byteSizes.get? m.typeName = some size ∧ 0 < size
  apart : t.members.Pairwise fun m n => ∀ byte, ¬(m.Covers tables byte ∧ n.Covers tables byte)
  fits : ∀ m ∈ t.members, ∀ stop, m.Ends tables stop → stop < Checked.limit32

/-- The layout of a block does not depend on the order of its members. -/
theorem LaidOut.perm (h : t.LaidOut tables) (hperm : t'.members.Perm t.members) :
    t'.LaidOut tables where
  nonempty hnil := h.nonempty (List.perm_nil.1 (hnil ▸ hperm.symm))
  sized m hm := h.sized m (hperm.mem_iff.1 hm)
  apart := (hperm.pairwise_iff fun hmn byte hboth => hmn byte hboth.symm).2 h.apart
  fits m hm := h.fits m (hperm.mem_iff.1 hm)

/-- The foremost member of a block ends last. -/
theorem LaidOut.isGreatest (h : t.LaidOut tables) (hm : Foremost t.members before m after)
    {size : UInt32} (hsize : tables.byteSizes.get? m.typeName = some size) :
    IsGreatest {stop | ∃ n ∈ t.members, n.Ends tables stop} (m.offset.toNat + size.toNat) := by
  have hmem : m ∈ t.members := by simp [hm.split]
  obtain ⟨size', hsize', hpos⟩ := h.sized m hmem
  cases hsize.symm.trans hsize'
  have hapart := h.apart
  rw [hm.split, List.pairwise_append, List.pairwise_cons] at hapart
  refine ⟨⟨m, hmem, size, hsize, rfl⟩, ?_⟩
  rintro stop ⟨n, hn, hend⟩
  -- Another member, on either side of the list, ends where this one begins at the latest.
  have hle := hm.offset_le hn
  rw [hm.split, List.mem_append, List.mem_cons] at hn
  rcases hn with hn | rfl | hn
  · have hnm := hapart.2.2 n hn m List.mem_cons_self
    exact Nat.le_add_right_of_le (BlockMember.end_le_offset hnm hle hsize hpos hend)
  · exact ((BlockMember.ends_iff hsize).1 hend).ge
  · have hmn := hapart.2.1.1 n hn
    exact Nat.le_add_right_of_le
      (BlockMember.end_le_offset (fun byte hboth => hmn byte hboth.symm) hle hsize hpos hend)

/-- The foremost member of a block ends at a word, which is the greatest end. -/
theorem LaidOut.exists_extent (h : t.LaidOut tables) :
    ∃ before m after, Foremost t.members before m after ∧
      ∃ size extent : UInt32, tables.byteSizes.get? m.typeName = some size ∧
        m.offset.toNat + size.toNat = extent.toNat ∧
        IsGreatest {stop | ∃ n ∈ t.members, n.Ends tables stop} extent.toNat := by
  obtain ⟨before, m, after, hm⟩ := exists_foremost h.nonempty
  have hmem : m ∈ t.members := by simp [hm.split]
  obtain ⟨size, hsize, -⟩ := h.sized m hmem
  have hfits := h.fits m hmem _ ⟨size, hsize, rfl⟩
  have hword : (UInt32.ofNat (m.offset.toNat + size.toNat)).toNat =
      m.offset.toNat + size.toNat :=
    UInt32.toNat_ofNat_of_lt' hfits
  refine ⟨before, m, after, hm, size, UInt32.ofNat (m.offset.toNat + size.toNat), hsize,
    hword.symm, ?_⟩
  rw [hword]
  exact h.isGreatest hm hsize

end BlockType

namespace Report

variable {report : Report} {tables : Tables} {c : PushConstant}

/-- A block that is laid out has a size, the greatest end of its members. -/
theorem exists_size_of_laidOut {t : BlockType} (htype : report.types.get? c.typeName = some t)
    (h : t.LaidOut tables) :
    ∃ size : UInt32, report.pushConstantSize tables c = .ok size ∧
      IsGreatest {stop | ∃ m ∈ t.members, m.Ends tables stop} size.toNat := by
  obtain ⟨before, m, after, hm, size, extent, hsize, hsum, hgreatest⟩ := h.exists_extent
  exact ⟨extent, pushConstantSize_eq_ok_iff.2
    ⟨m, size, ⟨t, before, after, htype, hm⟩, hsize, hsum⟩, hgreatest⟩

/-- The report without a push constant block. -/
def without (report : Report) (c : PushConstant) : Report :=
  { report with pushConstants := report.pushConstants.filter (· ≠ c) }

/-- Without a block, the other entries are left. -/
theorem mem_entries_without_iff {e : ReportEntry} :
    e ∈ (report.without c).entries ↔ e ∈ report.entries ∧ e ≠ .pushConstant c := by
  cases e <;> simp [entries, without]

/-- The other entries have the same rows without a block. -/
theorem row_without {mask : StageMask} (e : ReportEntry) :
    e.row (report.without c) tables mask = e.row report tables mask := by
  cases e <;> rfl

/-- A block that has a size is not in the way of a resource table. -/
theorem exists_bundle_without_iff {size : UInt32}
    (h : report.pushConstantSize tables c = .ok size) :
    (∃ b, (report.without c).bundle tables = .ok b) ↔ ∃ b, report.bundle tables = .ok b := by
  rw [exists_bundle_iff, exists_bundle_iff]
  refine exists_congr fun mask => and_congr Iff.rfl (and_congr Iff.rfl ⟨fun hrows e he => ?_, ?_⟩)
  · by_cases hc : e = .pushConstant c
    · exact ⟨.ofPushConstant mask c size, by rw [hc, ReportEntry.row, h, Except.map]⟩
    · rw [← row_without]
      exact hrows e (mem_entries_without_iff.2 ⟨he, hc⟩)
  · intro hrows e he
    rw [row_without]
    exact hrows e (mem_entries_without_iff.1 he).1

/-- The rows of a block in a resource table have its size. -/
theorem rows_of_bundle {size : UInt32} {b : ResourceBundle}
    (hsize : report.pushConstantSize tables c = .ok size) (h : report.bundle tables = .ok b) :
    List.Forall₂ (fun e r => e = .pushConstant c →
      r.kind = .pushConstant ∧ r.name = c.name ∧ r.size = size) report.entries b.resources := by
  obtain ⟨mask, -, -, hrows⟩ := bundle_eq_ok_iff_mapM.1 h
  refine (Sequence.mapM_eq_ok_iff.1 hrows).imp fun e r hrow he => ?_
  rw [he, ReportEntry.row, hsize] at hrow
  cases hrow
  exact ⟨rfl, rfl, rfl⟩

/-- **The size of a push constant block whose members are laid out is the greatest end of all its
members**, whatever their order: with the members in any order and anything else in the report, the
block has this size, so it is not in the way of a resource table, and its rows there show it. -/
theorem pushConstantSize_of_laidOut {t : BlockType} {tables : Tables} (h : t.LaidOut tables) :
    ∃ size : UInt32, IsGreatest {stop | ∃ m ∈ t.members, m.Ends tables stop} size.toNat ∧
      ∀ (report : Report) (c : PushConstant) (t' : BlockType),
        report.types.get? c.typeName = some t' → t'.members.Perm t.members →
          report.pushConstantSize tables c = .ok size ∧
          ((∃ b, (report.without c).bundle tables = .ok b) ↔
            ∃ b, report.bundle tables = .ok b) ∧
          ∀ b, report.bundle tables = .ok b →
            List.Forall₂ (fun e r => e = .pushConstant c →
              r.kind = .pushConstant ∧ r.name = c.name ∧ r.size = size)
              report.entries b.resources := by
  obtain ⟨-, -, -, -, -, extent, -, -, hgreatest⟩ := h.exists_extent
  refine ⟨extent, hgreatest, fun report c t' htype hperm => ?_⟩
  obtain ⟨size, hsize, hgreatest'⟩ := exists_size_of_laidOut htype (h.perm hperm)
  -- The members have the same ends in either order.
  simp only [hperm.mem_iff] at hgreatest'
  obtain rfl := UInt32.toNat_inj.1 (hgreatest'.unique hgreatest)
  exact ⟨hsize, exists_bundle_without_iff hsize, fun b hb => rows_of_bundle hsize hb⟩

/-- Two vectors and a number, which stands last in the block and first in the list. -/
def tinted : BlockType :=
  ⟨"Tinted", [⟨"scale", "float", 32⟩, ⟨"tint", "vec4", 0⟩, ⟨"shade", "vec4", 16⟩]⟩

/-- The push constant block whose type is the only one of `pushing`. -/
def push : PushConstant :=
  ⟨"push", "T"⟩

/-- A report on a fragment shader with one push constant block. -/
def pushing (t : BlockType) : Report where
  entryPoints := [⟨"main", "frag"⟩]
  types := ⟨[("T", t)]⟩
  inputs := []
  subpassInputs := []
  outputs := some []
  textures := []
  uniformBuffers := []
  pushConstants := [push]
  specializationConstants := []

/-- The members take up bytes of their own. -/
theorem laidOut_tinted : tinted.LaidOut .standard := by
  have hfloat : Tables.standard.byteSizes.get? "float" = some 4 := by decide
  have hvector : Tables.standard.byteSizes.get? "vec4" = some 16 := by decide
  -- The vectors take up the first 32 bytes, and the number the four after them.
  have hscale (byte : ℕ) :
      BlockMember.Covers .standard ⟨"scale", "float", 32⟩ byte ↔ 32 ≤ byte ∧ byte < 36 := by
    simp [BlockMember.Covers, hfloat]
  have htint (byte : ℕ) : BlockMember.Covers .standard ⟨"tint", "vec4", 0⟩ byte ↔ byte < 16 := by
    simp [BlockMember.Covers, hvector]
  have hshade (byte : ℕ) :
      BlockMember.Covers .standard ⟨"shade", "vec4", 16⟩ byte ↔ 16 ≤ byte ∧ byte < 32 := by
    simp [BlockMember.Covers, hvector]
  refine ⟨by simp [tinted], ?_, ?_, ?_⟩
  · simp [tinted, hfloat, hvector]
  · grind [tinted]
  · simp [tinted, BlockMember.Ends, hfloat, hvector, Checked.limit32]

/-- The block has 36 bytes, also with its members in the other order. -/
theorem pushConstantSize_of_laidOut_tinted :
    tinted.LaidOut .standard ∧
      IsGreatest {stop | ∃ m ∈ tinted.members, m.Ends .standard stop} 36 ∧
      (pushing ⟨"T", tinted.members.reverse⟩).pushConstantSize .standard push = .ok 36 ∧
      ∃ b, (pushing ⟨"T", tinted.members.reverse⟩).bundle .standard = .ok b ∧
        b.resources.map (·.size) = [36] := by
  obtain ⟨size, hgreatest, hany⟩ := pushConstantSize_of_laidOut laidOut_tinted
  obtain ⟨hsize, hway, hrows⟩ :=
    hany (pushing ⟨"T", tinted.members.reverse⟩) push _ rfl (List.reverse_perm _)
  have hword : size = 36 := by
    have hevaluated : (pushing ⟨"T", tinted.members.reverse⟩).pushConstantSize .standard push =
        .ok 36 := by decide
    exact Except.ok.inj (hsize.symm.trans hevaluated)
  subst hword
  obtain ⟨b, hb⟩ := hway.1 ⟨⟨[]⟩, by decide⟩
  refine ⟨laidOut_tinted, hgreatest, hsize, b, hb, ?_⟩
  -- The block is the only entry of the report.
  have hentries : (pushing ⟨"T", tinted.members.reverse⟩).entries = [.pushConstant push] := rfl
  have hrow := hrows b hb
  rw [hentries, List.forall₂_cons_left_iff] at hrow
  obtain ⟨r, rest, hr, hrest, hresources⟩ := hrow
  rw [List.forall₂_nil_left_iff.1 hrest] at hresources
  rw [hresources, List.map_singleton, (hr rfl).2.2]

end Report

end ShaderVariants
