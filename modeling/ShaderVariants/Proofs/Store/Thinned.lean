import Mathlib.Data.Set.Insert
import ShaderVariants.Proofs.Store.Descent

/-!
# Stores without some links

A removal may take a link away, and then paths that led through it end there. They lead nowhere new:
in a store that has lost links (`Thinned`), a way passes what it passed before
(`Thinned.sees_subset`), and it ends where it ended before, or where something is gone, or nowhere
(`Thinned.outline_find`). So what is written or removed by way of a path is what was, or it is where
something is gone (`Thinned.writes_subset`, `Thinned.removes_subset`).
-/

namespace ShaderVariants.Store

variable {R : Set Location} {s t v : Store} {p : Path} {follow : Bool} {here l : Location}
  {name : String}

/-- The first store has the directories, links and devices of the second, but for those that are
gone from locations of a set. -/
def Thinned (R : Set Location) (v t : Store) : Prop :=
  v.toGround = t.toGround ∧
    ∀ l, lasting (v.node? l) = lasting (t.node? l) ∨ l ∈ R ∧ lasting (v.node? l) = none

/-- Nothing is gone from the store itself. -/
@[refl]
theorem Thinned.refl (R : Set Location) (s : Store) : Thinned R s s :=
  ⟨rfl, fun _ => .inl rfl⟩

/-- No more is gone where files changed. -/
theorem Thinned.of_framed (h : Thinned R v t) (hframe : Framed Set.univ s v) : Thinned R s t := by
  refine ⟨hframe.1.trans h.1, fun l => ?_⟩
  rw [hframe.2 l (Set.mem_univ _)]
  exact h.2 l

/-- What is removed is gone. -/
theorem Thinned.clear (h : Thinned R v t) (hl : l ∈ R) : Thinned R (v.clear l) t := by
  refine ⟨h.1, fun l' => ?_⟩
  by_cases heq : l' = l
  · -- The root stays a directory; there is nothing at any other location that is cleared.
    subst heq
    by_cases hroot : l' = []
    · have hsame : (v.clear l').node? l' = v.node? l' := by simp only [node?, if_pos hroot]
      rw [hsame]
      exact h.2 l'
    · refine .inr ⟨hl, ?_⟩
      simp [node?, Store.clear, Table.get?_erase, hroot, lasting]
  · have hne : (Edit.clear l).target ≠ some l' := fun htarget => heq (Option.some.inj htarget).symm
    have hsame : (v.clear l).node? l' = v.node? l' := Edit.node?_on_of_ne hne
    rw [hsame]
    exact h.2 l'

/-- A removal takes away what is removed. -/
theorem thinned_clear (s : Store) (l : Location) : Thinned {l} (s.clear l) s :=
  (Thinned.refl _ s).clear (Set.mem_singleton l)

/-! ## Ways -/

/-- A name that makes a way look at no directory, link or device ends it there, or is refused. -/
theorem outline_turn_of_lasting (follow : Bool) (links : ℕ) (rest : List String)
    (hlooked : looked here name = some l) (h : lasting (s.node? l) = none) :
    (s.turn follow links here name rest).outline = .inr (some (l, none)) ∨
      (s.turn follow links here name rest).outline = .inr none := by
  rcases turn_cases links here name with ⟨-, hnone, -⟩ | ⟨hnone, -⟩ | ⟨hsome, hturn⟩
  · rw [hnone] at hlooked
    cases hlooked
  · rw [hnone] at hlooked
    cases hlooked
  · rw [hsome] at hlooked
    cases hlooked
    rw [hturn, outline_arrive, h, arrive]
    by_cases hrest : rest = []
    · exact .inl (by rw [if_pos hrest]; rfl)
    · exact .inr (by rw [if_neg hrest]; rfl)

/-- Where a name makes a way look, the directory, link or device is what it was, or it is gone. -/
theorem Thinned.looked_cases (h : Thinned R v t) (here : Location) (name : String) :
    (∀ l ∈ looked here name, lasting (v.node? l) = lasting (t.node? l)) ∨
      ∃ l ∈ R, looked here name = some l ∧ lasting (v.node? l) = none := by
  cases hlooked : looked here name with
  | none => exact .inl nofun
  | some l =>
    rcases h.2 l with hsame | ⟨hl, hgone⟩
    · refine .inl fun l' hl' => ?_
      cases hl'
      exact hsame
    · exact .inr ⟨l, hl, rfl, hgone⟩

/-- A way passes what it passed before, and it ends as it did, or nowhere, or where something is
gone. -/
theorem Thinned.walk_cases (h : Thinned R v t) (follow : Bool) (links : ℕ) (here : Location)
    (names : List String) :
    (∀ l ∈ v.trail follow links here names, l ∈ t.trail follow links here names) ∧
      (outline (v.walk follow links here names) = outline (t.walk follow links here names) ∨
        outline (v.walk follow links here names) = none ∨
        ∃ l ∈ R, outline (v.walk follow links here names) = some (l, none)) := by
  induction links, here, names using walk_induction v follow with
  | nil links here => exact ⟨fun l hl => by simp at hl, .inl (by rw [walk, walk])⟩
  | halt links here name rest result hturn =>
    rw [trail_of_halt hturn, walk_cons, walk_cons, hturn]
    refine ⟨fun l hl => by rw [trail]; exact List.mem_append_left _ hl, ?_⟩
    rcases h.looked_cases here name with hsame | ⟨l, hl, hlooked, hgone⟩
    · -- The way halted at this name before, too.
      have hout : (v.turn follow links here name rest).outline =
          (t.turn follow links here name rest).outline := outline_turn_congr hsame
      rw [hturn] at hout
      obtain ⟨result', hturn', hresult⟩ := halt_of_outline hout
      rw [hturn']
      exact .inl hresult
    · rcases outline_turn_of_lasting follow links rest hlooked hgone with hout | hout
      · rw [hturn] at hout
        exact .inr (.inr ⟨l, hl, Sum.inr.inj hout⟩)
      · rw [hturn] at hout
        exact .inr (.inl (Sum.inr.inj hout))
  | onward links here name rest links' here' names hturn ih =>
    rcases h.looked_cases here name with hsame | ⟨l, -, hlooked, hgone⟩
    · have hout : (v.turn follow links here name rest).outline =
          (t.turn follow links here name rest).outline := outline_turn_congr hsame
      rw [hturn] at hout
      have hturn' := onward_of_outline hout
      rw [trail_of_onward hturn, trail_of_onward hturn', walk_cons, walk_cons, hturn, hturn']
      refine ⟨fun l hl => ?_, ih.2⟩
      rcases List.mem_append.1 hl with hl | hl
      · exact List.mem_append_left _ hl
      · exact List.mem_append_right _ (ih.1 l hl)
    · -- Where something is gone no name leads onward.
      rcases outline_turn_of_lasting follow links rest hlooked hgone with hout | hout <;>
        rw [hturn] at hout <;> cases hout

/-! ## Paths -/

variable (h : Thinned R v t)
include h

/-- A path passes nothing new. -/
theorem Thinned.sees_subset : v.Sees p ⊆ t.Sees p := by
  rintro l ⟨follow, hl⟩
  refine ⟨follow, ?_⟩
  rw [← start_congr h.1]
  exact (h.walk_cases _ _ _ _).1 l hl

/-- A directory, link or device that is there was there. -/
theorem Thinned.node?_eq {node : Node} (hnode : v.node? l = some node)
    (hlasting : lasting (some node) = some node) : t.node? l = some node := by
  have hv : lasting (v.node? l) = some node := by rw [hnode, hlasting]
  rcases h.2 l with hsame | ⟨-, hgone⟩
  · exact lasting_eq_some (hsame.symm.trans hv)
  · cases hgone.symm.trans hv

/-- A path that passed no link passes none. -/
theorem Thinned.not_linked (hlink : ¬t.Linked p) : ¬v.Linked p :=
  fun ⟨l, hl, target, hnode⟩ => hlink ⟨l, h.sees_subset hl, target, h.node?_eq hnode rfl⟩

/-- A path leads where it led, or nowhere, or where something is gone. -/
theorem Thinned.outline_find :
    outline (v.find p follow) = outline (t.find p follow) ∨ outline (v.find p follow) = none ∨
      ∃ l ∈ R, outline (v.find p follow) = some (l, none) := by
  unfold find trace
  -- A path that is refused for its form is refused in every store.
  split
  · exact .inl rfl
  split
  · exact .inl rfl
  split
  · exact .inl rfl
  rw [← start_congr h.1]
  exact (h.walk_cases _ _ _ _).2

/-- The file of a path is written where it was, or where something is gone. -/
theorem Thinned.writes_subset : v.Writes p ⊆ t.Writes p ∪ R := by
  intro l hl
  have hout : outline (v.find p true) = some (l, none) := hl
  rcases h.outline_find with hsame | hnone | ⟨l', hl', hgone⟩
  · exact .inl (hsame.symm.trans hout)
  · cases hnone.symm.trans hout
  · cases hgone.symm.trans hout
    exact .inr hl'

/-- The file or link of a path is removed from where it was, or from where something is gone. -/
theorem Thinned.removes_subset : v.Removes p ⊆ t.Removes p ∪ R := by
  rintro l ⟨node, hout, hdir⟩
  rcases h.outline_find with hsame | hnone | ⟨l', hl', hgone⟩
  · exact .inl ⟨node, hsame.symm.trans hout, hdir⟩
  · cases hnone.symm.trans hout
  · cases hgone.symm.trans hout
    exact .inr hl'

end ShaderVariants.Store
