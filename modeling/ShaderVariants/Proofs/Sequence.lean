import Mathlib.Data.List.Forall2
import ShaderVariants.Checked

/-!
# Sequences of computations that may fail

A sequence of steps gives a result when every step gives one. The readers and decoders are such
sequences, over the parts of a value or over the elements of a list.
-/

namespace ShaderVariants.Sequence

variable {ε α β : Type}

/-- After a step that gave a result comes what follows it. -/
@[simp]
theorem ok_bind (a : α) (f : α → Except ε β) : (Except.ok a >>= f) = f a := rfl

/-- After a failed step comes nothing. -/
@[simp]
theorem error_bind (e : ε) (f : α → Except ε β) : (Except.error e >>= f) = .error e := rfl

/-- A sequence of two steps gives a result exactly when both do. -/
theorem bind_eq_ok_iff {x : Except ε α} {f : α → Except ε β} {b : β} :
    (x >>= f) = .ok b ↔ ∃ a, x = .ok a ∧ f a = .ok b := by
  cases x with
  | error e => simp
  | ok a => simp

/-- A changed result is there exactly when the result is. -/
theorem map_eq_ok_iff {x : Except ε α} {f : α → β} {b : β} :
    x.map f = .ok b ↔ ∃ a, x = .ok a ∧ f a = b := by
  cases x with
  | error e => simp [Except.map]
  | ok a => simp [Except.map]

/-- There is a changed result exactly when there is a result. -/
theorem exists_map_iff {x : Except ε α} {f : α → β} :
    (∃ b, x.map f = .ok b) ↔ ∃ a, x = .ok a := by
  cases x <;> simp [Except.map]

/-- A sequence of two steps fails exactly when the first does, or the second after it. -/
theorem bind_eq_error_iff {x : Except ε α} {f : α → Except ε β} {e : ε} :
    (x >>= f) = .error e ↔ x = .error e ∨ ∃ a, x = .ok a ∧ f a = .error e := by
  cases x with
  | error e' => simp
  | ok a => simp

/-- A changed result is missing exactly when the result is. -/
theorem map_eq_error_iff {x : Except ε α} {f : α → β} {e : ε} :
    x.map f = .error e ↔ x = .error e := by
  cases x with
  | error e' => simp [Except.map]
  | ok a => simp [Except.map]

/-- With another error the results stay. -/
theorem mapError_eq_ok_iff {ε' : Type} {x : Except ε α} {f : ε → ε'} {a : α} :
    x.mapError f = .ok a ↔ x = .ok a := by
  cases x <;> simp [Except.mapError]

/-- There is another error exactly when there is an error. -/
theorem mapError_eq_error_iff {ε' : Type} {x : Except ε α} {f : ε → ε'} {e' : ε'} :
    x.mapError f = .error e' ↔ ∃ e, x = .error e ∧ f e = e' := by
  cases x <;> simp [Except.mapError]

/-- Among computations that may overflow the results stay. -/
theorem ofExcept_eq_ok_iff {x : Except ε α} {a : α} : Halt.ofExcept x = .ok a ↔ x = .ok a := by
  cases x <;> simp [Halt.ofExcept]

/-- A computation that meets only faults does not overflow. -/
theorem ofExcept_ne_overflow {x : Except ε α} : Halt.ofExcept x ≠ .error .overflow := by
  cases x <;> simp [Halt.ofExcept]

/-- Steps that each give a result give the list of results. -/
theorem mapM_eq_ok {f : α → Except ε β} {g : α → β} {as : List α} (h : ∀ a ∈ as, f a = .ok (g a)) :
    as.mapM f = .ok (as.map g) := by
  induction as with
  | nil => rfl
  | cons a as ih =>
    have head : f a = .ok (g a) := h a List.mem_cons_self
    have tail : as.mapM f = .ok (as.map g) := ih fun b hb => h b (List.mem_cons_of_mem a hb)
    rw [List.mapM_cons, head, ok_bind, tail, ok_bind, List.map_cons]
    rfl

/-- Steps give a list of results exactly when each gives its own. -/
theorem mapM_eq_ok_iff {f : α → Except ε β} {as : List α} {bs : List β} :
    as.mapM f = .ok bs ↔ List.Forall₂ (fun a b => f a = .ok b) as bs := by
  induction as generalizing bs with
  | nil =>
    rw [List.mapM_nil, List.forall₂_nil_left_iff]
    exact ⟨fun h => (Except.ok.inj h).symm, fun h => h ▸ rfl⟩
  | cons a as ih =>
    rw [List.mapM_cons, bind_eq_ok_iff, List.forall₂_cons_left_iff]
    constructor
    · rintro ⟨b, hb, hrest⟩
      obtain ⟨rest, htail, hlist⟩ := bind_eq_ok_iff.1 hrest
      cases hlist
      exact ⟨b, rest, hb, ih.1 htail, rfl⟩
    · rintro ⟨b, rest, hb, htail, rfl⟩
      exact ⟨b, hb, bind_eq_ok_iff.2 ⟨rest, ih.2 htail, rfl⟩⟩

/-- What is related to a list part by part is related to one of its parts in each. -/
theorem exists_of_forall₂ {R : α → β → Prop} {as : List α} {bs : List β} (h : List.Forall₂ R as bs)
    {b : β} (hb : b ∈ bs) : ∃ a ∈ as, R a b := by
  induction h with
  | nil => cases hb
  | @cons a _ _ _ hab _ ih =>
    rcases List.mem_cons.1 hb with rfl | hb
    · exact ⟨a, List.mem_cons_self, hab⟩
    · obtain ⟨a', ha', h'⟩ := ih hb
      exact ⟨a', List.mem_cons_of_mem _ ha', h'⟩

/-- Two lists that are related to a third part by part are related to each other in this way. -/
theorem forall₂_of_forall₂ {γ : Type} {R : α → β → Prop} {S : α → γ → Prop} {T : β → γ → Prop}
    {as : List α} {bs : List β} {cs : List γ} (hR : List.Forall₂ R as bs)
    (hS : List.Forall₂ S as cs) (hT : ∀ a b c, R a b → S a c → T b c) : List.Forall₂ T bs cs := by
  induction hR generalizing cs with
  | nil =>
    rw [List.forall₂_nil_left_iff.1 hS]
    exact .nil
  | cons hab _ ih =>
    obtain ⟨c, rest, hac, hrest, rfl⟩ := List.forall₂_cons_left_iff.1 hS
    exact .cons (hT _ _ _ hab hac) (ih hrest)

/-- Steps that come to the same one by one come to the same together. -/
theorem mapM_congr {γ : Type} {f : α → Except ε γ} {g : β → Except ε γ} {as : List α} {bs : List β}
    (h : List.Forall₂ (fun a b => f a = g b) as bs) : as.mapM f = bs.mapM g := by
  induction h with
  | nil => rfl
  | cons hab _ ih => rw [List.mapM_cons, List.mapM_cons, hab, ih]

/-- Steps fail exactly when one of them does, after steps that each gave a result. -/
theorem mapM_eq_error_iff {f : α → Except ε β} {as : List α} {e : ε} :
    as.mapM f = .error e ↔ ∃ before a after, as = before ++ a :: after ∧
      (∀ a' ∈ before, ∃ b, f a' = .ok b) ∧ f a = .error e := by
  induction as with
  | nil =>
    rw [List.mapM_nil]
    constructor
    · intro h
      cases h
    · rintro ⟨before, a, after, h, -⟩
      exact absurd h.symm (List.append_ne_nil_of_right_ne_nil _ (List.cons_ne_nil _ _))
  | cons a as ih =>
    rw [List.mapM_cons, bind_eq_error_iff]
    constructor
    · rintro (hhead | ⟨b, hhead, hrest⟩)
      · exact ⟨[], a, as, rfl, nofun, hhead⟩
      · rcases bind_eq_error_iff.1 hrest with htail | ⟨bs, -, hpure⟩
        · obtain ⟨before, a', after, rfl, hbefore, hfails⟩ := ih.1 htail
          refine ⟨a :: before, a', after, rfl, fun c hc => ?_, hfails⟩
          rcases List.mem_cons.1 hc with rfl | hc
          · exact ⟨b, hhead⟩
          · exact hbefore c hc
        · cases hpure
    · rintro ⟨before, a', after, hsplit, hbefore, hfails⟩
      cases before with
      | nil =>
        cases hsplit
        exact .inl hfails
      | cons c before =>
        cases hsplit
        obtain ⟨b, hb⟩ := hbefore _ List.mem_cons_self
        refine .inr ⟨b, hb, bind_eq_error_iff.2 (.inl (ih.2 ?_))⟩
        exact ⟨before, a', after, rfl, fun c hc => hbefore c (List.mem_cons_of_mem _ hc), hfails⟩

/-- Steps that together give a list of results each give one. -/
theorem exists_of_mapM {f : α → Except ε β} {as : List α} {bs : List β} (h : as.mapM f = .ok bs)
    {a : α} (ha : a ∈ as) : ∃ b, f a = .ok b := by
  induction mapM_eq_ok_iff.1 h with
  | nil => cases ha
  | cons hb hrest ih =>
    rcases List.mem_cons.1 ha with rfl | ha
    · exact ⟨_, hb⟩
    · exact ih (mapM_eq_ok_iff.2 hrest) ha

/-- Steps together give a list of results exactly when each gives one. -/
theorem exists_mapM_iff {f : α → Except ε β} {as : List α} :
    (∃ bs, as.mapM f = .ok bs) ↔ ∀ a ∈ as, ∃ b, f a = .ok b := by
  constructor
  · rintro ⟨bs, h⟩ a ha
    exact exists_of_mapM h ha
  · intro h
    cases hsteps : as.mapM f with
    | ok bs => exact ⟨bs, rfl⟩
    | error e =>
      -- One of the steps would have failed.
      obtain ⟨before, a, after, rfl, -, hfails⟩ := mapM_eq_error_iff.1 hsteps
      obtain ⟨b, hb⟩ := h a (List.mem_append_right _ List.mem_cons_self)
      cases hb.symm.trans hfails

/-- Steps from one state to the next fail exactly when one of them does, in the state that those
before it lead to. -/
theorem foldlM_eq_error_iff {σ : Type} {f : σ → α → Except ε σ} {as : List α} {s : σ} {e : ε} :
    as.foldlM f s = .error e ↔ ∃ before a after t, as = before ++ a :: after ∧
      before.foldlM f s = .ok t ∧ f t a = .error e := by
  induction as generalizing s with
  | nil =>
    constructor
    · intro h
      cases h
    · rintro ⟨before, a, after, t, h, -⟩
      exact absurd h.symm (List.append_ne_nil_of_right_ne_nil _ (List.cons_ne_nil _ _))
  | cons a as ih =>
    rw [List.foldlM_cons, bind_eq_error_iff]
    constructor
    · rintro (hhead | ⟨t, hhead, hrest⟩)
      · exact ⟨[], a, as, s, rfl, rfl, hhead⟩
      · obtain ⟨before, a', after, u, rfl, hbefore, hfails⟩ := ih.1 hrest
        refine ⟨a :: before, a', after, u, rfl, ?_, hfails⟩
        rw [List.foldlM_cons, hhead, ok_bind, hbefore]
    · rintro ⟨before, a', after, u, hsplit, hbefore, hfails⟩
      cases before with
      | nil =>
        cases hsplit
        cases hbefore
        exact .inl hfails
      | cons b before =>
        cases hsplit
        rw [List.foldlM_cons, bind_eq_ok_iff] at hbefore
        obtain ⟨t, hhead, hrest⟩ := hbefore
        exact .inr ⟨t, hhead, ih.2 ⟨before, a', after, u, rfl, hrest, hfails⟩⟩

end ShaderVariants.Sequence
