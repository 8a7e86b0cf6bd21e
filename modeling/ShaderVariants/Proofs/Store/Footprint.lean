import Mathlib.Data.Set.Basic
import ShaderVariants.Proofs.Sequence
import ShaderVariants.Proofs.Store.Trail

/-!
# What operations on files depend on and change

An operation on a path depends on the locations that the path's ways pass (`Sees`) and changes one
location at most, an `Edit`: that of the file that is written (`Writes`), or of the file or link
that is removed (`Removes`). Stores that agree on what a path sees give the same answer and the same
edit (`content_congr`, `writing_congr`, `removing_congr`), and writing leaves the ways of all paths
as they are (`framed_of_writing`).
-/

namespace ShaderVariants.Store

/-! ## Agreement -/

/-- The stores have one ground, and the same nodes at the locations of a set. -/
def Agree (A : Set Location) (s t : Store) : Prop :=
  s.toGround = t.toGround ∧ ∀ l ∈ A, s.node? l = t.node? l

/-- The stores have one ground, and the same nodes but for files at the locations of a set. -/
def Framed (A : Set Location) (s t : Store) : Prop :=
  s.toGround = t.toGround ∧ ∀ l ∈ A, lasting (s.node? l) = lasting (t.node? l)

/-- The stores are the same system of files, whatever the order of their entries. -/
def Same (s t : Store) : Prop :=
  s.toGround = t.toGround ∧ ∀ l, s.node? l = t.node? l

variable {A B : Set Location} {s t u : Store} {p : Path} {follow : Bool} {l : Location}

/-- A store agrees with itself. -/
@[refl]
theorem Agree.refl (A : Set Location) (s : Store) : Agree A s s :=
  ⟨rfl, fun _ _ => rfl⟩

/-- Agreement goes both ways. -/
theorem Agree.symm (h : Agree A s t) : Agree A t s :=
  ⟨h.1.symm, fun l hl => (h.2 l hl).symm⟩

/-- Stores that agree with one store agree. -/
theorem Agree.trans (h : Agree A s t) (h' : Agree A t u) : Agree A s u :=
  ⟨h.1.trans h'.1, fun l hl => (h.2 l hl).trans (h'.2 l hl)⟩

/-- Stores that agree on a set agree on its subsets. -/
theorem Agree.mono (h : Agree A s t) (hsub : B ⊆ A) : Agree B s t :=
  ⟨h.1, fun l hl => h.2 l (hsub hl)⟩

/-- Stores that agree have the same frame. -/
theorem Agree.framed (h : Agree A s t) : Framed A s t :=
  ⟨h.1, fun l hl => congrArg lasting (h.2 l hl)⟩

/-- A store has the frame of itself. -/
@[refl]
theorem Framed.refl (A : Set Location) (s : Store) : Framed A s s :=
  (Agree.refl A s).framed

/-- Having one frame goes both ways. -/
theorem Framed.symm (h : Framed A s t) : Framed A t s :=
  ⟨h.1.symm, fun l hl => (h.2 l hl).symm⟩

/-- Stores with the frame of one store have one frame. -/
theorem Framed.trans (h : Framed A s t) (h' : Framed A t u) : Framed A s u :=
  ⟨h.1.trans h'.1, fun l hl => (h.2 l hl).trans (h'.2 l hl)⟩

/-- Stores with one frame on a set have one on its subsets. -/
theorem Framed.mono (h : Framed A s t) (hsub : B ⊆ A) : Framed B s t :=
  ⟨h.1, fun l hl => h.2 l (hsub hl)⟩

/-! ## What a path leads to -/

/-- The locations that the ways of a path pass. -/
def Sees (s : Store) (p : Path) : Set Location :=
  {l | ∃ follow, l ∈ s.trail follow maxLinks (s.start p) (Path.names p)}

/-- The location at which the file of a path is written. -/
def Writes (s : Store) (p : Path) : Set Location :=
  {l | outline (s.find p true) = some (l, none)}

/-- The location from which the file or link of a path is removed. -/
def Removes (s : Store) (p : Path) : Set Location :=
  {l | ∃ node, outline (s.find p false) = some (l, node) ∧ node ≠ some .directory}

/-- What would be removed by way of a path cannot be. -/
def Fixed (s : Store) (p : Path) : Prop :=
  ∃ l ∈ s.Removes p, s.isFixed l = true

/-- Stores on one ground start a path at one location. -/
theorem start_congr (h : s.toGround = t.toGround) : s.start p = t.start p := by
  rw [start, start, h]

/-- Stores with one frame along the ways of a path lead it alike. -/
theorem outline_find_congr (h : Framed (s.Sees p) s t) :
    outline (s.find p follow) = outline (t.find p follow) := by
  unfold find trace
  -- A path that is refused for its form is refused in every store.
  split
  · rfl
  split
  · rfl
  split
  · rfl
  rw [← start_congr h.1]
  exact (trail_congr _ _ _ fun l hl => h.2 l ⟨follow, hl⟩).2

/-- Stores with one frame along the ways of a path have the same ways. -/
theorem sees_congr (h : Framed (s.Sees p) s t) : t.Sees p = s.Sees p := by
  ext l
  refine exists_congr fun follow => ?_
  rw [← start_congr h.1, (trail_congr _ _ _ fun l hl => h.2 l ⟨follow, hl⟩).1]

/-- Stores with one frame along the ways of a path have its file written at one location. -/
theorem writes_congr (h : Framed (s.Sees p) s t) : t.Writes p = s.Writes p := by
  unfold Writes
  rw [outline_find_congr h]

/-- Stores with one frame along the ways of a path have its file removed from one location. -/
theorem removes_congr (h : Framed (s.Sees p) s t) : t.Removes p = s.Removes p := by
  unfold Removes
  rw [outline_find_congr h]

/-- Stores with one frame along the ways of a path have the same end of it fixed. -/
theorem fixed_congr (h : Framed (s.Sees p) s t) : t.Fixed p ↔ s.Fixed p := by
  unfold Fixed
  rw [removes_congr h, h.1]

/-- Stores that agree along the ways of a path lead it to the same place. -/
theorem find_congr (h : Agree (s.Sees p) s t) : s.find p follow = t.find p follow := by
  unfold find trace
  rw [← start_congr h.1, walk_congr _ _ _ fun l hl => h.2 l ⟨follow, hl⟩]

/-- A path that leads to a place leads, in every store, where its names do. -/
theorem find_eq_walk {place : Place} (h : s.find p follow = .ok place) (t : Store)
    (follow' : Bool) :
    t.find p follow' = t.walk follow' maxLinks (t.start p) (Path.names p) := by
  unfold find trace at h
  split at h
  · cases h
  rename_i hnul
  split at h
  · cases h
  rename_i hempty
  split at h
  · cases h
  rename_i hlong
  rw [find, trace, if_neg hnul, if_neg hempty, if_neg hlong]

/-- A proper path whose way takes no more than some turns leads where it leads within them. -/
theorem find_of_within {result : Except FileError Place} (turns : ℕ)
    (hnul : Path.holdsNul p = false) (hempty : p.isEmpty = false)
    (hsize : p.utf8ByteSize ≤ Path.maxSize)
    (h : s.walkWithin follow turns maxLinks (s.start p) (Path.names p) = some result) :
    s.find p follow = result := by
  rw [find, trace, hnul, hempty, if_neg (by decide), if_neg (by decide), if_neg (by omega)]
  exact walk_of_within h

/-- The way to a place that is no directory passes its location, where the node is. -/
theorem find_place {place : Place} (h : s.find p follow = .ok place)
    (hdir : place.node ≠ some .directory) :
    place.location ∈ s.Sees p ∧ place.location ≠ [] ∧ s.node? place.location = place.node := by
  rw [find_eq_walk h] at h
  obtain ⟨hmem, hne, hnode⟩ := walk_place _ _ _ h hdir
  exact ⟨⟨follow, hmem⟩, hne, hnode⟩

/-- An outline is that of a place. -/
theorem outline_eq_some {result : Except FileError Place} {node : Option Node}
    (h : outline result = some (l, node)) :
    ∃ place, result = .ok place ∧ place.location = l ∧ lasting place.node = node := by
  cases result with
  | error e => cases h
  | ok place =>
    cases h
    exact ⟨place, rfl, rfl, rfl⟩

/-- Where the file of a path is written is on its way, and there is no lasting node. -/
theorem node_of_mem_writes (h : l ∈ s.Writes p) :
    l ∈ s.Sees p ∧ l ≠ [] ∧ lasting (s.node? l) = none := by
  obtain ⟨place, hfind, rfl, hnone⟩ := outline_eq_some h
  have hdir : place.node ≠ some .directory := by
    intro hdir
    rw [hdir] at hnone
    cases hnone
  obtain ⟨hmem, hne, hnode⟩ := find_place hfind hdir
  exact ⟨hmem, hne, by rw [hnode, hnone]⟩

/-- The file or link of a path is removed from where it is. -/
theorem mem_removes_of_find {node : Node} (h : s.find p false = .ok ⟨l, some node⟩)
    (hdir : node ≠ .directory) : l ∈ s.Removes p := by
  refine ⟨lasting (some node), ?_, fun hlasting => hdir ?_⟩
  · rw [h, outline]
  · exact Option.some.inj (lasting_eq_some hlasting)

/-- The file or link of a path is removed from one location. -/
theorem eq_of_mem_removes {l' : Location} (h : l ∈ s.Removes p) (h' : l' ∈ s.Removes p) :
    l = l' := by
  obtain ⟨_, hout, -⟩ := h
  obtain ⟨_, hout', -⟩ := h'
  exact congrArg Prod.fst (Option.some.inj (hout.symm.trans hout'))

/-- Where the file or link of a path is removed is on its way, and there is no directory. -/
theorem node_of_mem_removes (h : l ∈ s.Removes p) :
    l ∈ s.Sees p ∧ l ≠ [] ∧ s.node? l ≠ some .directory := by
  obtain ⟨node, hout, hne⟩ := h
  obtain ⟨place, hfind, rfl, rfl⟩ := outline_eq_some hout
  have hdir : place.node ≠ some .directory := by
    intro hdir
    rw [hdir] at hne
    exact hne rfl
  obtain ⟨hmem, hroot, hnode⟩ := find_place hfind hdir
  exact ⟨hmem, hroot, by rwa [hnode]⟩

/-! ## Reading -/

/-- Stores that agree along the ways of a path have the same content at its end. -/
theorem content_congr (h : Agree (s.Sees p) s t) : s.content p = t.content p := by
  unfold content
  rw [find_congr h]

/-- Stores that agree along the ways of a path have the same text at its end. -/
theorem read_congr (h : Agree (s.Sees p) s t) : s.read p = t.read p := by
  unfold read
  rw [content_congr h]

/-! ## Edits -/

/-- A change of a store at one location at most. -/
inductive Edit where
  | keep
  | put (l : Location) (node : Node)
  | clear (l : Location)

namespace Edit

/-- The store after an edit. -/
def on : Edit → Store → Store
  | keep, s => s
  | put l node, s => s.put l node
  | clear l, s => s.clear l

/-- Where an edit changes a store. -/
def target : Edit → Option Location
  | keep => none
  | put l _ => some l
  | clear l => some l

/-- An edit leaves the ground. -/
@[simp]
theorem ground_on (e : Edit) (s : Store) : (e.on s).toGround = s.toGround := by
  cases e <;> rfl

/-- An edit leaves all other locations as they are. -/
theorem node?_on_of_ne {e : Edit} (h : e.target ≠ some l) : (e.on s).node? l = s.node? l := by
  cases e with
  | keep => rfl
  | put l' node =>
    have hne : l' ≠ l := fun heq => h (congrArg some heq)
    simp only [on, node?, Store.put, Table.get?_insert, if_neg hne]
  | clear l' =>
    have hne : l' ≠ l := fun heq => h (congrArg some heq)
    simp only [on, node?, Store.clear, Table.get?_erase, if_neg hne]

/-- What an edit leaves at its location depends on nothing. -/
theorem node?_on_of_eq {e : Edit} (h : e.target = some l) :
    (e.on s).node? l = (e.on t).node? l := by
  cases e with
  | keep => cases h
  | put l' node =>
    cases h
    simp only [on, node?, Store.put, Table.get?_insert, if_true]
  | clear l' =>
    cases h
    simp only [on, node?, Store.clear, Table.get?_erase, if_true]

/-- An edit of stores that agree leaves them agreeing. -/
theorem agree_on (e : Edit) (h : Agree A s t) : Agree A (e.on s) (e.on t) := by
  refine ⟨by rw [ground_on, ground_on, h.1], fun l hl => ?_⟩
  by_cases htarget : e.target = some l
  · exact node?_on_of_eq htarget
  · rw [node?_on_of_ne htarget, node?_on_of_ne htarget, h.2 l hl]

/-- An edit leaves a store as it is on a set that it does not reach. -/
theorem agree_on_self {e : Edit} (h : ∀ l ∈ e.target, l ∉ A) : Agree A (e.on s) s :=
  ⟨ground_on e s, fun l hl => node?_on_of_ne fun htarget => h l htarget hl⟩

end Edit

/-- The edit that writes a content to a place. -/
def writeEdit (content : Content) (place : Place) : Except FileError Edit :=
  match place.node with
  | some (.file _ executable) => .ok (.put place.location (.file content executable))
  | some .device => .ok .keep
  | some _ => .error .isDirectory
  | none => .ok (.put place.location (.file content false))

/-- The edit that removes a place. -/
def removeEdit (ground : Ground) (place : Place) : Except FileError Edit :=
  match place.node with
  | some .directory => .error .isDirectory
  | some _ => if ground.isFixed place.location then .error .denied else .ok (.clear place.location)
  | none => .error .notFound

/-- The edit that writes a content to the file of a path. -/
def writing (s : Store) (p : Path) (content : Content) : Except FileError Edit :=
  s.find p true >>= writeEdit content

/-- The edit that removes the file or link of a path. -/
def removing (s : Store) (p : Path) : Except FileError Edit :=
  s.find p false >>= removeEdit s.toGround

/-- Writing is an edit, at a path that ends in no slash. -/
theorem writeContent_eq {content : Content} (hp : Path.endsInSlash p = false) :
    s.writeContent p content = (s.writing p content).map (·.on s) := by
  unfold writeContent writePlace writing
  rw [if_neg (by rw [hp]; decide)]
  cases s.find p true with
  | error e => rfl
  | ok place =>
    obtain ⟨location, node⟩ := place
    rw [Sequence.ok_bind, Sequence.ok_bind]
    rcases node with _ | _ | _ | _ | _ <;> rfl

/-- What is written has a path that ends in no slash. -/
theorem endsInSlash_of_writeContent {content : Content} (h : s.writeContent p content = .ok t) :
    Path.endsInSlash p = false := by
  by_contra hslash
  rw [Bool.not_eq_false] at hslash
  unfold writeContent writePlace at h
  rw [if_pos hslash] at h
  obtain ⟨place, hplace, -⟩ := Sequence.bind_eq_ok_iff.1 h
  obtain ⟨-, -, hrefused⟩ := Sequence.bind_eq_ok_iff.1 hplace
  cases hrefused

/-- A file is written at the place that its path leads to. -/
theorem write_of_find {text : String} {place : Place} {e : Edit} (hp : Path.endsInSlash p = false)
    (hfind : s.find p true = .ok place) (hedit : writeEdit (.text text) place = .ok e) :
    s.write p text = .ok (e.on s) := by
  rw [write, writeContent_eq hp, writing, hfind, Sequence.ok_bind, hedit]
  rfl

/-- Removing is an edit. -/
theorem remove_eq : s.remove p = (s.removing p).map (·.on s) := by
  unfold remove removing
  cases s.find p false with
  | error e => rfl
  | ok place =>
    obtain ⟨location, node⟩ := place
    rw [Sequence.ok_bind, Sequence.ok_bind, removeEdit]
    dsimp only
    cases s.isFixed location <;> rcases node with _ | _ | _ | _ | _ <;> rfl

/-- What is removed is there, no directory and not fixed, and its location is cleared. -/
theorem removing_eq_ok_iff {e : Edit} :
    s.removing p = .ok e ↔ ∃ l node, s.find p false = .ok ⟨l, some node⟩ ∧ node ≠ .directory ∧
      s.isFixed l = false ∧ e = .clear l := by
  rw [removing, Sequence.bind_eq_ok_iff]
  constructor
  · rintro ⟨⟨l, node⟩, hfind, hedit⟩
    rcases node with _ | node
    · cases hedit
    by_cases hdir : node = .directory
    · subst hdir
      cases hedit
    cases hfixed : s.isFixed l with
    | true =>
      rcases node with _ | _ | _ | _ <;> simp [removeEdit, hfixed] at hedit
    | false =>
      refine ⟨l, node, hfind, hdir, hfixed, ?_⟩
      rcases node with _ | _ | _ | _ <;> simp_all [removeEdit]
  · rintro ⟨l, node, hfind, hdir, hfixed, rfl⟩
    refine ⟨_, hfind, ?_⟩
    rcases node with _ | _ | _ | _ <;> simp_all [removeEdit]

/-- Stores that agree along the ways of a path have its file written by one edit. -/
theorem writing_congr {content : Content} (h : Agree (s.Sees p) s t) :
    s.writing p content = t.writing p content := by
  unfold writing
  rw [find_congr h]

/-- Stores that agree along the ways of a path have its file removed by one edit. -/
theorem removing_congr (h : Agree (s.Sees p) s t) : s.removing p = t.removing p := by
  unfold removing
  rw [find_congr h, h.1]

/-- Writing a file changes its location only. -/
theorem mem_writes_of_writing {content : Content} {e : Edit} (h : s.writing p content = .ok e)
    (hl : e.target = some l) : l ∈ s.Writes p := by
  obtain ⟨⟨location, node⟩, hfind, hedit⟩ := Sequence.bind_eq_ok_iff.1 h
  show outline (s.find p true) = some (l, none)
  rw [hfind, outline]
  rcases node with _ | _ | _ | _ | _ <;> cases hedit <;> cases hl <;> rfl

/-- Removing a file or link changes its location only. -/
theorem mem_removes_of_removing {e : Edit} (h : s.removing p = .ok e) (hl : e.target = some l) :
    l ∈ s.Removes p := by
  obtain ⟨location, node, hfind, hdir, -, rfl⟩ := removing_eq_ok_iff.1 h
  cases hl
  exact mem_removes_of_find hfind hdir

/-- Writing a file leaves all directories and links. -/
theorem framed_of_writing {content : Content} {e : Edit} (h : s.writing p content = .ok e) :
    Framed A (e.on s) s := by
  refine ⟨Edit.ground_on e s, fun l _ => ?_⟩
  by_cases htarget : e.target = some l
  · obtain ⟨-, hne, hnone⟩ := node_of_mem_writes (mem_writes_of_writing h htarget)
    obtain ⟨⟨location, node⟩, hfind, hedit⟩ := Sequence.bind_eq_ok_iff.1 h
    rw [hnone]
    -- What is written is a file, so with the files left out nothing is there, as before.
    rcases node with _ | _ | _ | _ | _ <;> cases hedit <;> cases htarget <;>
      simp [Edit.on, node?, Store.put, Table.get?_insert, hne, lasting]
  · rw [Edit.node?_on_of_ne htarget]

end ShaderVariants.Store
