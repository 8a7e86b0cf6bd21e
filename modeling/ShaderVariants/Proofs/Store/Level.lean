import Mathlib.Data.Set.Insert
import ShaderVariants.Proofs.Store.Contents

/-!
# Stores that differ in files

Stores are level on a set of locations when they have the same directories, links and devices, and
hold the same there (`Level`). A file that is written to both is level afterwards, whatever it was
before (`Level.writing`), and so is a file or link that is removed from both (`Level.removing`).
What a path leads to can be read alike where the stores are level (`Level.content_eq`).

A store that differs in files leads paths to the same locations, but it may refuse a path for
another reason. It does not if the path passes no link and is in a directory (`find_error_congr`).
-/

namespace ShaderVariants.Store

variable {A B : Set Location} {s t : Store} {p : Path} {follow : Bool} {l : Location}
  {content : Content} {e e' : Edit}

/-! ## Level stores -/

/-- What can be read of a node. -/
def held : Option Node → Option Content
  | some (.file content _) => some content
  | some .device => some (.text "")
  | _ => none

/-- The stores have the same directories, links and devices, and hold the same at the locations of a
set. -/
structure Level (A : Set Location) (s t : Store) : Prop where
  frame : Framed Set.univ s t
  files : ∀ l ∈ A, held (s.node? l) = held (t.node? l)

/-- What can be read of a path is what is held where it leads. -/
theorem content_toOption {place : Place} (h : s.find p true = .ok place) :
    (s.content p).toOption = held place.node := by
  obtain ⟨location, node⟩ := place
  rw [Store.content, h]
  rcases node with _ | _ | _ | _ | _ <;> rfl

/-- Nothing can be read of a path that is refused. -/
theorem content_of_find_error {x : FileError} (h : s.find p true = .error x) :
    s.content p = .error x := by
  rw [Store.content, h]
  rfl

/-- Where stores with one frame lead a path: they both refuse it, or there is one node that is no
file at the end, or in both a file or nothing. -/
theorem Framed.find_cases (h : Framed Set.univ s t) (p : Path) (follow : Bool) :
    (∃ x y, s.find p follow = .error x ∧ t.find p follow = .error y) ∨
    (∃ l node, s.find p follow = .ok ⟨l, some node⟩ ∧ t.find p follow = .ok ⟨l, some node⟩ ∧
      lasting (some node) = some node) ∨
    ∃ l, l ≠ [] ∧ s.find p follow = .ok ⟨l, s.node? l⟩ ∧ t.find p follow = .ok ⟨l, t.node? l⟩ ∧
      lasting (s.node? l) = none ∧ lasting (t.node? l) = none := by
  have hout : outline (s.find p follow) = outline (t.find p follow) :=
    outline_find_congr (h.mono (Set.subset_univ _))
  cases hs : s.find p follow with
  | error x =>
    cases ht : t.find p follow with
    | error y => exact .inl ⟨x, y, rfl, rfl⟩
    | ok place =>
      rw [hs, ht] at hout
      cases hout
  | ok place =>
    rw [hs] at hout
    obtain ⟨place', ht, hlocation, hlasting⟩ := outline_eq_some hout.symm
    cases hnode : lasting place.node with
    | some node =>
      -- What lasts is the same node in both stores.
      rw [hnode] at hlasting
      obtain ⟨location, _⟩ := place
      obtain ⟨location', _⟩ := place'
      obtain rfl := lasting_eq_some hnode
      obtain rfl := lasting_eq_some hlasting
      obtain rfl : location' = location := hlocation
      exact .inr (.inl ⟨_, node, rfl, ht, hnode⟩)
    | none =>
      have hout' : outline (s.find p follow) = some (place.location, none) := by
        rw [hs, outline, hnode]
      have hout'' : outline (t.find p follow) = some (place.location, none) := by
        rw [← hout, outline, hnode]
      obtain ⟨hroot, hs', hsnone⟩ := find_of_outline hout' (by simp)
      obtain ⟨-, ht', htnone⟩ := find_of_outline hout'' (by simp)
      exact .inr (.inr ⟨_, hroot, hs ▸ hs', ht', hsnone, htnone⟩)

/-- A path that is refused is written nowhere. -/
theorem writes_of_find_error {x : FileError} (h : s.find p true = .error x) : s.Writes p = ∅ := by
  unfold Writes
  rw [h]
  exact Set.eq_empty_of_forall_notMem fun l hl => by cases hl

/-- A path that leads to a directory or a device is written nowhere. -/
theorem writes_of_lasting {node : Node} (h : s.find p true = .ok ⟨l, some node⟩)
    (hnode : lasting (some node) = some node) : s.Writes p = ∅ := by
  unfold Writes
  rw [h, outline, hnode]
  exact Set.eq_empty_of_forall_notMem fun l' hl' => by cases hl'

/-- A path that leads to a file or to nothing is written there. -/
theorem writes_of_find {node : Option Node} (h : s.find p true = .ok ⟨l, node⟩)
    (hnode : lasting node = none) : s.Writes p = {l} := by
  unfold Writes
  rw [h, outline, hnode]
  ext l'
  rw [Set.mem_singleton_iff]
  exact ⟨fun h => (Prod.mk.inj (Option.some.inj h)).1.symm, fun h => by rw [h]; rfl⟩

/-- A content is put where a path leads to a file or to nothing. -/
theorem exists_writing_of_find {node : Option Node} (h : s.find p true = .ok ⟨l, node⟩)
    (hnode : lasting node = none) (content : Content) :
    ∃ executable, s.writing p content = .ok (.put l (.file content executable)) := by
  rw [writing, h, Sequence.ok_bind]
  rcases node with _ | ⟨_, executable⟩ | _ | _ | _ <;> cases hnode
  · exact ⟨false, rfl⟩
  · exact ⟨executable, rfl⟩

/-- What can be read of a path is the same in stores that are level where its file is. -/
theorem Level.content_eq (h : Level A s t) (hp : s.Writes p ⊆ A) :
    (s.content p).toOption = (t.content p).toOption := by
  rcases h.frame.find_cases p true with ⟨x, y, hs, ht⟩ | ⟨l, node, hs, ht, -⟩ |
    ⟨l, -, hs, ht, hnone, -⟩
  · rw [content_of_find_error hs, content_of_find_error ht]
    rfl
  · rw [content_toOption hs, content_toOption ht]
  · rw [writes_of_find hs hnone, Set.singleton_subset_iff] at hp
    rw [content_toOption hs, content_toOption ht]
    exact h.files l hp

/-- A text that is read of a path is read in stores that are level where its file is. -/
theorem Level.read_eq_ok (h : Level A s t) (hp : s.Writes p ⊆ A) {text : String}
    (hread : t.read p = .ok text) : s.read p = .ok text := by
  have hcontent := h.content_eq hp
  unfold Store.read at hread ⊢
  obtain ⟨content, ht, -⟩ := Sequence.bind_eq_ok_iff.1 hread
  cases hs : s.content p with
  | error x =>
    rw [hs, ht] at hcontent
    cases hcontent
  | ok content' =>
    rw [hs, ht] at hcontent
    obtain rfl : content' = content := Option.some.inj hcontent
    rwa [ht] at hread

/-- Stores that are level where the file of a path is answer alike when it is read, if they refuse
the path alike. -/
theorem Level.content_eq_of_error (h : Level A s t) (hp : s.Writes p ⊆ A)
    (herror : ∀ x, s.find p true = .error x → t.find p true = .error x) :
    s.content p = t.content p := by
  rcases h.frame.find_cases p true with ⟨x, y, hs, -⟩ | ⟨l, node, hs, ht, -⟩ |
    ⟨l, -, hs, ht, hsnone, htnone⟩
  · rw [content_of_find_error hs, content_of_find_error (herror x hs)]
  · rw [Store.content, Store.content, hs, ht]
  · rw [writes_of_find hs hsnone, Set.singleton_subset_iff] at hp
    have hheld := h.files l hp
    rw [Store.content, Store.content, hs, ht]
    generalize s.node? l = node at hsnone hheld ⊢
    generalize t.node? l = node' at htnone hheld ⊢
    -- Each is a file or nothing, and they hold the same.
    rcases node with _ | _ | _ | _ | _ <;> cases hsnone <;>
      rcases node' with _ | _ | _ | _ | _ <;> cases htnone <;> cases hheld <;> rfl

/-! ## Edits of both stores -/

/-- Edits at one location that leave the same there leave the stores level there. -/
theorem Level.on (h : Level A s t) (e e' : Edit) (hs : e.target = some l)
    (ht : e'.target = some l)
    (hlasting : lasting ((e.on s).node? l) = lasting ((e'.on t).node? l))
    (hheld : held ((e.on s).node? l) = held ((e'.on t).node? l)) :
    Level (A ∪ {l}) (e.on s) (e'.on t) := by
  have hother : ∀ {l'}, l' ≠ l →
      (e.on s).node? l' = s.node? l' ∧ (e'.on t).node? l' = t.node? l' := by
    intro l' hne
    constructor <;> refine Edit.node?_on_of_ne fun heq => hne ?_
    · exact Option.some.inj (heq.symm.trans hs)
    · exact Option.some.inj (heq.symm.trans ht)
  refine ⟨⟨?_, fun l' _ => ?_⟩, fun l' hl' => ?_⟩
  · rw [Edit.ground_on, Edit.ground_on, h.frame.1]
  · by_cases heq : l' = l
    · rw [heq, hlasting]
    · rw [(hother heq).1, (hother heq).2, h.frame.2 l' (Set.mem_univ _)]
  · by_cases heq : l' = l
    · rw [heq, hheld]
    · rw [(hother heq).1, (hother heq).2]
      exact h.files l' (hl'.resolve_right heq)

/-- A content that is written to one path of both stores makes them level where its file is. If one
refuses it, so does the other, and both for one reason unless they refuse the path. -/
theorem Level.writing (h : Level A s t) (p : Path) (content : Content) :
    (∃ x y, s.writing p content = .error x ∧ t.writing p content = .error y ∧ s.Writes p = ∅ ∧
      (x = y ∨ s.find p true = .error x ∧ t.find p true = .error y)) ∨
    ∃ e e', s.writing p content = .ok e ∧ t.writing p content = .ok e' ∧
      Level (A ∪ s.Writes p) (e.on s) (e'.on t) := by
  rcases h.frame.find_cases p true with ⟨x, y, hs, ht⟩ | ⟨l, node, hs, ht, hnode⟩ |
    ⟨l, hroot, hs, ht, hsnone, htnone⟩
  · refine .inl ⟨x, y, ?_, ?_, writes_of_find_error hs, .inr ⟨hs, ht⟩⟩
    · rw [Store.writing, hs]
      rfl
    · rw [Store.writing, ht]
      rfl
  · have hsame : t.writing p content = s.writing p content := by
      rw [Store.writing, Store.writing, hs, ht]
    rw [hsame, writes_of_lasting hs hnode, Set.union_empty]
    -- A device takes the content, and a directory refuses it.
    cases hwriting : s.writing p content with
    | error x => exact .inl ⟨x, x, rfl, rfl, rfl, .inl rfl⟩
    | ok e =>
      rw [Store.writing, hs, Sequence.ok_bind] at hwriting
      cases node <;> cases hwriting
      · cases hnode
      · exact .inr ⟨.keep, .keep, rfl, rfl, h⟩
  · obtain ⟨executable, hsput⟩ := exists_writing_of_find hs hsnone content
    obtain ⟨executable', htput⟩ := exists_writing_of_find ht htnone content
    rw [writes_of_find hs hsnone]
    -- Whether a file is executable is kept from before, so the files may differ in that.
    exact .inr ⟨_, _, hsput, htput,
      h.on (.put l (.file content executable)) (.put l (.file content executable')) rfl rfl
        (by simp only [Edit.on, node?_put hroot, if_true, lasting])
        (by simp only [Edit.on, node?_put hroot, if_true, held])⟩

/-- A file or link that is removed from both stores leaves them level where it was. -/
theorem Level.removing (h : Level A s t) (hs : s.removing p = .ok e) (ht : t.removing p = .ok e') :
    ∃ l, e = .clear l ∧ e' = .clear l ∧ Level (A ∪ {l}) (e.on s) (e'.on t) := by
  obtain ⟨l, node, hfind, hdir, -, rfl⟩ := removing_eq_ok_iff.1 hs
  obtain ⟨l', node', hfind', hdir', -, rfl⟩ := removing_eq_ok_iff.1 ht
  obtain rfl : l' = l := by
    have hmem := mem_removes_of_find hfind' hdir'
    rw [removes_congr (h.frame.mono (Set.subset_univ _))] at hmem
    exact eq_of_mem_removes hmem (mem_removes_of_find hfind hdir)
  have hsame := Edit.node?_on_of_eq (s := s) (t := t) (e := .clear l') rfl
  exact ⟨_, rfl, rfl, h.on _ _ rfl rfl (congrArg lasting hsame) (congrArg held hsame)⟩

/-! ## Files that come and go -/

/-- A new file keeps all directories, links and devices. -/
theorem framed_put (hroot : l ≠ []) (hl : lasting (s.node? l) = none) (executable : Bool) :
    Framed A (s.put l (.file content executable)) s := by
  refine ⟨rfl, fun l' _ => ?_⟩
  rw [node?_put hroot]
  split
  · rename_i heq
    rw [← heq, hl]
    rfl
  · rfl

/-- The removal of a file keeps all directories, links and devices. -/
theorem framed_clear (hl : lasting (s.node? l) = none) : Framed A (s.clear l) s := by
  have hroot : l ≠ [] := by
    rintro rfl
    cases hl
  refine ⟨rfl, fun l' _ => ?_⟩
  by_cases heq : l' = l
  · rw [heq, hl]
    simp [node?, clear, Table.get?_erase, hroot, lasting]
  · have hne : (Edit.clear l).target ≠ some l' := fun h => heq (Option.some.inj h).symm
    exact congrArg lasting (Edit.node?_on_of_ne hne)

/-! ## Refused paths -/

/-- A way of one name through no link is refused only for the name. -/
theorem walk_singleton_error {links : ℕ} {here : Location} {name : String} {x : FileError}
    (hlink : ∀ l ∈ s.trail true links here [name], ¬s.IsLink l)
    (h : s.walk true links here [name] = .error x) :
    ∀ (t : Store) links here, t.walk true links here [name] = .error x := by
  rw [walk_cons, turn] at h
  by_cases hdot : name = "."
  · rw [if_pos hdot] at h
    simp only [walk] at h
    cases h
  by_cases hup : name = ".."
  · rw [if_neg hdot, if_pos hup] at h
    simp only [walk] at h
    cases h
  by_cases hlong : name.utf8ByteSize > Path.maxName
  · -- A name is too long wherever it is looked for.
    intro t links' here'
    rw [if_neg hdot, if_neg hup, if_pos hlong] at h
    rw [walk_cons, turn, if_neg hdot, if_neg hup, if_pos hlong]
    exact h
  rw [if_neg hdot, if_neg hup, if_neg hlong] at h
  rcases hnode : s.node? (here ++ [name]) with _ | _ | _ | target | _ <;> rw [hnode] at h
  · cases h
  · cases h
  · simp only [arrive, walk] at h
    cases h
  · have hlooked : looked here name = some (here ++ [name]) := by
      rw [looked, if_neg (by simp [hdot, hup, hlong])]
    have hmem : here ++ [name] ∈ s.trail true links here [name] := by
      rw [trail, hlooked]
      exact List.mem_append_left _ (by simp)
    exact absurd ⟨target, hnode⟩ (hlink _ hmem)
  · cases h

/-- Stores with one frame refuse a path through no link, in a directory, for one reason. -/
theorem find_error_congr {names : List String} {name : String} {there : Location} {x : FileError}
    (hframe : Framed Set.univ s t) (hlink : ¬s.Linked p) (hnames : Path.names p = names ++ [name])
    (hwalk : s.walk true maxLinks (s.start p) names = .ok ⟨there, some .directory⟩)
    (h : s.find p true = .error x) : t.find p true = .error x := by
  have hway : ∀ l ∈ s.trail true maxLinks (s.start p) (Path.names p), ¬s.IsLink l :=
    fun l hl hat => hlink ⟨l, ⟨true, hl⟩, hat⟩
  -- The way to the directory passes directories and links only, so it is the same in both stores.
  have hwalk' : t.walk true maxLinks (t.start p) names = .ok ⟨there, some .directory⟩ := by
    rw [← start_congr hframe.1, ← hwalk]
    refine (walk_congr _ _ _ fun l hl => ?_).symm
    have hlasting := hframe.2 l (Set.mem_univ _)
    rcases node_of_mem_trail _ _ _ hwalk hl with hat | ⟨target, hat⟩
    · rw [hat] at hlasting
      rw [hat, lasting_eq_some hlasting.symm]
    · rw [hat] at hlasting
      rw [hat, lasting_eq_some hlasting.symm]
  obtain ⟨links, hs, htrail⟩ := walk_append true _ _ _ (List.cons_ne_nil name []) hwalk
  obtain ⟨links', ht, -⟩ := walk_append true _ _ _ (List.cons_ne_nil name []) hwalk'
  rw [hnames, htrail] at hway
  -- What is refused before the way begins depends on the path only.
  unfold find trace at h ⊢
  split
  · rename_i hnul
    rwa [if_pos hnul] at h
  rename_i hnul
  rw [if_neg hnul] at h
  split
  · rename_i hempty
    rwa [if_pos hempty] at h
  rename_i hempty
  rw [if_neg hempty] at h
  split
  · rename_i hlong
    rwa [if_pos hlong] at h
  rename_i hlong
  rw [if_neg hlong, hnames, hs] at h
  rw [hnames, ht]
  exact walk_singleton_error (fun l hl => hway l (List.mem_append_right _ hl)) h _ _ _

/-! ## Making directories -/

/-- A way that ends at no link ends there also if its last name is followed. -/
theorem walk_true_of_walk_false {place : Place} (links : ℕ) (here : Location)
    (names : List String) (h : s.walk false links here names = .ok place)
    (hlink : ∀ target, place.node ≠ some (.link target)) :
    s.walk true links here names = .ok place := by
  induction links, here, names using walk_induction s false with
  | nil links here => rwa [walk] at h ⊢
  | halt links here name rest result hturn =>
    rw [walk_cons, hturn] at h
    obtain rfl : result = .ok place := h
    rcases turn_false s links here name rest with hsame | ⟨target, hturn'⟩
    · rw [walk_cons, ← hsame, hturn]
    · obtain rfl := Except.ok.inj (Turn.halt.inj (hturn.symm.trans hturn'))
      exact absurd rfl (hlink target)
  | onward links here name rest links' here' names hturn ih =>
    rw [walk_cons, hturn] at h
    rw [walk_cons, turn_true_of_onward hturn]
    exact ih h

/-- A path that leads to no link leads there also if a last link is followed. -/
theorem find_true_of_find_false {place : Place} (h : s.find p false = .ok place)
    (hlink : ∀ target, place.node ≠ some (.link target)) : s.find p true = .ok place := by
  rw [find_eq_walk h]
  exact walk_true_of_walk_false _ _ _ ((find_eq_walk h s false).symm.trans h) hlink

/-- Where nothing is to be removed there is no directory. -/
theorem not_isDirectory_of_find_none (h : s.find p false = .ok ⟨l, none⟩) :
    s.isDirectory p ≠ true := by
  intro hdir
  obtain ⟨there, hthere⟩ := isDirectory_iff.1 hdir
  rw [find_true_of_find_false h nofun] at hthere
  cases hthere

/-- Making sure of what is a directory changes nothing. -/
theorem ensureDir_of_isDirectory (hp : Path.endsInSlash p = false)
    (h : s.isDirectory p = true) : s.ensureDir p = .ok s := by
  cases hmade : s.ensureDir p with
  | ok t =>
    rcases ensureDir_cases hp hmade with ⟨rfl, -⟩ | ⟨l, hnone, -⟩
    · rfl
    · exact absurd h (not_isDirectory_of_find_none hnone)
  | error e =>
    rw [Store.ensureDir] at hmade
    split at hmade
    · cases hmade
    · rw [if_pos h] at hmade
      cases hmade

/-- A path that leads to a directory does so in a store with the same frame. -/
theorem Framed.isDirectory (h : Framed Set.univ s t) (hdir : s.isDirectory p = true) :
    t.isDirectory p = true := by
  obtain ⟨there, hthere⟩ := isDirectory_iff.1 hdir
  have hout : outline (s.find p true) = outline (t.find p true) :=
    outline_find_congr (h.mono (Set.subset_univ _))
  rw [hthere] at hout
  obtain ⟨⟨l, node⟩, hfind, rfl, hnode⟩ := outline_eq_some hout.symm
  obtain rfl := lasting_eq_some hnode
  exact isDirectory_iff.2 ⟨l, hfind⟩

/-- Stores with one frame have it still when a directory was made sure of in both. -/
theorem Framed.ensureDir {s' t' : Store} (h : Framed Set.univ s t)
    (hp : Path.endsInSlash p = false) (hs : s.ensureDir p = .ok s') (ht : t.ensureDir p = .ok t') :
    Framed Set.univ s' t' := by
  rcases ensureDir_cases hp hs with ⟨rfl, hsdir⟩ | ⟨l, hsnone, rfl⟩
  · rcases ensureDir_cases hp ht with ⟨rfl, -⟩ | ⟨l, htnone, rfl⟩
    · exact h
    · exact absurd (h.isDirectory hsdir) (not_isDirectory_of_find_none htnone)
  · rcases ensureDir_cases hp ht with ⟨rfl, htdir⟩ | ⟨l', htnone, rfl⟩
    · exact absurd (h.symm.isDirectory htdir) (not_isDirectory_of_find_none hsnone)
    · have hout : outline (s.find p false) = outline (t.find p false) :=
        outline_find_congr (h.mono (Set.subset_univ _))
      rw [hsnone, htnone] at hout
      obtain rfl : l = l' := congrArg Prod.fst (Option.some.inj hout)
      obtain ⟨-, hroot, -⟩ := find_place hsnone (by simp)
      refine ⟨h.1, fun l' _ => ?_⟩
      rw [node?_put hroot, node?_put hroot]
      split
      · rfl
      · exact h.2 l' (Set.mem_univ _)

/-- Every location on a way to something has something. -/
theorem node_ne_none_of_mem_trail {l' : Location} {node : Node} (links : ℕ) (here : Location)
    (names : List String) (h : s.walk follow links here names = .ok ⟨l', some node⟩)
    (hl : l ∈ s.trail follow links here names) : s.node? l ≠ none := by
  induction links, here, names using walk_induction s follow with
  | nil links here => rw [trail_nil] at hl; cases hl
  | halt links here name rest result hturn =>
    rw [walk_cons, hturn] at h
    obtain rfl : result = .ok ⟨l', some node⟩ := h
    obtain ⟨hlooked, -, hnode, -⟩ := turn_halt_ok hturn
    rw [trail_of_halt hturn, hlooked] at hl
    obtain rfl : l = l' := by simpa using hl
    rw [hnode]
    exact Option.some_ne_none _
  | onward links here name rest links' here' names hturn ih =>
    rw [walk_cons, hturn] at h
    rw [trail_of_onward hturn] at hl
    rcases List.mem_append.1 hl with hl | hl
    · rcases node_of_turn_onward hturn (by simpa using hl) with hat | ⟨target, hat⟩ <;> rw [hat] <;>
        exact Option.some_ne_none _
    · exact ih h hl

/-- What can be read is read when a directory was made sure of. -/
theorem content_of_ensureDir {q : Path} (hp : Path.endsInSlash p = false)
    (h : s.ensureDir p = .ok t) (hq : s.content q = .ok content) : t.content q = .ok content := by
  rcases ensureDir_cases hp h with ⟨rfl, -⟩ | ⟨l, hnone, rfl⟩
  · exact hq
  · obtain ⟨-, hroot, hempty⟩ := find_place hnone (by simp)
    obtain ⟨l', node, hfind, -⟩ := exists_of_content hq
    have hwalk := hfind
    rw [find_eq_walk hfind] at hwalk
    -- The directory is made where nothing was, and the way to the file passes no such location.
    have hsame : (s.put l .directory).find q true = s.find q true := by
      rw [find_eq_walk hfind, find_eq_walk hfind s]
      refine (walk_congr _ _ _ fun l' hl' => ?_).symm
      rw [node?_put hroot, if_neg]
      rintro rfl
      exact node_ne_none_of_mem_trail _ _ _ hwalk hl' hempty
    rw [Store.content, hsame, ← hq, Store.content]

end ShaderVariants.Store
