import ShaderVariants.Proofs.Store.Directory

/-!
# What is in a file after an edit

A file holds what was written to it, unless a device took it (`content_of_writing`), and a file that
was removed is not found (`content_of_removing`). What can be read can be removed unless it is fixed
(`removing_of_content`), and it can still be read when another file was written
(`exists_content_of_writing`).
-/

namespace ShaderVariants.Store

variable {s t : Store} {follow : Bool} {links : ℕ} {here l : Location} {name : String}
  {rest names : List String} {p q : Path} {node : Node} {content : Content} {e : Edit}

/-! ## Contents -/

/-- What can be read is in a file, or it is that of a device. -/
theorem exists_of_content (h : s.content p = .ok content) :
    ∃ l node, s.find p true = .ok ⟨l, some node⟩ ∧
      ((∃ executable, node = .file content executable) ∨ node = .device) := by
  obtain ⟨⟨l, node⟩, hfind, hnode⟩ := Sequence.bind_eq_ok_iff.1 h
  rcases node with _ | content | _ | _ | _
  · cases hnode
  · cases hnode
    exact ⟨l, _, hfind, .inl ⟨_, rfl⟩⟩
  · cases hnode
  · cases hnode
  · exact ⟨l, _, hfind, .inr rfl⟩

/-- A file can be read. -/
theorem content_of_find_file {executable : Bool}
    (h : s.find p true = .ok ⟨l, some (.file content executable)⟩) :
    s.content p = .ok content := by
  rw [Store.content, h]
  rfl

/-- A file of text can be read as text. -/
theorem read_of_find_file {text : String} {executable : Bool}
    (h : s.find p true = .ok ⟨l, some (.file (.text text) executable)⟩) : s.read p = .ok text := by
  rw [Store.read, content_of_find_file h]
  rfl

/-- What is read as text is text. -/
theorem read_eq_ok_iff {text : String} : s.read p = .ok text ↔ s.content p = .ok (.text text) := by
  rw [Store.read, Sequence.bind_eq_ok_iff]
  refine ⟨?_, fun h => ⟨_, h, rfl⟩⟩
  rintro ⟨content, hcontent, htext⟩
  cases content with
  | text read =>
    cases htext
    exact hcontent
  | binary bytes => cases htext

/-- A device can be read. -/
theorem content_of_find_device (h : s.find p true = .ok ⟨l, some .device⟩) :
    s.content p = .ok (.text "") := by
  rw [Store.content, h]
  rfl

/-- The outline of a place that is no directory says where it is, and what is there but for
files. -/
theorem find_of_outline {node : Option Node} (h : outline (s.find p follow) = some (l, node))
    (hdir : node ≠ some .directory) :
    l ≠ [] ∧ s.find p follow = .ok ⟨l, s.node? l⟩ ∧ lasting (s.node? l) = node := by
  obtain ⟨⟨l', node'⟩, hfind, rfl, rfl⟩ := outline_eq_some h
  have hdir' : node' ≠ some .directory := by
    rintro rfl
    exact hdir rfl
  obtain ⟨-, hroot, hat⟩ := find_place hfind hdir'
  dsimp only at hroot hat ⊢
  rw [hat]
  exact ⟨hroot, hfind, rfl⟩

/-- Stores with one frame along the ways of a path lead it to one device, if to any. -/
theorem find_device_congr (h : Framed (s.Sees p) s t)
    (hfind : t.find p true = .ok ⟨l, some .device⟩) :
    s.find p true = .ok ⟨l, some .device⟩ := by
  have hout : outline (s.find p true) = some (l, some .device) := by
    rw [outline_find_congr h, hfind]
    rfl
  obtain ⟨-, hfind', hlasting⟩ := find_of_outline hout (by simp)
  rwa [lasting_eq_some hlasting] at hfind'

/-! ## Writing -/

/-- A file holds what is written to it, unless a device takes it. -/
theorem content_of_writing (h : s.writing p content = .ok e)
    (hdevice : ∀ l, s.find p true ≠ .ok ⟨l, some .device⟩) : (e.on s).content p = .ok content := by
  have hframe : Framed (s.Sees p) s (e.on s) := (framed_of_writing h).symm
  obtain ⟨⟨l, node⟩, hfind, hedit⟩ := Sequence.bind_eq_ok_iff.1 h
  have hput : ∃ executable, e = .put l (.file content executable) ∧ lasting node = none := by
    rcases node with _ | ⟨_, executable⟩ | _ | _ | _ <;> cases hedit
    · exact ⟨false, rfl, rfl⟩
    · exact ⟨executable, rfl, rfl⟩
    · exact absurd hfind (hdevice l)
  obtain ⟨executable, rfl, hnone⟩ := hput
  -- The path leads where it led before, and that is where the file is now.
  have hout : outline ((Edit.put l (.file content executable)).on s |>.find p true) =
      some (l, none) := by
    rw [← outline_find_congr hframe, hfind, outline, hnone]
  obtain ⟨hroot, hfind', -⟩ := find_of_outline hout (by simp)
  rw [Edit.on, node?_put hroot, if_pos rfl] at hfind'
  exact content_of_find_file hfind'

/-- Where something is, something is still when a file was written. -/
theorem node?_ne_none_of_writing (h : s.writing q content = .ok e) (hl : s.node? l ≠ none) :
    (e.on s).node? l ≠ none := by
  by_cases htarget : e.target = some l
  · obtain ⟨-, hroot, -⟩ := node_of_mem_writes (mem_writes_of_writing h htarget)
    obtain ⟨⟨l', node⟩, -, hedit⟩ := Sequence.bind_eq_ok_iff.1 h
    -- A write that reaches the location puts a file there.
    rcases node with _ | _ | _ | _ | _ <;> cases hedit <;> cases htarget <;>
      simp [Edit.on, node?_put hroot]
  · rwa [Edit.node?_on_of_ne htarget]

/-- What can be read can still be read when another file was written. -/
theorem exists_content_of_writing {other : Content} (hwrite : s.writing q other = .ok e)
    (h : s.content p = .ok content) : ∃ content', (e.on s).content p = .ok content' := by
  have hframe : Framed (s.Sees p) s (e.on s) := (framed_of_writing hwrite).symm
  obtain ⟨l, node, hfind, hnode⟩ := exists_of_content h
  have hdir : some node ≠ some .directory := by
    rcases hnode with ⟨executable, rfl⟩ | rfl <;> simp
  obtain ⟨-, -, hat⟩ := find_place hfind hdir
  have hout : outline ((e.on s).find p true) = some (l, lasting (some node)) := by
    rw [← outline_find_congr hframe, hfind, outline]
  rcases hnode with ⟨executable, rfl⟩ | rfl
  · obtain ⟨-, hfind', hnone⟩ := find_of_outline hout (by simp [lasting])
    have hsome : (e.on s).node? l ≠ none :=
      node?_ne_none_of_writing hwrite (by rw [hat]; simp)
    rcases hnode' : (e.on s).node? l with _ | _ | _ | _ | _ <;> rw [hnode'] at hfind' hnone
    · exact absurd hnode' hsome
    · exact ⟨_, content_of_find_file hfind'⟩
    all_goals cases hnone
  · obtain ⟨-, hfind', hlasting⟩ := find_of_outline hout (by simp [lasting])
    rw [lasting_eq_some hlasting] at hfind'
    exact ⟨_, content_of_find_device hfind'⟩

/-- What was written to can be read: it is a file or a device. -/
theorem exists_content_of_written (h : s.writing p content = .ok e) :
    ∃ content', (e.on s).content p = .ok content' := by
  by_cases hdevice : ∃ l, s.find p true = .ok ⟨l, some .device⟩
  · obtain ⟨l, hfind⟩ := hdevice
    exact exists_content_of_writing h (content_of_find_device hfind)
  · exact ⟨content, content_of_writing h fun l hfind => hdevice ⟨l, hfind⟩⟩

/-- An edit that is not on the way of a file leaves what the file holds. -/
theorem content_on_of_notMem (hframe : Framed (s.Sees p) s t) (h : ∀ l ∈ e.target, l ∉ s.Sees p) :
    (e.on t).content p = t.content p := by
  rw [← sees_congr hframe] at h
  exact (content_congr (Edit.agree_on_self h).symm).symm

/-! ## Removing -/

/-- A last name that is not followed leads where it leads if it is followed, unless it is a link. -/
theorem turn_false (s : Store) (links : ℕ) (here : Location) (name : String)
    (rest : List String) :
    s.turn false links here name rest = s.turn true links here name rest ∨
      ∃ target, s.turn false links here name rest =
        .halt (.ok ⟨here ++ [name], some (.link target)⟩) := by
  rcases turn_cases links here name with ⟨-, -, there, hturn⟩ | ⟨-, hturn⟩ | ⟨-, hturn⟩
  · exact .inl (by rw [hturn, hturn])
  · exact .inl (by rw [hturn, hturn])
  · rw [hturn, hturn]
    cases s.node? (here ++ [name]) with
    | none => exact .inl rfl
    | some node =>
      cases node with
      | link target =>
        by_cases hrest : rest = []
        · exact .inr ⟨target, by simp [arrive, hrest]⟩
        · exact .inl (by simp [arrive, hrest])
      | file content executable => exact .inl rfl
      | directory => exact .inl rfl
      | device => exact .inl rfl

/-- A way to what is no directory leads to something that is none also if its last name is not
followed. -/
theorem walk_false (links : ℕ) (here : Location) (names : List String)
    (h : s.walk true links here names = .ok ⟨l, some node⟩) (hdir : node ≠ .directory) :
    ∃ l' node', s.walk false links here names = .ok ⟨l', some node'⟩ ∧ node' ≠ .directory := by
  induction links, here, names using walk_induction s true with
  | nil links here =>
    rw [walk] at h
    cases h
    exact absurd rfl hdir
  | halt links here name rest result hturn =>
    rw [walk_cons, hturn] at h
    rw [walk_cons]
    rcases turn_false s links here name rest with hsame | ⟨target, hlink⟩
    · rw [hsame, hturn]
      exact ⟨l, node, h, hdir⟩
    · rw [hlink]
      exact ⟨_, _, rfl, by simp⟩
  | onward links here name rest links' here' names hturn ih =>
    rw [walk_cons, hturn] at h
    rw [walk_cons]
    rcases turn_false s links here name rest with hsame | ⟨target, hlink⟩
    · rw [hsame, hturn]
      exact ih h
    · rw [hlink]
      exact ⟨_, _, rfl, by simp⟩

/-- What can be read can be removed unless it is fixed. -/
theorem removing_of_content (h : s.content p = .ok content) :
    s.Fixed p ∧ s.removing p = .error .denied ∨
      ¬s.Fixed p ∧ ∃ e, s.removing p = .ok e := by
  obtain ⟨l, node, hfind, hnode⟩ := exists_of_content h
  have hdir : node ≠ .directory := by
    rcases hnode with ⟨executable, rfl⟩ | rfl <;> simp
  have hwalk := hfind
  rw [find_eq_walk hfind] at hwalk
  -- Reading follows a last link and removing does not, but both need something that is there.
  obtain ⟨l', node', hwalk', hdir'⟩ := walk_false _ _ _ hwalk hdir
  have hfind' : s.find p false = .ok ⟨l', some node'⟩ := by rw [find_eq_walk hfind, hwalk']
  have hmem := mem_removes_of_find hfind' hdir'
  cases hfixed : s.isFixed l' with
  | true =>
    refine .inl ⟨⟨l', hmem, hfixed⟩, ?_⟩
    rw [removing, hfind', Sequence.ok_bind]
    cases node' with
    | directory => exact absurd rfl hdir'
    | file | link | device => simp [removeEdit, hfixed]
  | false =>
    refine .inr ⟨?_, _, removing_eq_ok_iff.2 ⟨l', node', hfind', hdir', hfixed, rfl⟩⟩
    rintro ⟨l'', hmem', hfixed'⟩
    rw [eq_of_mem_removes hmem' hmem, hfixed] at hfixed'
    cases hfixed'

/-- A name that makes a way look where something was removed leads nowhere. -/
theorem turn_clear (hlooked : looked here name = some l) :
    (s.clear l).turn follow links here name rest = .halt (.ok ⟨l, none⟩) ∨
      (s.clear l).turn follow links here name rest = .halt (.error .notFound) := by
  rcases turn_cases links here name with ⟨-, hnone, -⟩ | ⟨hnone, -⟩ | ⟨hsome, hturn⟩
  · rw [hnone] at hlooked
    cases hlooked
  · rw [hnone] at hlooked
    cases hlooked
  · rw [hsome] at hlooked
    cases hlooked
    have hcleared : (s.clear (here ++ [name])).node? (here ++ [name]) = none := by
      simp [node?, clear, Table.get?_erase]
    rw [hturn, hcleared, arrive]
    by_cases hrest : rest = []
    · exact .inl (by rw [if_pos hrest])
    · exact .inr (by rw [if_neg hrest])

/-- A way to what was removed leads nowhere. -/
theorem walk_clear (links : ℕ) (here : Location) (names : List String)
    (h : s.walk false links here names = .ok ⟨l, some node⟩) (hdir : node ≠ .directory) :
    (s.clear l).walk true links here names = .ok ⟨l, none⟩ ∨
      (s.clear l).walk true links here names = .error .notFound := by
  induction links, here, names using walk_induction s false with
  | nil links here =>
    rw [walk] at h
    cases h
    exact absurd rfl hdir
  | halt links here name rest result hturn =>
    rw [walk_cons, hturn] at h
    obtain rfl : result = .ok ⟨l, some node⟩ := h
    rw [walk_cons]
    rcases turn_clear (turn_halt_ok hturn).1 with hgone | hgone <;> rw [hgone]
    · exact .inl rfl
    · exact .inr rfl
  | onward links here name rest links' here' names hturn ih =>
    rw [walk_cons]
    -- The removed link may be passed on the way to itself as well, and then the way ends there.
    by_cases hlooked : looked here name = some l
    · rcases turn_clear hlooked with hgone | hgone <;> rw [hgone]
      · exact .inl rfl
      · exact .inr rfl
    · have hsame : ∀ l' ∈ looked here name, s.node? l' = (s.clear l).node? l' := by
        intro l' hl'
        have hne : (Edit.clear l).target ≠ some l' := by
          rintro heq
          cases heq
          exact hlooked hl'
        exact (Edit.node?_on_of_ne hne).symm
      rw [turn_congr hsame] at hturn
      rw [turn_true_of_onward hturn]
      rw [← turn_congr hsame] at hturn
      rw [walk_cons, hturn] at h
      exact ih h

/-- What was removed is not found. -/
theorem content_of_removing (h : s.removing p = .ok e) :
    (e.on s).content p = .error .notFound := by
  obtain ⟨l, node, hfind, hdir, -, rfl⟩ := removing_eq_ok_iff.1 h
  have hwalk := hfind
  rw [find_eq_walk hfind] at hwalk
  show (s.clear l).content p = _
  rw [Store.content, find_eq_walk hfind]
  show ((s.clear l).walk true maxLinks (s.start p) (Path.names p) >>= _) = _
  rcases walk_clear _ _ _ hwalk hdir with hgone | hgone
  · rw [hgone]
    rfl
  · rw [hgone]
    rfl

end ShaderVariants.Store
