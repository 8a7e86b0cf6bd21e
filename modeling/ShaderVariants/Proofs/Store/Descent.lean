import ShaderVariants.Proofs.Store.Footprint
import ShaderVariants.Proofs.Table

/-!
# Ways through a directory

The way of a path first leads to the directory that the last name is in, through directories and
links only (`walk_append`, `node_of_mem_trail`). Without links, the directory and the last name make
up the location at its end (`eq_of_mem_sees`), and the path leads to the location that it names
(`location_of_find`).
-/

namespace ShaderVariants

namespace Store

variable {s : Store} {follow : Bool} {links links' : ℕ} {here here' there : Location}
  {name : String} {rest names names' : List String} {l : Location}

/-- There is a link at the location. -/
def IsLink (s : Store) (l : Location) : Prop :=
  ∃ target, s.node? l = some (.link target)

/-- A way of the path passes a link. -/
def Linked (s : Store) (p : Path) : Prop :=
  ∃ l ∈ s.Sees p, s.IsLink l

/-- In a store that is made without links no way passes one. -/
theorem not_linked {ground : Ground} {nodes : List (Location × Node)}
    (h : ∀ entry ∈ nodes, ∀ target, entry.2 ≠ .link target) (p : Path) :
    ¬(⟨ground, .ofList nodes⟩ : Store).Linked p := by
  rintro ⟨l, -, target, hnode⟩
  unfold node? at hnode
  split at hnode
  · cases hnode
  · have hlookup : Table.lookup l nodes.reverse = some (.link target) := by
      rw [Table.ofList, Table.get?_insertAll] at hnode
      simpa [Table.get?, Table.empty, Table.lookup] using hnode
    exact h _ (List.mem_reverse.1 (Table.mem_of_lookup hlookup)) target rfl

/-! ## Names that lead onward -/

/-- A name that leads onward at a node leads onward when more names follow. -/
theorem arrive_append_of_onward {node : Option Node} (hrest : rest ≠ [])
    (h : arrive true links here name names node = .onward links' here' names') :
    arrive follow links here name (names ++ rest) node = .onward links' here' (names' ++ rest) := by
  rcases node with _ | _ | _ | target | _
  · cases h
  · cases h
  · cases h
    rfl
  -- A link that more names follow is followed in any case.
  · simp only [arrive, Bool.true_eq_false, and_false, if_false] at h
    simp only [arrive, List.append_eq_nil_iff, hrest, and_false, false_and, if_false]
    cases links with
    | zero => cases h
    | succ links =>
      cases h
      rw [List.append_assoc]
  · cases h

/-- A name that leads onward leads onward when more names follow. -/
theorem turn_append_of_onward (follow : Bool) (hrest : rest ≠ [])
    (h : s.turn true links here name names = .onward links' here' names') :
    s.turn follow links here name (names ++ rest) = .onward links' here' (names' ++ rest) := by
  rcases turn_cases links here name with ⟨-, -, there, hturn⟩ | ⟨-, hturn⟩ | ⟨-, hturn⟩
  · rw [hturn] at h ⊢
    cases h
    rfl
  · rw [hturn] at h
    cases h
  · rw [hturn] at h ⊢
    exact arrive_append_of_onward hrest h

/-- A node that ends a way ends it in an error when more names follow. -/
theorem arrive_append_of_halt {node : Option Node} {result : Except FileError Place}
    (hrest : rest ≠ []) (h : arrive true links here name names node = .halt result) :
    ∃ e, arrive follow links here name (names ++ rest) node = .halt (.error e) := by
  rcases node with _ | _ | _ | target | _
  · exact ⟨.notFound, by simp [arrive, hrest]⟩
  · exact ⟨.notDirectory, by simp [arrive, hrest]⟩
  · cases h
  · simp only [arrive, Bool.true_eq_false, and_false, if_false] at h
    simp only [arrive, List.append_eq_nil_iff, hrest, and_false, false_and, if_false]
    cases links with
    | zero => exact ⟨.tooManyLinks, rfl⟩
    | succ links => cases h
  · exact ⟨.notDirectory, by simp [arrive, hrest]⟩

/-- A name that ends a way ends it in an error when more names follow. -/
theorem turn_append_of_halt {result : Except FileError Place} (follow : Bool) (hrest : rest ≠ [])
    (h : s.turn true links here name names = .halt result) :
    ∃ e, s.turn follow links here name (names ++ rest) = .halt (.error e) := by
  rcases turn_cases links here name with ⟨-, -, there, hturn⟩ | ⟨-, hturn⟩ | ⟨-, hturn⟩
  · rw [hturn] at h
    cases h
  · exact ⟨.nameTooLong, hturn _ _ _⟩
  · rw [hturn] at h ⊢
    exact arrive_append_of_halt hrest h

/-- A node that leads onward is a directory, and the names after it are left, or it is a link. -/
theorem node_of_arrive_onward {node : Option Node}
    (h : arrive follow links here name names node = .onward links' here' names') :
    node = some .directory ∧ here' = here ++ [name] ∧ names' = names ∨
      ∃ target, node = some (.link target) := by
  rcases node with _ | _ | _ | target | _
  · cases h
  · cases h
  · cases h
    exact .inl ⟨rfl, rfl, rfl⟩
  · exact .inr ⟨target, rfl⟩
  · cases h

/-- A name leads onward through a directory or a link. -/
theorem node_of_turn_onward (h : s.turn follow links here name names = .onward links' here' names')
    (hl : looked here name = some l) : s.node? l = some .directory ∨ s.IsLink l := by
  rcases turn_cases links here name with ⟨-, hlooked, there, hturn⟩ | ⟨hlooked, hturn⟩ |
    ⟨hlooked, hturn⟩
  · rw [hlooked] at hl
    cases hl
  · rw [hlooked] at hl
    cases hl
  · rw [hlooked] at hl
    cases hl
    rw [hturn] at h
    rcases node_of_arrive_onward h with ⟨hdir, -, -⟩ | hlink
    · exact .inl hdir
    · exact .inr hlink

/-! ## Ways to and through a directory -/

/-- A way to a place and on passes a directory there. -/
theorem exists_directory_of_walk_append {place : Place} (links : ℕ) (here : Location)
    (names : List String) (hrest : rest ≠ [])
    (h : s.walk follow links here (names ++ rest) = .ok place) :
    ∃ there, s.walk true links here names = .ok ⟨there, some .directory⟩ := by
  induction links, here, names using walk_induction s true with
  | nil links here => exact ⟨here, by rw [walk]⟩
  | halt links here name names result hturn =>
    -- With more names to follow, the way would end in an error.
    obtain ⟨e, herror⟩ := turn_append_of_halt follow hrest hturn
    rw [List.cons_append, walk_cons, herror] at h
    cases h
  | onward links here name names links' here' names' hturn ih =>
    rw [List.cons_append, walk_cons, turn_append_of_onward _ hrest hturn] at h
    rw [walk_cons, hturn]
    exact ih h

/-- A way that halts at its first name does not lead to a directory. -/
theorem walk_ne_directory {result : Except FileError Place}
    (hturn : s.turn follow links here name names = .halt result) :
    s.walk follow links here (name :: names) ≠ .ok ⟨there, some .directory⟩ := by
  intro h
  rw [walk_cons, hturn] at h
  obtain rfl : result = .ok ⟨there, some .directory⟩ := h
  exact (turn_halt_ok hturn).2.2.2 rfl

/-- A way through a directory goes on from there. -/
theorem walk_append (follow : Bool) (links : ℕ) (here : Location) (names : List String)
    (hrest : rest ≠ []) (h : s.walk true links here names = .ok ⟨there, some .directory⟩) :
    ∃ links', s.walk follow links here (names ++ rest) = s.walk follow links' there rest ∧
      s.trail follow links here (names ++ rest) =
        s.trail true links here names ++ s.trail follow links' there rest := by
  induction links, here, names using walk_induction s true with
  | nil links here =>
    rw [walk] at h
    cases h
    exact ⟨links, rfl, by rw [trail_nil]; rfl⟩
  | halt links here name names result hturn => exact absurd h (walk_ne_directory hturn)
  | onward links here name names links' here' names' hturn ih =>
    rw [walk_cons, hturn] at h
    obtain ⟨links'', hwalk, htrail⟩ := ih h
    have hturn' := turn_append_of_onward follow hrest hturn
    refine ⟨links'', ?_, ?_⟩
    · rw [List.cons_append, walk_cons, hturn']
      exact hwalk
    · rw [List.cons_append, trail_of_onward hturn, trail_of_onward hturn', htrail,
        List.append_assoc]

/-- A way to a directory looks at directories and links only. -/
theorem node_of_mem_trail (links : ℕ) (here : Location) (names : List String)
    (h : s.walk true links here names = .ok ⟨there, some .directory⟩)
    (hl : l ∈ s.trail true links here names) : s.node? l = some .directory ∨ s.IsLink l := by
  induction links, here, names using walk_induction s true with
  | nil links here => rw [trail_nil] at hl; cases hl
  | halt links here name names result hturn => exact absurd h (walk_ne_directory hturn)
  | onward links here name names links' here' names' hturn ih =>
    rw [walk_cons, hturn] at h
    rw [trail_of_onward hturn] at hl
    rcases List.mem_append.1 hl with hl | hl
    · exact node_of_turn_onward hturn (by simpa using hl)
    · exact ih h hl

/-! ## Ways without links -/

/-- A name that leads onward leaves the names after it, if it is no link. -/
theorem eq_of_turn_onward (h : s.turn follow links here name names = .onward links' here' names')
    (hlink : ∀ l ∈ looked here name, ¬s.IsLink l) : names' = names := by
  rcases turn_cases links here name with ⟨-, -, there, hturn⟩ | ⟨-, hturn⟩ | ⟨hlooked, hturn⟩
  · rw [hturn] at h
    cases h
    rfl
  · rw [hturn] at h
    cases h
  · rw [hturn] at h
    rcases node_of_arrive_onward h with ⟨-, -, hnames⟩ | hnode
    · exact hnames
    · exact absurd hnode (hlink _ hlooked)

/-- A way of one name through no link looks below its directory only. -/
theorem eq_of_mem_trail_singleton (hlink : ∀ l ∈ s.trail follow links here [name], ¬s.IsLink l)
    (hl : l ∈ s.trail follow links here [name]) : l = here ++ [name] := by
  have hlooked : ∀ l ∈ looked here name, l = here ++ [name] := by
    intro l hl
    rw [looked] at hl
    split at hl <;> cases hl
    rfl
  cases hturn : s.turn follow links here name [] with
  | halt result =>
    rw [trail_of_halt hturn] at hl
    exact hlooked l (by simpa using hl)
  | onward links' here' names =>
    rw [trail_of_onward hturn] at hl hlink
    -- A directory leads onward with no name left, so the way looks at nothing more.
    have hnames : names = [] :=
      eq_of_turn_onward hturn fun l hl => hlink l (List.mem_append_left _ (by simpa using hl))
    subst hnames
    rw [trail_nil, List.append_nil] at hl
    exact hlooked l (by simpa using hl)

/-- A way of two names through no link, the first of them proper, looks below its directory, and
below the one that the first name names. -/
theorem eq_of_mem_trail_pair {last : String} (hdot : name ≠ ".") (hup : name ≠ "..")
    (hlink : ∀ l ∈ s.trail follow links here [name, last], ¬s.IsLink l)
    (hl : l ∈ s.trail follow links here [name, last]) :
    l = here ++ [name] ∨ l = here ++ [name, last] := by
  have hlooked : ∀ l ∈ looked here name, l = here ++ [name] := by
    intro l hl
    rw [looked] at hl
    split at hl <;> cases hl
    rfl
  cases hturn : s.turn follow links here name [last] with
  | halt result =>
    rw [trail_of_halt hturn] at hl
    exact .inl (hlooked l (by simpa using hl))
  | onward links' here' names =>
    rw [trail_of_onward hturn] at hl hlink
    rcases List.mem_append.1 hl with hl | hl
    · exact .inl (hlooked l (by simpa using hl))
    rcases turn_cases links here name with ⟨hname, -⟩ | ⟨-, harrive⟩ | ⟨hsome, harrive⟩
    · exact absurd hname (not_or.2 ⟨hdot, hup⟩)
    · rw [harrive] at hturn
      cases hturn
    · rw [harrive] at hturn
      rcases node_of_arrive_onward hturn with ⟨-, rfl, rfl⟩ | hnode
      · have hlast := eq_of_mem_trail_singleton
          (fun l hl => hlink l (List.mem_append_right _ hl)) hl
        rw [List.append_assoc] at hlast
        exact .inr hlast
      · exact absurd hnode (hlink _ (List.mem_append_left _ (by rw [hsome]; simp)))

/-- A proper name that leads to a directory through no link is the name of the directory. -/
theorem eq_of_walk_singleton (hdot : name ≠ ".") (hup : name ≠ "..")
    (hlink : ∀ l ∈ s.trail follow links here [name], ¬s.IsLink l)
    (h : s.walk follow links here [name] = .ok ⟨there, some .directory⟩) :
    there = here ++ [name] := by
  cases hturn : s.turn follow links here name [] with
  | halt result => exact absurd h (walk_ne_directory hturn)
  | onward links' here' names =>
    rw [walk_cons, hturn] at h
    rw [trail_of_onward hturn] at hlink
    rcases turn_cases links here name with ⟨hname, -⟩ | ⟨-, harrive⟩ | ⟨hlooked, harrive⟩
    · exact absurd hname (not_or.2 ⟨hdot, hup⟩)
    · rw [harrive] at hturn
      cases hturn
    · rw [harrive] at hturn
      rcases node_of_arrive_onward hturn with ⟨-, rfl, rfl⟩ | hnode
      · simp only [walk] at h
        cases h
        rfl
      · exact absurd hnode (hlink _ (List.mem_append_left _ (by rw [hlooked]; simp)))

/-- A way to a directory through no link passes the directory above it. -/
theorem exists_above_of_walk (hdot : name ≠ ".") (hup : name ≠ "..")
    (hlink : ∀ l ∈ s.trail true links here (names ++ [name]), ¬s.IsLink l)
    (h : s.walk true links here (names ++ [name]) = .ok ⟨there, some .directory⟩) :
    ∃ above, s.walk true links here names = .ok ⟨above, some .directory⟩ ∧
      there = above ++ [name] := by
  obtain ⟨above, habove⟩ := exists_directory_of_walk_append _ _ _ (by simp) h
  obtain ⟨links', hwalk, htrail⟩ :=
    walk_append true _ _ _ (List.cons_ne_nil name []) habove
  rw [hwalk] at h
  rw [htrail] at hlink
  exact ⟨above, habove, eq_of_walk_singleton hdot hup
    (fun l hl => hlink l (List.mem_append_right _ hl)) h⟩

/-- A path through no link to a name below a directory sees directories and that name only. -/
theorem eq_of_mem_sees {p : Path}
    (hwalk : s.walk true maxLinks (s.start p) names = .ok ⟨there, some .directory⟩)
    (hnames : Path.names p = names ++ [name]) (hlink : ¬s.Linked p) (hl : l ∈ s.Sees p)
    (hdir : s.node? l ≠ some .directory) : l = there ++ [name] := by
  obtain ⟨follow, hl⟩ := hl
  have hway : ∀ l ∈ s.trail follow maxLinks (s.start p) (Path.names p), ¬s.IsLink l :=
    fun l hl hat => hlink ⟨l, ⟨follow, hl⟩, hat⟩
  obtain ⟨links', -, htrail⟩ :=
    walk_append follow _ _ _ (List.cons_ne_nil name []) hwalk
  rw [hnames, htrail] at hl hway
  -- The location is passed on the way to the directory, or below it.
  rcases List.mem_append.1 hl with hl' | hl'
  · rcases node_of_mem_trail _ _ _ hwalk hl' with hat | hat
    · exact absurd hat hdir
    · exact absurd hat (hway l hl)
  · exact eq_of_mem_trail_singleton (fun l hl => hway l (List.mem_append_right _ hl)) hl'

/-! ## Where a path names -/

/-- The location that names lead to from a directory if no link is on the way. -/
def descend (here : Location) (names : List String) : Location :=
  names.foldl (fun here name =>
    if name = "." then here else if name = ".." then here.dropLast else here ++ [name]) here

/-- The location that a path names. -/
def named (s : Store) (p : Path) : Location :=
  descend (s.start p) (Path.names p)

/-- A name that ends a way with a place is the last name. -/
theorem eq_nil_of_arrive_halt {node : Option Node} {place : Place}
    (h : arrive follow links here name rest node = .halt (.ok place)) : rest = [] := by
  -- Before more names, what is no directory is refused, and a link is followed.
  by_contra hrest
  rcases node with _ | _ | _ | target | _
  · simp only [arrive, if_neg hrest] at h
    cases h
  · simp only [arrive, if_neg hrest] at h
    cases h
  · cases h
  · simp only [arrive, hrest, false_and, if_false] at h
    cases links <;> cases h
  · simp only [arrive, if_neg hrest] at h
    cases h

/-- A name that leads onward through no link leads to where it names. -/
theorem descend_of_turn_onward
    (h : s.turn follow links here name rest = .onward links' here' names')
    (hlink : ∀ l ∈ looked here name, ¬s.IsLink l) :
    descend here (name :: rest) = descend here' names' := by
  obtain rfl : names' = rest := eq_of_turn_onward h hlink
  rw [descend, List.foldl_cons, ← descend]
  congr 1
  unfold turn at h
  by_cases hdot : name = "."
  · rw [if_pos hdot] at h ⊢
    cases h
    rfl
  by_cases hup : name = ".."
  · rw [if_neg hdot, if_pos hup] at h ⊢
    cases h
    rfl
  by_cases hlong : name.utf8ByteSize > Path.maxName
  · rw [if_neg hdot, if_neg hup, if_pos hlong] at h
    cases h
  · rw [if_neg hdot, if_neg hup, if_neg hlong] at h
    rw [if_neg hdot, if_neg hup]
    have hlooked : looked here name = some (here ++ [name]) :=
      if_neg (by simp [hdot, hup, hlong])
    rcases node_of_arrive_onward h with ⟨-, hhere, -⟩ | hnode
    · exact hhere.symm
    · exact absurd hnode (hlink _ hlooked)

/-- A way through no link ends where it names. -/
theorem location_of_walk {place : Place} (links : ℕ) (here : Location) (names : List String)
    (h : s.walk follow links here names = .ok place)
    (hlink : ∀ l ∈ s.trail follow links here names, ¬s.IsLink l) :
    place.location = descend here names := by
  induction links, here, names using walk_induction s follow with
  | nil links here =>
    rw [walk] at h
    cases h
    rfl
  | halt links here name rest result hturn =>
    rw [walk_cons, hturn] at h
    obtain rfl : result = .ok place := h
    rcases turn_cases links here name with ⟨-, -, there, hname⟩ | ⟨-, hname⟩ | ⟨hlooked, harrive⟩
    · rw [hname] at hturn
      cases hturn
    · rw [hname] at hturn
      cases hturn
    · rw [harrive] at hturn
      obtain ⟨rfl, -⟩ := arrive_halt_ok hturn
      obtain rfl := eq_nil_of_arrive_halt hturn
      -- The name makes the way look, so it is no point and not two points.
      have hproper : ¬(name = "." ∨ name = ".." ∨ name.utf8ByteSize > Path.maxName) := by
        intro hname
        rw [looked, if_pos hname] at hlooked
        cases hlooked
      rw [not_or, not_or] at hproper
      simp only [descend, List.foldl_cons, List.foldl_nil, if_neg hproper.1, if_neg hproper.2.1]
  | onward links here name rest links' here' names hturn ih =>
    rw [walk_cons, hturn] at h
    rw [trail_of_onward hturn] at hlink
    rw [descend_of_turn_onward hturn fun l hl =>
      hlink l (List.mem_append_left _ (by simpa using hl))]
    exact ih h fun l hl => hlink l (List.mem_append_right _ hl)

/-- A path through no link leads to the location that it names. -/
theorem location_of_find {p : Path} {place : Place} (h : s.find p follow = .ok place)
    (hlink : ¬s.Linked p) : place.location = s.named p := by
  have hwalk := h
  rw [find_eq_walk h] at hwalk
  exact location_of_walk _ _ _ hwalk fun l hl hat => hlink ⟨l, ⟨follow, hl⟩, hat⟩

end Store

end ShaderVariants
