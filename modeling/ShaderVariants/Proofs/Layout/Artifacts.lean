import ShaderVariants.Proofs.Key.Names
import ShaderVariants.Proofs.Path.Names
import ShaderVariants.Proofs.Store.Directory

/-!
# The files of different variants

The files of a variant are named by its key, in directories named after the source. So without links
no file of one variant is on the way to a file of another variant or to the source
(`notMem_sees_of_artifacts`), or to the configuration next to the source
(`notMem_sees_defaultConfig`).
-/

namespace ShaderVariants.Layout

open Store

variable {layout : Layout} {key other : VariantKey} {p q : Path} {s : Store} {l : Location}

/-- The files that are made for a variant. -/
def artifacts (layout : Layout) (key : VariantKey) : List Path :=
  [layout.binary key, layout.report key, layout.resources key]

/-- The binary is a file of the variant. -/
@[simp]
theorem binary_mem_artifacts : layout.binary key ∈ layout.artifacts key :=
  List.mem_cons_self

/-- The report is a file of the variant. -/
@[simp]
theorem report_mem_artifacts : layout.report key ∈ layout.artifacts key :=
  List.mem_cons_of_mem _ List.mem_cons_self

/-- The resource table is a file of the variant. -/
@[simp]
theorem resources_mem_artifacts : layout.resources key ∈ layout.artifacts key :=
  List.mem_cons_of_mem _ (List.mem_cons_of_mem _ List.mem_cons_self)

/-- What the names of the output directories end in. -/
def IsSuffix (x : String) : Prop :=
  x = ".bin2" ∨ x = ".res2"

/-- What the names of a variant's files end in. -/
def IsExtension (e : String) : Prop :=
  e = "spv" ∨ e = "raw.json" ∨ e = "json"

/-- An extension can follow the values of a key. -/
theorem IsExtension.extends {e : String} (h : IsExtension e) : VariantKey.Extends e.toList := by
  rcases h with rfl | rfl | rfl <;> intro c hc <;> cases hc <;> decide

/-- A file of a variant is in an output directory and named by the key. -/
theorem exists_of_mem_artifacts (h : p ∈ layout.artifacts key) :
    ∃ x e, IsSuffix x ∧ IsExtension e ∧
      p = Path.join (layout.source ++ x) (key.artifactName e) := by
  simp only [artifacts, List.mem_cons, List.not_mem_nil, or_false] at h
  rcases h with rfl | rfl | rfl
  · exact ⟨".bin2", "spv", .inl rfl, .inl rfl, rfl⟩
  · exact ⟨".res2", "raw.json", .inr rfl, .inr (.inl rfl), rfl⟩
  · exact ⟨".res2", "json", .inr rfl, .inr (.inr rfl), rfl⟩

/-! ## Names -/

/-- A file name holds no slash. -/
theorem notMem_artifactName {e : String} (he : IsExtension e) :
    '/' ∉ (key.artifactName e).toList := by
  rw [VariantKey.toList_artifactName, List.mem_append, not_or]
  constructor
  · intro h
    exact absurd (VariantKey.isStem_of_mem_stemChars h) (by decide)
  · rcases he with rfl | rfl | rfl <;> decide

/-- A file has a name. -/
theorem artifactName_ne_empty {e : String} (he : IsExtension e) : key.artifactName e ≠ "" := by
  intro h
  have hlist := congrArg String.toList h
  rw [VariantKey.toList_artifactName] at hlist
  rcases he with rfl | rfl | rfl <;> simp at hlist

/-- A file name ends in a letter, and in no point. -/
theorem exists_getLast?_artifactName {e : String} (he : IsExtension e) :
    ∃ c, (key.artifactName e).toList.getLast? = some c ∧ c ≠ '.' := by
  rw [VariantKey.toList_artifactName]
  rcases he with rfl | rfl | rfl <;>
    exact ⟨_, List.getLast?_append_of_ne_nil _ (by decide), by decide⟩

/-- The name of an output directory adds something to that of the source, and no slash. -/
theorem IsSuffix.ne_empty {x : String} (hx : IsSuffix x) : x ≠ "" ∧ '/' ∉ x.toList := by
  rcases hx with rfl | rfl <;> decide

/-- An output directory has a name, which ends in no slash. -/
theorem directory_ne_empty {x : String} (hx : IsSuffix x) :
    layout.source ++ x ≠ "" ∧ Path.endsInSlash (layout.source ++ x) = false := by
  obtain ⟨hne, hslash⟩ := hx.ne_empty
  constructor
  · intro h
    have hlist := congrArg String.toList h
    rw [String.toList_append] at hlist
    exact hne (String.toList_eq_nil_iff.1 (List.append_eq_nil_iff.1 hlist).2)
  · rw [Path.endsInSlash_append _ hne, Path.endsInSlash_eq_false hslash]

/-- The path of the directory of the binaries ends in no slash. -/
theorem endsInSlash_binaryDir : Path.endsInSlash layout.binaryDir = false :=
  (directory_ne_empty (.inl rfl)).2

/-- The path of the directory of the resource tables ends in no slash. -/
theorem endsInSlash_resourceDir : Path.endsInSlash layout.resourceDir = false :=
  (directory_ne_empty (.inr rfl)).2

/-- The names along the path of a variant's file. -/
theorem names_artifact {x e : String} (hx : IsSuffix x) (he : IsExtension e) :
    Path.names (Path.join (layout.source ++ x) (key.artifactName e)) =
      Path.names (layout.source ++ x) ++ [key.artifactName e] :=
  Path.names_join (directory_ne_empty hx).1 (directory_ne_empty hx).2 (notMem_artifactName he)
    (artifactName_ne_empty he)

/-- The path of a variant's file ends in no slash. -/
theorem endsInSlash_of_mem_artifacts (h : p ∈ layout.artifacts key) :
    Path.endsInSlash p = false := by
  obtain ⟨x, e, hx, he, rfl⟩ := exists_of_mem_artifacts h
  obtain ⟨hne, hslash⟩ := directory_ne_empty hx
  rw [Path.join_eq hne hslash (notMem_artifactName he),
    Path.endsInSlash_append _ (artifactName_ne_empty he),
    Path.endsInSlash_eq_false (notMem_artifactName he)]

/-- The characters of the path of a variant's file. -/
theorem toList_artifact {x e : String} (hx : IsSuffix x) (he : IsExtension e) :
    (Path.join (layout.source ++ x) (key.artifactName e)).toList =
      layout.source.toList ++ (x.toList ++ '/' :: (key.artifactName e).toList) := by
  obtain ⟨hne, hslash⟩ := @directory_ne_empty layout x hx
  rw [Path.join_eq hne hslash (notMem_artifactName he)]
  simp [String.toList_append]

/-- The report of a variant is not its binary: the directories differ in the first letter after the
point. -/
theorem binary_ne_report : layout.binary key ≠ layout.report key := by
  intro heq
  have hlist := congrArg String.toList heq
  rw [binary, binaryDir, report, resourceDir, toList_artifact (.inl rfl) (.inl rfl),
    toList_artifact (.inr rfl) (.inr (.inl rfl)), List.append_cancel_left_eq] at hlist
  simp at hlist

/-- The resource table of a variant is not its binary or its report. -/
theorem ne_resources (h : p ∈ [layout.binary key, layout.report key]) :
    p ≠ layout.resources key := by
  intro heq
  have hlist := congrArg String.toList heq
  simp only [List.mem_cons, List.not_mem_nil, or_false] at h
  rcases h with rfl | rfl
  · -- The directories differ in the first letter after the point.
    rw [binary, binaryDir, resources, resourceDir, toList_artifact (.inl rfl) (.inl rfl),
      toList_artifact (.inr rfl) (.inr (.inr rfl)), List.append_cancel_left_eq] at hlist
    simp at hlist
  · rw [report, resources, resourceDir, toList_artifact (.inr rfl) (.inr (.inl rfl)),
      toList_artifact (.inr rfl) (.inr (.inr rfl)), List.append_cancel_left_eq] at hlist
    have hname : key.artifactName "raw.json" = key.artifactName "json" :=
      String.toList_inj.1 (by simpa using hlist)
    have hraw : IsExtension "raw.json" := .inr (.inl rfl)
    have hjson : IsExtension "json" := .inr (.inr rfl)
    exact absurd (VariantKey.artifactName_inj hraw.extends hjson.extends hname).2 (by decide)

/-- A path goes on from where it starts. -/
theorem isAbsolute_append (p : Path) {x : String} (hp : p ≠ "") :
    Path.isAbsolute (p ++ x) = Path.isAbsolute p := by
  have hne : p.toList ≠ [] := fun h => hp (String.toList_eq_nil_iff.1 h)
  rw [Path.isAbsolute, Path.isAbsolute, String.toList_append, List.head?_append_of_ne_nil _ hne]

/-- The way of a variant's file starts where that of its directory does. -/
theorem start_artifact {x e : String} (hx : IsSuffix x) (he : IsExtension e) :
    s.start (Path.join (layout.source ++ x) (key.artifactName e)) =
      s.start (layout.source ++ x) := by
  obtain ⟨hne, hslash⟩ := directory_ne_empty hx
  rw [start, start, Path.join_eq hne hslash (notMem_artifactName he), String.append_assoc,
    isAbsolute_append _ hne]

/-- The way of the source starts where those of the directories do. -/
theorem start_source {x : String} (h : layout.source ≠ "") :
    s.start (layout.source ++ x) = s.start layout.source := by
  rw [start, start, isAbsolute_append _ h]

/-- The name of an output directory is no point and not two points. -/
theorem directoryName_ne {x : String} (hx : IsSuffix x) (cs : List Char) :
    String.ofList (cs ++ x.toList) ≠ "." ∧ String.ofList (cs ++ x.toList) ≠ ".." := by
  -- The suffix alone is longer than either.
  have hsize : (cs ++ x.toList).length = cs.length + 5 := by
    rw [List.length_append]
    rcases hx with rfl | rfl <;> rfl
  constructor <;> intro h <;> have hlength := congrArg (List.length ∘ String.toList) h <;>
    simp only [Function.comp, String.toList_ofList, hsize] at hlength
  · exact absurd hlength (by simp)
  · exact absurd hlength (by simp)

/-! ## Locations -/

/-- Without links, the directory of a variant's file is in the directory that the source is in. -/
theorem exists_above_of_walk_directory {x e : String} (hx : IsSuffix x) (he : IsExtension e)
    {there : Location}
    (hlink : ¬s.Linked (Path.join (layout.source ++ x) (key.artifactName e)))
    (hwalk : s.walk true maxLinks (s.start (layout.source ++ x)) (Path.names (layout.source ++ x)) =
      .ok ⟨there, some .directory⟩) :
    ∃ above, s.walk true maxLinks (s.start (layout.source ++ x)) (Path.parents layout.source) =
        .ok ⟨above, some .directory⟩ ∧
      there = above ++ [String.ofList (Path.lastSegment layout.source.toList ++ x.toList)] := by
  -- The way to the directory is part of that to the file, so it passes no link either.
  have hway : ∀ l ∈ s.trail true maxLinks (s.start (layout.source ++ x))
      (Path.names (layout.source ++ x)), ¬s.IsLink l := by
    intro l hl hat
    obtain ⟨links, -, htrail⟩ :=
      walk_append true _ _ _ (List.cons_ne_nil (key.artifactName e) []) hwalk
    refine hlink ⟨l, ⟨true, ?_⟩, hat⟩
    rw [start_artifact hx he, names_artifact hx he, htrail]
    exact List.mem_append_left _ hl
  obtain ⟨hne, hslash⟩ := hx.ne_empty
  obtain ⟨hdot, hup⟩ := directoryName_ne hx (Path.lastSegment layout.source.toList)
  rw [Path.names_append _ hslash hne] at hwalk hway
  exact exists_above_of_walk hdot hup hway hwalk

section

variable {x e : String} (hx : IsSuffix x) (he : IsExtension e)
  (hdirectory : s.isDirectory (layout.source ++ x) = true)
  (hlink : ¬s.Linked (Path.join (layout.source ++ x) (key.artifactName e)))
  (hl : l ∈ s.Sees (Path.join (layout.source ++ x) (key.artifactName e)))
  (hdir : s.node? l ≠ some .directory)
include hx he hdirectory hlink hl hdir

/-- Without links, the file of a variant is in its directory, by its name. -/
theorem exists_location_of_mem_sees :
    ∃ there, s.walk true maxLinks (s.start (layout.source ++ x)) (Path.names (layout.source ++ x)) =
      .ok ⟨there, some .directory⟩ ∧ l = there ++ [key.artifactName e] := by
  obtain ⟨there, hfind⟩ := isDirectory_iff.1 hdirectory
  have hwalk := hfind
  rw [find_eq_walk hfind] at hwalk
  refine ⟨there, hwalk, ?_⟩
  rw [← @start_artifact layout key s x e hx he] at hwalk
  exact eq_of_mem_sees hwalk (names_artifact hx he) hlink hl hdir

/-- Without links, the file of a variant is not on the way to the source: it is in a directory next
to the source. -/
theorem notMem_sees_source (hsource : ¬s.Linked layout.source) : l ∉ s.Sees layout.source := by
  intro hmem
  obtain ⟨there, hwalk, rfl⟩ := exists_location_of_mem_sees hx he hdirectory hlink hl hdir
  by_cases hempty : layout.source = ""
  · obtain ⟨follow, htrail⟩ := hmem
    rw [hempty] at htrail
    simp [Path.names, Path.segments, Path.endsInSlash] at htrail
  -- The source and the directory are both in the directory above, the file is one level deeper.
  obtain ⟨above, habove, rfl⟩ := exists_above_of_walk_directory hx he hlink hwalk
  obtain ⟨name, hname⟩ := Path.exists_lastName hempty
  rw [start_source hempty] at habove
  have heq := eq_of_mem_sees habove (by rw [Path.names_eq, hname]) hsource hmem hdir
  rw [List.append_assoc, List.append_cancel_left_eq] at heq
  cases heq

/-- Without links, the file of a variant is not on the way to a file of another: they have different
names. -/
theorem notMem_sees_artifact {x' e' : String} (hx' : IsSuffix x') (he' : IsExtension e')
    (hdirectory' : s.isDirectory (layout.source ++ x') = true)
    (hlink' : ¬s.Linked (Path.join (layout.source ++ x') (other.artifactName e')))
    (hne : key ≠ other) : l ∉ s.Sees (Path.join (layout.source ++ x') (other.artifactName e')) := by
  intro hmem
  -- The location would end in both names, and a name tells its key.
  obtain ⟨there, -, rfl⟩ := exists_location_of_mem_sees hx he hdirectory hlink hl hdir
  obtain ⟨there', -, hlast⟩ := exists_location_of_mem_sees hx' he' hdirectory' hlink' hmem hdir
  have hname : key.artifactName e = other.artifactName e' :=
    List.singleton_inj.1 (List.append_inj' hlast rfl).2
  exact hne (VariantKey.artifactName_inj he.extends he'.extends hname).1

end

/-- If the output directories are there, each of them is. -/
theorem isDirectory_of_isSuffix (hbinary : s.isDirectory layout.binaryDir = true)
    (hresource : s.isDirectory layout.resourceDir = true) {x : String} (hx : IsSuffix x) :
    s.isDirectory (layout.source ++ x) = true := by
  rcases hx with rfl | rfl
  · exact hbinary
  · exact hresource

section

variable (hbinary : s.isDirectory layout.binaryDir = true)
  (hresource : s.isDirectory layout.resourceDir = true) (hp : p ∈ layout.artifacts key)
  (hlinkp : ¬s.Linked p) (hl : l ∈ s.Sees p) (hdir : s.node? l ≠ some .directory)
include hbinary hresource hp hlinkp hl hdir

/-- Without links, no file of a variant is on the way to the source. -/
theorem notMem_sees_source_of_artifacts (hsource : ¬s.Linked layout.source) :
    l ∉ s.Sees layout.source := by
  obtain ⟨x, e, hx, he, rfl⟩ := exists_of_mem_artifacts hp
  exact notMem_sees_source hx he (isDirectory_of_isSuffix hbinary hresource hx) hlinkp hl hdir
    hsource

/-- Without links, no file of a variant is on the way to the source or to a file of another
variant. -/
theorem notMem_sees_of_artifacts (hne : key ≠ other)
    (hq : q ∈ layout.source :: layout.artifacts other) (hlinkq : ¬s.Linked q) : l ∉ s.Sees q := by
  rcases List.mem_cons.1 hq with rfl | hq
  · exact notMem_sees_source_of_artifacts hbinary hresource hp hlinkp hl hdir hlinkq
  · obtain ⟨x, e, hx, he, rfl⟩ := exists_of_mem_artifacts hp
    obtain ⟨x', e', hx', he', rfl⟩ := exists_of_mem_artifacts hq
    exact notMem_sees_artifact hx he (isDirectory_of_isSuffix hbinary hresource hx) hlinkp hl hdir
      hx' he' (isDirectory_of_isSuffix hbinary hresource hx') hlinkq hne

end

/-! ## Two files -/

/-- The ways of all output directories start at one location. -/
theorem start_directory {x x' : String} (hx : IsSuffix x) (hx' : IsSuffix x') :
    s.start (layout.source ++ x) = s.start (layout.source ++ x') := by
  by_cases h : layout.source = ""
  · rw [h, String.empty_append, String.empty_append, start, start,
      Path.isAbsolute_eq_false hx.ne_empty.2, Path.isAbsolute_eq_false hx'.ne_empty.2]
  · rw [start_source h, start_source h]

/-- Without links, the place of a file of a variant is two names below the directory that the source
is in. -/
theorem exists_above_of_find {x e : String} (hx : IsSuffix x) (he : IsExtension e)
    {follow : Bool} {place : Place}
    (hlink : ¬s.Linked (Path.join (layout.source ++ x) (key.artifactName e)))
    (hfind : s.find (Path.join (layout.source ++ x) (key.artifactName e)) follow = .ok place)
    (hdir : place.node ≠ some .directory) :
    ∃ above, s.walk true maxLinks (s.start (layout.source ++ x)) (Path.parents layout.source) =
        .ok ⟨above, some .directory⟩ ∧
      place.location = above ++ [String.ofList (Path.lastSegment layout.source.toList ++ x.toList),
        key.artifactName e] := by
  obtain ⟨hmem, -, hnode⟩ := find_place hfind hdir
  have hwalk := hfind
  rw [find_eq_walk hfind, start_artifact hx he, names_artifact hx he] at hwalk
  obtain ⟨there, hthere⟩ := exists_directory_of_walk_append _ _ _ (by simp) hwalk
  have hwalk' := hthere
  rw [← @start_artifact layout key s x e hx he] at hwalk'
  have hlast := eq_of_mem_sees hwalk' (names_artifact hx he) hlink hmem (by rwa [hnode])
  obtain ⟨above, habove, rfl⟩ := exists_above_of_walk_directory hx he hlink hthere
  refine ⟨above, habove, ?_⟩
  rw [hlast, List.append_assoc]
  rfl

/-- Without links, the place of one file of a variant is not on the way to another file. -/
theorem notMem_sees_of_find {follow : Bool} {place : Place} (hp : p ∈ layout.artifacts key)
    (hq : q ∈ layout.artifacts other) (hne : p ≠ q) (hlinkp : ¬s.Linked p) (hlinkq : ¬s.Linked q)
    (hfind : s.find p follow = .ok place) (hdir : place.node ≠ some .directory) :
    place.location ∉ s.Sees q := by
  rintro ⟨follow', hmem⟩
  obtain ⟨x, e, hx, he, rfl⟩ := exists_of_mem_artifacts hp
  obtain ⟨x', e', hx', he', rfl⟩ := exists_of_mem_artifacts hq
  obtain ⟨above, habove, hplace⟩ := exists_above_of_find hx he hlinkp hfind hdir
  obtain ⟨-, -, hnode⟩ := find_place hfind hdir
  have hway : ∀ l ∈ s.trail follow' maxLinks (s.start (layout.source ++ x'))
      (Path.names (Path.join (layout.source ++ x') (other.artifactName e'))), ¬s.IsLink l := by
    intro l hl hat
    exact hlinkq ⟨l, ⟨follow', by rwa [start_artifact hx' he']⟩, hat⟩
  rw [start_artifact hx' he'] at hmem
  obtain ⟨hne', hslash'⟩ := hx'.ne_empty
  obtain ⟨hdot, hup⟩ := directoryName_ne hx' (Path.lastSegment layout.source.toList)
  rw [names_artifact hx' he', Path.names_append _ hslash' hne', List.append_assoc,
    List.singleton_append] at hmem hway
  rw [start_directory hx hx'] at habove
  obtain ⟨links, -, htrail⟩ := walk_append follow' _ _ _ (List.cons_ne_nil _ _) habove
  rw [htrail] at hmem hway
  -- The other way passes directories, its own directory and its own file only.
  rcases List.mem_append.1 hmem with hmem' | hmem'
  · rcases node_of_mem_trail _ _ _ habove hmem' with hat | hat
    · exact hdir (hnode ▸ hat)
    · exact hway _ hmem hat
  · have hlater := fun l hl => hway l (List.mem_append_right _ hl)
    rcases eq_of_mem_trail_pair hdot hup hlater hmem' with heq | heq
    · rw [hplace] at heq
      simpa using congrArg List.length heq
    · rw [hplace, List.append_cancel_left_eq] at heq
      obtain ⟨hdirs, hlast⟩ := List.cons.inj heq
      obtain ⟨rfl, rfl⟩ :=
        VariantKey.artifactName_inj he.extends he'.extends (List.singleton_inj.1 hlast)
      have hsuffix : x.toList = x'.toList := List.append_cancel_left (String.ofList_inj.1 hdirs)
      obtain rfl : x = x' := String.toList_inj.1 hsuffix
      exact hne rfl

/-! ## The configuration -/

/-- No file of a variant has the name of a configuration next to a source. -/
theorem artifactName_notMem_lastName {e : String} (he : IsExtension e) (source : Path) :
    key.artifactName e ∉ Path.lastName (defaultConfig source) := by
  intro hmem
  obtain ⟨c, hlast, hc⟩ := @exists_getLast?_artifactName key e he
  rcases Path.eq_of_mem_lastName hmem with hdot | hsegment
  · rw [hdot] at hlast
    cases hlast
    exact hc rfl
  rcases Path.lastSegment_withExtension source (show '/' ∉ "macro.json".toList by decide) with
    hidle | hup | ⟨stem, hstem⟩
  · rw [defaultConfig] at hsegment
    rw [← hsegment, Path.isIdle, Bool.or_eq_true, beq_iff_eq, beq_iff_eq] at hidle
    rcases hidle with hnil | hpoint
    · rw [hnil] at hlast
      cases hlast
    · rw [hpoint] at hlast
      cases hlast
      exact hc rfl
  · rw [hsegment, defaultConfig, hup] at hlast
    cases hlast
    exact hc rfl
  · rw [defaultConfig, hstem, VariantKey.toList_artifactName] at hsegment
    have hreverse := congrArg List.reverse hsegment
    rw [List.reverse_append, List.reverse_append] at hreverse
    -- Read from the end, another extension differs in a letter.
    rcases he with rfl | rfl | rfl
    · cases hreverse
    · cases hreverse
    · have hletter : 'o' ∈ VariantKey.stemChars key.values := by
        have hstem' : (VariantKey.stemChars key.values).reverse =
            ".macro.".toList.reverse ++ stem.reverse := List.append_cancel_left hreverse
        rw [← List.mem_reverse, hstem']
        exact List.mem_append_left _ (by decide)
      exact absurd (VariantKey.isStem_of_mem_stemChars hletter) (by decide)

/-- Without links, no location that a file of a variant has is on the way to a configuration next to
a source that can be read: they have different names. -/
theorem notMem_sees_defaultConfig {e : String} (he : IsExtension e) {source : Path}
    {there : Location} {content : Content} (hlink : ¬s.Linked (defaultConfig source))
    (hdir : s.node? (there ++ [key.artifactName e]) ≠ some .directory)
    (hcontent : s.content (defaultConfig source) = .ok content) :
    there ++ [key.artifactName e] ∉ s.Sees (defaultConfig source) := by
  intro hmem
  obtain ⟨place, hfind, -⟩ := Sequence.bind_eq_ok_iff.1 hcontent
  have hempty : defaultConfig source ≠ "" := by
    intro hempty
    rw [hempty, find, trace] at hfind
    split at hfind <;> cases hfind
  obtain ⟨name, hname⟩ := Path.exists_lastName hempty
  have hnames : Path.names (defaultConfig source) =
      Path.parents (defaultConfig source) ++ [name] := by rw [Path.names_eq, hname]
  -- The configuration can be read, so its way leads to the directory that it is in.
  have hwalk := hfind
  rw [find_eq_walk hfind, hnames] at hwalk
  obtain ⟨above, habove⟩ := exists_directory_of_walk_append _ _ _ (List.cons_ne_nil _ _) hwalk
  have heq := eq_of_mem_sees habove hnames hlink hmem hdir
  have hsame : key.artifactName e = name := List.singleton_inj.1 (List.append_inj' heq rfl).2
  refine @artifactName_notMem_lastName key e he source ?_
  rw [hname, hsame]
  exact List.mem_singleton_self _

end ShaderVariants.Layout
