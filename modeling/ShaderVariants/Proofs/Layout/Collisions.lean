import ShaderVariants.Proofs.Layout.Artifacts

/-!
# No two files of variants have one path

Paths are compared by their components: a slash at the end, doubled slashes and single points do not
count, but for a point that a path starts with. The file of a variant is the last component of its
path, and it tells the key and the kind of the file, so different files have different paths
(`components_artifact_eq_iff`), whatever the source is.
-/

namespace ShaderVariants

namespace Path

/-- What paths are compared by. -/
inductive Component where
  /-- The start of an absolute path. -/
  | root
  /-- The point at the start of a path. -/
  | here
  | name (segment : List Char)
deriving DecidableEq

/-- The components of a path. -/
def components (p : Path) : List Component :=
  (if isAbsolute p then [.root]
    else if (segments p.toList).head? = some ['.'] then [.here]
    else []) ++
  ((segments p.toList).filter fun segment => !isIdle segment).map .name

/-- A file name joined to a directory is the last component. -/
theorem getLast?_components_join {dir name : Path} (hdir : dir ≠ "")
    (hslash : endsInSlash dir = false) (hname : '/' ∉ name.toList)
    (hidle : isIdle name.toList = false) :
    (components (join dir name)).getLast? = some (.name name.toList) := by
  have hlist : (dir ++ "/" ++ name).toList = dir.toList ++ '/' :: name.toList := by
    simp [String.toList_append]
  rw [join_eq hdir hslash hname, components, hlist, segments_append_slash,
    segments_of_notMem hname, List.filter_append, List.map_append, ← List.append_assoc]
  simp [hidle]

end Path

/-- The kinds of files that are made for a variant. -/
inductive ArtifactKind where
  | binary
  | report
  | resources
deriving DecidableEq

namespace ArtifactKind

/-- The path of a variant's file of a kind. -/
def path (kind : ArtifactKind) (layout : Layout) (key : VariantKey) : Path :=
  match kind with
  | binary => layout.binary key
  | report => layout.report key
  | resources => layout.resources key

/-- What the name of the directory of a kind of files ends in. -/
def suffix : ArtifactKind → String
  | binary => ".bin2"
  | report => ".res2"
  | resources => ".res2"

/-- What the name of a file of a kind ends in. -/
def extension : ArtifactKind → String
  | binary => "spv"
  | report => "raw.json"
  | resources => "json"

/-- The suffix is that of an output directory. -/
theorem isSuffix (kind : ArtifactKind) : Layout.IsSuffix kind.suffix := by
  cases kind <;> simp [Layout.IsSuffix, suffix]

/-- The extension is that of a variant's file. -/
theorem isExtension (kind : ArtifactKind) : Layout.IsExtension kind.extension := by
  cases kind <;> simp [Layout.IsExtension, extension]

/-- Each kind has an extension of its own. -/
theorem extension_inj {kind kind' : ArtifactKind} (h : kind.extension = kind'.extension) :
    kind = kind' := by
  cases kind <;> cases kind' <;> first | rfl | exact absurd h (by decide)

/-- A file is in the directory of its kind and named by the key and its kind's extension. -/
theorem path_eq (kind : ArtifactKind) (layout : Layout) (key : VariantKey) :
    kind.path layout key =
      Path.join (layout.source ++ kind.suffix) (key.artifactName kind.extension) := by
  cases kind <;> rfl

end ArtifactKind

namespace Layout

variable {layout : Layout} {key : VariantKey}

/-- A file name is more than a point. -/
theorem isIdle_artifactName (kind : ArtifactKind) :
    Path.isIdle (key.artifactName kind.extension).toList = false := by
  obtain ⟨c, hlast, hc⟩ := @exists_getLast?_artifactName key _ kind.isExtension
  rw [Path.isIdle, Bool.or_eq_false_iff, beq_eq_false_iff_ne, beq_eq_false_iff_ne]
  constructor
  · intro h
    rw [h] at hlast
    cases hlast
  · intro h
    rw [h] at hlast
    cases hlast
    exact hc rfl

/-- The last component of the path of a variant's file is the name of the file. -/
theorem getLast?_components_artifact (kind : ArtifactKind) :
    (Path.components (kind.path layout key)).getLast? =
      some (.name (key.artifactName kind.extension).toList) := by
  obtain ⟨hne, hslash⟩ := @directory_ne_empty layout _ kind.isSuffix
  rw [kind.path_eq, Path.getLast?_components_join hne hslash
    (notMem_artifactName kind.isExtension) (isIdle_artifactName kind)]

/-- The components of a path tell the key and the kind of the file. -/
theorem eq_of_components_artifact {key key' : VariantKey} {kind kind' : ArtifactKind}
    (h : Path.components (kind.path layout key) = Path.components (kind'.path layout key')) :
    kind = kind' ∧ key = key' := by
  have hlast := congrArg List.getLast? h
  rw [getLast?_components_artifact, getLast?_components_artifact] at hlast
  have hname : key.artifactName kind.extension = key'.artifactName kind'.extension :=
    String.toList_inj.1 (Path.Component.name.inj (Option.some.inj hlast))
  obtain ⟨hkey, hextension⟩ :=
    VariantKey.artifactName_inj kind.isExtension.extends kind'.isExtension.extends hname
  exact ⟨ArtifactKind.extension_inj hextension, hkey⟩

/-- **The files of variants are at different paths.** Whatever the source and the keys are, two of
the paths of their binaries, reports and resource tables are equal only if they are of one kind and
of one key. What the file names of a variant begin with and the text of its key are its own, too. -/
theorem components_artifact_eq_iff (layout : Layout) (kind kind' : ArtifactKind)
    (key key' : VariantKey) :
    (Path.components (kind.path layout key) = Path.components (kind'.path layout key') ↔
      kind = kind' ∧ key = key') ∧
    (key.stem = key'.stem ↔ key = key') ∧
    (key.text = key'.text ↔ key = key') := by
  refine ⟨⟨eq_of_components_artifact, ?_⟩, ⟨VariantKey.stem_inj, congrArg _⟩,
    ⟨VariantKey.text_inj, congrArg _⟩⟩
  rintro ⟨rfl, rfl⟩
  rfl

/-- Without values the files of a key are told apart by their kinds. -/
example : (ArtifactKind.report.path ⟨"x.frag"⟩ ⟨[]⟩, ArtifactKind.resources.path ⟨"x.frag"⟩ ⟨[]⟩) =
    ("x.frag.res2/raw.json", "x.frag.res2/json") := by
  decide

end Layout

end ShaderVariants
