import ShaderVariants.Proofs.Bake.Account
import ShaderVariants.Proofs.Bake.Edits

/-!
# What a build leaves as it was

With tools that write nothing but their output, a build makes the output directories where nothing
was (`Furnished`) and changes the files of the enumerated variants (`Workshop.Within`), whatever the
outcomes are and however many variants are under way at a time. All other locations hold what they
held (`bake_frame`), and so the source, the configuration next to it and the files of all other
variants are as they were.

The path of a file may lead to another location through links (`bake_frame_linked`). Where none is
on its way, it leads to the location that it names.
-/

namespace ShaderVariants

open Store

namespace Store

variable {dirs : List Path} {s t u : Store} {p : Path}

/-! ## Output directories -/

/-- The second store is the first one with some directories made that paths of a list lead to. What
could be read can be read. -/
structure Furnished (dirs : List Path) (s t : Store) : Prop where
  ground : t.toGround = s.toGround
  made : ∀ l, t.node? l = s.node? l ∨
    s.node? l = none ∧ ∃ p ∈ dirs, t.find p true = .ok ⟨l, some .directory⟩
  content : ∀ {q content}, s.content q = .ok content → t.content q = .ok content

/-- Without any directory made a store is as it was. -/
theorem Furnished.refl (dirs : List Path) (s : Store) : Furnished dirs s s :=
  ⟨rfl, fun _ => .inl rfl, fun h => h⟩

/-- One more directory may be made. -/
theorem Furnished.ensureDir (h : Furnished dirs s t) (hp : p ∈ dirs)
    (hslash : Path.endsInSlash p = false) (hmade : t.ensureDir p = .ok u) :
    Furnished dirs s u := by
  have hcases := ensureDir_cases hslash hmade
  refine ⟨?_, fun l => ?_, fun hq => content_of_ensureDir hslash hmade (h.content hq)⟩
  · rcases hcases with ⟨rfl, -⟩ | ⟨l, -, rfl⟩
    · exact h.ground
    · exact h.ground
  · -- The directory is at the location, or the location is as it was before this one was made.
    have hnew : u.node? l = t.node? l ∨
        t.node? l = none ∧ u.find p true = .ok ⟨l, some .directory⟩ := by
      rcases hcases with ⟨rfl, -⟩ | ⟨l', hfind, rfl⟩
      · exact .inl rfl
      · obtain ⟨-, hroot, hnone⟩ := find_place hfind (by simp)
        rw [node?_put hroot]
        by_cases heq : l' = l
        · subst heq
          exact .inr ⟨hnone, find_put_directory hfind⟩
        · exact .inl (if_neg heq)
    rcases h.made l with hsame | ⟨hnone, q, hq, hfind⟩
    · rw [← hsame]
      rcases hnew with hold | ⟨hnone, hfind⟩
      · exact .inl hold
      · exact .inr ⟨hnone, p, hp, hfind⟩
    · exact .inr ⟨hnone, q, hq, find_directory_mono hslash hmade hfind⟩

end Store

/-- The output directories, and the files of the variants of some keys. -/
def Layout.outputs (layout : Layout) (keys : List VariantKey) : List Path :=
  [layout.binaryDir, layout.resourceDir] ++ keys.flatMap layout.artifacts

namespace Workshop

/-- Where a link is on the way of a file of a variant, or of another path, the two ways do not meet
at a location that is changed by way of the file. -/
def LinksApartFrom (shop : Workshop) (s : Store) (keys : List VariantKey) (q : Path) : Prop :=
  ∀ key ∈ keys, ∀ p ∈ shop.layout.artifacts key,
    s.Linked p ∨ s.Linked q → ∀ l ∈ shop.Changes s key p, l ∉ s.Sees q

end Workshop

namespace Baker

open Workshop

variable {b : Baker} {s u : Store} {source : Path} {setup : Setup} {l : Location}

/-- The store with the output directories, or with those made before one could not be. -/
def furnished (s : Store) (layout : Layout) : Store :=
  (makeOutputDirs s layout).1

/-- The output directories are made where nothing was, and nothing else is changed for them. -/
theorem furnished_furnished (s : Store) (layout : Layout) :
    Furnished [layout.binaryDir, layout.resourceDir] s (furnished s layout) := by
  unfold furnished makeOutputDirs makeOutputDir
  cases hbinary : s.ensureDir layout.binaryDir with
  | error e => exact Furnished.refl _ s
  | ok t =>
    have hfirst := (Furnished.refl [layout.binaryDir, layout.resourceDir] s).ensureDir
      List.mem_cons_self Layout.endsInSlash_binaryDir hbinary
    dsimp only [Except.mapError]
    cases hresource : t.ensureDir layout.resourceDir with
    | error e => exact hfirst
    | ok u =>
      exact hfirst.ensureDir (List.mem_cons_of_mem _ List.mem_cons_self)
        Layout.endsInSlash_resourceDir hresource

/-- The variants begin with the output directories. -/
theorem furnished_of_opening {o : Opening} (h : b.opening s source = .ok o) :
    furnished s o.shop.layout = o.world.store := by
  obtain ⟨setup, t, -, hmade, rfl⟩ := opening_eq_ok h
  exact congrArg Prod.fst hmade

/-! ## What a build may change -/

/-- The locations that a build may change: those where it makes an output directory, and those that
are altered for the enumerated variants. -/
def Touched (b : Baker) (s : Store) (setup : Setup) : Set Location :=
  {l | s.node? l = none ∧ ∃ p ∈ [setup.layout.binaryDir, setup.layout.resourceDir],
    (furnished s setup.layout).find p true = .ok ⟨l, some .directory⟩} ∪
  (b.workshop setup.layout).altered (furnished s setup.layout) setup.config.enumerate

/-- A build may leave the files so: when it has built the variants one after another, was refused or
has been stopped in that, or, if more variants are under way at a time, after some steps of theirs
in any order. -/
inductive Leaves (b : Baker) (s : Store) (source : Path) : Store → Prop where
  | inTurn : Leaves b s source (b.build s source).1.store
  | inOrder {o : Opening} {order : List VariantKey} {floor : Floor}
      (hopening : b.opening s source = .ok o) (horder : ∀ key ∈ order, key ∈ o.config.enumerate)
      (hwork : o.shop.work o.config order (opened o.config o.world) = .ok floor) :
      Leaves b s source floor.world.store

/-- A build whose source or configuration is refused changes nothing. -/
theorem Leaves.eq_of_error (h : b.Leaves s source u) {e : BakeError}
    (hsetup : b.setup s source = .error e) : u = s := by
  cases h with
  | inTurn => rw [build, ready_of_error hsetup]
  | inOrder hopening => cases hsetup.symm.trans (setup_of_opening hopening)

/-- A build leaves the output directories at most, or it has them and its variants change what is
altered for them. -/
theorem Leaves.within (htools : b.toolchain.Confined) (h : b.Leaves s source u)
    (hsetup : b.setup s source = .ok setup) :
    u = furnished s setup.layout ∨
      (furnished s setup.layout).isDirectory setup.layout.binaryDir = true ∧
        (furnished s setup.layout).isDirectory setup.layout.resourceDir = true ∧
        (b.workshop setup.layout).Within setup.config.enumerate (furnished s setup.layout) u := by
  have hkeeps : (b.workshop setup.layout).Keeps setup.config.enumerate
      ((b.workshop setup.layout).Within setup.config.enumerate (furnished s setup.layout)) :=
    keeps_within htools _ _
  cases h with
  | inTurn =>
    cases hmade : makeOutputDirs s setup.layout with
    | mk t made =>
      have hfurnished : furnished s setup.layout = t := congrArg Prod.fst hmade
      rw [hfurnished] at hkeeps ⊢
      cases made with
      | error e =>
        -- Without an output directory no variant has a step.
        rw [build, ready_of_setup hsetup hmade]
        exact .inl rfl
      | ok made =>
        have hopening := opening_of_setup hsetup hmade
        cases hstaffed : b.isStaffed with
        | false =>
          rw [build_of_refused hopening hstaffed]
          exact .inl rfl
        | true =>
          obtain ⟨hbinary, hresource⟩ := isDirectory_of_opening hopening
          rw [build_of_staffed hstaffed, bake_eq hopening]
          have hwithin := hkeeps.variants (w := { store := t }) (fun _ hkey => hkey) setup.config
            (Within.refl _ _ _)
          exact .inr ⟨hbinary, hresource, hwithin⟩
  | inOrder hopening horder hwork =>
    obtain ⟨hbinary, hresource⟩ := isDirectory_of_opening hopening
    obtain ⟨setup', t, hsetup', hmade, rfl⟩ := opening_eq_ok hopening
    obtain rfl := Except.ok.inj (hsetup'.symm.trans hsetup)
    have hfurnished : furnished s setup'.layout = t := congrArg Prod.fst hmade
    rw [hfurnished] at hkeeps ⊢
    exact .inr ⟨hbinary, hresource, hkeeps.work horder (Within.refl _ _ _) hwork⟩

/-- One of the paths of the build leads to every location that it may change, through links or to
the location that it names. -/
theorem exists_find_of_mem_touched (h : l ∈ b.Touched s setup) :
    ∃ p ∈ setup.layout.outputs setup.config.enumerate, ∃ follow place,
      (furnished s setup.layout).find p follow = .ok place ∧ place.location = l ∧
      ((furnished s setup.layout).Linked p ∨ l = s.named p) := by
  have hnamed : ∀ p, (furnished s setup.layout).named p = s.named p := by
    intro p
    rw [named, named, start_congr (furnished_furnished s setup.layout).ground]
  -- Whatever the path leads to is where it names, unless a link is on the way.
  have hleads : ∀ p follow place, (furnished s setup.layout).find p follow = .ok place →
      place.location = l → (furnished s setup.layout).Linked p ∨ l = s.named p := by
    intro p follow place hfind hlocation
    by_cases hlink : (furnished s setup.layout).Linked p
    · exact .inl hlink
    · exact .inr (by rw [← hnamed, ← hlocation, location_of_find hfind hlink])
  rcases h with ⟨-, p, hp, hfind⟩ | ⟨key, hkey, p, hp, hchanged⟩
  · exact ⟨p, List.mem_append_left _ hp, true, _, hfind, rfl, hleads _ _ _ hfind rfl⟩
  · have hled : l ∈ (furnished s setup.layout).Writes p ∨
        l ∈ (furnished s setup.layout).Removes p := by
      rcases hchanged with hwrites | ⟨-, -, hremoves⟩
      · exact .inl hwrites
      · exact .inr hremoves
    obtain ⟨follow, place, hfind, hlocation, -⟩ := exists_find_of_mem_changed hled
    exact ⟨p, List.mem_append_right _ (List.mem_flatMap.2 ⟨key, hkey, hp⟩), follow, place, hfind,
      hlocation, hleads _ _ _ hfind hlocation⟩

/-! ## What a build leaves -/

/-- The source, the configuration next to it, and the files of variants that are not enumerated. -/
def Kept (setup : Setup) (q : Path) : Prop :=
  q = setup.layout.source ∨ q = Layout.defaultConfig setup.layout.source ∨
    ∃ key, key ∉ setup.config.enumerate ∧ q ∈ setup.layout.artifacts key

/-- What is altered for the variants is not on the way to the source, to a file of another variant
or to a configuration that can be read, unless a link brings it there. -/
theorem notMem_altered_of_kept {t : Store} {q : Path} {content : Content}
    (hbinary : t.isDirectory setup.layout.binaryDir = true)
    (hresource : t.isDirectory setup.layout.resourceDir = true) (hq : Kept setup q)
    (hlinks : (b.workshop setup.layout).LinksApartFrom t setup.config.enumerate q)
    (hwithin : (b.workshop setup.layout).Within setup.config.enumerate t u)
    (hcontent : u.content q = .ok content) (hl : l ∈ u.Sees q) :
    l ∉ (b.workshop setup.layout).altered t setup.config.enumerate := by
  rintro ⟨key, hkey, p, hp, hchanged⟩
  -- A path passes nothing new in the meantime, so its way is told by the store before.
  have hmem := hwithin.thinned.sees_subset hl
  by_cases hlink : t.Linked p ∨ t.Linked q
  · exact hlinks key hkey p hp hlink l hchanged hmem
  rw [not_or] at hlink
  obtain ⟨hsees, hdir⟩ := node_of_mem_changes hchanged
  rcases hq with rfl | rfl | ⟨other, hother, hq⟩
  · exact Layout.notMem_sees_source_of_artifacts hbinary hresource hp hlink.1 hsees hdir hlink.2
      hmem
  · obtain ⟨x, e, hx, he, rfl⟩ := Layout.exists_of_mem_artifacts hp
    obtain ⟨there, -, rfl⟩ := Layout.exists_location_of_mem_sees hx he
      (Layout.isDirectory_of_isSuffix hbinary hresource hx) hlink.1 hsees hdir
    exact Layout.notMem_sees_defaultConfig he (hwithin.thinned.not_linked hlink.2)
      (fun hnow => hdir (hwithin.thinned.node?_eq hnow rfl)) hcontent hl
  · have hne : key ≠ other := fun heq => hother (heq ▸ hkey)
    exact Layout.notMem_sees_of_artifacts hbinary hresource hp hlink.1 hsees hdir hne
      (List.mem_cons_of_mem _ hq) hlink.2 hmem

/-- Such a path can be read with the same content before the variants and after them. -/
theorem content_eq_ok_iff_of_kept {t : Store} {q : Path} {content : Content}
    (hbinary : t.isDirectory setup.layout.binaryDir = true)
    (hresource : t.isDirectory setup.layout.resourceDir = true) (hq : Kept setup q)
    (hlinks : (b.workshop setup.layout).LinksApartFrom t setup.config.enumerate q)
    (hwithin : (b.workshop setup.layout).Within setup.config.enumerate t u) :
    u.content q = .ok content ↔ t.content q = .ok content := by
  -- Whichever store the path can be read in, its way there passes nothing that was altered.
  constructor
  · intro hcontent
    have hway : Agree (u.Sees q) u t := hwithin.agree.mono fun l hl =>
      notMem_altered_of_kept hbinary hresource hq hlinks hwithin hcontent hl
    rw [← content_congr hway, hcontent]
  · intro hcontent
    have hway : Agree (t.Sees q) u t := hwithin.agree.mono fun l hl =>
      notMem_altered_of_kept hbinary hresource hq hlinks (Within.refl _ _ _) hcontent hl
    rw [← content_congr hway.symm, hcontent]

/-- What a build has left as it was. -/
structure Spares (b : Baker) (s : Store) (setup : Setup) (u : Store) : Prop where
  /-- All locations that it does not touch hold what they held. -/
  locations : Agree (b.Touched s setup)ᶜ u s
  /-- Without links on the ways of its paths, it touches only the locations that they name. -/
  unlinked : (∀ p ∈ setup.layout.outputs setup.config.enumerate,
      ¬(furnished s setup.layout).Linked p) →
    ∀ l, (∀ p ∈ setup.layout.outputs setup.config.enumerate, l ≠ s.named p) →
      u.node? l = s.node? l
  /-- A path that passes no touched location leads where it led, to the content that was there. -/
  paths : ∀ q, (∀ l ∈ s.Sees q, l ∉ b.Touched s setup) →
    (∀ follow, u.find q follow = s.find q follow) ∧ u.content q = s.content q
  /-- The source, the configuration next to it and the files of all other variants have the content
  that they had, and nothing is there that was not when the output directories were made, unless a
  link brings them together with a file that is changed. -/
  kept : ∀ q, Kept setup q →
    (b.workshop setup.layout).LinksApartFrom (furnished s setup.layout) setup.config.enumerate q →
    ∀ content, (s.content q = .ok content → u.content q = .ok content) ∧
      (u.content q = .ok content → (furnished s setup.layout).content q = .ok content)

/-- A build leaves all locations that it does not touch. -/
theorem Leaves.agree (htools : b.toolchain.Confined) (h : b.Leaves s source u)
    (hsetup : b.setup s source = .ok setup) : Agree (b.Touched s setup)ᶜ u s := by
  have hfurnished := furnished_furnished s setup.layout
  have hmade : Agree (b.Touched s setup)ᶜ (furnished s setup.layout) s := by
    refine ⟨hfurnished.ground, fun l hl => ?_⟩
    exact (hfurnished.made l).resolve_right fun hnew => hl (.inl hnew)
  rcases h.within htools hsetup with rfl | ⟨-, -, hwithin⟩
  · exact hmade
  · have hsub : (b.Touched s setup)ᶜ ⊆
        ((b.workshop setup.layout).altered (furnished s setup.layout)
          setup.config.enumerate)ᶜ := fun l hl halter => hl (.inr halter)
    exact (hwithin.agree.mono hsub).trans hmade

/-- A build leaves the source, the configuration and the files of other variants, if they can be
read. -/
theorem Leaves.content_of_kept (htools : b.toolchain.Confined) (h : b.Leaves s source u)
    (hsetup : b.setup s source = .ok setup) {q : Path} (hq : Kept setup q)
    (hlinks : (b.workshop setup.layout).LinksApartFrom (furnished s setup.layout)
      setup.config.enumerate q) (content : Content) :
    (s.content q = .ok content → u.content q = .ok content) ∧
      (u.content q = .ok content → (furnished s setup.layout).content q = .ok content) := by
  have hfurnished := furnished_furnished s setup.layout
  rcases h.within htools hsetup with rfl | ⟨hbinary, hresource, hwithin⟩
  · exact ⟨hfurnished.content, fun hcontent => hcontent⟩
  · have hiff : u.content q = .ok content ↔ (furnished s setup.layout).content q = .ok content :=
      content_eq_ok_iff_of_kept hbinary hresource hq hlinks hwithin
    exact ⟨fun hcontent => hiff.2 (hfurnished.content hcontent), hiff.1⟩

/-- **A build changes only its own files.** Suppose that the tools write nothing but their output. A
build whose source or configuration is refused changes nothing. Any other build, however it ends and
in whatever order its variants take their steps, leaves all locations as they were but those to
which the path of an output directory or of a file of an enumerated variant leads; and without links
on its way such a path leads to the location that it names. -/
theorem bake_frame (htools : b.toolchain.Confined) (h : b.Leaves s source u) :
    (∃ e, b.setup s source = .error e ∧ u = s) ∨
      ∃ setup, b.setup s source = .ok setup ∧ b.Spares s setup u ∧
        ∀ l ∈ b.Touched s setup, ∃ p ∈ setup.layout.outputs setup.config.enumerate,
          ∃ follow place, (furnished s setup.layout).find p follow = .ok place ∧
            place.location = l ∧ ((furnished s setup.layout).Linked p ∨ l = s.named p) := by
  cases hsetup : b.setup s source with
  | error e => exact .inl ⟨e, rfl, h.eq_of_error hsetup⟩
  | ok setup =>
    have hagree := h.agree htools hsetup
    refine .inr ⟨setup, rfl, ⟨hagree, fun hlinks l hl => ?_, fun q hq => ?_,
      fun q hq hlinks content => h.content_of_kept htools hsetup hq hlinks content⟩,
      fun l hl => exists_find_of_mem_touched hl⟩
    · -- A touched location would be one that a path names.
      refine hagree.2 l fun htouched => ?_
      obtain ⟨p, hp, -, -, -, -, hcases⟩ := exists_find_of_mem_touched htouched
      exact hcases.elim (hlinks p hp) (hl p hp)
    · have hway : Agree (s.Sees q) s u := (hagree.mono hq).symm
      exact ⟨fun follow => (find_congr hway).symm, (content_congr hway).symm⟩

/-! ## Two workplaces -/

/-- A workplace in which the resource table of a variant is left that is not enumerated. -/
def outdated : Store :=
  workplace [(["x.frag.res2", "7.json"], .file (.text "old") false)]

/-- The key of that variant. -/
def gone : VariantKey :=
  ⟨[7]⟩

/-- Without links the build in which no binary can be reflected leaves that table, and everything
else that is not its own. -/
theorem bake_frame_outdated :
    ∃ setup, stumbling.toolchain.Confined ∧ stumbling.setup outdated "x.frag" = .ok setup ∧
      stumbling.Spares outdated setup (stumbling.build outdated "x.frag").1.store ∧
      gone ∉ setup.config.enumerate ∧
      outdated.content (setup.layout.resources gone) = .ok (.text "old") ∧
      (stumbling.build outdated "x.frag").1.store.content (setup.layout.resources gone) =
        .ok (.text "old") := by
  have hopening : stumbling.opening outdated "x.frag" =
      .ok ⟨stumblingShop, switch, { store := outdated }⟩ :=
    opening_within rfl rfl rfl (fun _ => rfl) fun _ => rfl
  have hsetup := setup_of_opening hopening
  have hfurnished := furnished_of_opening hopening
  have htools : stumbling.toolchain.Confined := (Plan.toolchain_deterministic _).confined
  have hpath : stumblingShop.layout.resources gone = "/x.frag.res2/7.json" := by decide
  have hold : outdated.content (stumblingShop.layout.resources gone) = .ok (.text "old") := by
    have hnul : Path.holdsNul "/x.frag.res2/7.json" = false := by simp [Path.holdsNul]
    rw [hpath]
    exact content_of_find_file (find_of_within 3 hnul rfl (by decide) rfl)
  have hgone : gone ∉ switch.enumerate := by decide
  have hlinked : ∀ p, ¬outdated.Linked p := not_linked (by simp)
  have hapart : stumblingShop.LinksApartFrom (furnished outdated stumblingShop.layout)
      switch.enumerate (stumblingShop.layout.resources gone) := by
    intro key _ p _ hlink
    rw [hfurnished] at hlink
    exact absurd hlink (not_or.2 ⟨hlinked _, hlinked _⟩)
  have hleaves : stumbling.Leaves outdated "x.frag" (stumbling.build outdated "x.frag").1.store :=
    .inTurn
  rcases bake_frame htools hleaves with ⟨e, herror, -⟩ | ⟨setup, hsetup', hspares, -⟩
  · cases hsetup.symm.trans herror
  · obtain rfl := Except.ok.inj (hsetup.symm.trans hsetup')
    have hkept := hspares.kept _ (.inr (.inr ⟨gone, hgone, Layout.resources_mem_artifacts⟩))
      hapart (.text "old")
    exact ⟨_, htools, hsetup, hspares, hgone, hold, hkept.1 hold⟩

/-- **A link can lead a build out of its files.** Where the binary of a variant is a link to some
other file, that file is written, though its path is none of those of the build. -/
theorem bake_frame_linked :
    ∃ s setup w report q, stumbling.toolchain.Confined ∧
      stumbling.setup s "x.frag" = .ok setup ∧ stumbling.bake s "x.frag" = (w, .ok report) ∧
      q ∉ setup.layout.outputs setup.config.enumerate ∧
      s.content q = .ok (.text "old") ∧ w.store.content q = .ok (.text "") := by
  have hnul : ∀ p ∈ ["/x.frag.bin2/0.spv", "/x.frag.bin2/1.spv", "/notes"],
      Path.holdsNul p = false := by
    simp [Path.holdsNul]
  let s := workplace [(["x.frag.bin2", "0.spv"], .link "../notes"),
    (["notes"], .file (.text "old") false)]
  have hopening : stumbling.opening s "x.frag" = .ok ⟨stumblingShop, switch, { store := s }⟩ :=
    opening_within rfl rfl rfl (fun _ => rfl) fun _ => rfl
  obtain ⟨w, outcomes, hvariants, hstore⟩ := variants_stumbling { store := s }
  have hbake : stumbling.bake s "x.frag" = (w, .ok ⟨"/x.frag", outcomes⟩) := by
    rw [bake_eq hopening, hvariants]
    rfl
  -- The first binary leads through its directory and out of it again.
  have hoff : written "/x.frag.bin2/0.spv" "" s = s.put ["notes"] (.file (.text "") false) :=
    written_eq (by decide) (find_of_within 5 (hnul _ (by simp)) rfl (by decide) rfl)
      (.inr ⟨_, rfl⟩)
  have hon : written "/x.frag.bin2/1.spv" "X" (s.put ["notes"] (.file (.text "") false)) =
      (s.put ["notes"] (.file (.text "") false)).put ["x.frag.bin2", "1.spv"]
        (.file (.text "X") false) :=
    written_eq (by decide) (find_of_within 3 (hnul _ (by simp)) rfl (by decide) rfl) (.inl rfl)
  refine ⟨s, _, w, _, "/notes", (Plan.toolchain_deterministic _).confined,
    setup_of_opening hopening, hbake, by decide, ?_, ?_⟩
  · exact content_of_find_file (find_of_within 2 (hnul _ (by simp)) rfl (by decide) rfl)
  · rw [hstore, hoff, hon]
    exact content_of_find_file (find_of_within 2 (hnul _ (by simp)) rfl (by decide) rfl)

end Baker

end ShaderVariants
