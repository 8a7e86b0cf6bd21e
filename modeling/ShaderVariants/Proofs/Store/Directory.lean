import ShaderVariants.Proofs.Store.Descent

/-!
# Making directories

Where a directory was made, or was before, the path leads to a directory
(`isDirectory_of_ensureDir`), and so does every path that did (`isDirectory_mono`).
-/

namespace ShaderVariants.Store

variable {s t : Store} {follow : Bool} {links links' : ℕ} {here here' there l : Location}
  {name : String} {rest names : List String} {p q : Path}

/-- What is at a location after a node was put somewhere. -/
theorem node?_put (hl : l ≠ []) (node : Node) (l' : Location) :
    (s.put l node).node? l' = if l = l' then some node else s.node? l' := by
  simp only [node?, put, Table.get?_insert]
  by_cases hroot : l' = []
  · rw [if_pos hroot, if_pos hroot, hroot, if_neg hl]
  · rw [if_neg hroot, if_neg hroot]

/-- A path leads to a directory. -/
theorem isDirectory_iff :
    s.isDirectory p = true ↔ ∃ l, s.find p true = .ok ⟨l, some .directory⟩ := by
  unfold isDirectory
  split
  · rename_i l hfind
    exact ⟨fun _ => ⟨l, hfind⟩, fun _ => rfl⟩
  · rename_i hfind
    constructor
    · intro h
      cases h
    · rintro ⟨l, h⟩
      exact absurd h (hfind l)

/-- A node that leads onward where the last name is not followed leads onward where it is. -/
theorem arrive_true_of_onward {node : Option Node}
    (h : arrive follow links here name rest node = .onward links' here' names) :
    arrive true links here name rest node = .onward links' here' names := by
  cases follow with
  | true => exact h
  | false =>
    rcases node with _ | _ | _ | target | _
    · cases h
    · cases h
    · exact h
    · simp only [arrive] at h
      split at h
      · cases h
      · simpa only [arrive, Bool.true_eq_false, and_false, if_false] using h
    · cases h

/-- A name that leads onward where the last name is not followed leads onward where it is. -/
theorem turn_true_of_onward
    (h : s.turn follow links here name rest = .onward links' here' names) :
    s.turn true links here name rest = .onward links' here' names := by
  rcases turn_cases links here name with ⟨-, -, there, hturn⟩ | ⟨-, hturn⟩ | ⟨-, hturn⟩
  · rw [hturn] at h ⊢
    exact h
  · rw [hturn] at h ⊢
    exact h
  · rw [hturn] at h ⊢
    exact arrive_true_of_onward h

/-- A name that ends a way where nothing is leads to the directory that is made there. -/
theorem turn_put_directory
    (h : s.turn follow links here name rest = .halt (.ok ⟨l, none⟩)) :
    (s.put l .directory).turn true links here name rest = .onward links l [] := by
  rcases turn_cases links here name with ⟨-, -, there, hturn⟩ | ⟨-, hturn⟩ | ⟨-, hturn⟩
  · rw [hturn] at h
    cases h
  · rw [hturn] at h
    cases h
  · rw [hturn] at h ⊢
    -- The name that halted at nothing now arrives at the directory.
    obtain ⟨hplace, -⟩ := arrive_halt_ok h
    obtain ⟨rfl, hnone⟩ := Place.mk.inj hplace
    rw [node?_put (by simp), if_pos rfl]
    rw [← hnone, arrive] at h
    split at h
    · rename_i hrest
      rw [hrest]
      rfl
    · cases h

/-- A way to a place where nothing is leads to the directory that is made there. -/
theorem walk_put_directory (links : ℕ) (here : Location) (names : List String)
    (h : s.walk follow links here names = .ok ⟨l, none⟩) :
    (s.put l .directory).walk true links here names = .ok ⟨l, some .directory⟩ := by
  obtain ⟨-, hroot, hnone⟩ := walk_place _ _ _ h (by simp)
  induction links, here, names using walk_induction s follow with
  | nil links here =>
    rw [walk] at h
    cases h
  | halt links here name rest result hturn =>
    rw [walk_cons, hturn] at h
    obtain rfl : result = .ok ⟨l, none⟩ := h
    rw [walk_cons, turn_put_directory hturn]
    simp only [walk]
  | onward links here name rest links' here' names hturn ih =>
    rw [walk_cons, hturn] at h
    -- A name that leads onward looks at a directory or link, and that is not where nothing is.
    have hnode : ∀ l' ∈ looked here name, s.node? l' = (s.put l .directory).node? l' := by
      intro l' hl'
      rw [node?_put hroot, if_neg]
      rintro rfl
      rcases node_of_turn_onward hturn hl' with hdir | ⟨target, hlink⟩
      · rw [hnone] at hdir
        cases hdir
      · rw [hnone] at hlink
        cases hlink
    rw [walk_cons, ← turn_congr hnode, turn_true_of_onward hturn]
    exact ih h

/-- Making a directory where nothing is leaves the ways to the other directories. -/
theorem walk_put_of_directory (hnone : s.node? l = none) (hl : l ≠ []) (node : Node) (links : ℕ)
    (here : Location) (names : List String)
    (h : s.walk true links here names = .ok ⟨there, some .directory⟩) :
    (s.put l node).walk true links here names = .ok ⟨there, some .directory⟩ := by
  rw [← h]
  refine (walk_congr _ _ _ fun l' hl' => ?_).symm
  rw [node?_put hl, if_neg]
  rintro rfl
  rcases node_of_mem_trail _ _ _ h hl' with hdir | ⟨target, hlink⟩
  · rw [hnone] at hdir
    cases hdir
  · rw [hnone] at hlink
    cases hlink

/-- A new directory is put where nothing was. -/
theorem makeDir_eq (hp : Path.endsInSlash p = false) :
    s.makeDir p = do
      let place ← s.find p false
      match place.node with
      | some _ => throw .alreadyExists
      | none => return s.put place.location .directory := by
  rw [makeDir, newNames, if_neg (by rw [hp]; decide)]
  rfl

/-- Making sure of a directory changes nothing where there is one, and else puts one where nothing
was. -/
theorem ensureDir_cases (hp : Path.endsInSlash p = false) (h : s.ensureDir p = .ok t) :
    t = s ∧ s.isDirectory p = true ∨
      ∃ l, s.find p false = .ok ⟨l, none⟩ ∧ t = s.put l .directory := by
  unfold ensureDir at h
  split at h
  · rename_i hmade
    cases h
    rw [makeDir_eq hp] at hmade
    obtain ⟨⟨l, node⟩, hfind, hput⟩ := Sequence.bind_eq_ok_iff.1 hmade
    cases node with
    | some node => cases hput
    | none =>
      cases hput
      exact .inr ⟨l, hfind, rfl⟩
  · split at h
    · rename_i hdir
      cases h
      exact .inl ⟨rfl, hdir⟩
    · cases h

/-- Making sure of a directory makes one where nothing is. -/
theorem ensureDir_of_find_none (hp : Path.endsInSlash p = false)
    (h : s.find p false = .ok ⟨l, none⟩) : s.ensureDir p = .ok (s.put l .directory) := by
  rw [ensureDir, makeDir_eq hp, h]
  rfl

/-- Where something is, no directory is made, and it has to be one. -/
theorem ensureDir_of_find_some {node : Node} (hp : Path.endsInSlash p = false)
    (h : ∀ follow, s.find p follow = .ok ⟨l, some node⟩) :
    s.ensureDir p = if node = .directory then .ok s else .error .alreadyExists := by
  have hmake : s.makeDir p = .error .alreadyExists := by
    rw [makeDir_eq hp, h false]
    rfl
  have hdir : s.isDirectory p = true ↔ node = .directory := by
    rw [isDirectory_iff, h true]
    simp
  rw [ensureDir, hmake]
  simp only [hdir]

/-- Making sure of a directory that is there changes nothing. -/
theorem ensureDir_of_find (hp : Path.endsInSlash p = false)
    (h : ∀ follow, s.find p follow = .ok ⟨l, some .directory⟩) : s.ensureDir p = .ok s := by
  rw [ensureDir_of_find_some hp h, if_pos rfl]

/-- Where nothing was, a path leads to the directory that is made there. -/
theorem find_put_directory (h : s.find p false = .ok ⟨l, none⟩) :
    (s.put l .directory).find p true = .ok ⟨l, some .directory⟩ := by
  rw [find_eq_walk h]
  exact walk_put_directory _ _ _ ((find_eq_walk h s false).symm.trans h)

/-- A path where a directory was made sure of leads to a directory. -/
theorem isDirectory_of_ensureDir (hp : Path.endsInSlash p = false) (h : s.ensureDir p = .ok t) :
    t.isDirectory p = true := by
  rcases ensureDir_cases hp h with ⟨rfl, hdir⟩ | ⟨l, hfind, rfl⟩
  · exact hdir
  · exact isDirectory_iff.2 ⟨l, find_put_directory hfind⟩

/-- A path that leads to a directory leads there after another directory was made sure of. -/
theorem find_directory_mono (hp : Path.endsInSlash p = false) (h : s.ensureDir p = .ok t)
    (hq : s.find q true = .ok ⟨there, some .directory⟩) :
    t.find q true = .ok ⟨there, some .directory⟩ := by
  rcases ensureDir_cases hp h with ⟨rfl, -⟩ | ⟨l, hfind, rfl⟩
  · exact hq
  · obtain ⟨-, hl, hnone⟩ := find_place hfind (by simp)
    rw [find_eq_walk hq]
    exact walk_put_of_directory hnone hl _ _ _ _ ((find_eq_walk hq s true).symm.trans hq)

/-- A path that leads to a directory does so after another directory was made sure of. -/
theorem isDirectory_mono (hp : Path.endsInSlash p = false) (h : s.ensureDir p = .ok t)
    (hq : s.isDirectory q = true) : t.isDirectory q = true := by
  obtain ⟨there, hthere⟩ := isDirectory_iff.1 hq
  exact isDirectory_iff.2 ⟨there, find_directory_mono hp h hthere⟩

end ShaderVariants.Store
