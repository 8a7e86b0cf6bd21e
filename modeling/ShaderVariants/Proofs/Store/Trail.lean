import Mathlib.Data.List.Basic
import ShaderVariants.Store

/-!
# The locations that a path passes

Following a path takes one name after another. What a name leads to (`turn`) depends on the node at
one location at most, and the whole way on the nodes at the locations of its `trail`: stores that
agree on them lead the path to the same place (`walk_congr`). A store with other files but the same
directories and links has the same trails (`trail_congr`), so writing files does not change where
paths lead.

`walk_induction` is the induction for all of this: a way ends, or it halts at a name, or the name
leads onward.
-/

namespace ShaderVariants.Store

/-- What a name on the way leads to. -/
inductive Turn where
  /-- The way goes on with more names, so many links and from a location. -/
  | onward (links : Nat) (here : Location) (names : List String)
  /-- The way ends at a place or is refused. -/
  | halt (result : Except FileError Place)

/-- The location at which a name makes `walk` look. -/
def looked (here : Location) (name : String) : Option Location :=
  if name = "." ∨ name = ".." ∨ name.utf8ByteSize > Path.maxName then none
  else some (here ++ [name])

/-- What a name leads to, by the node found there. The names of `rest` follow it. -/
def arrive (follow : Bool) (links : Nat) (here : Location) (name : String) (rest : List String) :
    Option Node → Turn
  | some .directory => .onward links (here ++ [name]) rest
  | some (.link target) =>
    if rest = [] ∧ follow = false then .halt (.ok ⟨here ++ [name], some (.link target)⟩)
    else match links with
      | 0 => .halt (.error .tooManyLinks)
      | links + 1 =>
        .onward links (if Path.isAbsolute target then [] else here) (Path.names target ++ rest)
  | some node =>
    .halt (if rest = [] then .ok ⟨here ++ [name], some node⟩ else .error .notDirectory)
  | none => .halt (if rest = [] then .ok ⟨here ++ [name], none⟩ else .error .notFound)

/-- What a name that is followed by `rest` leads to. -/
def turn (s : Store) (follow : Bool) (links : Nat) (here : Location) (name : String)
    (rest : List String) : Turn :=
  if name = "." then .onward links here rest
  else if name = ".." then .onward links here.dropLast rest
  else if name.utf8ByteSize > Path.maxName then .halt (.error .nameTooLong)
  else arrive follow links here name rest (s.node? (here ++ [name]))

/-- A name stands for the directory itself or the one around it, or it is too long, or the node
that it makes a way look at decides what it leads to. -/
theorem turn_cases (links : ℕ) (here : Location) (name : String) :
    ((name = "." ∨ name = "..") ∧ looked here name = none ∧ ∃ here', ∀ s follow rest,
        turn s follow links here name rest = .onward links here' rest) ∨
      (looked here name = none ∧ ∀ s follow rest,
        turn s follow links here name rest = .halt (.error .nameTooLong)) ∨
      (looked here name = some (here ++ [name]) ∧ ∀ s follow rest,
        turn s follow links here name rest =
          arrive follow links here name rest (s.node? (here ++ [name]))) := by
  unfold looked turn
  -- The tests are made in this order, so each case has the failure of those before it.
  by_cases hdot : name = "."
  · refine .inl ⟨.inl hdot, if_pos (.inl hdot), here, fun s follow rest => ?_⟩
    rw [if_pos hdot]
  by_cases hup : name = ".."
  · refine .inl ⟨.inr hup, if_pos (.inr (.inl hup)), here.dropLast, fun s follow rest => ?_⟩
    rw [if_neg hdot, if_pos hup]
  by_cases hlong : name.utf8ByteSize > Path.maxName
  · refine .inr (.inl ⟨if_pos (.inr (.inr hlong)), fun s follow rest => ?_⟩)
    rw [if_neg hdot, if_neg hup, if_pos hlong]
  · refine .inr (.inr ⟨if_neg (by simp [hdot, hup, hlong]), fun s follow rest => ?_⟩)
    rw [if_neg hdot, if_neg hup, if_neg hlong]

/-- A way is the turn at its first name, and the way from there. -/
theorem walk_cons (s : Store) (follow : Bool) (links : ℕ) (here : Location) (name : String)
    (rest : List String) :
    s.walk follow links here (name :: rest) =
      match s.turn follow links here name rest with
      | .onward links here names => s.walk follow links here names
      | .halt result => result := by
  rw [walk, turn]
  by_cases hdot : name = "."
  · simp only [hdot, if_true]
  by_cases hup : name = ".."
  · simp only [hup, if_true, if_neg (show ¬".." = "." by decide)]
  by_cases hlong : name.utf8ByteSize > Path.maxName
  · simp only [hdot, hup, hlong, if_true, if_false]
  simp only [hdot, hup, hlong, if_false]
  -- Only a link asks for more: whether it is followed, and whether a link is left.
  cases hnode : s.node? (here ++ [name]) with
  | none => rfl
  | some node =>
    cases node with
    | directory => rfl
    | link target =>
      dsimp only [arrive]
      split
      · rfl
      · cases links <;> rfl
    | file content executable => rfl
    | device => rfl

/-- A node that leads onward leaves less of the way: fewer links, or fewer names. -/
theorem lt_of_arrive {follow : Bool} {links links' : ℕ} {here here' : Location} {name : String}
    {rest names : List String} {node : Option Node}
    (h : arrive follow links here name rest node = .onward links' here' names) :
    links' < links ∨ links' = links ∧ names = rest := by
  -- Only a directory and a link lead onward.
  rcases node with _ | _ | _ | target | _
  · cases h
  · cases h
  · cases h
    exact .inr ⟨rfl, rfl⟩
  · simp only [arrive] at h
    split at h
    · cases h
    · cases links with
      | zero => cases h
      | succ links =>
        cases h
        exact .inl (Nat.lt_succ_self _)
  · cases h

/-- A name that leads onward leaves less of the way. -/
theorem lt_of_turn {s : Store} {follow : Bool} {links links' : ℕ} {here here' : Location}
    {name : String} {rest names : List String}
    (h : s.turn follow links here name rest = .onward links' here' names) :
    links' < links ∨ links' = links ∧ names = rest := by
  rcases turn_cases links here name with ⟨-, -, there, hturn⟩ | ⟨-, hturn⟩ | ⟨-, hturn⟩
  · rw [hturn] at h
    cases h
    exact .inr ⟨rfl, rfl⟩
  · rw [hturn] at h
    cases h
  · rw [hturn] at h
    exact lt_of_arrive h

/-- Induction along a way: it has no names left, or it halts at its first name, or that leads onward
and the rest of the way is given. -/
theorem walk_induction (s : Store) (follow : Bool)
    {motive : ℕ → Location → List String → Prop}
    (nil : ∀ links here, motive links here [])
    (halt : ∀ links here name rest result,
      s.turn follow links here name rest = .halt result → motive links here (name :: rest))
    (onward : ∀ links here name rest links' here' names,
      s.turn follow links here name rest = .onward links' here' names →
        motive links' here' names → motive links here (name :: rest))
    (links : ℕ) (here : Location) (names : List String) : motive links here names := by
  match names with
  | [] => exact nil links here
  | name :: rest =>
    match hturn : s.turn follow links here name rest with
    | .halt result => exact halt links here name rest result hturn
    | .onward links' here' names =>
      exact onward links here name rest links' here' names hturn
        (walk_induction s follow nil halt onward links' here' names)
termination_by (links, names.length)
decreasing_by
  -- A link uses up one of those that are left, and any other name is one name less.
  rcases lt_of_turn hturn with h | ⟨rfl, rfl⟩
  · exact Prod.Lex.left _ _ h
  · exact Prod.Lex.right _ (Nat.lt_succ_self _)

/-- The locations at which a way looks, in order. -/
def trail (s : Store) (follow : Bool) (links : Nat) (here : Location) :
    List String → List Location
  | [] => []
  | name :: rest =>
    (looked here name).toList ++
      match _h : s.turn follow links here name rest with
      | .onward links here names => trail s follow links here names
      | .halt _ => []
termination_by names => (links, names.length)
decreasing_by
  rcases lt_of_turn _h with h | ⟨rfl, rfl⟩
  · exact Prod.Lex.left _ _ h
  · exact Prod.Lex.right _ (Nat.lt_succ_self _)

variable {s t : Store} {follow : Bool} {links : ℕ} {here : Location} {name : String}
  {rest names : List String}

/-- A way without names looks nowhere. -/
@[simp]
theorem trail_nil : s.trail follow links here [] = [] := by
  rw [trail]

/-- A way that halts at its first name looks there at most. -/
theorem trail_of_halt {result : Except FileError Place}
    (h : s.turn follow links here name rest = .halt result) :
    s.trail follow links here (name :: rest) = (looked here name).toList := by
  rw [trail]
  split
  · rename_i h'
    rw [h] at h'
    cases h'
  · exact List.append_nil _

/-- A way that its first name leads onward looks there, and then where the rest of it looks. -/
theorem trail_of_onward {links' : ℕ} {here' : Location}
    (h : s.turn follow links here name rest = .onward links' here' names) :
    s.trail follow links here (name :: rest) =
      (looked here name).toList ++ s.trail follow links' here' names := by
  rw [trail]
  split
  · rename_i h'
    rw [h] at h'
    cases h'
    rfl
  · rename_i h'
    rw [h] at h'
    cases h'

/-- Where a way leads that takes no more than some turns. -/
def walkWithin (s : Store) (follow : Bool) :
    ℕ → ℕ → Location → List String → Option (Except FileError Place)
  | 0, _, _, _ => none
  | _ + 1, _, here, [] => some (.ok ⟨here, some .directory⟩)
  | turns + 1, links, here, name :: rest =>
    match s.turn follow links here name rest with
    | .onward links here names => walkWithin s follow turns links here names
    | .halt result => some result

/-- A way that takes no more than some turns leads where it leads within them. -/
theorem walk_of_within {turns : ℕ} {result : Except FileError Place}
    (h : s.walkWithin follow turns links here names = some result) :
    s.walk follow links here names = result := by
  induction turns generalizing links here names with
  | zero => cases h
  | succ turns ih =>
    cases names with
    | nil =>
      cases h
      rw [walk]
    | cons name rest =>
      rw [walkWithin] at h
      rw [walk_cons]
      cases hturn : s.turn follow links here name rest with
      | onward links' here' names' =>
        rw [hturn] at h
        exact ih h
      | halt result' =>
        rw [hturn] at h
        cases h
        rfl

/-! ## Stores that lead alike -/

/-- What is left of a node when the files are left out: directories, links and devices. -/
def lasting : Option Node → Option Node
  | some (.file _ _) => none
  | node => node

/-- What lasts is there. -/
theorem lasting_eq_some {node : Option Node} {n : Node} (h : lasting node = some n) :
    node = some n := by
  rcases node with _ | _ | _ | _ | _ <;> cases h <;> rfl

/-- Where a way leads, whatever files there are: the location and the node there, unless it is a
file. A refused way leads nowhere. -/
def outline : Except FileError Place → Option (Location × Option Node)
  | .ok place => some (place.location, lasting place.node)
  | .error _ => none

/-- What a name leads to, whatever files there are. -/
def Turn.outline : Turn → Turn ⊕ Option (Location × Option Node)
  | onward links here names => .inl (onward links here names)
  | halt result => .inr (Store.outline result)

/-- Files on the way say no more than nothing does. -/
theorem outline_arrive (node : Option Node) :
    (arrive follow links here name rest node).outline =
      (arrive follow links here name rest (lasting node)).outline := by
  rcases node with _ | _ | _ | _ | _
  · rfl
  -- A file ends the way where nothing would, and is refused where nothing is, for another reason.
  · by_cases hrest : rest = [] <;> simp [arrive, lasting, Turn.outline, outline, hrest]
  · rfl
  · rfl
  · rfl

/-- Stores with the same directories and links where a name makes a way look turn it alike. -/
theorem outline_turn_congr
    (h : ∀ l ∈ looked here name, lasting (s.node? l) = lasting (t.node? l)) :
    (s.turn follow links here name rest).outline =
      (t.turn follow links here name rest).outline := by
  rcases turn_cases links here name with ⟨-, -, there, hturn⟩ | ⟨-, hturn⟩ | ⟨hlooked, hturn⟩
  · rw [hturn, hturn]
  · rw [hturn, hturn]
  · rw [hturn, hturn, outline_arrive, h _ hlooked, ← outline_arrive]

/-- Stores with the same nodes where a name makes a way look turn it alike. -/
theorem turn_congr (h : ∀ l ∈ looked here name, s.node? l = t.node? l) :
    s.turn follow links here name rest = t.turn follow links here name rest := by
  rcases turn_cases links here name with ⟨-, -, there, hturn⟩ | ⟨-, hturn⟩ | ⟨hlooked, hturn⟩
  · rw [hturn, hturn]
  · rw [hturn, hturn]
  · rw [hturn, hturn, h _ hlooked]

/-- A name that leads onward, whatever files there are, leads onward. -/
theorem onward_of_outline {turn : Turn}
    (h : (Turn.onward links here names).outline = turn.outline) :
    turn = .onward links here names := by
  cases turn with
  | onward links' here' names' => exact (Sum.inl.inj h).symm
  | halt result => cases h

/-- A name that ends a way, whatever files there are, ends it with the same outline. -/
theorem halt_of_outline {result : Except FileError Place} {turn : Turn}
    (h : (Turn.halt result).outline = turn.outline) :
    ∃ result', turn = .halt result' ∧ outline result = outline result' := by
  cases turn with
  | onward links' here' names' => cases h
  | halt result' => exact ⟨result', rfl, Sum.inr.inj h⟩

/-- Stores with the same directories and links along a way have the same trail there, and lead to
the same outline. -/
theorem trail_congr (links : ℕ) (here : Location) (names : List String)
    (h : ∀ l ∈ s.trail follow links here names, lasting (s.node? l) = lasting (t.node? l)) :
    t.trail follow links here names = s.trail follow links here names ∧
      outline (s.walk follow links here names) = outline (t.walk follow links here names) := by
  induction links, here, names using walk_induction s follow with
  | nil links here => exact ⟨by rw [trail_nil, trail_nil], by rw [walk, walk]⟩
  | halt links here name rest result hturn =>
    rw [trail_of_halt hturn] at h
    have hout : (s.turn follow links here name rest).outline =
        (t.turn follow links here name rest).outline :=
      outline_turn_congr fun l hl => h l (by simpa using hl)
    rw [hturn] at hout
    -- The other way halts here too, perhaps at another file or for another reason.
    obtain ⟨result', hturn', hresult⟩ := halt_of_outline hout
    refine ⟨by rw [trail_of_halt hturn, trail_of_halt hturn'], ?_⟩
    rw [walk_cons, walk_cons, hturn, hturn']
    exact hresult
  | onward links here name rest links' here' names hturn ih =>
    rw [trail_of_onward hturn] at h
    have hout : (s.turn follow links here name rest).outline =
        (t.turn follow links here name rest).outline :=
      outline_turn_congr fun l hl => h l (List.mem_append_left _ (by simpa using hl))
    rw [hturn] at hout
    have hturn' := onward_of_outline hout
    obtain ⟨htrail, hwalk⟩ := ih fun l hl => h l (List.mem_append_right _ hl)
    refine ⟨by rw [trail_of_onward hturn, trail_of_onward hturn', htrail], ?_⟩
    rw [walk_cons, walk_cons, hturn, hturn']
    exact hwalk

/-- Stores with the same nodes along a way lead to the same place. -/
theorem walk_congr (links : ℕ) (here : Location) (names : List String)
    (h : ∀ l ∈ s.trail follow links here names, s.node? l = t.node? l) :
    s.walk follow links here names = t.walk follow links here names := by
  induction links, here, names using walk_induction s follow with
  | nil links here => rw [walk, walk]
  | halt links here name rest result hturn =>
    rw [trail_of_halt hturn] at h
    have hturn' : s.turn follow links here name rest = t.turn follow links here name rest :=
      turn_congr fun l hl => h l (by simpa using hl)
    rw [walk_cons, walk_cons, ← hturn', hturn]
  | onward links here name rest links' here' names hturn ih =>
    rw [trail_of_onward hturn] at h
    have hturn' : s.turn follow links here name rest = t.turn follow links here name rest :=
      turn_congr fun l hl => h l (List.mem_append_left _ (by simpa using hl))
    rw [walk_cons, walk_cons, ← hturn', hturn]
    exact ih fun l hl => h l (List.mem_append_right _ hl)

/-! ## The end of a way -/

/-- A node that ends a way with a place is at that place, and is no directory. -/
theorem arrive_halt_ok {node : Option Node} {place : Place}
    (h : arrive follow links here name rest node = .halt (.ok place)) :
    place = ⟨here ++ [name], node⟩ ∧ node ≠ some .directory := by
  -- A directory leads onward, and so does a link that is followed.
  rcases node with _ | _ | _ | target | _
  · simp only [arrive] at h
    split at h <;> cases h
    exact ⟨rfl, by simp⟩
  · simp only [arrive] at h
    split at h <;> cases h
    exact ⟨rfl, by simp⟩
  · cases h
  · simp only [arrive] at h
    split at h
    · cases h
      exact ⟨rfl, by simp⟩
    · cases links <;> cases h
  · simp only [arrive] at h
    split at h <;> cases h
    exact ⟨rfl, by simp⟩

/-- A name that ends a way with a place ends it where it made the way look, at no directory. -/
theorem turn_halt_ok {place : Place}
    (h : s.turn follow links here name rest = .halt (.ok place)) :
    looked here name = some place.location ∧ place.location ≠ [] ∧
      s.node? place.location = place.node ∧ place.node ≠ some .directory := by
  rcases turn_cases links here name with ⟨-, -, there, hturn⟩ | ⟨-, hturn⟩ | ⟨hlooked, hturn⟩
  · rw [hturn] at h
    cases h
  · rw [hturn] at h
    cases h
  · rw [hturn] at h
    obtain ⟨rfl, hdir⟩ := arrive_halt_ok h
    exact ⟨hlooked, by simp, rfl, hdir⟩

/-- A way to a place that is no directory looks there, and finds what is there. -/
theorem walk_place {place : Place} (links : ℕ) (here : Location) (names : List String)
    (h : s.walk follow links here names = .ok place) (hdir : place.node ≠ some .directory) :
    place.location ∈ s.trail follow links here names ∧ place.location ≠ [] ∧
      s.node? place.location = place.node := by
  induction links, here, names using walk_induction s follow with
  | nil links here =>
    -- Such a way ends at the directory where it begins.
    rw [walk] at h
    cases h
    exact absurd rfl hdir
  | halt links here name rest result hturn =>
    rw [walk_cons, hturn] at h
    obtain rfl : result = .ok place := h
    obtain ⟨hlooked, hne, hnode, -⟩ := turn_halt_ok hturn
    refine ⟨?_, hne, hnode⟩
    rw [trail_of_halt hturn, hlooked]
    exact List.mem_singleton_self _
  | onward links here name rest links' here' names hturn ih =>
    rw [walk_cons, hturn] at h
    obtain ⟨hmem, hne, hnode⟩ := ih h
    refine ⟨?_, hne, hnode⟩
    rw [trail_of_onward hturn]
    exact List.mem_append_right _ hmem

end ShaderVariants.Store
