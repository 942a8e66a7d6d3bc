import SourceAtlas.Proofs.Files.Lineage
set_option autoImplicit false

namespace SourceAtlas

def Entry.isLink : Entry → Bool
  | .link _ => true
  | _ => false

def Spot.location : Spot → Location
  | .taken location _ => location
  | .vacant location => location

namespace FileTree

/-- Whether no entry of the tree is a link. -/
def LinkFree (tree : FileTree) : Prop :=
  ∀ e ∈ tree.entries, e.2.isLink = false

instance (tree : FileTree) : Decidable tree.LinkFree :=
  inferInstanceAs (Decidable (∀ e ∈ tree.entries, e.2.isLink = false))

theorem LinkFree.entry? {tree : FileTree} (plain : tree.LinkFree) (location : Location)
    (target : String) : tree.entry? location ≠ some (.link target) := by
  intro found
  rcases (entry?_eq_some_iff tree location _).1 found with ⟨-, never⟩ | mem
  · cases never
  · have never := plain _ mem
    cases never

theorem LinkFree.of_le {before after : FileTree} (plain : after.LinkFree) (grown : before ≤ after) :
    before.LinkFree := by
  rintro ⟨location, entry⟩ mem
  cases entry with
  | file contents => rfl
  | directory => rfl
  | link target =>
    have found := (entry?_eq_some_iff before location _).2 (.inr mem)
    exact absurd (grown.2 _ _ found) (plain.entry? location target)

theorem entry?_origin (tree : FileTree) (path : String) :
    tree.entry? (tree.origin path) = some .directory := by
  rw [origin]
  split
  · exact entry?_nil tree
  · exact entry?_here tree

theorem linkFree_add {tree : FileTree} (plain : tree.LinkFree) (location : Location) {entry : Entry}
    (other : entry.isLink = false) : (tree.add location entry).LinkFree := by
  by_cases can : tree.CanAdd location entry
  · intro e mem
    rw [(add_of_canAdd can).1, mem_place] at mem
    rcases mem with rfl | mem
    · exact other
    · exact plain e mem
  · rw [add_of_not_canAdd can]
    exact plain

def advance (location : Location) (name : String) : Location :=
  if name = "." then location else if name = ".." then location.dropLast else location ++ [name]

def destination (tree : FileTree) (path : String) : Location :=
  (Path.names path).foldl advance (tree.origin path)

/-- The names of a path that lead further down. -/
def steps (path : String) : List String :=
  (Path.names path).filter fun name => name != "."

/-- Where a path leads if neither links nor steps upwards are on the way. -/
def goal (tree : FileTree) (path : String) : Location :=
  tree.origin path ++ steps path

theorem destination_of_here {before after : FileTree} (same : after.here = before.here)
    (path : String) : after.destination path = before.destination path := by
  rw [destination, destination, origin, origin, same]

theorem destination_of_le {before after : FileTree} (grown : before ≤ after) (path : String) :
    after.destination path = before.destination path :=
  destination_of_here grown.1 path

theorem goal_of_le {before after : FileTree} (grown : before ≤ after) (path : String) :
    after.goal path = before.goal path := by
  rw [goal, goal, origin, origin, grown.1]

theorem foldl_advance_of_level {names : List String} (level : ".." ∉ names) (location : Location) :
    names.foldl advance location = location ++ names.filter fun name => name != "." := by
  induction names generalizing location with
  | nil => simp
  | cons name names ih =>
    obtain ⟨up, rest⟩ := not_or.1 (List.mem_cons.not.1 level)
    rw [List.foldl_cons, ih rest, advance]
    by_cases dot : name = "."
    · simp [dot]
    · simp [dot, Ne.symm up]

theorem destination_of_level {path : String} (level : ".." ∉ Path.names path) (tree : FileTree) :
    tree.destination path = tree.goal path :=
  foldl_advance_of_level level _

/-- What a lookup finds stands where the names lead one after the other. Unless it is a directory, it
has a name of its own, which is the last one. -/
def Led (location : Location) (names : List String) (spot : Spot) : Prop :=
  spot.location = names.foldl advance location ∧
    (spot ≠ .taken spot.location .directory →
      ∃ init last, names = init ++ [last] ∧ last ≠ "." ∧ last ≠ "..")

theorem Led.cons {location next : Location} {name : String} {names : List String} {spot : Spot}
    (step : advance location name = next) (led : Led next names spot) :
    Led location (name :: names) spot := by
  subst step
  refine ⟨led.1, fun other => ?_⟩
  obtain ⟨init, last, rfl, proper⟩ := led.2 other
  exact ⟨name :: init, last, rfl, proper⟩

theorem Led.last {location : Location} {name : String} {spot : Spot} (dot : name ≠ ".")
    (up : name ≠ "..") (here : spot.location = location ++ [name]) : Led location [name] spot :=
  ⟨by simp [here, advance, dot, up], fun _ => ⟨[], name, rfl, dot, up⟩⟩

theorem arrive_location {slash : Bool} {purpose : Purpose} {location : Location}
    {found : Option Entry} {spot : Spot} (led : arrive slash purpose location found = .ok spot) :
    spot.location = location := by
  unfold arrive at led
  split at led
  · obtain rfl := Except.ok.inj led
    rfl
  · split at led
    · cases led
    · obtain rfl := Except.ok.inj led
      rfl
  · obtain rfl := Except.ok.inj led
    rfl

theorem stride_led {tree : FileTree} (plain : tree.LinkFree) (purpose : Purpose)
    (jump : Bool → Location → List String → Except FileError Spot) (slash : Bool)
    (location : Location) (names : List String) (spot : Spot)
    (found : tree.stride purpose jump slash location names = .ok spot) :
    Led location names spot := by
  induction names using names_induction generalizing location with
  | nil =>
    obtain rfl := Except.ok.inj found
    exact ⟨rfl, fun other => absurd rfl other⟩
  | dot names ih => exact .cons rfl (ih location found)
  | up names ih => exact .cons rfl (ih _ found)
  | name name names dot up ih =>
    have further : advance location name = location ++ [name] := by simp [advance, dot, up]
    -- No link is on the way: every further name leads down by one.
    obtain ⟨-, -, step⟩ := stride_name_ok dot up found
    cases step with
    | directory _ behind => exact .cons further (ih _ behind)
    | link here | jump here => exact absurd here (plain.entry? _ _)
    | last _ _ last arrives =>
      subst last
      exact .last dot up (arrive_location arrives)

theorem locate_led {tree : FileTree} (plain : tree.LinkFree) {purpose : Purpose} {path : String}
    {spot : Spot} (found : tree.locate purpose path = .ok spot) :
    Led (tree.origin path) (Path.names path) spot := by
  rw [locate_of_fits tree purpose (fits_of_locate found)] at found
  exact stride_led plain purpose _ _ _ _ spot found

theorem locate_destination {tree : FileTree} (plain : tree.LinkFree) {purpose : Purpose}
    {path : String} {spot : Spot} (found : tree.locate purpose path = .ok spot) :
    spot.location = tree.destination path :=
  (locate_led plain found).1

/-- What a lookup finds stands at the end of all names, and what it finds vacant has a name of its
own, which is the last one. -/
def Ahead (location : Location) (names : List String) (spot : Spot) : Prop :=
  spot.location = location ++ names.filter (fun name => name != ".") ∧
    ∀ here, spot = .vacant here → ∃ init last, names = init ++ [last] ∧ last ≠ "."

theorem locate_ahead {tree : FileTree} (plain : tree.LinkFree) {purpose : Purpose} {path : String}
    {spot : Spot} (level : ".." ∉ Path.names path) (found : tree.locate purpose path = .ok spot) :
    Ahead (tree.origin path) (Path.names path) spot := by
  obtain ⟨location, named⟩ := locate_led plain found
  refine ⟨location.trans (foldl_advance_of_level level _), ?_⟩
  rintro here rfl
  obtain ⟨init, last, same, visible, -⟩ := named (by simp)
  exact ⟨init, last, same, visible⟩

theorem steps_below {base path : String} (below : Path.Below base path) :
    ∃ rest, steps path = steps base ++ rest := by
  obtain ⟨-, rest, -, same⟩ := below
  exact ⟨_, by rw [steps, same, List.filter_append]; rfl⟩

theorem goal_join {part : String} (relative : Path.isAbsolute part = false) (tree : FileTree)
    (root : String) : tree.goal (Path.join root part) = tree.goal root ++ steps part := by
  simp only [goal, origin, steps, Path.isAbsolute_join relative, Path.names_join relative,
    List.filter_append, List.append_assoc]

theorem goal_below {base path : String} (below : Path.Below base path) (tree : FileTree) :
    tree.goal base <+: tree.goal path := by
  obtain ⟨rest, same⟩ := steps_below below
  refine ⟨rest, ?_⟩
  rw [goal, goal, same, origin, origin, below.1, List.append_assoc]

theorem level_below {base path : String} (below : Path.Below base path)
    (level : ".." ∉ Path.names path) : ".." ∉ Path.names base := by
  obtain ⟨-, rest, -, same⟩ := below
  intro mem
  exact level (by simp [same, mem])

theorem goal_parent {path parent : String} (up : Path.parent? path = some parent)
    (named : parent ≠ "") (tree : FileTree) :
    tree.goal parent <+: tree.goal path ∧
      (tree.goal parent).length < (tree.goal path).length := by
  have below := Path.parent?_below up named
  obtain ⟨anchored, dots, last, tail, -, visible, same, -⟩ := Path.parent?_names up named
  refine ⟨goal_below below tree, ?_⟩
  have length : (steps parent).length < (steps path).length := by
    simp only [steps, same, List.filter_append, List.length_append, List.filter_cons, visible,
      bne_iff_ne, ne_eq, not_false_eq_true, if_true, List.length_cons]
    omega
  simp only [goal, origin, anchored, List.length_append]
  omega

theorem filter_dots {names : List String} (dots : ∀ name ∈ names, name = ".") :
    (names.filter fun name => name != ".") = [] := by
  simpa [List.filter_eq_nil_iff] using dots

theorem goal_dropLast {path parent : String} (up : Path.parent? path = some parent)
    (further : steps path ≠ []) (tree : FileTree) : tree.goal parent = (tree.goal path).dropLast := by
  by_cases named : parent = ""
  · subst named
    obtain ⟨first, rest, cut, idle, root⟩ := Path.parent?_single (.inr up)
    have visible : first ≠ "" := fun blank => by simp [root.2 blank] at up
    have relative : Path.isAbsolute path = false := by
      simp [Path.isAbsolute_eq path first rest cut, visible]
    have dots := filter_dots (Path.filter_idle rest idle)
    have own : steps path = [first].filter fun name => name != "." := by
      rw [steps, Path.names, cut, List.filter_cons_of_pos (by simpa using visible), List.filter_cons,
        List.filter_cons, dots]
      rfl
    have single : steps path = [first] := by
      by_cases dot : first = "."
      · simp [own, dot] at further
      · simp [own, dot]
    have blank : steps "" = [] := by decide
    have here : Path.isAbsolute "" = false := by decide
    rw [goal, goal, blank, single, List.append_nil, List.dropLast_concat, origin, origin, relative,
      here]
  · obtain ⟨anchored, dots, last, tail, idle, visible, same, -⟩ := Path.parent?_names up named
    have own : steps path = steps parent ++ [last] := by
      rw [steps, same, List.filter_append, List.filter_append, List.filter_cons_of_pos (by simpa),
        filter_dots fun dot mem => idle dot (List.mem_append_left _ mem),
        filter_dots fun dot mem => idle dot (List.mem_append_right _ mem), List.append_nil, steps]
    rw [goal, goal, own, ← List.append_assoc, List.dropLast_concat, origin, origin, anchored]

theorem steps_of_no_parent {path : String} (orphan : Path.parent? path = none) : steps path = [] := by
  obtain ⟨first, rest, cut, idle, root⟩ := Path.parent?_single (.inl orphan)
  obtain rfl := root.1 orphan
  rw [steps, Path.names, cut, List.filter_cons_of_neg (by simp)]
  exact filter_dots (Path.filter_idle rest idle)

theorem lineage_below (fuel : Nat) (path : String) :
    ∀ p ∈ lineage fuel path, p = path ∨ Path.Below p path := by
  refine lineage_forall (fun inner parent further up named => ?_) fuel fun _ => .inl rfl
  have below := Path.parent?_below up named
  rcases further with rfl | further
  · exact .inr below
  · exact .inr (below.trans further)

structure Grows (before after : FileTree) (new : Location → Entry → Prop) : Prop where
  le : before ≤ after
  linkFree : after.LinkFree
  new : ∀ location entry, after.entry? location = some entry → before.entry? location = none →
    new location entry

theorem Grows.refl {tree : FileTree} (plain : tree.LinkFree) (new : Location → Entry → Prop) :
    tree.Grows tree new := by
  refine ⟨le_rfl tree, plain, fun location entry found absent => ?_⟩
  rw [found] at absent
  cases absent

theorem Grows.mono {before after : FileTree} {new more : Location → Entry → Prop}
    (grows : before.Grows after new) (weaker : ∀ location entry, new location entry →
      more location entry) : before.Grows after more :=
  ⟨grows.le, grows.linkFree, fun location entry found absent =>
    weaker location entry (grows.new location entry found absent)⟩

theorem Grows.trans {a b c : FileTree} {first second new : Location → Entry → Prop}
    (h₁ : a.Grows b first) (h₂ : b.Grows c second)
    (early : ∀ location entry, first location entry → new location entry)
    (late : ∀ location entry, b.entry? location = none → second location entry →
      new location entry) : a.Grows c new := by
  refine ⟨le_trans h₁.le h₂.le, h₂.linkFree, fun location entry found absent => ?_⟩
  rcases new_or_kept h₂.le found with fresh | made
  · exact late location entry fresh (h₂.new location entry found fresh)
  · exact early location entry (h₁.new location entry made absent)

theorem grows_add {tree : FileTree} (plain : tree.LinkFree) (location : Location) {entry : Entry}
    (other : entry.isLink = false) :
    tree.Grows (tree.add location entry) fun l e => e = entry ∧ l = location := by
  refine ⟨le_add tree location entry, linkFree_add plain location other, fun l e found absent => ?_⟩
  by_cases can : tree.CanAdd location entry
  · rw [entry?_add can] at found
    split at found
    · next here => exact ⟨(Option.some.inj found).symm, here.symm⟩
    · rw [absent] at found
      cases found
  · rw [add_of_not_canAdd can, absent] at found
    cases found

theorem makeDirectory_grows {tree after : FileTree} (plain : tree.LinkFree) {path : String}
    (made : tree.makeDirectory path = .ok after) :
    tree.Grows after fun location entry => entry = .directory ∧ location = tree.destination path := by
  obtain ⟨location, found, rfl⟩ := makeDirectory_ok made
  have here : location = tree.destination path := locate_destination plain found
  exact (grows_add plain location rfl).mono fun l e new => ⟨new.1, new.2.trans here⟩

theorem makeDirectories_made {tree : FileTree} (plain : tree.LinkFree) (path : String) :
    tree.Grows (tree.makeDirectories path).2 fun location entry => entry = .directory ∧
      ∃ p, (p = path ∨ Path.Below p path) ∧ location = tree.destination p := by
  refine makeLineage_keeps (P := fun after => tree.Grows after fun location entry =>
    entry = .directory ∧ ∃ p, (p = path ∨ Path.Below p path) ∧ location = tree.destination p)
    (fun p mem before after grows made => ?_) (.refl plain _)
  have inside := lineage_below (path.length + 1) path p (by simpa using mem)
  refine grows.trans (makeDirectory_grows grows.linkFree made) (fun _ _ new => new) ?_
  rintro location entry - ⟨rfl, rfl⟩
  exact ⟨rfl, p, inside, destination_of_le grows.le p⟩

theorem makeDirectories_grows {tree : FileTree} (plain : tree.LinkFree) {path : String}
    (level : ".." ∉ Path.names path) : tree.Grows (tree.makeDirectories path).2
      fun location entry => entry = .directory ∧ location <+: tree.goal path := by
  refine (makeDirectories_made plain path).mono ?_
  rintro location entry ⟨kind, p, inside, rfl⟩
  refine ⟨kind, ?_⟩
  rcases inside with rfl | below
  · exact (destination_of_level level tree).symm ▸ List.prefix_rfl
  · exact (destination_of_level (level_below below level) tree).symm ▸ goal_below below tree

end FileTree

end SourceAtlas
