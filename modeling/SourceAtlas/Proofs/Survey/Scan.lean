import SourceAtlas.Proofs.Survey.SourceFiles
import SourceAtlas.Proofs.Text.Bytes
set_option autoImplicit false

/-!
# What a scan finds

The source files below a directory are those files and links to files that lie, through directories
that are not excluded, below it and whose names end in the extension, each of them once and in the
order of the bytes of their names. A walk that never enters an excluded directory finds just these.
-/

namespace SourceAtlas

def Settings.enters (settings : Settings) (name : String) : Bool :=
  !settings.excluded.contains name

namespace FileTree

/-- The source file with a name that is below a path behind other names. -/
def sourceAt (root : String) (front : Location) (name : String) : SourceFile :=
  ⟨name, "/".intercalate (front ++ [name]), pathBelow root (front ++ [name])⟩

/-- Whether a source file with a name is below a directory behind other names. -/
structure IsSource (tree : FileTree) (settings : Settings) (root : String) (base front : Location)
    (name : String) : Prop where
  /-- The names before it are those of directories, not of links to them, and none is excluded. -/
  entered : ∀ above dir below, front = above ++ dir :: below →
    tree.entry? (base ++ above ++ [dir]) = some .directory ∧ dir ∉ settings.excluded
  /-- The directory that it is in can be opened. -/
  opened : opens root front = true
  /-- It is a file, or a link that resolves to one. -/
  stands : (∃ contents, tree.entry? (base ++ front ++ [name]) = some (.file contents)) ∨
    (∃ target, tree.entry? (base ++ front ++ [name]) = some (.link target)) ∧
      tree.isFile (pathBelow root (front ++ [name])) = true
  ends : ∃ stem, name = stem ++ "." ++ settings.extension

variable {tree : FileTree} {settings : Settings} {root : String} {base : Location}

theorem IsSource.proper {front : Location} {name : String}
    (source : tree.IsSource settings root base front name) :
    ∀ part ∈ front ++ [name], isProperName part = true := by
  intro part mem
  have areProper : (base ++ front ++ [name]).all isProperName = true := by
    rcases source.stands with ⟨contents, found⟩ | ⟨⟨target, found⟩, -⟩
    · exact entry?_isProperName found
    · exact entry?_isProperName found
  rw [List.append_assoc] at areProper
  exact List.all_eq_true.1 areProper part (List.mem_append_right _ mem)

theorem isVisited_eq_reaches {names : Location} {entry : Entry} (other : entry ≠ .directory) :
    isVisited settings.enters names entry = settings.reaches names := by
  induction names with
  | nil => rfl
  | cons name names ih =>
    cases names with
    | nil => simp [isVisited, Settings.reaches, other]
    | cons next names =>
      rw [isVisited.eq_3 _ _ _ _ (List.cons_ne_nil _ _), ih]
      simp [Settings.reaches, Settings.enters]

theorem sourceFile?_eq_visited (found : Location × Entry) :
    tree.sourceFile? settings root found =
      if isVisited settings.enters found.1 found.2 then
        tree.sourceFile? { settings with excluded := [] } root found
      else none := by
  obtain ⟨names, entry⟩ := found
  by_cases directory : entry = .directory
  · subst directory
    simp [sourceFile?, isCandidate]
  · have free : ({ settings with excluded := [] } : Settings).reaches names = true := by
      simp [Settings.reaches]
    have same : ({ settings with excluded := [] } : Settings).suffix = settings.suffix := rfl
    rw [isVisited_eq_reaches directory, sourceFile?, sourceFile?]
    simp only [free, same, Bool.true_and]
    by_cases reached : settings.reaches names = true
    · simp [reached]
    · simp [reached]

/-- A walk from directory to directory that enters no excluded one, and none that it cannot open,
comes to the source files in their order; it does not look for excluded names on the way to them. -/
theorem sourceFiles_eq_visit (directory : tree.view? root = some (base, .directory)) {depth : Nat}
    (deep : ∀ e ∈ tree.entries, e.1.length ≤ depth) :
    tree.sourceFiles settings root =
      (tree.visit settings.enters depth (opens root) base).filterMap
        (tree.sourceFile? { settings with excluded := [] } root) := by
  rw [sourceFiles_of_isDirectory ((isDirectory_iff tree root).2 ⟨base, directory⟩),
    visit_eq tree _ depth _ base deep fun _ _ => opens_of_append, ← entriesUnder_eq directory,
    List.filterMap_filter]
  exact List.filterMap_congr fun found _ => sourceFile?_eq_visited found

theorem reaches_concat_iff (front : Location) (name : String) :
    settings.reaches (front ++ [name]) = true ↔ ∀ dir ∈ front, dir ∉ settings.excluded := by
  simp [Settings.reaches]

theorem endsIn_suffix_iff (name : String) :
    Text.endsIn name settings.suffix = true ↔ ∃ stem, name = stem ++ "." ++ settings.extension := by
  rw [Text.endsIn, List.isSuffixOf_iff_suffix, Settings.suffix]
  constructor
  · rintro ⟨stem, same⟩
    refine ⟨String.ofList stem, String.toList_inj.1 ?_⟩
    simpa using same.symm
  · rintro ⟨stem, rfl⟩
    exact ⟨stem.toList, by simp⟩

theorem isCandidate_iff {front : Location} {name : String} {entry : Entry}
    (found : tree.entry? (base ++ front ++ [name]) = some entry) (path : String) :
    tree.isCandidate path entry = true ↔
      (∃ contents, tree.entry? (base ++ front ++ [name]) = some (.file contents)) ∨
        (∃ target, tree.entry? (base ++ front ++ [name]) = some (.link target)) ∧
          tree.isFile path = true := by
  rw [found]
  cases entry with
  | file contents => simp [isCandidate]
  | directory => simp [isCandidate]
  | link target => simp [isCandidate]

theorem mem_visit_concat {depth : Nat} {names : Location} {entry : Entry}
    (mem : (names, entry) ∈ tree.visit settings.enters depth (opens root) base) :
    ∃ front name, names = front ++ [name] ∧
      tree.entry? (base ++ front ++ [name]) = some entry ∧ opens root front = true := by
  obtain ⟨visible, -, found, -, way⟩ := (mem_visit ..).1 mem
  obtain ⟨front, name, rfl⟩ := (List.eq_nil_or_concat' names).resolve_left visible
  refine ⟨front, name, rfl, by rwa [List.append_assoc], way front ?_⟩
  exact List.dropLast_concat ▸ List.prefix_rfl

theorem sourceFile?_eq_some_iff {depth : Nat} {front : Location} {name : String} {entry : Entry}
    (mem : (front ++ [name], entry) ∈ tree.visit settings.enters depth (opens root) base)
    (file : SourceFile) :
    tree.sourceFile? { settings with excluded := [] } root (front ++ [name], entry) = some file ↔
      tree.IsSource settings root base front name ∧ sourceAt root front name = file := by
  obtain ⟨-, -, standing, visited, way⟩ := (mem_visit ..).1 mem
  have found : tree.entry? (base ++ front ++ [name]) = some entry := by rwa [List.append_assoc]
  have checks : (({ settings with excluded := [] } : Settings).reaches (front ++ [name]) &&
      tree.isCandidate (pathBelow root (front ++ [name])) entry &&
      Text.endsIn name settings.suffix) = true ↔ tree.IsSource settings root base front name := by
    rw [Bool.and_eq_true, Bool.and_eq_true, reaches_concat_iff, isCandidate_iff found,
      endsIn_suffix_iff]
    constructor
    · rintro ⟨⟨-, stands⟩, ends⟩
      have other : entry ≠ .directory := by
        rintro rfl
        simp [standing] at stands
      rw [isVisited_eq_reaches other, reaches_concat_iff] at visited
      refine ⟨?_, way front (List.dropLast_concat ▸ List.prefix_rfl), stands, ends⟩
      rintro above dir below rfl
      have onwards : tree.entry? (base ++ above ++ [dir] ++ (below ++ [name])) = some entry := by
        simpa using found
      exact ⟨entry?_above onwards (by simp), visited dir (by simp)⟩
    · intro source
      exact ⟨⟨fun _ _ => List.not_mem_nil, source.stands⟩, source.ends⟩
  rw [← checks, sourceFile?]
  simp [sourceAt, Settings.suffix]

theorem IsSource.visited {depth : Nat} {front : Location} {name : String}
    (source : tree.IsSource settings root base front name)
    (deep : ∀ e ∈ tree.entries, e.1.length ≤ depth) :
    ∃ entry, (front ++ [name], entry) ∈ tree.visit settings.enters depth (opens root) base := by
  obtain ⟨entry, found, other⟩ : ∃ entry, tree.entry? (base ++ front ++ [name]) = some entry ∧
      entry ≠ .directory := by
    rcases source.stands with ⟨contents, found⟩ | ⟨⟨target, found⟩, -⟩
    · exact ⟨_, found, by simp⟩
    · exact ⟨_, found, by simp⟩
  refine ⟨entry, ?_⟩
  rw [visit_eq tree _ depth _ base deep fun _ _ => opens_of_append, List.mem_filter,
    List.mem_filter, mem_entriesBelow_iff, List.dropLast_concat, isVisited_eq_reaches other,
    reaches_concat_iff]
  refine ⟨⟨⟨by simp, by rwa [← List.append_assoc]⟩, source.opened⟩, fun dir mem => ?_⟩
  obtain ⟨above, below, cut⟩ := List.append_of_mem mem
  exact (source.entered above dir below cut).2

def position? (tree : FileTree) (settings : Settings) (root : String) (found : Location × Entry) :
    Option (Location × String) :=
  (tree.sourceFile? { settings with excluded := [] } root found).map fun file =>
    (found.1.dropLast, file.filename)

theorem position?_eq_some_iff {depth : Nat} {names front : Location} {name : String} {entry : Entry}
    (mem : (names, entry) ∈ tree.visit settings.enters depth (opens root) base) :
    tree.position? settings root (names, entry) = some (front, name) ↔
      tree.IsSource settings root base front name ∧ names = front ++ [name] := by
  obtain ⟨front', name', rfl, -⟩ := mem_visit_concat mem
  rw [position?, Option.map_eq_some_iff]
  constructor
  · rintro ⟨file, isFile, same⟩
    obtain ⟨source, rfl⟩ := (sourceFile?_eq_some_iff mem file).1 isFile
    rw [List.dropLast_concat] at same
    obtain ⟨rfl, rfl⟩ := Prod.mk.inj same
    exact ⟨source, rfl⟩
  · rintro ⟨source, same⟩
    obtain ⟨rfl, rfl⟩ := List.append_singleton_inj.1 same
    exact ⟨_, (sourceFile?_eq_some_iff mem _).2 ⟨source, rfl⟩, by simp [sourceAt]⟩

def positions (tree : FileTree) (settings : Settings) (root : String) (base : Location)
    (depth : Nat) : List (Location × String) :=
  (tree.visit settings.enters depth (opens root) base).filterMap (tree.position? settings root)

theorem sourceFiles_eq_map (directory : tree.view? root = some (base, .directory)) {depth : Nat}
    (deep : ∀ e ∈ tree.entries, e.1.length ≤ depth) :
    tree.sourceFiles settings root =
      (tree.positions settings root base depth).map fun p => sourceAt root p.1 p.2 := by
  rw [sourceFiles_eq_visit directory deep, positions, List.map_filterMap]
  refine List.filterMap_congr ?_
  rintro ⟨names, entry⟩ mem
  obtain ⟨front, name, rfl, -⟩ := mem_visit_concat mem
  rw [position?, Option.map_map]
  cases here : tree.sourceFile? { settings with excluded := [] } root (front ++ [name], entry) with
  | none => rfl
  | some file =>
    obtain ⟨-, rfl⟩ := (sourceFile?_eq_some_iff mem file).1 here
    simp [sourceAt]

theorem mem_positions_iff {depth : Nat} (deep : ∀ e ∈ tree.entries, e.1.length ≤ depth)
    (front : Location) (name : String) :
    (front, name) ∈ tree.positions settings root base depth ↔
      tree.IsSource settings root base front name := by
  rw [positions, List.mem_filterMap]
  constructor
  · rintro ⟨⟨names, entry⟩, mem, here⟩
    exact ((position?_eq_some_iff mem).1 here).1
  · intro source
    obtain ⟨entry, mem⟩ := source.visited deep
    exact ⟨_, mem, (position?_eq_some_iff mem).2 ⟨source, rfl⟩⟩

theorem positions_ordered (tree : FileTree) (settings : Settings) (root : String) (base : Location)
    (depth : Nat) : (tree.positions settings root base depth).Pairwise fun a b =>
      (a.1 ++ [a.2]).map Text.bytes < (b.1 ++ [b.2]).map Text.bytes := by
  rw [positions, List.pairwise_filterMap]
  refine (visit_ordered tree _ depth _ base).imp_of_mem fun {first second} held held' less => ?_
  rintro ⟨front, name⟩ here ⟨front', name'⟩ here'
  rw [((position?_eq_some_iff held).1 here).2, ((position?_eq_some_iff held').1 here').2] at less
  exact Text.map_bytes_lt less

theorem mem_sourceFiles_iff (directory : tree.view? root = some (base, .directory))
    (file : SourceFile) : file ∈ tree.sourceFiles settings root ↔
      ∃ front name, tree.IsSource settings root base front name ∧
        sourceAt root front name = file := by
  obtain ⟨depth, deep⟩ := exists_depth tree
  rw [sourceFiles_eq_map directory deep, List.mem_map]
  simp only [Prod.exists, mem_positions_iff deep]

/-- The scan of a directory finds exactly the source files below it, in the order of the bytes of
their names, so that each is found once. -/
theorem sourceFiles_exact (tree : FileTree) (settings : Settings) (root : String) (base : Location)
    (directory : tree.view? root = some (base, .directory)) :
    ∃ found : List (Location × String),
      tree.sourceFiles settings root = found.map (fun p => sourceAt root p.1 p.2) ∧
      (∀ front name, (front, name) ∈ found ↔ tree.IsSource settings root base front name) ∧
      found.Pairwise fun a b =>
        (a.1 ++ [a.2]).map Text.bytes < (b.1 ++ [b.2]).map Text.bytes := by
  obtain ⟨depth, deep⟩ := exists_depth tree
  exact ⟨_, sourceFiles_eq_map directory deep, mem_positions_iff deep, positions_ordered ..⟩

theorem sourceFiles_exact_linked :
    let tree := ((((empty.add ["a"] .directory).add ["a", "z.py"] (.file .empty)).add ["a.py"]
      (.link "a/z.py")).add ["venv"] .directory).add ["venv", "b.py"] (.file .empty)
    tree.view? "." = some ([], .directory) ∧ ∃ found : List (Location × String),
      tree.sourceFiles Settings.standard "." = found.map (fun p => sourceAt "." p.1 p.2) ∧
      (∀ front name, (front, name) ∈ found ↔
        tree.IsSource Settings.standard "." [] front name) ∧
      found.Pairwise fun a b =>
        (a.1 ++ [a.2]).map Text.bytes < (b.1 ++ [b.2]).map Text.bytes :=
  ⟨by decide +kernel, sourceFiles_exact _ _ _ _ (by decide +kernel)⟩

/-- What is in a directory comes before a file whose name goes on with a dot, though the dot comes
before the slash. -/
example :
    let tree := ((((empty.add ["a"] .directory).add ["a", "z.py"] (.file .empty)).add ["a.py"]
      (.link "a/z.py")).add ["venv"] .directory).add ["venv", "b.py"] (.file .empty)
    (tree.sourceFiles Settings.standard ".").map SourceFile.relPath = ["a/z.py", "a.py"] := by
  decide +kernel

end FileTree

end SourceAtlas
