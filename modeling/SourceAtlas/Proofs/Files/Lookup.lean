import Mathlib.Tactic.ByContra
import SourceAtlas.Files.Access
import SourceAtlas.Proofs.Files.Growth
import SourceAtlas.Proofs.Text.Pieces
set_option autoImplicit false

namespace SourceAtlas.FileTree

def Clean (names : List String) : Prop :=
  ∀ name ∈ names, name ≠ "" ∧ '/' ∉ name.toList ∧ '\x00' ∉ name.toList

theorem Clean.tail {name : String} {names : List String} (clean : Clean (name :: names)) :
    Clean names :=
  fun other mem => clean other (List.mem_cons_of_mem _ mem)

theorem names_clean (path : String) (nul : '\x00' ∉ path.toList) : Clean (Path.names path) := by
  intro name mem
  obtain ⟨piece, visible⟩ := List.mem_filter.1 mem
  obtain ⟨cs, cut, rfl⟩ := List.mem_map.1 piece
  refine ⟨by simpa using visible, ?_, ?_⟩
  · simpa using Text.separator_not_mem_pieces '/' path.toList cs cut
  · intro held
    exact nul (Text.mem_of_mem_pieces cut (by simpa using held))

theorem isProperName_of_clean {name : String} {names : List String} (clean : Clean (name :: names))
    (dot : name ≠ ".") (up : name ≠ "..") (short : ¬ nameLimit < name.utf8ByteSize) :
    isProperName name = true := by
  obtain ⟨visible, slash, nul⟩ := clean name (List.mem_cons_self ..)
  simp only [isProperName, Bool.and_eq_true, bne_iff_ne, decide_eq_true_eq, List.all_eq_true]
  refine ⟨⟨⟨⟨visible, dot⟩, up⟩, by omega⟩, fun c mem => ⟨?_, ?_⟩⟩
  · rintro rfl
    exact slash mem
  · rintro rfl
    exact nul mem

def Sound (tree : FileTree) : Spot → Prop
  | .taken location entry => tree.entry? location = some entry
  | .vacant location => ∀ entry : Entry, entry.isProper = true → tree.CanAdd location entry

theorem arrive_sound {tree : FileTree} {purpose : Purpose} {slash : Bool} {location : Location}
    {name : String} {spot : Spot} (start : tree.entry? location = some .directory)
    (proper : isProperName name = true)
    (found : arrive slash purpose (location ++ [name]) (tree.entry? (location ++ [name])) =
      .ok spot) : tree.Sound spot := by
  unfold arrive at found
  split at found
  · next absent =>
    obtain rfl := Except.ok.inj found
    intro entry properEntry
    refine (canAdd_iff tree _ entry).2 ⟨?_, properEntry, ?_, absent⟩
    · rw [List.all_append, entry?_isProperName start]
      simpa using proper
    · rw [List.dropLast_concat]
      exact start
  · next contents here =>
    split at found
    · cases found
    · obtain rfl := Except.ok.inj found
      exact here
  · next entry noFile here =>
    obtain rfl := Except.ok.inj found
    exact here

@[elab_as_elim]
theorem names_induction {motive : List String → Prop} (nil : motive [])
    (dot : ∀ names, motive names → motive ("." :: names))
    (up : ∀ names, motive names → motive (".." :: names))
    (name : ∀ name names, name ≠ "." → name ≠ ".." → motive names → motive (name :: names))
    (names : List String) : motive names := by
  induction names with
  | nil => exact nil
  | cons first names ih =>
    by_cases idle : first = "."
    · exact idle ▸ dot names ih
    by_cases parent : first = ".."
    · exact parent ▸ up names ih
    exact name first names idle parent ih

theorem stride_name (tree : FileTree) (purpose : Purpose)
    (jump : Bool → Location → List String → Except FileError Spot) (slash : Bool)
    (location : Location) {name : String} (names : List String) (dot : name ≠ ".")
    (up : name ≠ "..") : tree.stride purpose jump slash location (name :: names) =
      if names = [] ∧ slash ∧ purpose = .write then .error .isDirectory
      else if nameLimit < name.utf8ByteSize then .error .nameTooLong
      else match tree.entry? (location ++ [name]) with
        | some .directory => tree.stride purpose jump slash (location ++ [name]) names
        | some (.link target) =>
          if names = [] ∧ !purpose.follows slash then
            .ok (.taken (location ++ [name]) (.link target))
          else if target = "" then .error .notFound
          else jump (slash || (names.isEmpty && Path.endsInSlash target))
            (if Path.isAbsolute target then [] else location) (Path.names target ++ names)
        | found =>
          if names = [] then arrive slash purpose (location ++ [name]) found
          else if found.isSome then .error .notDirectory
          else .error .notFound :=
  stride.eq_4 _ _ _ _ _ _ _ dot up

/-- How following the name of an entry comes to something: through a directory, at a link or beyond
it, or at the last name. -/
inductive NameStep (tree : FileTree) (purpose : Purpose)
    (jump : Bool → Location → List String → Except FileError Spot) (slash : Bool)
    (location : Location) (name : String) (names : List String) (spot : Spot) : Prop
  | directory (here : tree.entry? (location ++ [name]) = some .directory)
      (behind : tree.stride purpose jump slash (location ++ [name]) names = .ok spot)
  | link {target : String} (here : tree.entry? (location ++ [name]) = some (.link target))
      (stays : names = [] ∧ purpose.follows slash = false)
      (same : spot = .taken (location ++ [name]) (.link target))
  | jump {target : String} (here : tree.entry? (location ++ [name]) = some (.link target))
      (visible : target ≠ "")
      (behind : jump (slash || (names.isEmpty && Path.endsInSlash target))
        (if Path.isAbsolute target then [] else location) (Path.names target ++ names) = .ok spot)
  | last (noDirectory : tree.entry? (location ++ [name]) ≠ some .directory)
      (noLink : ∀ target, tree.entry? (location ++ [name]) ≠ some (.link target)) (last : names = [])
      (arrives : arrive slash purpose (location ++ [name]) (tree.entry? (location ++ [name])) =
        .ok spot)

theorem stride_name_ok {tree : FileTree} {purpose : Purpose}
    {jump : Bool → Location → List String → Except FileError Spot} {slash : Bool}
    {location : Location} {name : String} {names : List String} {spot : Spot} (dot : name ≠ ".")
    (up : name ≠ "..")
    (found : tree.stride purpose jump slash location (name :: names) = .ok spot) :
    ¬ nameLimit < name.utf8ByteSize ∧ ¬ (names = [] ∧ slash ∧ purpose = .write) ∧
      tree.NameStep purpose jump slash location name names spot := by
  rw [stride_name _ _ _ _ _ _ dot up] at found
  split at found
  · cases found
  next open' =>
  split at found
  · cases found
  next short =>
  refine ⟨short, open', ?_⟩
  split at found
  · next here => exact .directory here found
  · next target here =>
    split at found
    · next stays => exact .link here (by simpa using stays) (Except.ok.inj found).symm
    split at found
    · cases found
    · next visible => exact .jump here visible found
  · next noDirectory noLink =>
    split at found
    · next last => exact .last noDirectory noLink last found
    · split at found <;> cases found

theorem stride_sound (tree : FileTree) (purpose : Purpose)
    (jump : Bool → Location → List String → Except FileError Spot)
    (next : ∀ slash location names spot, tree.entry? location = some .directory → Clean names →
      jump slash location names = .ok spot → tree.Sound spot)
    (slash : Bool) (location : Location) (names : List String) (spot : Spot)
    (start : tree.entry? location = some .directory) (clean : Clean names)
    (found : tree.stride purpose jump slash location names = .ok spot) : tree.Sound spot := by
  induction names using names_induction generalizing location with
  | nil =>
    obtain rfl := Except.ok.inj found
    exact start
  | dot names ih => exact ih location start clean.tail found
  | up names ih => exact ih _ (entry?_dropLast start) clean.tail found
  | name name names dot up ih =>
    have rest : Clean names := clean.tail
    obtain ⟨short, -, step⟩ := stride_name_ok dot up found
    cases step with
    | directory here behind => exact ih _ here rest behind
    | link here _ same => exact same ▸ here
    | @jump target here _ behind =>
      refine next _ _ _ spot ?_ ?_ behind
      · split
        · exact entry?_nil tree
        · exact start
      · intro other mem
        rcases List.mem_append.1 mem with inTarget | inRest
        · exact names_clean target (isProper_of_link here) other inTarget
        · exact rest other inRest
    | last _ _ _ arrives =>
      exact arrive_sound start (isProperName_of_clean clean dot up short) arrives

theorem walk_sound (tree : FileTree) (purpose : Purpose) (links : Nat) (slash : Bool)
    (location : Location) (names : List String) (spot : Spot)
    (start : tree.entry? location = some .directory) (clean : Clean names)
    (found : tree.walk purpose links slash location names = .ok spot) : tree.Sound spot := by
  induction links generalizing slash location names spot with
  | zero =>
    refine stride_sound tree purpose _ ?_ slash location names spot start clean found
    intro _ _ _ _ _ _ never
    cases never
  | succ links ih => exact stride_sound tree purpose _ ih slash location names spot start clean found

theorem locate_sound (tree : FileTree) (purpose : Purpose) (path : String) (spot : Spot)
    (found : tree.locate purpose path = .ok spot) : tree.Sound spot := by
  rw [locate] at found
  split at found
  · cases found
  next nul =>
  split at found
  · cases found
  split at found
  · cases found
  refine walk_sound tree purpose _ _ _ _ spot ?_ (names_clean path (by simpa using nul)) found
  split
  · exact entry?_nil tree
  · exact entry?_here tree

/-- What looking finds where something was found for a purpose in a smaller tree, or where a vacant
spot has been filled as the purpose intends. -/
inductive Seen (after : FileTree) (purpose : Purpose) : Spot → Spot → Prop
  | directory (location : Location) :
    Seen after purpose (.taken location .directory) (.taken location .directory)
  | file (location : Location) (contents : ByteArray) (strict : purpose ≠ .make) :
    Seen after purpose (.taken location (.file contents)) (.taken location (.file contents))
  | link (location : Location) (target : String) (view : purpose = .view) :
    Seen after purpose (.taken location (.link target)) (.taken location (.link target))
  | made (location : Location) (new : after.entry? location = some .directory) :
    Seen after purpose (.vacant location) (.taken location .directory)
  | written (location : Location) (contents : ByteArray) (write : purpose = .write)
    (new : after.entry? location = some (.file contents)) :
    Seen after purpose (.vacant location) (.taken location (.file contents))

theorem arrive_seen {before after : FileTree} (grown : before ≤ after) {purpose : Purpose}
    {slash : Bool} {next : Location} {spot found : Spot}
    (open' : ¬ (slash = true ∧ purpose = .write))
    (noDirectory : before.entry? next ≠ some .directory)
    (noLink : ∀ target, before.entry? next ≠ some (.link target))
    (old : arrive slash purpose next (before.entry? next) = .ok spot)
    (seen : Seen after purpose spot found) :
    (after.entry? next = some .directory ∧ found = .taken next .directory) ∨
      slash = false ∧ ∃ contents, after.entry? next = some (.file contents) ∧
        found = .taken next (.file contents) := by
  cases here : before.entry? next with
  | none =>
    rw [here] at old
    obtain rfl := Except.ok.inj old
    cases seen with
    | made _ new => exact .inl ⟨new, rfl⟩
    | written _ contents write new =>
      exact .inr ⟨by simpa [write] using open', contents, new, rfl⟩
  | some entry =>
    cases entry with
    | directory => exact absurd here noDirectory
    | link target => exact absurd here (noLink target)
    | file contents =>
      rw [here] at old
      simp only [arrive] at old
      split at old
      · cases old
      next plain =>
      obtain rfl := Except.ok.inj old
      cases seen with
      | file _ _ strict =>
        exact .inr ⟨by simpa [strict] using plain, contents, grown.2 _ _ here, rfl⟩

theorem stride_seen {before after : FileTree} (grown : before ≤ after) (purpose : Purpose)
    (jump jump' : Bool → Location → List String → Except FileError Spot)
    (next : ∀ slash location names spot found, jump slash location names = .ok spot →
      Seen after purpose spot found → jump' slash location names = .ok found)
    (slash : Bool) (location : Location) (names : List String) (spot found : Spot)
    (old : before.stride purpose jump slash location names = .ok spot)
    (seen : Seen after purpose spot found) :
    after.stride .view jump' slash location names = .ok found := by
  induction names using names_induction generalizing location with
  | nil =>
    obtain rfl := Except.ok.inj old
    cases seen
    rfl
  | dot names ih => exact ih location old
  | up names ih => exact ih _ old
  | name name names dot up ih =>
    obtain ⟨short, open', step⟩ := stride_name_ok dot up old
    rw [stride_name _ _ _ _ _ _ dot up, if_neg (by simp), if_neg short]
    cases step with
    | directory here behind =>
      rw [grown.2 _ _ here]
      exact ih _ behind
    | link here stays same =>
      subst same
      cases seen with
      | link _ _ view => simp [view, Purpose.follows] at stays
    | jump here visible behind =>
      rw [grown.2 _ _ here]
      have follows : ¬ (names = [] ∧ (!Purpose.view.follows slash) = true) := by simp [Purpose.follows]
      simp only [if_neg follows, if_neg visible]
      exact next _ _ _ spot found behind seen
    | last noDirectory noLink last arrives =>
      subst last
      rcases arrive_seen grown (by simpa using open') noDirectory noLink arrives seen with
        ⟨new, rfl⟩ | ⟨rfl, contents, new, rfl⟩
      · rw [new]
        rfl
      · rw [new]
        rfl

theorem walk_seen {before after : FileTree} (grown : before ≤ after) (purpose : Purpose)
    (links : Nat) (slash : Bool) (location : Location) (names : List String) (spot found : Spot)
    (old : before.walk purpose links slash location names = .ok spot)
    (seen : Seen after purpose spot found) :
    after.walk .view links slash location names = .ok found := by
  induction links generalizing slash location names spot found with
  | zero =>
    refine stride_seen grown purpose _ _ ?_ slash location names spot found old seen
    intro _ _ _ _ _ never
    cases never
  | succ links ih =>
    exact stride_seen grown purpose _ _ ih slash location names spot found old seen

theorem locate_seen {before after : FileTree} (grown : before ≤ after) (purpose : Purpose)
    (path : String) (spot found : Spot) (old : before.locate purpose path = .ok spot)
    (seen : Seen after purpose spot found) : after.locate .view path = .ok found := by
  rw [locate] at old ⊢
  split at old
  · cases old
  next nul =>
  split at old
  · cases old
  next visible =>
  split at old
  · cases old
  next short =>
  rw [if_neg nul, if_neg visible, if_neg short, grown.1]
  exact walk_seen grown purpose _ _ _ _ spot found old seen

theorem view?_eq_some_iff (tree : FileTree) (path : String) (location : Location) (entry : Entry) :
    tree.view? path = some (location, entry) ↔
      tree.locate .view path = .ok (.taken location entry) := by
  rw [view?]
  split
  · next found =>
    rw [found]
    simp
  · next other =>
    constructor
    · intro absent
      cases absent
    · intro found
      exact absurd found (other _ _)

theorem isDirectory_iff (tree : FileTree) (path : String) :
    tree.isDirectory path = true ↔ ∃ location, tree.view? path = some (location, .directory) := by
  rw [isDirectory]
  split
  · next location found => simp [found]
  · next other =>
    constructor
    · intro never
      cases never
    · rintro ⟨location, found⟩
      exact absurd found (other location)

theorem pathExists_of_isDirectory {tree : FileTree} {path : String}
    (directory : tree.isDirectory path = true) : tree.pathExists path = true := by
  obtain ⟨location, found⟩ := (isDirectory_iff tree path).1 directory
  rw [pathExists, found]
  rfl

theorem isDirectory_of_not_pathExists {tree : FileTree} {path : String}
    (absent : tree.pathExists path = false) : tree.isDirectory path = false := by
  by_contra there
  rw [pathExists_of_isDirectory (Bool.not_eq_false _ ▸ there)] at absent
  cases absent

theorem view?_mono {before after : FileTree} (grown : before ≤ after) {path : String}
    {location : Location} {entry : Entry} (found : before.view? path = some (location, entry)) :
    after.view? path = some (location, entry) := by
  rw [view?_eq_some_iff] at found ⊢
  refine locate_seen grown .view path _ _ found ?_
  cases entry with
  | directory => exact .directory location
  | file contents => exact .file location contents (by decide)
  | link target => exact .link location target rfl

theorem isDirectory_mono {before after : FileTree} (grown : before ≤ after) {path : String}
    (found : before.isDirectory path = true) : after.isDirectory path = true := by
  rw [isDirectory_iff] at found ⊢
  obtain ⟨location, found⟩ := found
  exact ⟨location, view?_mono grown found⟩

theorem pathExists_mono {before after : FileTree} (grown : before ≤ after) {path : String}
    (found : before.pathExists path = true) : after.pathExists path = true := by
  obtain ⟨⟨location, entry⟩, found⟩ := Option.isSome_iff_exists.1 found
  rw [pathExists, view?_mono grown found]
  rfl

end SourceAtlas.FileTree
