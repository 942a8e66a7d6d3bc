import SourceAtlas.Proofs.Files.Lookup
import SourceAtlas.Proofs.Files.Path
set_option autoImplicit false

namespace SourceAtlas.FileTree

def stridePast (tree : FileTree) (links : Nat)
    (jump : Location → List String → Except FileError (Nat × Location)) :
    Location → List String → Except FileError (Nat × Location)
  | location, [] => .ok (links, location)
  | location, "." :: names => stridePast tree links jump location names
  | location, ".." :: names => stridePast tree links jump location.dropLast names
  | location, name :: names =>
    let next := location ++ [name]
    if nameLimit < name.utf8ByteSize then .error .nameTooLong
    else match tree.entry? next with
      | some .directory => stridePast tree links jump next names
      | some (.link target) =>
        if target = "" then .error .notFound
        else jump (if Path.isAbsolute target then [] else location) (Path.names target ++ names)
      | found => if found.isSome then .error .notDirectory else .error .notFound

theorem stridePast_name (tree : FileTree) (links : Nat)
    (jump : Location → List String → Except FileError (Nat × Location)) (location : Location)
    {name : String} (names : List String) (dot : name ≠ ".") (up : name ≠ "..") :
    tree.stridePast links jump location (name :: names) =
      if nameLimit < name.utf8ByteSize then .error .nameTooLong
      else match tree.entry? (location ++ [name]) with
        | some .directory => tree.stridePast links jump (location ++ [name]) names
        | some (.link target) =>
          if target = "" then .error .notFound
          else jump (if Path.isAbsolute target then [] else location) (Path.names target ++ names)
        | found => if found.isSome then .error .notDirectory else .error .notFound :=
  stridePast.eq_4 _ _ _ _ _ _ dot up

def pass (tree : FileTree) : Nat → Location → List String → Except FileError (Nat × Location)
  | 0 => stridePast tree 0 fun _ _ => .error .tooManyLinks
  | links + 1 => stridePast tree (links + 1) (pass tree links)

theorem stride_append (tree : FileTree) (purpose : Purpose) (links : Nat)
    (jump : Bool → Location → List String → Except FileError Spot)
    (past : Location → List String → Except FileError (Nat × Location)) (second : List String)
    (onward : second ≠ []) (next : ∀ slash location names, jump slash location (names ++ second) =
      (past location names).bind fun p => tree.walk purpose p.1 slash p.2 second)
    (go : ∀ slash location, tree.stride purpose jump slash location second =
      tree.walk purpose links slash location second)
    (slash : Bool) (location : Location) (first : List String) :
    tree.stride purpose jump slash location (first ++ second) =
      (tree.stridePast links past location first).bind
        fun p => tree.walk purpose p.1 slash p.2 second := by
  induction first using names_induction generalizing location with
  | nil => exact go slash location
  | dot names ih => exact ih location
  | up names ih => exact ih _
  | name name names dot up ih =>
    have behind : names ++ second ≠ [] := fun empty => onward (List.append_eq_nil_iff.1 empty).2
    rw [List.cons_append, stride_name _ _ _ _ _ _ dot up, stridePast_name _ _ _ _ _ dot up]
    simp only [behind, false_and, if_false, List.isEmpty_eq_false_iff.2 behind, Bool.false_and,
      Bool.or_false]
    split
    · rfl
    cases here : tree.entry? (location ++ [name]) with
    | none => rfl
    | some entry =>
      cases entry with
      | directory => exact ih _
      | file contents => rfl
      | link target =>
        by_cases blank : target = ""
        · simp only [blank, if_true]
          rfl
        · simp only [blank, if_false]
          rw [← List.append_assoc]
          exact next _ _ _

theorem walk_append (tree : FileTree) (purpose : Purpose) (links : Nat) (slash : Bool)
    (location : Location) (first second : List String) (onward : second ≠ []) :
    tree.walk purpose links slash location (first ++ second) =
      (tree.pass links location first).bind fun p => tree.walk purpose p.1 slash p.2 second := by
  induction links generalizing slash location first with
  | zero =>
    refine stride_append tree purpose 0 _ _ second onward ?_ (fun _ _ => rfl) slash location first
    intro _ _ _
    rfl
  | succ links ih =>
    exact stride_append tree purpose (links + 1) _ _ second onward
      (fun slash location names => ih slash location names) (fun _ _ => rfl) slash location first

theorem stride_view (tree : FileTree) (links : Nat)
    (jump : Bool → Location → List String → Except FileError Spot)
    (past : Location → List String → Except FileError (Nat × Location)) (goal : Location)
    (next : ∀ slash location names, jump slash location names = .ok (.taken goal .directory) ↔
      ∃ left, past location names = .ok (left, goal))
    (slash : Bool) (location : Location) (names : List String) :
    tree.stride .view jump slash location names = .ok (.taken goal .directory) ↔
      ∃ left, tree.stridePast links past location names = .ok (left, goal) := by
  induction names using names_induction generalizing location with
  | nil => simp [stride, stridePast]
  | dot names ih => exact ih location
  | up names ih => exact ih _
  | name name names dot up ih =>
    rw [stride_name _ _ _ _ _ _ dot up, stridePast_name _ _ _ _ _ dot up, if_neg (by simp)]
    by_cases short : nameLimit < name.utf8ByteSize
    · simp [short]
    rw [if_neg short, if_neg short]
    cases here : tree.entry? (location ++ [name]) with
    | none =>
      simp only [Option.isSome_none, Bool.false_eq_true, if_false, reduceCtorEq, exists_false, iff_false]
      intro found
      split at found <;> cases found
    | some entry =>
      cases entry with
      | directory => exact ih _
      | file contents =>
        simp only [Option.isSome_some, if_true, reduceCtorEq, exists_false, iff_false, arrive]
        intro found
        split at found
        · split at found <;> cases found
        · cases found
      | link target =>
        by_cases blank : target = ""
        · simp [blank, Purpose.follows]
        · simp only [blank, if_false, Purpose.follows, Bool.not_true, Bool.false_eq_true, and_false]
          exact next _ _ _

theorem walk_view (tree : FileTree) (goal : Location) (links : Nat) (slash : Bool)
    (location : Location) (names : List String) :
    tree.walk .view links slash location names = .ok (.taken goal .directory) ↔
      ∃ left, tree.pass links location names = .ok (left, goal) := by
  induction links generalizing slash location names with
  | zero =>
    refine stride_view tree 0 _ _ goal ?_ slash location names
    intro _ _ _
    simp
  | succ links ih => exact stride_view tree (links + 1) _ _ goal ih slash location names

def Fits (path : String) : Prop :=
  '\x00' ∉ path.toList ∧ path ≠ "" ∧ ¬ pathLimit ≤ path.utf8ByteSize

def origin (tree : FileTree) (path : String) : Location :=
  if Path.isAbsolute path then [] else tree.here

def reach (tree : FileTree) (path : String) : Except FileError (Nat × Location) :=
  tree.pass linkLimit (tree.origin path) (Path.names path)

theorem locate_of_fits (tree : FileTree) (purpose : Purpose) {path : String} (fits : Fits path) :
    tree.locate purpose path = tree.walk purpose linkLimit (Path.endsInSlash path)
      (tree.origin path) (Path.names path) := by
  obtain ⟨nul, visible, short⟩ := fits
  rw [locate, if_neg (by simpa using nul), if_neg visible, if_neg short]
  rfl

theorem locate_of_not_fits (tree : FileTree) (purpose : Purpose) {path : String}
    (fits : ¬ Fits path) : ∃ e, tree.locate purpose path = .error e := by
  rw [locate]
  split
  · exact ⟨_, rfl⟩
  next nul =>
  split
  · exact ⟨_, rfl⟩
  next visible =>
  split
  · exact ⟨_, rfl⟩
  next short => exact absurd ⟨by simpa using nul, visible, short⟩ fits

theorem fits_of_locate {tree : FileTree} {purpose : Purpose} {path : String} {spot : Spot}
    (found : tree.locate purpose path = .ok spot) : Fits path := by
  by_contra fits
  obtain ⟨e, failed⟩ := locate_of_not_fits tree purpose fits
  rw [failed] at found
  cases found

theorem view?_directory_iff (tree : FileTree) {path : String} (fits : Fits path)
    (location : Location) : tree.view? path = some (location, .directory) ↔
      ∃ left, tree.reach path = .ok (left, location) := by
  rw [view?_eq_some_iff, locate_of_fits tree .view fits, walk_view]
  rfl

theorem isDirectory_root (tree : FileTree) : tree.isDirectory "/" = true := by
  have fits : Fits "/" := ⟨by decide, by decide, by decide⟩
  exact (isDirectory_iff tree "/").2 ⟨[], (view?_eq_some_iff ..).2 (locate_of_fits tree .view fits)⟩

theorem reach_of_not_isDirectory {tree : FileTree} {path : String} (fits : Fits path)
    (other : tree.isDirectory path = false) : ∃ e, tree.reach path = .error e := by
  cases led : tree.reach path with
  | error e => exact ⟨e, rfl⟩
  | ok p =>
    have found := (view?_directory_iff tree fits p.2).2 ⟨p.1, led⟩
    have directory := (isDirectory_iff tree path).2 ⟨p.2, found⟩
    rw [directory] at other
    cases other

theorem locate_below (tree : FileTree) {base path : String} (below : Path.Below base path)
    (fits : Fits path) : ∃ rest, rest ≠ [] ∧ ∀ purpose, tree.locate purpose path =
      (tree.reach base).bind fun p =>
        tree.walk purpose p.1 (Path.endsInSlash path) p.2 rest := by
  obtain ⟨anchored, rest, rooted, same⟩ := below
  refine ⟨rest, rooted, fun purpose => ?_⟩
  rw [locate_of_fits tree purpose fits, same, walk_append _ _ _ _ _ _ _ rooted, origin, anchored]
  rfl

theorem locate_blocked {tree : FileTree} {base path : String} {e : FileError}
    (blocked : tree.reach base = .error e) (below : Path.Below base path) (purpose : Purpose)
    (fits : Fits path) : tree.locate purpose path = .error e := by
  obtain ⟨rest, -, led⟩ := locate_below tree below fits
  rw [led, blocked]
  rfl

theorem locate_fails_below {tree : FileTree} {base path : String} (fits : Fits base)
    (other : tree.isDirectory base = false) (below : Path.Below base path) (purpose : Purpose) :
    ∃ e, tree.locate purpose path = .error e := by
  by_cases whole : Fits path
  · obtain ⟨e, blocked⟩ := reach_of_not_isDirectory fits other
    exact ⟨e, locate_blocked blocked below purpose whole⟩
  · exact locate_of_not_fits tree purpose whole

theorem pathExists_of_locate_error {tree : FileTree} {path : String} {e : FileError}
    (failed : tree.locate .view path = .error e) : tree.pathExists path = false := by
  rw [pathExists, view?, failed]
  rfl

theorem walk_eq_stride (tree : FileTree) (purpose : Purpose) (links : Nat) :
    ∃ jump, tree.walk purpose links = tree.stride purpose jump := by
  cases links with
  | zero => exact ⟨_, rfl⟩
  | succ links => exact ⟨_, rfl⟩

theorem walk_dots (tree : FileTree) (purpose : Purpose) (links : Nat) (slash : Bool)
    (location : Location) (dots rest : List String) (idle : ∀ dot ∈ dots, dot = ".") :
    tree.walk purpose links slash location (dots ++ rest) =
      tree.walk purpose links slash location rest := by
  obtain ⟨jump, same⟩ := walk_eq_stride tree purpose links
  rw [same]
  induction dots with
  | nil => rfl
  | cons dot dots ih =>
    obtain rfl := idle dot (List.mem_cons_self ..)
    exact ih fun other mem => idle other (List.mem_cons_of_mem _ mem)

theorem walk_overlong (tree : FileTree) (purpose : Purpose) (links : Nat) (slash : Bool)
    (location : Location) (name : String) (rest : List String) (dot : name ≠ ".")
    (up : name ≠ "..") (long : nameLimit < name.utf8ByteSize)
    (open' : rest ≠ [] ∨ purpose ≠ .write) :
    tree.walk purpose links slash location (name :: rest) = .error .nameTooLong := by
  have free : ¬ (rest = [] ∧ slash = true ∧ purpose = .write) := by
    rintro ⟨last, -, write⟩
    exact open'.elim (fun more => more last) fun other => other write
  obtain ⟨jump, same⟩ := walk_eq_stride tree purpose links
  rw [same, stride_name _ _ _ _ _ _ dot up, if_neg free, if_pos long]

theorem walk_make_last (tree : FileTree) (links : Nat) (slash : Bool) (location : Location)
    (name : String) (dot : name ≠ ".") (up : name ≠ "..")
    (short : ¬ nameLimit < name.utf8ByteSize) :
    tree.walk .make links slash location [name] = .ok
      (match tree.entry? (location ++ [name]) with
      | none => .vacant (location ++ [name])
      | some entry => .taken (location ++ [name]) entry) := by
  obtain ⟨jump, same⟩ := walk_eq_stride tree .make links
  rw [same, stride_name _ _ _ _ _ _ dot up, if_neg (by simp), if_neg short]
  cases tree.entry? (location ++ [name]) with
  | none => rfl
  | some entry => cases entry <;> simp [stride, Purpose.follows, arrive]

theorem walk_make_single (tree : FileTree) (links : Nat) (slash : Bool) (location : Location)
    (name : String) : tree.walk .make links slash location [name] ≠ .error .notFound := by
  intro lost
  by_cases dot : name = "."
  · subst dot
    cases links <;> cases lost
  by_cases up : name = ".."
  · subst up
    cases links <;> cases lost
  by_cases long : nameLimit < name.utf8ByteSize
  · rw [walk_overlong tree .make links slash location name [] dot up long (.inr (by simp))] at lost
    cases lost
  · rw [walk_make_last tree links slash location name dot up long] at lost
    cases lost

theorem locate_make_child {tree : FileTree} {base path last : String} {location : Location}
    (child : Path.Child base path last) (fits : Fits path)
    (inside : tree.view? base = some (location, .directory)) :
    tree.locate .make path =
      if last = ".." then .ok (.taken location.dropLast .directory)
      else if nameLimit < last.utf8ByteSize then .error .nameTooLong
      else .ok (match tree.entry? (location ++ [last]) with
        | none => .vacant (location ++ [last])
        | some entry => .taken (location ++ [last]) entry) := by
  have whole := fits_of_locate ((view?_eq_some_iff tree base _ _).1 inside)
  obtain ⟨left, led⟩ := (view?_directory_iff tree whole location).1 inside
  obtain ⟨anchored, dot, dots, idle, same⟩ := child
  rw [locate_of_fits tree .make fits, same, List.append_assoc,
    walk_append _ _ _ _ _ _ _ (by simp), origin, anchored]
  change (tree.reach base).bind _ = _
  rw [led]
  change tree.walk .make left _ location (dots ++ [last]) = _
  rw [walk_dots _ _ _ _ _ _ _ idle]
  split
  · next up =>
    subst up
    cases left <;> rfl
  next up =>
  split
  · next long => exact walk_overlong tree .make left _ location last [] dot up long (.inr (by simp))
  · next short => exact walk_make_last tree left _ location last dot up short

theorem locate_overlong {tree : FileTree} {base path last deeper : String} {location : Location}
    (child : Path.Child base path last) (inside : tree.view? base = some (location, .directory))
    (up : last ≠ "..") (long : nameLimit < last.utf8ByteSize)
    (onwards : deeper = path ∨ Path.Below path deeper) (fits : Fits deeper) (purpose : Purpose)
    (strict : purpose ≠ .write) : tree.locate purpose deeper = .error .nameTooLong := by
  have whole := fits_of_locate ((view?_eq_some_iff tree base _ _).1 inside)
  obtain ⟨left, led⟩ := (view?_directory_iff tree whole location).1 inside
  obtain ⟨anchored, dot, dots, idle, same⟩ := child
  have further : Path.isAbsolute deeper = Path.isAbsolute base ∧
      ∃ rest, Path.names deeper = Path.names base ++ (dots ++ last :: rest) := by
    rcases onwards with rfl | ⟨anchored', rest, -, same'⟩
    · exact ⟨anchored, [], by rw [same, List.append_assoc]⟩
    · exact ⟨anchored'.trans anchored, rest, by rw [same', same]; simp⟩
  obtain ⟨anchor, rest, names⟩ := further
  rw [locate_of_fits tree purpose fits, names, walk_append _ _ _ _ _ _ _ (by simp), origin, anchor]
  change (tree.reach base).bind _ = _
  rw [led]
  change tree.walk purpose left _ location (dots ++ last :: rest) = _
  rw [walk_dots _ _ _ _ _ _ _ idle]
  exact walk_overlong tree purpose left _ location last rest dot up long (.inr strict)

theorem walk_view_vacant (tree : FileTree) (links : Nat) (slash : Bool) (location : Location)
    (name : String) (dot : name ≠ ".") (up : name ≠ "..")
    (short : ¬ nameLimit < name.utf8ByteSize) (absent : tree.entry? (location ++ [name]) = none) :
    tree.walk .view links slash location [name] = .ok (.vacant (location ++ [name])) := by
  obtain ⟨jump, same⟩ := walk_eq_stride tree .view links
  rw [same, stride_name _ _ _ _ _ _ dot up, if_neg (by simp), if_neg short, absent]
  rfl

theorem locate_make_of_isDirectory {tree : FileTree} {path : String}
    (directory : tree.isDirectory path = true) :
    ∃ location entry, tree.locate .make path = .ok (.taken location entry) := by
  obtain ⟨goal, found⟩ := (isDirectory_iff tree path).1 directory
  rw [view?_eq_some_iff] at found
  have fits := fits_of_locate found
  rw [locate_of_fits tree _ fits] at found ⊢
  rcases List.eq_nil_or_concat' (Path.names path) with nameless | ⟨init, last, ended⟩
  · rw [nameless]
    exact ⟨_, .directory, rfl⟩
  rw [ended, walk_append _ _ _ _ _ _ _ (by simp)] at found ⊢
  cases led : tree.pass linkLimit (tree.origin path) init with
  | error e =>
    rw [led] at found
    cases found
  | ok p =>
    rw [led] at found
    change tree.walk .view p.1 _ p.2 [last] = _ at found
    change ∃ location entry, tree.walk .make p.1 _ p.2 [last] = _
    by_cases dot : last = "."
    · subst dot
      exact ⟨p.2, .directory, by cases p.1 <;> rfl⟩
    by_cases up : last = ".."
    · subst up
      exact ⟨p.2.dropLast, .directory, by cases p.1 <;> rfl⟩
    by_cases long : nameLimit < last.utf8ByteSize
    · rw [walk_overlong tree .view _ _ _ last [] dot up long (.inr (by simp))] at found
      cases found
    rw [walk_make_last tree _ _ _ last dot up long]
    cases here : tree.entry? (p.2 ++ [last]) with
    | none =>
      rw [walk_view_vacant tree _ _ _ last dot up long here] at found
      cases found
    | some entry => exact ⟨_, entry, rfl⟩

end SourceAtlas.FileTree
