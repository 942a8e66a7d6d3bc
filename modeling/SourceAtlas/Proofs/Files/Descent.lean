import SourceAtlas.Proofs.Files.Route
import SourceAtlas.Proofs.Files.Walk
set_option autoImplicit false

namespace SourceAtlas

theorem slash_not_mem_of_isProperName {name : String} (proper : isProperName name = true) :
    '/' ∉ name.toList := by
  intro slash
  have properly := ((Bool.and_eq_true _ _).mp proper).2
  simpa using List.all_eq_true.1 properly '/' slash

theorem nul_not_mem_of_isProperName {name : String} (proper : isProperName name = true) :
    '\x00' ∉ name.toList := by
  intro nul
  have properly := ((Bool.and_eq_true _ _).mp proper).2
  simpa using List.all_eq_true.1 properly '\x00' nul

theorem named_of_isProperName {name : String} (proper : isProperName name = true) :
    name ≠ "" ∧ name ≠ "." ∧ name ≠ ".." ∧ ¬ nameLimit < name.utf8ByteSize := by
  simp only [isProperName, Bool.and_eq_true, bne_iff_ne, decide_eq_true_eq] at proper
  exact ⟨proper.1.1.1.1, proper.1.1.1.2, proper.1.1.2, Nat.not_lt.2 proper.1.2⟩

namespace Path

variable {names : Location}

theorem pieces_relative (nonempty : names ≠ []) (proper : ∀ name ∈ names, isProperName name = true) :
    pieces ("/".intercalate names) = names :=
  pieces_intercalate names nonempty fun name mem => slash_not_mem_of_isProperName (proper name mem)

theorem names_relative (nonempty : names ≠ []) (proper : ∀ name ∈ names, isProperName name = true) :
    Path.names ("/".intercalate names) = names := by
  rw [Path.names, pieces_relative nonempty proper, List.filter_eq_self]
  exact fun name mem => by simpa using (named_of_isProperName (proper name mem)).1

theorem isAbsolute_relative (nonempty : names ≠ []) (proper : ∀ name ∈ names, isProperName name = true) :
    isAbsolute ("/".intercalate names) = false := by
  obtain ⟨first, rest, rfl⟩ := List.exists_cons_of_ne_nil nonempty
  have named := (named_of_isProperName (proper first (List.mem_cons_self ..))).1
  rw [isAbsolute_eq _ first rest (pieces_relative nonempty proper), beq_eq_false_iff_ne.2 named]
  rfl

theorem names_pathBelow (root : String) (nonempty : names ≠ [])
    (proper : ∀ name ∈ names, isProperName name = true) :
    Path.names (FileTree.pathBelow root names) = Path.names root ++ names := by
  rw [FileTree.pathBelow, names_join (isAbsolute_relative nonempty proper), names_relative nonempty proper]

theorem isAbsolute_pathBelow (root : String) (nonempty : names ≠ [])
    (proper : ∀ name ∈ names, isProperName name = true) :
    isAbsolute (FileTree.pathBelow root names) = isAbsolute root :=
  isAbsolute_join (isAbsolute_relative nonempty proper)

theorem endsInSlash_append (front : String) {path : String} (visible : path ≠ "") :
    endsInSlash (front ++ path) = endsInSlash path := by
  have nonempty : path.toList ≠ [] := fun blank => visible (String.toList_eq_nil_iff.1 blank)
  rw [endsInSlash, String.toList_append, List.getLast?_append_of_ne_nil _ nonempty, endsInSlash]

theorem endsInSlash_relative (nonempty : names ≠ [])
    (proper : ∀ name ∈ names, isProperName name = true) :
    endsInSlash ("/".intercalate names) = false := by
  by_contra ends
  obtain ⟨front, same⟩ := List.getLast?_eq_some_iff.1
    (beq_iff_eq.1 (Bool.not_eq_false _ ▸ ends))
  have text : "/".intercalate names = String.ofList front ++ "/" ++ "" := by
    rw [← String.toList_inj, same]
    simp
  have cut := pieces_relative nonempty proper
  rw [text, pieces_append] at cut
  have blank : "" ∈ names := by
    rw [← cut]
    exact List.mem_append_right _ (List.mem_singleton.2 rfl)
  exact (named_of_isProperName (proper "" blank)).1 rfl

theorem endsInSlash_pathBelow (root : String) (nonempty : names ≠ [])
    (proper : ∀ name ∈ names, isProperName name = true) :
    endsInSlash (FileTree.pathBelow root names) = false := by
  have relative := endsInSlash_relative nonempty proper
  have visible : "/".intercalate names ≠ "" := by
    intro empty
    have whole := names_relative nonempty proper
    rw [empty] at whole
    exact nonempty whole.symm
  rw [FileTree.pathBelow, join]
  split
  · exact relative
  split
  · rwa [endsInSlash_append _ visible]
  · rwa [endsInSlash_append _ visible]

theorem intercalate_pieces (path : String) : "/".intercalate (pieces path) = path := by
  have whole := Text.joined_pieces '/' path.toList
  rw [Text.joined_eq_intercalate] at whole
  have slash : ("/" : String).toList = ['/'] := rfl
  rw [← String.toList_inj, String.toList_intercalate, pieces, Text.splitAt, List.map_map, slash]
  simpa [Function.comp_def] using whole

theorem mem_intercalate {separator : String} {all : List String} {c : Char}
    (mem : c ∈ (separator.intercalate all).toList) :
    c ∈ separator.toList ∨ ∃ piece ∈ all, c ∈ piece.toList := by
  induction all with
  | nil => simp at mem
  | cons piece rest ih =>
    by_cases last : rest = []
    · subst last
      exact .inr ⟨piece, by simp, by simpa using mem⟩
    · rw [String.intercalate_cons_of_ne_nil last, String.toList_append, String.toList_append] at mem
      rcases List.mem_append.1 mem with first | inRest
      · rcases List.mem_append.1 first with inPiece | inSeparator
        · exact .inr ⟨piece, by simp, inPiece⟩
        · exact .inl inSeparator
      · exact (ih inRest).imp id fun ⟨other, held, inOther⟩ =>
          ⟨other, List.mem_cons_of_mem _ held, inOther⟩

theorem mem_join {base path : String} {c : Char} (mem : c ∈ (join base path).toList) :
    c ∈ base.toList ∨ c ∈ ("/" : String).toList ∨ c ∈ path.toList := by
  rw [join] at mem
  split at mem
  · exact .inr (.inr mem)
  split at mem
  · rw [String.toList_append, List.mem_append] at mem
    exact mem.imp id .inr
  · rwa [String.toList_append, String.toList_append, List.mem_append, List.mem_append, or_assoc]
      at mem

theorem exists_join_eq (root : String) :
    ∃ gap, ∀ part, isAbsolute part = false → join root part = root ++ gap ++ part := by
  by_cases blank : root.isEmpty = true
  · refine ⟨"", fun part relative => ?_⟩
    have empty : root = "" := by simpa using blank
    rw [join, relative, blank, empty]
    simp
  by_cases ends : endsInSlash root = true
  · refine ⟨"", fun part relative => ?_⟩
    rw [join, relative, Bool.false_or, if_neg blank, if_pos ends, String.append_empty]
  · refine ⟨"/", fun part relative => ?_⟩
    rw [join, relative, Bool.false_or, if_neg blank, if_neg ends]

theorem parent?_append {path base : String} (up : parent? path = some base) (named : base ≠ "") :
    ∃ rest, path = base ++ rest := by
  obtain ⟨first, kept, idle, last, tail, cut, -, -, rfl, -⟩ := parent?_split up named
  have whole := intercalate_pieces path
  have grouped : first :: (kept ++ idle ++ last :: tail) =
      (first :: kept) ++ (idle ++ last :: tail) := by simp
  rw [cut, grouped, String.intercalate_append_of_ne_nil (by simp) (by simp)] at whole
  by_cases plain : first :: kept = [""]
  · rw [plain] at whole ⊢
    exact ⟨_, by simpa [ofPieces] using whole.symm⟩
  · rw [ofPieces.eq_2 _ plain]
    exact ⟨_, by rw [← whole, String.append_assoc]⟩

def slashed : Nat → String
  | 0 => "."
  | number + 1 => slashed number ++ "/"

theorem names_slashed (number : Nat) : Path.names (slashed number) = ["."] := by
  induction number with
  | zero => decide
  | succ number ih =>
    have whole := names_append (slashed number) ""
    have blank : Path.names "" = [] := by decide
    rw [String.append_empty, ih, blank, List.append_nil] at whole
    exact whole

theorem head_slashed (number : Nat) : (slashed number).toList.head? = some '.' := by
  induction number with
  | zero => rfl
  | succ number ih => simp [slashed, ih]

theorem utf8ByteSize_slashed (number : Nat) : (slashed number).utf8ByteSize = number + 1 := by
  induction number with
  | zero => decide
  | succ number ih => rw [slashed, String.utf8ByteSize_append, ih]; rfl

theorem nul_not_mem_slashed (number : Nat) : '\x00' ∉ (slashed number).toList := by
  induction number with
  | zero => decide
  | succ number ih => simpa [slashed] using ih

theorem join_slashed (number : Nat) (path : String) (relative : isAbsolute path = false) :
    join (slashed (number + 1)) path = slashed (number + 1) ++ path := by
  have ends : endsInSlash (slashed (number + 1)) = true := by
    rw [endsInSlash, slashed]
    simp
  have visible : (slashed (number + 1)).isEmpty = false := by
    rw [slashed]
    simp
  rw [join, relative, visible, ends]
  rfl

end Path

namespace FileTree

theorem stridePast_directories {tree : FileTree} (links : Nat)
    (jump : Location → List String → Except FileError (Nat × Location)) {base : Location}
    {names : List String} (level : ".." ∉ names)
    (found : tree.entry? (base ++ names.filter fun name => name != ".") = some .directory) :
    tree.stridePast links jump base names =
      .ok (links, base ++ names.filter fun name => name != ".") := by
  induction names using names_induction generalizing base with
  | nil => simp [stridePast]
  | dot names ih => exact ih (List.not_mem_of_not_mem_cons level) found
  | up names ih => exact absurd (List.mem_cons_self ..) level
  | name name names dot up ih =>
    rw [List.filter_cons_of_pos (by simpa using dot), List.append_cons] at found ⊢
    have proper := entry?_isProperName found
    have proper := List.all_eq_true.1 proper name (by simp)
    have short := (named_of_isProperName proper).2.2.2
    have here : tree.entry? (base ++ [name]) = some .directory := by
      by_cases last : (names.filter fun name => name != ".") = []
      · simpa [last] using found
      · exact entry?_above found last
    rw [stridePast_name _ _ _ _ _ dot up, if_neg short, here]
    exact ih (List.not_mem_of_not_mem_cons level) found

theorem pass_directories {tree : FileTree} (links : Nat) {base : Location} {names : List String}
    (level : ".." ∉ names)
    (found : tree.entry? (base ++ names.filter fun name => name != ".") = some .directory) :
    tree.pass links base names = .ok (links, base ++ names.filter fun name => name != ".") := by
  cases links with
  | zero => exact stridePast_directories 0 _ level found
  | succ links => exact stridePast_directories (links + 1) _ level found

theorem level_of_proper {names : Location} (proper : ∀ name ∈ names, isProperName name = true) :
    ".." ∉ names ∧ (names.filter fun name => name != ".") = names := by
  refine ⟨fun mem => ?_, List.filter_eq_self.2 fun name mem => ?_⟩
  · exact (named_of_isProperName (proper _ mem)).2.2.1 rfl
  · simpa using (named_of_isProperName (proper name mem)).2.1

theorem walk_file {tree : FileTree} (links : Nat) {location : Location} {name : String}
    {contents : ByteArray} (found : tree.entry? (location ++ [name]) = some (.file contents)) :
    tree.walk .view links false location [name] =
      .ok (.taken (location ++ [name]) (.file contents)) := by
  have proper := entry?_isProperName found
  have proper := List.all_eq_true.1 proper name (by simp)
  obtain ⟨-, dot, up, short⟩ := named_of_isProperName proper
  obtain ⟨jump, same⟩ := walk_eq_stride tree .view links
  rw [same, stride_name _ _ _ _ _ _ dot up]
  simp [short, found, arrive]

theorem pathBelow_visible {root : String} {names : Location} (fits : Fits root) (nonempty : names ≠ [])
    (proper : ∀ name ∈ names, isProperName name = true) :
    '\x00' ∉ (pathBelow root names).toList ∧ pathBelow root names ≠ "" := by
  refine ⟨fun nul => ?_, fun empty => ?_⟩
  · have inPath : '\x00' ∉ ("/".intercalate names).toList := by
      intro mem
      rcases Path.mem_intercalate mem with slash | ⟨name, held, mem⟩
      · revert slash
        decide
      · exact nul_not_mem_of_isProperName (proper name held) mem
    rcases Path.mem_join nul with inRoot | slash | inRest
    · exact fits.1 inRoot
    · revert slash
      decide
    · exact inPath inRest
  · have whole := Path.names_pathBelow root nonempty proper
    rw [empty] at whole
    exact nonempty (List.append_eq_nil_iff.1 whole.symm).2

theorem fits_pathBelow {root : String} {names : Location} (fits : Fits root) (nonempty : names ≠ [])
    (proper : ∀ name ∈ names, isProperName name = true)
    (short : (pathBelow root names).utf8ByteSize < pathLimit) : Fits (pathBelow root names) := by
  obtain ⟨nul, visible⟩ := pathBelow_visible fits nonempty proper
  exact ⟨nul, visible, Nat.not_le.2 short⟩

theorem locate_pathBelow {tree : FileTree} {root : String} {base names : Location}
    (directory : tree.view? root = some (base, .directory)) (visible : names ≠ [])
    (proper : ∀ name ∈ names, isProperName name = true)
    (short : (pathBelow root names).utf8ByteSize < pathLimit) (purpose : Purpose) :
    ∃ left, tree.locate purpose (pathBelow root names) = tree.walk purpose left false base names := by
  have whole := fits_of_locate ((view?_eq_some_iff tree root _ _).1 directory)
  have fits := fits_pathBelow whole visible proper short
  obtain ⟨left, led⟩ := (view?_directory_iff tree whole base).1 directory
  refine ⟨left, ?_⟩
  rw [locate_of_fits tree purpose fits, Path.names_pathBelow root visible proper,
    Path.endsInSlash_pathBelow root visible proper, origin,
    Path.isAbsolute_pathBelow root visible proper, walk_append _ _ _ _ _ _ _ visible]
  change (tree.reach root).bind _ = _
  rw [led]
  rfl

theorem view?_pathBelow_file {tree : FileTree} {root : String} {base names : Location}
    {contents : ByteArray} (directory : tree.view? root = some (base, .directory))
    (visible : names ≠ []) (found : tree.entry? (base ++ names) = some (.file contents))
    (short : (pathBelow root names).utf8ByteSize < pathLimit) :
    tree.view? (pathBelow root names) = some (base ++ names, .file contents) := by
  have proper := entry?_isProperName found
  have proper : ∀ name ∈ names, isProperName name = true := fun name mem =>
    List.all_eq_true.1 proper name (List.mem_append_right _ mem)
  obtain ⟨left, led⟩ := locate_pathBelow directory visible proper short .view
  obtain ⟨front, name, rfl⟩ := (List.eq_nil_or_concat' names).resolve_left visible
  rw [← List.append_assoc] at found ⊢
  have above : tree.entry? (base ++ front) = some .directory :=
    entry?_above found (List.cons_ne_nil _ _)
  obtain ⟨level, same⟩ := level_of_proper fun part mem => proper part (List.mem_append_left _ mem)
  have passed := pass_directories left level (same.symm ▸ above)
  rw [same] at passed
  rw [view?_eq_some_iff, led, walk_append _ _ _ _ _ _ _ (List.cons_ne_nil _ _), passed]
  exact walk_file left found

/-- The path of a name in a directory leads to what has that name there, unless it is a link. -/
theorem view?_child {tree : FileTree} {root name : String} {base : Location}
    (directory : tree.view? root = some (base, .directory)) (proper : isProperName name = true)
    (plain : ∀ target, tree.entry? (base ++ [name]) ≠ some (.link target))
    (short : (pathBelow root [name]).utf8ByteSize < pathLimit) :
    tree.view? (pathBelow root [name]) =
      (tree.entry? (base ++ [name])).map fun entry => (base ++ [name], entry) := by
  obtain ⟨left, led⟩ := locate_pathBelow directory (List.cons_ne_nil name []) (by simpa using proper)
    short .view
  obtain ⟨-, dot, up, size⟩ := named_of_isProperName proper
  rw [view?, led]
  cases found : tree.entry? (base ++ [name]) with
  | none => rw [walk_view_vacant tree left false base name dot up size found]; rfl
  | some entry =>
    cases entry with
    | link target => exact absurd found (plain target)
    | file contents => rw [walk_file left found]; rfl
    | directory =>
      have passed := (walk_view tree (base ++ [name]) left false base [name]).2
      have alone : ∀ part ∈ [name], isProperName part = true := List.forall_mem_singleton.2 proper
      obtain ⟨level, same⟩ := level_of_proper alone
      rw [passed ⟨left, by simpa [same] using pass_directories left level (same.symm ▸ found)⟩]
      rfl

theorem opens_of_append {root : String} {front below : Location}
    (proper : ∀ name ∈ front ++ below, isProperName name = true)
    (opened : opens root (front ++ below) = true) : opens root front = true := by
  by_cases here : front = []
  · rw [here, opens, List.isEmpty_nil, Bool.true_or]
  by_cases last : below = []
  · rwa [last, List.append_nil] at opened
  obtain ⟨gap, joined⟩ := Path.exists_join_eq root
  have inFront := Path.isAbsolute_relative here fun name mem =>
    proper name (List.mem_append_left _ mem)
  have inWhole := Path.isAbsolute_relative (List.append_ne_nil_of_left_ne_nil here below) proper
  have short := opened
  rw [opens, List.isEmpty_eq_false_iff.2 (List.append_ne_nil_of_left_ne_nil here below),
    Bool.false_or, decide_eq_true_eq, pathBelow, joined _ inWhole,
    String.intercalate_append_of_ne_nil here last] at short
  rw [opens, List.isEmpty_eq_false_iff.2 here, Bool.false_or, decide_eq_true_eq, pathBelow,
    joined _ inFront]
  simp only [String.utf8ByteSize_append] at short ⊢
  omega

theorem pathBelow_cons (root : String) {name : String} {names : Location} (visible : names ≠ [])
    (proper : ∀ part ∈ name :: names, isProperName part = true) :
    pathBelow root (name :: names) = pathBelow (pathBelow root [name]) names := by
  have alone : ∀ part ∈ [name], isProperName part = true :=
    List.forall_mem_singleton.2 (proper name (List.mem_cons_self ..))
  have inRest := Path.isAbsolute_relative visible fun part mem =>
    proper part (List.mem_cons_of_mem _ mem)
  have inWhole := Path.isAbsolute_relative (List.cons_ne_nil name names) proper
  have named : (pathBelow root [name]).isEmpty = false := by
    refine Bool.eq_false_iff.2 fun blank => ?_
    have whole := Path.names_pathBelow root (List.cons_ne_nil name []) alone
    rw [String.isEmpty_iff.1 blank] at whole
    exact (List.cons_ne_nil name []) (List.append_eq_nil_iff.1 whole.symm).2
  have ends := Path.endsInSlash_pathBelow root (List.cons_ne_nil name []) alone
  obtain ⟨gap, joined⟩ := Path.exists_join_eq root
  have first : pathBelow root [name] = root ++ gap ++ name := by
    rw [pathBelow, String.intercalate_singleton]
    refine joined name ?_
    simpa using Path.isAbsolute_relative (List.cons_ne_nil name []) alone
  rw [pathBelow.eq_1 (pathBelow root [name]), Path.join, inRest, named, ends, pathBelow,
    joined _ inWhole, String.intercalate_cons_of_ne_nil visible, first]
  simp [String.append_assoc]

theorem opens_cons (root : String) {name : String} {names : Location}
    (proper : ∀ part ∈ name :: names, isProperName part = true) :
    opens root (name :: names) = true ↔
      (pathBelow root [name]).utf8ByteSize < pathLimit ∧
        opens (pathBelow root [name]) names = true := by
  by_cases last : names = []
  · subst last
    simp [opens]
  have same : opens root (name :: names) = opens (pathBelow root [name]) names := by
    rw [opens, opens, pathBelow_cons root last proper, List.isEmpty_cons,
      List.isEmpty_eq_false_iff.2 last]
  rw [← same]
  refine ⟨fun opened => ⟨?_, opened⟩, fun both => both.2⟩
  have above : opens root [name] = true := opens_of_append proper opened
  simpa [opens] using above

theorem Fits.parent {path parent : String} (fits : Fits path)
    (up : Path.parent? path = some parent) (named : parent ≠ "") : Fits parent := by
  obtain ⟨rest, rfl⟩ := Path.parent?_append up named
  obtain ⟨nul, -, short⟩ := fits
  refine ⟨fun mem => nul (by simp [mem]), named, ?_⟩
  rw [String.utf8ByteSize_append] at short
  omega

theorem isDirectory_parent {tree : FileTree} {path parent : String}
    (there : tree.pathExists path = true) (up : Path.parent? path = some parent)
    (named : parent ≠ "") : tree.isDirectory parent = true := by
  obtain ⟨⟨location, entry⟩, seen⟩ := Option.isSome_iff_exists.1 there
  have found := (view?_eq_some_iff tree path _ _).1 seen
  by_contra other
  obtain ⟨e, fails⟩ := locate_fails_below ((fits_of_locate found).parent up named)
    (Bool.not_eq_true _ ▸ other) (Path.parent?_below up named) .view
  rw [fails] at found
  cases found

theorem view?_slashed (tree : FileTree) {number : Nat} (short : number + 1 < pathLimit) :
    tree.view? (Path.slashed number) = some (tree.here, .directory) := by
  have head := Path.head_slashed number
  have relative : Path.isAbsolute (Path.slashed number) = false := by
    rw [Path.isAbsolute, head]
    decide
  have fits : Fits (Path.slashed number) := by
    refine ⟨Path.nul_not_mem_slashed number, fun blank => ?_, ?_⟩
    · rw [blank] at head
      cases head
    · rw [Path.utf8ByteSize_slashed]
      omega
  refine (view?_directory_iff tree fits _).2 ⟨linkLimit, ?_⟩
  rw [reach, Path.names_slashed, origin, relative]
  rfl

end FileTree

end SourceAtlas
