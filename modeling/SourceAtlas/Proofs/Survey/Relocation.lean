import SourceAtlas.Proofs.Survey.Change
set_option autoImplicit false

/-!
# Other places and other spellings of a directory

A scan tells files by their paths below the directory, so equal directories have equal source files,
wherever they are and however they are named. Only a failure tells more: it names the path that opens
the file, and this path must not be too long. So two surveys of equal directories give one diagram
exactly if every file is understood in both or the paths that open the files are the same.
-/

namespace SourceAtlas

def Failure.about (path : String) : Failure → Failure
  | .unreadable _ error => .unreadable path error
  | .unparseable fault => .unparseable { fault with path }
  | failure => failure

theorem factsIn_about [Python.Parser] {contents : ByteArray} {path path' : String}
    (short : path.utf8ByteSize < FileTree.pathLimit)
    (short' : path'.utf8ByteSize < FileTree.pathLimit) :
    factsIn contents path' = (factsIn contents path).mapError (Failure.about path') := by
  rw [factsIn, factsIn, if_neg (Nat.not_le.2 short), if_neg (Nat.not_le.2 short')]
  cases String.fromUTF8? contents with
  | none => rfl
  | some text =>
    cases known : Python.understand text with
    | error message => simp only [known]; rfl
    | ok facts => simp only [known]; rfl

theorem factsIn_ok [Python.Parser] {contents : ByteArray} {path path' : String}
    {facts facts' : Python.Facts} (known : factsIn contents path = .ok facts)
    (known' : factsIn contents path' = .ok facts') : facts = facts' := by
  have short {path : String} {facts : Python.Facts} (known : factsIn contents path = .ok facts) :
      path.utf8ByteSize < FileTree.pathLimit := by
    by_contra long
    rw [factsIn, if_pos (Nat.not_lt.1 long)] at known
    cases known
  rw [factsIn_about (short known) (short known'), known] at known'
  exact Except.ok.inj known'

/-- What the parser says of contents that are no source. -/
def complaint [Python.Parser] (contents : ByteArray) : String :=
  match (String.fromUTF8? contents).map Python.understand with
  | some (.error message) => message
  | _ => ""

theorem factsIn_error [Python.Parser] {contents : ByteArray} {path : String} {failure : Failure}
    (fails : factsIn contents path = .error failure) :
    failure = .unreadable path .nameTooLong ∨ failure = .unreadable path .notText ∨
      failure = .unparseable ⟨path, complaint contents⟩ := by
  rw [factsIn] at fails
  split at fails
  · exact .inl (Except.error.inj fails).symm
  rw [complaint]
  cases decoded : String.fromUTF8? contents with
  | none =>
    rw [decoded] at fails
    exact .inr (.inl (Except.error.inj fails).symm)
  | some text =>
    rw [decoded] at fails
    cases known : Python.understand text with
    | error message =>
      simp only [known] at fails
      simp only [Option.map_some, known]
      exact .inr (.inr (Except.error.inj fails).symm)
    | ok facts =>
      simp only [known] at fails
      cases fails

/-- What stands before and behind the path of a file of which nothing is known, if the parser has a
complaint. -/
def frames (complaint : String) : List (String × String) :=
  [("Cannot read ", ": " ++ FileError.nameTooLong.message),
    ("Cannot read ", ": " ++ FileError.notText.message), ("Syntax error in ", ": " ++ complaint)]

theorem message_framed [Python.Parser] {contents : ByteArray} {path : String} {failure : Failure}
    (fails : factsIn contents path = .error failure) :
    ∃ frame ∈ frames (complaint contents), failure.message = frame.1 ++ path ++ frame.2 := by
  simp only [frames, List.mem_cons, List.not_mem_nil, or_false, exists_eq_or_imp, exists_eq_left]
  rcases factsIn_error fails with rfl | rfl | rfl
  · exact .inl (String.append_assoc ..)
  · exact .inr (.inl (String.append_assoc ..))
  · exact .inr (.inr (String.append_assoc ..))

theorem frames_inj (complaint : String) : ∀ f ∈ frames complaint, ∀ g ∈ frames complaint,
    f.1.toList.head? = g.1.toList.head? → f.2.toList.getLast? = g.2.toList.getLast? → f = g := by
  have apart : ("Cannot read ").toList.head? ≠ ("Syntax error in ").toList.head? := by decide
  have ends : (": " ++ FileError.nameTooLong.message).toList.getLast? ≠
      (": " ++ FileError.notText.message).toList.getLast? := by decide +kernel
  intro f hf g hg heads lasts
  simp only [frames, List.mem_cons, List.not_mem_nil, or_false] at hf hg
  rcases hf with rfl | rfl | rfl
  · rcases hg with rfl | rfl | rfl
    · rfl
    · exact absurd lasts ends
    · exact absurd heads apart
  · rcases hg with rfl | rfl | rfl
    · exact absurd lasts.symm ends
    · rfl
    · exact absurd heads apart
  · rcases hg with rfl | rfl | rfl
    · exact absurd heads.symm apart
    · exact absurd heads.symm apart
    · rfl

theorem frames_visible (complaint : String) :
    ∀ f ∈ frames complaint, f.1.toList ≠ [] ∧ f.2.toList ≠ [] := by
  simp [frames]

theorem message_inj [Python.Parser] {contents : ByteArray} {path path' : String}
    {failure failure' : Failure} (fails : factsIn contents path = .error failure)
    (fails' : factsIn contents path' = .error failure')
    (same : failure.message = failure'.message) : path = path' := by
  obtain ⟨f, listed, text⟩ := message_framed fails
  obtain ⟨g, listed', text'⟩ := message_framed fails'
  obtain ⟨front, back⟩ := frames_visible _ f listed
  obtain ⟨front', back'⟩ := frames_visible _ g listed'
  have lists : f.1.toList ++ path.toList ++ f.2.toList =
      g.1.toList ++ path'.toList ++ g.2.toList := by
    rw [← String.toList_append, ← String.toList_append, ← String.toList_append,
      ← String.toList_append, ← text, ← text', same]
  have heads : f.1.toList.head? = g.1.toList.head? := by
    have both := congrArg List.head? lists
    rwa [List.append_assoc, List.append_assoc, List.head?_append_of_ne_nil _ front,
      List.head?_append_of_ne_nil _ front'] at both
  have lasts : f.2.toList.getLast? = g.2.toList.getLast? := by
    have both := congrArg List.getLast? lists
    rwa [List.getLast?_append_of_ne_nil _ back, List.getLast?_append_of_ne_nil _ back'] at both
  obtain rfl := frames_inj _ f listed g listed' heads lasts
  exact String.toList_inj.1 (List.append_cancel_left (List.append_cancel_right lists))

theorem summaryLine_starts {facts : Python.Facts} {line : String} (mem : line ∈ facts.summaryLines)
    :
    ∃ start ∈ ["description: ", "types: ", "core functions: "], ∃ rest, line = start ++ rest := by
  simp only [Python.Facts.summaryLines, List.mem_append] at mem
  rcases mem with (described | typed) | listed
  · split at described
    · split at described
      · cases described
      · exact ⟨_, by simp, _, List.mem_singleton.1 described⟩
    · cases described
  · split at typed
    · cases typed
    · exact ⟨_, by simp, _, List.mem_singleton.1 typed⟩
  · split at listed
    · cases listed
    · exact ⟨_, by simp, _, (List.mem_singleton.1 listed).trans (String.append_assoc ..)⟩

theorem responsibility_ne (facts : Python.Facts) (message : String) :
    facts.responsibility ≠ "parse failed: " ++ message := by
  have started (start rest : String) (plain : start.toList.head? ≠ some 'p')
      (visible : start.toList ≠ []) : start ++ rest ≠ "parse failed: " ++ message := by
    intro same
    have heads := congrArg (fun text => text.toList.head?) same
    simp only [String.toList_append] at heads
    rw [List.head?_append_of_ne_nil _ visible] at heads
    exact plain (heads.trans rfl)
  rw [Python.Facts.responsibility]
  cases lines : facts.summaryLines with
  | nil => simpa using started Python.noResponsibility "" (by decide) (by decide)
  | cons line rest =>
    have mem : line ∈ facts.summaryLines := lines ▸ List.mem_cons_self ..
    obtain ⟨start, listed, more, rfl⟩ := summaryLine_starts mem
    have whole : ∃ tail, "\n".intercalate ((start ++ more) :: rest) = start ++ tail := by
      by_cases last : rest = []
      · exact ⟨more, by rw [last, String.intercalate_singleton]⟩
      · exact ⟨_, by rw [String.intercalate_cons_of_ne_nil last, String.append_assoc,
          String.append_assoc]⟩
    obtain ⟨tail, same⟩ := whole
    have plain : ∀ start ∈ ["description: ", "types: ", "core functions: "],
        start.toList.head? ≠ some 'p' ∧ start.toList ≠ [] := by decide
    rw [List.isEmpty_cons, if_neg Bool.false_ne_true, same]
    exact started start tail (plain start listed).1 (plain start listed).2

def Settles [Python.Parser] (contents : ByteArray) (path path' : String) : Prop :=
  ((∃ facts, factsIn contents path = .ok facts) ∧ ∃ facts, factsIn contents path' = .ok facts) ∨
    path = path'

theorem Settles.factsIn_eq [Python.Parser] {contents : ByteArray} {path path' : String}
    (settles : Settles contents path path') : factsIn contents path = factsIn contents path' := by
  rcases settles with ⟨⟨facts, known⟩, facts', known'⟩ | rfl
  · rw [known, known', factsIn_ok known known']
  · rfl

theorem settles_of_responsibility [Python.Parser] {contents : ByteArray} {path path' : String}
    (same : (Analysis.ofFacts (factsIn contents path)).responsibility =
      (Analysis.ofFacts (factsIn contents path')).responsibility) :
    Settles contents path path' := by
  rw [Settles]
  cases known : factsIn contents path with
  | ok facts =>
    cases known' : factsIn contents path' with
    | ok facts' => exact .inl ⟨⟨facts, rfl⟩, facts', rfl⟩
    | error failure =>
      rw [known, known'] at same
      exact absurd same (responsibility_ne facts _)
  | error failure =>
    cases known' : factsIn contents path' with
    | ok facts =>
      rw [known, known'] at same
      exact absurd same.symm (responsibility_ne facts _)
    | error failure' =>
      rw [known, known'] at same
      exact .inr (message_inj known known' ((String.append_right_inj _).1 same))

namespace FileTree

def movedTo (root : String) (file : SourceFile) : SourceFile :=
  { file with path := Path.join root file.relPath }

variable {tree other : FileTree} {settings : Settings} {root root' : String} {base base' : Location}

theorem sourceFile?_moved (plain : tree.LinkFree) {found : Location × Entry}
    (held : found ∈ tree.entriesBelow base) :
    other.sourceFile? settings root' found =
      (tree.sourceFile? settings root found).map (movedTo root') := by
  obtain ⟨names, entry⟩ := found
  have standing := ((mem_entriesBelow_iff tree base names entry).1 held).2
  have candidate (path path' : String) :
      other.isCandidate path' entry = tree.isCandidate path entry := by
    cases entry with
    | file contents => rfl
    | directory => rfl
    | link target => exact absurd standing (plain.entry? _ _)
  simp only [sourceFile?, candidate (pathBelow root names) (pathBelow root' names)]
  split <;> rfl

/-- The source files among the entries below a directory, those left out that are in a directory which
cannot be opened. -/
def sourcesWhere (tree : FileTree) (settings : Settings) (root : String) (base : Location)
    (opened : Location → Bool) : List SourceFile :=
  ((tree.entriesBelow base).filter fun found => opened found.1.dropLast).filterMap
    (tree.sourceFile? settings root)

theorem sourceFiles_eq_sourcesWhere (directory : tree.view? root = some (base, .directory)) :
    tree.sourceFiles settings root = tree.sourcesWhere settings root base (opens root) := by
  rw [sourceFiles_of_isDirectory ((isDirectory_iff tree root).2 ⟨base, directory⟩),
    entriesUnder_eq directory, sourcesWhere]

/-- Below an equal directory the source files are the same ones, those left out that cannot be got
to from there. -/
theorem sourceFiles_eq_map_movedTo (plain : tree.LinkFree)
    (directory' : other.view? root' = some (base', .directory))
    (same : tree.entriesBelow base = other.entriesBelow base') :
    other.sourceFiles settings root' =
      (tree.sourcesWhere settings root base (opens root')).map (movedTo root') := by
  rw [sourceFiles_eq_sourcesWhere directory', sourcesWhere, sourcesWhere, ← same, List.map_filterMap]
  exact List.filterMap_congr fun found held =>
    sourceFile?_moved plain (List.mem_filter.1 held).1

theorem sourcesWhere_sublist {opened opened' : Location → Bool}
    (onwards : ∀ found ∈ tree.entriesBelow base,
      opened found.1.dropLast = true → opened' found.1.dropLast = true) :
    (tree.sourcesWhere settings root base opened).Sublist
      (tree.sourcesWhere settings root base opened') := by
  have both : ((tree.entriesBelow base).filter fun found => opened found.1.dropLast) =
      ((tree.entriesBelow base).filter fun found => opened' found.1.dropLast).filter fun found =>
        opened found.1.dropLast := by
    rw [List.filter_filter]
    refine List.filter_congr fun found held => ?_
    cases here : opened found.1.dropLast with
    | false => rfl
    | true => rw [onwards found held here, Bool.and_self]
  rw [sourcesWhere, sourcesWhere, both]
  exact List.filter_sublist.filterMap _

theorem opens_total (root root' : String) :
    (∀ names : Location, (∀ name ∈ names, isProperName name = true) →
      opens root names = true → opens root' names = true) ∨
    ∀ names : Location, (∀ name ∈ names, isProperName name = true) →
      opens root' names = true → opens root names = true := by
  obtain ⟨gap, joined⟩ := Path.exists_join_eq root
  obtain ⟨gap', joined'⟩ := Path.exists_join_eq root'
  have opened (names : Location) (proper : ∀ name ∈ names, isProperName name = true) :
      (opens root names = true ↔ names = [] ∨
        (root ++ gap).utf8ByteSize + ("/".intercalate names).utf8ByteSize < pathLimit) ∧
      (opens root' names = true ↔ names = [] ∨
        (root' ++ gap').utf8ByteSize + ("/".intercalate names).utf8ByteSize < pathLimit) := by
    by_cases here : names = []
    · simp [here, opens]
    have relative := Path.isAbsolute_relative here proper
    simp [opens, here, pathBelow, joined _ relative, joined' _ relative]
  rcases Nat.le_total (root ++ gap).utf8ByteSize (root' ++ gap').utf8ByteSize with less | less
  · refine .inr fun names proper opened' => (opened names proper).1.2 ?_
    exact ((opened names proper).2.1 opened').imp id fun short => by omega
  · refine .inl fun names proper opened' => (opened names proper).2.2 ?_
    exact ((opened names proper).1.1 opened').imp id fun short => by omega

/-- Whether two scans find the same files below their roots. -/
def FindsAlike (tree other : FileTree) (settings : Settings) (root root' : String) : Prop :=
  (tree.sourceFiles settings root).map SourceFile.relPath =
    (other.sourceFiles settings root').map SourceFile.relPath

theorem sourceFiles_moved (plain : tree.LinkFree)
    (directory : tree.view? root = some (base, .directory))
    (directory' : other.view? root' = some (base', .directory))
    (same : tree.entriesBelow base = other.entriesBelow base')
    (count : (tree.sourceFiles settings root).length = (other.sourceFiles settings root').length) :
    other.sourceFiles settings root' = (tree.sourceFiles settings root).map (movedTo root') := by
  have proper (found : Location × Entry) (held : found ∈ tree.entriesBelow base) :
      ∀ name ∈ found.1.dropLast, isProperName name = true := by
    intro name mem
    have stands := ((mem_entriesBelow_iff tree base found.1 found.2).1 held).2
    exact List.all_eq_true.1 (entry?_isProperName stands) name
      (List.mem_append_right _ (List.dropLast_subset _ mem))
  rw [sourceFiles_eq_map_movedTo plain directory' same, List.length_map,
    sourceFiles_eq_sourcesWhere directory] at count
  rw [sourceFiles_eq_map_movedTo plain directory' same, sourceFiles_eq_sourcesWhere directory]
  rcases opens_total root root' with onwards | onwards
  · rw [(sourcesWhere_sublist fun found held => onwards _ (proper found held)).eq_of_length count]
  · rw [(sourcesWhere_sublist fun found held => onwards _ (proper found held)).eq_of_length
      count.symm]

theorem findsAlike_iff_length (plain : tree.LinkFree)
    (directory : tree.view? root = some (base, .directory))
    (directory' : other.view? root' = some (base', .directory))
    (same : tree.entriesBelow base = other.entriesBelow base') :
    tree.FindsAlike other settings root root' ↔
      (tree.sourceFiles settings root).length = (other.sourceFiles settings root').length := by
  constructor
  · intro alike
    simpa using congrArg List.length alike
  · intro count
    rw [FindsAlike, sourceFiles_moved plain directory directory' same count, List.map_map]
    rfl

theorem findsAlike_of_short (plain : tree.LinkFree)
    (directory : tree.view? root = some (base, .directory))
    (directory' : other.view? root' = some (base', .directory))
    (same : tree.entriesBelow base = other.entriesBelow base')
    (short : ∀ file ∈ tree.sourceFiles settings root,
      (Path.join root' file.relPath).utf8ByteSize < pathLimit)
    (short' : ∀ file ∈ other.sourceFiles settings root',
      (Path.join root file.relPath).utf8ByteSize < pathLimit) :
    tree.FindsAlike other settings root root' := by
  have opened {root : String} {names : Location} {entry : Entry} {file : SourceFile}
      (held : (names, entry) ∈ tree.entriesBelow base) (path : file.relPath = "/".intercalate names)
      (short : (Path.join root file.relPath).utf8ByteSize < pathLimit) :
      opens root names.dropLast = true := by
    obtain ⟨visible, stands⟩ := (mem_entriesBelow_iff ..).1 held
    obtain ⟨front, name, rfl⟩ := (List.eq_nil_or_concat' names).resolve_left visible
    have proper : ∀ part ∈ front ++ [name], isProperName part = true := fun part mem =>
      List.all_eq_true.1 (entry?_isProperName stands) part (List.mem_append_right _ mem)
    have whole : opens root (front ++ [name]) = true := by
      rw [opens, pathBelow, ← path, decide_eq_true short, Bool.or_true]
    rw [List.dropLast_concat]
    exact opens_of_append proper whole
  have equal : tree.sourcesWhere settings root base (opens root) =
      tree.sourcesWhere settings root base (opens root') := by
    rw [sourcesWhere, sourcesWhere, List.filterMap_filter, List.filterMap_filter]
    refine List.filterMap_congr ?_
    rintro ⟨names, entry⟩ held
    cases source : tree.sourceFile? settings root (names, entry) with
    | none => simp
    | some file =>
      have path := (sourceFile?_eq_some source).1
      have inFirst (here : opens root names.dropLast = true) :
          opens root' names.dropLast = true := by
        refine opened held path (short file ?_)
        rw [sourceFiles_eq_sourcesWhere directory]
        exact List.mem_filterMap.2 ⟨_, List.mem_filter.2 ⟨held, here⟩, source⟩
      have inSecond (here : opens root' names.dropLast = true) :
          opens root names.dropLast = true := by
        refine opened held path (short' (movedTo root' file) ?_)
        rw [sourceFiles_eq_map_movedTo plain directory' same]
        exact List.mem_map_of_mem
          (List.mem_filterMap.2 ⟨_, List.mem_filter.2 ⟨held, here⟩, source⟩)
      have both : opens root names.dropLast = opens root' names.dropLast :=
        Bool.eq_iff_iff.2 ⟨inFirst, inSecond⟩
      simp only [both]
  rw [findsAlike_iff_length plain directory directory' same,
    sourceFiles_eq_sourcesWhere directory, sourceFiles_eq_map_movedTo plain directory' same,
    List.length_map, equal]

/-- Whether a file is understood in two trees or opened by the same path in both. -/
def ToldAlike [Python.Parser] (tree other : FileTree) (root root' relPath : String) : Prop :=
  ((∃ facts, tree.facts (Path.join root relPath) = .ok facts) ∧
    ∃ facts, other.facts (Path.join root' relPath) = .ok facts) ∨
  Path.join root relPath = Path.join root' relPath

/-- Whether a file's path from one root and its path from another one, in another tree, open files
with the same contents. -/
def SharesContents [Python.Parser] (tree other : FileTree) (root root' : String) (file : SourceFile)
    : Prop :=
  file.path = Path.join root file.relPath ∧ ∃ contents,
    tree.facts (Path.join root file.relPath) = factsIn contents (Path.join root file.relPath) ∧
    other.facts (Path.join root' file.relPath) = factsIn contents (Path.join root' file.relPath)

theorem sharesContents [Python.Parser] (plain : tree.LinkFree)
    (directory : tree.view? root = some (base, .directory))
    (directory' : other.view? root' = some (base', .directory))
    (same : tree.entriesBelow base = other.entriesBelow base') {file : SourceFile}
    (listed : file ∈ tree.sourceFiles settings root) : tree.SharesContents other root root' file := by
  obtain ⟨front, name, source, rfl⟩ := (mem_sourceFiles_iff directory file).1 listed
  obtain ⟨contents, found⟩ := source.holds plain
  have below : (front ++ [name], .file contents) ∈ other.entriesBelow base' :=
    same ▸ (mem_entriesBelow_iff ..).2 ⟨by simp, found⟩
  have found' := ((mem_entriesBelow_iff ..).1 below).2
  exact ⟨rfl, contents, facts_pathBelow directory (by simp) found,
    facts_pathBelow directory' (by simp) found'⟩

end FileTree

namespace Survey

open FileTree (movedTo)

def Subject.movedTo (root : String) (subject : Subject) : Subject :=
  { subject with file := FileTree.movedTo root subject.file }

theorem draw_moved (settings : Settings) (root : String) (subjects : List Subject) :
    draw settings (subjects.map (Subject.movedTo root)) = draw settings subjects := by
  have placed : placements settings.style (subjects.map (Subject.movedTo root)) =
      placements settings.style subjects := by
    rw [placements_eq_places, placements_eq_places, List.map_map]
    rfl
  have step : Drawing.add settings.extension (subjects.map (Subject.movedTo root)) =
      Drawing.add settings.extension subjects := by
    funext drawing placement
    rw [Drawing.add, Drawing.add, List.getElem?_map]
    cases subjects[placement.index]? <;> rfl
  rw [draw, draw, placed, step]

theorem ofSubjects_moved (settings : Settings) (root : String) (subjects : List Subject) :
    ofSubjects settings (subjects.map (Subject.movedTo root)) = ofSubjects settings subjects := by
  have dependencies (drawing : Drawing) :
      drawing.dependencies (subjects.map (Subject.movedTo root)) = drawing.dependencies subjects := by
    rw [Drawing.dependencies, List.zipIdx_map, List.flatMap_map]
    rfl
  have failed : failures (subjects.map (Subject.movedTo root)) = failures subjects := by
    rw [failures, List.filterMap_map]
    rfl
  rw [ofSubjects, ofSubjects, draw_moved, dependencies, failed]

theorem subjectsOf_moved (settings : Settings) (root : String) (analysis : SourceFile → Analysis)
    (files : List SourceFile) :
    subjectsOf settings.layerOf analysis (files.map (movedTo root)) =
      (subjectsOf settings.layerOf (analysis ∘ movedTo root) files).map (Subject.movedTo root) := by
  rw [subjectsOf, subjectsOf, List.map_map, List.map_map]
  rfl

theorem nodeText_inj {style : Style} {file : SourceFile} {layer : Layer} {first second : String}
    (same : Chart.nodeText style file layer first = Chart.nodeText style file layer second) :
    first = second := by
  obtain ⟨before, split⟩ := nodeText_split style file layer
  rw [split, split] at same
  exact (String.append_right_inj before).1 same

theorem diagram_ext {first second : Diagram} (nodes : first.nodes = second.nodes)
    (edges : first.edges = second.edges) : first = second := by
  cases first
  cases second
  cases nodes
  cases edges
  rfl

section

variable {settings : Settings} {analysis analysis' : SourceFile → Analysis} {files : List SourceFile}
  {placed : List Placement} {idOf : SourceFile → String}

/-- Two surveys of the same files give the same diagram if and only if they tell the same of each
file. -/
theorem diagram_eq_iff
    (first : Drawn settings settings.layerOf analysis files placed idOf
      (draw settings (subjectsOf settings.layerOf analysis files)))
    (second : Drawn settings settings.layerOf analysis' files placed idOf
      (draw settings (subjectsOf settings.layerOf analysis' files)))
    (perm : (drawnFiles files placed).Perm files)
    (complete : ∀ index < files.length, index ∈ placed.map Placement.index)
    (imports : ∀ file ∈ files, (analysis file).responsibility = (analysis' file).responsibility →
      (analysis file).imports = (analysis' file).imports) :
    (ofSubjects settings (subjectsOf settings.layerOf analysis files)).diagram =
        (ofSubjects settings (subjectsOf settings.layerOf analysis' files)).diagram ↔
      ∀ file ∈ files, (analysis file).responsibility = (analysis' file).responsibility := by
  constructor
  · intro same file listed
    have texts := congrArg (fun diagram : Diagram => diagram.nodes.map Node.text) same
    simp only [ofSubjects_shown first, ofSubjects_shown second] at texts
    exact nodeText_inj (List.map_inj_left.1 texts file (perm.mem_iff.2 listed))
  · intro same
    have nodes : (ofSubjects settings (subjectsOf settings.layerOf analysis files)).diagram.nodes =
        (ofSubjects settings (subjectsOf settings.layerOf analysis' files)).diagram.nodes := by
      rw [ofSubjects_nodes first, ofSubjects_nodes second]
      refine List.filterMap_congr fun placement _ => ?_
      cases found : files[placement.index]? with
      | none => rfl
      | some file =>
        rw [Option.map_some, Option.map_some, nodeOf, nodeOf,
          same file (List.mem_of_getElem? found)]
    have edges : (ofSubjects settings (subjectsOf settings.layerOf analysis files)).diagram.edges =
        (ofSubjects settings (subjectsOf settings.layerOf analysis' files)).diagram.edges := by
      rw [ofSubjects_edges first complete, ofSubjects_edges second complete,
        references_congr fun file mem => imports file mem (same file mem)]
    exact diagram_ext nodes edges

end

def SameNews (root : String) (degraded : List (String × Failure)) (text text' : String) : Prop :=
  text = text' ∨ ∃ before relPath failure, (relPath, failure) ∈ degraded ∧
    text = before ++ ("parse failed: " ++ failure.message) ∧
    text' = before ++ ("parse failed: " ++ (failure.about (Path.join root relPath)).message)

/-- A survey and another one that tells the same, but of files below another root. -/
structure Retold (root : String) (first second : Survey) : Prop where
  texts : List.Forall₂ (SameNews root first.degraded) (first.diagram.nodes.map Node.text)
    (second.diagram.nodes.map Node.text)
  edges : first.diagram.edges = second.diagram.edges
  degraded : second.degraded = first.degraded.map fun entry =>
    (entry.1, entry.2.about (Path.join root entry.1))

theorem toldAlike_of_responsibility [Python.Parser] {tree other : FileTree} {root root' : String}
    {file : SourceFile} (known : tree.SharesContents other root root' file)
    (agree : (tree.analysis file).responsibility =
      ((other.analysis ∘ movedTo root') file).responsibility)
    :
    tree.ToldAlike other root root' file.relPath := by
  obtain ⟨opened, contents, here, there⟩ := known
  rw [FileTree.analysis, opened, here, Function.comp_apply, FileTree.analysis, FileTree.movedTo,
    there] at agree
  rw [FileTree.ToldAlike, here, there]
  exact settles_of_responsibility agree

theorem analysis_eq_of_toldAlike [Python.Parser] {tree other : FileTree} {root root' : String}
    {file : SourceFile} (known : tree.SharesContents other root root' file)
    (alike : tree.ToldAlike other root root' file.relPath) :
    tree.analysis file = (other.analysis ∘ movedTo root') file := by
  obtain ⟨opened, contents, here, there⟩ := known
  rw [FileTree.ToldAlike, here, there] at alike
  rw [FileTree.analysis, opened, here, Function.comp_apply, FileTree.analysis, FileTree.movedTo,
    there, Settles.factsIn_eq alike]

theorem retold_of_facts [Python.Parser] {tree other : FileTree} {settings : Settings}
    {root' : String} {files : List SourceFile} {placed : List Placement}
    {idOf : SourceFile → String}
    (first : Drawn settings settings.layerOf tree.analysis files placed idOf
      (draw settings (subjectsOf settings.layerOf tree.analysis files)))
    (second : Drawn settings settings.layerOf (other.analysis ∘ movedTo root') files placed idOf
      (draw settings (subjectsOf settings.layerOf (other.analysis ∘ movedTo root') files)))
    (perm : (drawnFiles files placed).Perm files)
    (complete : ∀ index < files.length, index ∈ placed.map Placement.index)
    (facts : ∀ file ∈ files, other.facts (movedTo root' file).path =
      (tree.facts file.path).mapError (Failure.about (Path.join root' file.relPath)))
    :
    Retold root' (ofSubjects settings (subjectsOf settings.layerOf tree.analysis files))
      (ofSubjects settings (subjectsOf settings.layerOf (other.analysis ∘ movedTo root') files)) := by
  have outcome : ∀ file ∈ files, ((other.analysis ∘ movedTo root') file) = Analysis.ofFacts
      ((tree.facts file.path).mapError (Failure.about (Path.join root' file.relPath))) :=
    fun file listed => by rw [Function.comp_apply, FileTree.analysis, facts file listed]
  refine ⟨?_, ?_, ?_⟩
  · rw [ofSubjects_shown first, ofSubjects_shown second, List.forall₂_map_left_iff,
      List.forall₂_map_right_iff, List.forall₂_same]
    intro file drawn
    have listed := perm.mem_iff.1 drawn
    rw [outcome file listed]
    cases known : tree.facts file.path with
    | ok facts =>
      rw [FileTree.analysis, known]
      exact .inl rfl
    | error failure =>
      obtain ⟨before, split⟩ := nodeText_split settings.style file (settings.layerOf file)
      have entry : (file.relPath, failure) ∈
          failures (subjectsOf settings.layerOf tree.analysis files) := by
        refine List.mem_filterMap.2 ⟨_, List.mem_map_of_mem listed, ?_⟩
        rw [FileTree.analysis, known]
        rfl
      rw [FileTree.analysis, known, split, split]
      exact .inr ⟨before, file.relPath, failure, entry, rfl, rfl⟩
  · rw [ofSubjects_edges first complete, ofSubjects_edges second complete,
      references_congr fun file listed => ?_]
    rw [outcome file listed, FileTree.analysis]
    cases tree.facts file.path <;> rfl
  · simp only [ofSubjects, failures, subjectsOf, List.filterMap_map, List.map_filterMap]
    refine List.filterMap_congr fun file listed => ?_
    simp only [Function.comp_apply] at outcome ⊢
    rw [outcome file listed, FileTree.analysis]
    cases tree.facts file.path <;> rfl

theorem length_nodes [Python.Parser] {tree : FileTree} {root : String} (settings : Settings)
    (directory : tree.isDirectory root = true) :
    (ofSubjects settings (subjects tree settings root)).diagram.nodes.length =
      (tree.sourceFiles settings root).length := by
  obtain ⟨drawn, idOf, depicts, -⟩ := ofSubjects_depicts settings directory
  have count := congrArg List.length depicts.shown
  rw [List.length_map, List.length_map] at count
  rw [count, depicts.all.length_eq]

theorem ofSubjects_of_moved [Python.Parser] {tree other : FileTree} {settings : Settings}
    {root root' : String} {base base' : Location} (plain : tree.LinkFree)
    (directory : tree.view? root = some (base, .directory))
    (directory' : other.view? root' = some (base', .directory))
    (same : tree.entriesBelow base = other.entriesBelow base')
    (moved : other.sourceFiles settings root' =
      (tree.sourceFiles settings root).map (movedTo root')) :
    (ofSubjects settings (subjects tree settings root)).diagram.nodes.map Node.bare =
        (ofSubjects settings (subjects other settings root')).diagram.nodes.map Node.bare ∧
      ((ofSubjects settings (subjects tree settings root)).diagram =
          (ofSubjects settings (subjects other settings root')).diagram ↔
        ∀ file ∈ tree.sourceFiles settings root, tree.ToldAlike other root root' file.relPath) ∧
      ((∀ file ∈ tree.sourceFiles settings root,
          (Path.join root file.relPath).utf8ByteSize < FileTree.pathLimit ∧
          (Path.join root' file.relPath).utf8ByteSize < FileTree.pathLimit) →
        Retold root' (ofSubjects settings (subjects tree settings root))
          (ofSubjects settings (subjects other settings root'))) := by
  have isDirectory := (FileTree.isDirectory_iff tree root).2 ⟨base, directory⟩
  have single := FileTree.sourceFiles_nodup isDirectory settings
  have subjects' : subjects other settings root' =
      (subjectsOf settings.layerOf (other.analysis ∘ movedTo root')
        (tree.sourceFiles settings root)).map (Subject.movedTo root') := by
    rw [subjects_eq, moved, subjectsOf_moved]
  have known {file : SourceFile} (listed : file ∈ tree.sourceFiles settings root) :=
    FileTree.sharesContents plain directory directory' same listed
  obtain ⟨idOf, drawing⟩ := draw_drawn settings settings.layerOf single
  have drawn := drawing tree.analysis
  have drawn' := drawing (other.analysis ∘ movedTo root')
  have perm := drawnFiles_perm settings.style settings.layerOf tree.analysis
    (tree.sourceFiles settings root)
  have complete := listed_of_placements settings.style settings.layerOf tree.analysis
    (tree.sourceFiles settings root)
  rw [placements_subjectsOf] at drawn drawn' perm complete
  rw [subjects', ofSubjects_moved, subjects_eq]
  refine ⟨nodes_bare drawn drawn', ?_, fun short => retold_of_facts drawn drawn' perm complete ?_⟩
  · rw [diagram_eq_iff drawn drawn' perm complete fun file listed agree =>
      congrArg Analysis.imports (analysis_eq_of_toldAlike (known listed)
        (toldAlike_of_responsibility (known listed) agree))]
    exact forall₂_congr fun file listed => ⟨toldAlike_of_responsibility (known listed), fun alike =>
      congrArg Analysis.responsibility (analysis_eq_of_toldAlike (known listed) alike)⟩
  · intro file listed
    obtain ⟨opened, contents, here, there⟩ := known listed
    obtain ⟨short, short'⟩ := short file listed
    rw [opened, here, FileTree.movedTo, there, factsIn_about short short']

/-- Surveys of equal directories draw the same nodes but for their texts exactly if they find the same
files. They give the same diagram exactly if, besides, each file is understood in both or opened by the
same path. And if no path is too long, they find the same files and differ only in the paths that their
failures name. -/
theorem run_moved [Python.Parser] (tree other : FileTree) (settings : Settings)
    (root root' : String) (base base' : Location) (plain : tree.LinkFree)
    (valid : settings.validate = .ok ())
    (directory : tree.view? root = some (base, .directory))
    (directory' : other.view? root' = some (base', .directory))
    (same : tree.entriesBelow base = other.entriesBelow base') :
    ∃ first second, run tree settings root = .ok first ∧ run other settings root' = .ok second ∧
      (first.diagram.nodes.map Node.bare = second.diagram.nodes.map Node.bare ↔
        tree.FindsAlike other settings root root') ∧
      (first.diagram = second.diagram ↔ tree.FindsAlike other settings root root' ∧
        ∀ file ∈ tree.sourceFiles settings root, tree.ToldAlike other root root' file.relPath) ∧
      ((∀ file ∈ tree.sourceFiles settings root ++ other.sourceFiles settings root',
          (Path.join root file.relPath).utf8ByteSize < FileTree.pathLimit ∧
          (Path.join root' file.relPath).utf8ByteSize < FileTree.pathLimit) →
        tree.FindsAlike other settings root root' ∧ Retold root' first second) := by
  have isDirectory := (FileTree.isDirectory_iff tree root).2 ⟨base, directory⟩
  have isDirectory' := (FileTree.isDirectory_iff other root').2 ⟨base', directory'⟩
  have finds : tree.FindsAlike other settings root root' ↔ _ :=
    FileTree.findsAlike_iff_length plain directory directory' same
  have told (alike : tree.FindsAlike other settings root root') :=
    ofSubjects_of_moved plain directory directory' same
      (FileTree.sourceFiles_moved plain directory directory' same (finds.1 alike))
  have alike_of_nodes (count : (ofSubjects settings (subjects tree settings root)).diagram.nodes.length =
      (ofSubjects settings (subjects other settings root')).diagram.nodes.length) :
      tree.FindsAlike other settings root root' := by
    rwa [length_nodes settings isDirectory, length_nodes settings isDirectory', ← finds] at count
  refine ⟨_, _, run_ok valid isDirectory, run_ok valid isDirectory', ⟨fun bare => ?_, fun alike =>
    (told alike).1⟩, ⟨fun equal => ?_, fun both => ?_⟩, fun short => ?_⟩
  · exact alike_of_nodes (by simpa using congrArg List.length bare)
  · have alike := alike_of_nodes (by rw [equal])
    exact ⟨alike, (told alike).2.1.1 equal⟩
  · exact (told both.1).2.1.2 both.2
  · have alike := FileTree.findsAlike_of_short plain directory directory' same
      (fun file listed => (short file (List.mem_append_left _ listed)).2)
      (fun file listed => (short file (List.mem_append_right _ listed)).1)
    exact ⟨alike, (told alike).2.2 fun file listed => short file (List.mem_append_left _ listed)⟩

theorem run_moved_broken :
    let tree := ((FileTree.empty.add ["p"] .directory).add ["p", "a.py"]
      (.file "def".toUTF8)).add ["p", "b.py"] (.file "import a".toUTF8)
    let other := ((FileTree.empty.add ["q"] .directory).add ["q", "a.py"]
      (.file "def".toUTF8)).add ["q", "b.py"] (.file "import a".toUTF8)
    (tree.LinkFree ∧ Settings.standard.validate = .ok () ∧
      tree.view? "p" = some (["p"], .directory) ∧ other.view? "q/" = some (["q"], .directory) ∧
      tree.entriesBelow ["p"] = other.entriesBelow ["q"]) ∧
    ∃ first second, run tree Settings.standard "p" = .ok first ∧
      run other Settings.standard "q/" = .ok second ∧
      (first.diagram.nodes.map Node.bare = second.diagram.nodes.map Node.bare ↔
        tree.FindsAlike other Settings.standard "p" "q/") ∧
      (first.diagram = second.diagram ↔ tree.FindsAlike other Settings.standard "p" "q/" ∧
        ∀ file ∈ tree.sourceFiles Settings.standard "p",
          tree.ToldAlike other "p" "q/" file.relPath) ∧
      ((∀ file ∈ tree.sourceFiles Settings.standard "p" ++
            other.sourceFiles Settings.standard "q/",
          (Path.join "p" file.relPath).utf8ByteSize < FileTree.pathLimit ∧
          (Path.join "q/" file.relPath).utf8ByteSize < FileTree.pathLimit) →
        tree.FindsAlike other Settings.standard "p" "q/" ∧ Retold "q/" first second) := by
  intro tree other
  have plain : tree.LinkFree := by decide
  have valid : Settings.standard.validate = .ok () := by decide +kernel
  have directory : tree.view? "p" = some (["p"], .directory) := by decide +kernel
  have directory' : other.view? "q/" = some (["q"], .directory) := by decide +kernel
  have same : tree.entriesBelow ["p"] = other.entriesBelow ["q"] := by decide +kernel
  exact ⟨⟨plain, valid, directory, directory', same⟩,
    run_moved tree other _ _ _ _ _ plain valid directory directory' same⟩

theorem sourceFiles_slashed (tree : FileTree) (settings : Settings)
    (here : tree.view? (Path.slashed 4092) = some ([], .directory))
    (entries : tree.entriesBelow [] = [(["pkg"], .directory), (["pkg", "b.py"], .file .empty)]) :
    tree.sourceFiles settings (Path.slashed 4092) = [] := by
  have closed : FileTree.opens (Path.slashed 4092) ["pkg"] = false := by
    have name : ("pkg" : String).utf8ByteSize = 3 := by decide
    rw [FileTree.opens, FileTree.pathBelow, String.intercalate_singleton,
      Path.join_slashed 4091 "pkg" (by decide), String.utf8ByteSize_append,
      Path.utf8ByteSize_slashed, name]
    decide
  rw [FileTree.sourceFiles_of_isDirectory ((FileTree.isDirectory_iff tree _).2 ⟨[], here⟩),
    FileTree.entriesUnder_eq here, entries]
  have top : FileTree.opens (Path.slashed 4092) [] = true := rfl
  simp [closed, top, FileTree.sourceFile?, FileTree.isCandidate]

/-- The node of a file that is not understood tells how its directory was named, and below a directory
that is named at great length a file can have no node at all. -/
theorem spelling_shows :
    let tree := (FileTree.empty.add ["p"] .directory).add ["p", "a.py"] (.file "def".toUTF8)
    let deep := (FileTree.empty.add ["pkg"] .directory).add ["pkg", "b.py"] (.file .empty)
    Settings.standard.validate = .ok () ∧
    (tree.LinkFree ∧
      tree.view? "p" = some (["p"], .directory) ∧ tree.view? "./p" = some (["p"], .directory) ∧
      ∃ first second, run tree Settings.standard "p" = .ok first ∧
        run tree Settings.standard "./p" = .ok second ∧ first.diagram ≠ second.diagram) ∧
    deep.LinkFree ∧
      deep.view? "." = some ([], .directory) ∧
      deep.view? (Path.slashed 4092) = some ([], .directory) ∧
      ∃ first second, run deep Settings.standard "." = .ok first ∧
        run deep Settings.standard (Path.slashed 4092) = .ok second ∧
        first.diagram.nodes.length = 1 ∧ second.diagram.nodes.length = 0 := by
  intro tree deep
  have valid : Settings.standard.validate = .ok () := by decide +kernel
  refine ⟨valid, ⟨by decide, ?_⟩, by decide, ?_⟩
  · have directory : tree.view? "p" = some (["p"], .directory) := by decide +kernel
    have directory' : tree.view? "./p" = some (["p"], .directory) := by decide +kernel
    refine ⟨directory, directory', _, _,
      run_ok valid ((FileTree.isDirectory_iff tree _).2 ⟨_, directory⟩),
      run_ok valid ((FileTree.isDirectory_iff tree _).2 ⟨_, directory'⟩), ?_⟩
    decide +kernel
  · have directory : deep.view? "." = some ([], .directory) := by decide +kernel
    have directory' : deep.view? (Path.slashed 4092) = some ([], .directory) :=
      FileTree.view?_slashed deep (by decide)
    have isDirectory := (FileTree.isDirectory_iff deep _).2 ⟨_, directory⟩
    have isDirectory' := (FileTree.isDirectory_iff deep _).2 ⟨_, directory'⟩
    refine ⟨directory, directory', _, _, run_ok valid isDirectory, run_ok valid isDirectory', ?_, ?_⟩
    · rw [length_nodes _ isDirectory]
      decide +kernel
    · rw [length_nodes _ isDirectory', sourceFiles_slashed deep _ directory' (by decide +kernel)]
      rfl

end Survey

end SourceAtlas
