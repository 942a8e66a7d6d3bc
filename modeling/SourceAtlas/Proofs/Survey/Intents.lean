import SourceAtlas.Proofs.Diagram.Intent
import SourceAtlas.Proofs.Scaffold.Unchanged
import SourceAtlas.Proofs.Survey.Run
import SourceAtlas.Proofs.Survey.Scan
set_option autoImplicit false

namespace SourceAtlas

namespace FileTree

variable {tree : FileTree} {settings : Settings} {root : String} {base : Location}

theorem IsSource.visible {front : Location} {name : String}
    (source : tree.IsSource settings root base front name) :
    name ≠ "" ∧ "/".intercalate (front ++ [name]) ≠ "" := by
  refine ⟨(named_of_isProperName (source.proper name (by simp))).1, fun empty => ?_⟩
  have names := Path.names_relative (by simp) source.proper
  rw [empty] at names
  exact absurd names.symm (by simp [Path.names, Path.pieces, Text.splitAt, Text.pieces])

end FileTree

def Intent.heading (intent : Intent) : String × String :=
  (intent.name, intent.path)

/-- The name and the path that a node calls for. -/
def Node.heading? (node : Node) : Option (String × String) :=
  (Intent.ofText? node.text node.color).map Intent.heading

theorem Diagram.headings_eq (diagram : Diagram) :
    diagram.intents.map Intent.heading = diagram.nodes.filterMap Node.heading? :=
  List.map_filterMap

theorem headings_of_texts {α : Type} {nodes : List Node} {items : List α} {text : α → String}
    (heading : α → String × String) (texts : nodes.map Node.text = items.map text)
    (calls : ∀ item ∈ items, ∀ color,
      (Intent.ofText? (text item) color).map Intent.heading = some (heading item)) :
    nodes.map Node.heading? = items.map fun item => some (heading item) := by
  induction items generalizing nodes with
  | nil => simpa using texts
  | cons item items ih =>
    cases nodes with
    | nil => simp at texts
    | cons node nodes =>
      rw [List.map_cons, List.map_cons] at texts
      obtain ⟨first, rest⟩ := List.cons.inj texts
      rw [List.map_cons, List.map_cons, ih rest fun other mem => calls other (List.mem_cons_of_mem _ mem),
        Node.heading?, first, calls item (List.mem_cons_self ..)]

theorem Diagram.headings_of_nodes {α : Type} {diagram : Diagram} {items : List α}
    {heading : α → String × String}
    (each : diagram.nodes.map Node.heading? = items.map fun item => some (heading item)) :
    diagram.intents.map Intent.heading = items.map heading := by
  have whole := congrArg (List.filterMap id) each
  rw [List.filterMap_map, List.filterMap_map] at whole
  rw [headings_eq]
  simpa [Function.comp_def] using whole

namespace Survey

variable {tree : FileTree} {settings : Settings} {root : String}

def textOf [Python.Parser] (tree : FileTree) (settings : Settings) (file : SourceFile) : String :=
  Chart.nodeText settings.style file (settings.layerOf file) (tree.analysis file).responsibility

theorem ofSubjects_texts [Python.Parser] (settings : Settings)
    (directory : tree.isDirectory root = true) :
    (ofSubjects settings (subjects tree settings root)).diagram.nodes.map Node.text =
      (drawnFiles (tree.sourceFiles settings root)
        (placements settings.style (subjects tree settings root))).map (textOf tree settings) := by
  obtain ⟨idOf, drawing⟩ := draw_drawn settings settings.layerOf
    (FileTree.sourceFiles_nodup directory settings)
  exact ofSubjects_shown (drawing tree.analysis)

/-- Making what is called for succeeds and changes nothing exactly if all paths that are called for
lead somewhere, those excepted that stand for unknown ones. -/
theorem sync_headings_iff (tree : FileTree) (root : String) {intents : List Intent}
    {files : List SourceFile} {heading : SourceFile → String × String}
    (headings : intents.map Intent.heading = files.map heading)
    (calls : ∀ file ∈ files, ∀ intent : Intent, intent.path = (heading file).2 →
      (intent.CallsForFile ↔ intent.path.toList.head? ≠ some '\x60')) :
    (∃ report, tree.sync root intents = (.ok report, tree) ∧ report.isUnchanged = true) ↔
      ∀ file ∈ files, (heading file).2.toList.head? ≠ some '\x60' →
        tree.pathExists (Path.join root (heading file).2) = true := by
  rw [FileTree.sync_unchanged_iff]
  constructor
  · intro there file listed known
    obtain ⟨intent, called, same⟩ := List.mem_map.1 (headings ▸ List.mem_map_of_mem listed)
    have path : intent.path = (heading file).2 := congrArg Prod.snd same
    exact path ▸ there intent called ((calls file listed intent path).2 (path ▸ known))
  · intro there intent called wanted
    obtain ⟨file, listed, same⟩ := List.mem_map.1 (headings ▸ List.mem_map_of_mem called)
    have path : intent.path = (heading file).2 := (congrArg Prod.snd same).symm
    have known := (calls file listed intent path).1 wanted
    exact path ▸ there file listed (path ▸ known)

theorem nodeText_layered (file : SourceFile) (layer : Layer) (responsibility : String) :
    Chart.nodeText .layered file layer responsibility = layer.tag ++ "\n" ++
      (file.filename ++ "\n" ++ (file.relPath ++ "\n\n" ++ responsibility)) := by
  simp only [Chart.nodeText, String.append_assoc]

theorem tag_isPlain (layer : Layer) : Text.IsPlain layer.tag ∧ layer.tag.toList ≠ [] := by
  cases layer <;> decide

def shownName (file : SourceFile) : String :=
  String.ofList (Text.trim file.filename.toList)

/-- If a path is plain, the name at its end is on one line and shown up to blanks before it. -/
theorem trim_name {base front : Location} {name : String}
    (source : tree.IsSource settings root base front name)
    (plain : Text.IsPlain ("/".intercalate (front ++ [name]))) :
    '\n' ∉ name.toList ∧ Text.trim name.toList ≠ [] ∧ ∃ blank : List Char,
      (∀ b ∈ blank, Text.isBlank b = true) ∧ name.toList = blank ++ Text.trim name.toList := by
  obtain ⟨before, whole⟩ := Path.suffix_intercalate front name
  refine ⟨fun feed => plain.single (whole ▸ List.mem_append_right _ feed), ?_⟩
  have nonempty : name.toList ≠ [] := fun empty => source.visible.1 (String.toList_eq_nil_iff.1 empty)
  obtain ⟨start, c, cut⟩ := (List.eq_nil_or_concat' name.toList).resolve_left nonempty
  have visible : Text.isBlank c = false := by
    refine plain.last c ?_
    rw [← whole, cut, ← List.append_assoc, List.getLast?_concat]
  obtain ⟨blank, rest, areBlank, rfl, same⟩ := Text.trim_concat start visible
  rw [cut, same]
  exact ⟨by simp, blank, areBlank, by simp⟩

theorem heading_layered [Python.Parser] {base front : Location} {name : String}
    (layered : settings.style = .layered) (source : tree.IsSource settings root base front name)
    (plain : Text.IsPlain ("/".intercalate (front ++ [name]))) (color : Option String) :
    (Intent.ofText? (textOf tree settings (FileTree.sourceAt root front name)) color).map
        Intent.heading =
      some ((settings.layerOf (FileTree.sourceAt root front name)).tag,
        shownName (FileTree.sourceAt root front name)) := by
  obtain ⟨tagged, tag⟩ := tag_isPlain (settings.layerOf (FileTree.sourceAt root front name))
  obtain ⟨single, visible⟩ : '\n' ∉ (FileTree.sourceAt root front name).filename.toList ∧
      Text.trim (FileTree.sourceAt root front name).filename.toList ≠ [] :=
    ⟨(trim_name source plain).1, (trim_name source plain).2.1⟩
  rw [textOf, layered, nodeText_layered, Intent.ofText?_lines _ _ tagged.single
    (tagged.trim.symm ▸ tag) single visible, tagged.trim]
  simp [Intent.heading, shownName]

theorem slash_not_mem_shownName {base front : Location} {name : String}
    (source : tree.IsSource settings root base front name)
    (plain : Text.IsPlain ("/".intercalate (front ++ [name]))) :
    '/' ∉ (shownName (FileTree.sourceAt root front name)).toList := by
  intro slash
  obtain ⟨-, -, blank, -, cut⟩ := trim_name source plain
  refine slash_not_mem_of_isProperName (source.proper name (by simp)) ?_
  rw [cut]
  exact List.mem_append_right _ (by simpa [shownName, FileTree.sourceAt] using slash)

/-- What is shown of a name is the path of a file just if the file lies in no other directory. -/
theorem shownName_eq_relPath_iff {base front : Location} {name : String}
    (source : tree.IsSource settings root base front name)
    (plain : Text.IsPlain ("/".intercalate (front ++ [name]))) :
    shownName (FileTree.sourceAt root front name) = "/".intercalate (front ++ [name]) ↔
      '/' ∉ ("/".intercalate (front ++ [name])).toList := by
  constructor
  · intro same
    rw [← same]
    exact slash_not_mem_shownName source plain
  · intro level
    cases front with
    | nil =>
      simp only [List.nil_append, String.intercalate_singleton] at plain ⊢
      rw [shownName, FileTree.sourceAt, plain.trim, String.ofList_toList]
    | cons first more =>
      rw [String.intercalate_append_of_ne_nil (List.cons_ne_nil _ _) (List.cons_ne_nil _ _)] at level
      exact absurd (by simp) level

theorem extension_of_valid (valid : settings.validate = .ok ()) :
    ∃ e es, settings.extension.toList = e :: es ∧ e ≠ '.' := by
  rw [Settings.validate] at valid
  split at valid
  · cases valid
  next fine =>
  rw [Settings.fault?] at fine
  split at fine
  · cases fine
  next given =>
  split at fine
  · cases fine
  next plain =>
  cases cut : settings.extension.toList with
  | nil => exact absurd (String.toList_eq_nil_iff.1 cut) given
  | cons e es =>
    refine ⟨e, es, rfl, fun dot => plain ?_⟩
    rw [cut, dot]
    rfl

theorem shownName_ne_up {base front : Location} {name : String} (valid : settings.validate = .ok ())
    (source : tree.IsSource settings root base front name)
    (plain : Text.IsPlain ("/".intercalate (front ++ [name]))) :
    shownName (FileTree.sourceAt root front name) ≠ ".." := by
  intro up
  obtain ⟨-, -, blank, areBlank, cut⟩ := trim_name source plain
  obtain ⟨stem, ends⟩ := source.ends
  obtain ⟨e, es, extension, other⟩ := extension_of_valid valid
  have shown : Text.trim name.toList = ['.', '.'] := by
    have text := congrArg String.toList up
    simpa [shownName, FileTree.sourceAt] using text
  have name' : name.toList = stem.toList ++ '.' :: e :: es := by
    rw [ends, String.toList_append, String.toList_append, extension]
    simp
  rw [shown, name'] at cut
  -- The dot of the extension would be one of the two dots, or blank.
  rcases List.eq_nil_or_concat' es with rfl | ⟨more, last, rfl⟩
  · have same : (stem.toList ++ ['.']) ++ [e] = (blank ++ ['.']) ++ ['.'] := by simpa using cut
    exact other (List.append_singleton_inj.1 same).2
  have same : (stem.toList ++ '.' :: e :: more) ++ [last] = (blank ++ ['.']) ++ ['.'] := by
    simpa using cut
  rcases List.eq_nil_or_concat' more with rfl | ⟨inner, next, rfl⟩
  · have same : (stem.toList ++ ['.']) ++ [e] = blank ++ ['.'] := by
      simpa using (List.append_singleton_inj.1 same).1
    exact other (List.append_singleton_inj.1 same).2
  · have same : (stem.toList ++ '.' :: e :: inner) ++ [next] = blank ++ ['.'] := by
      simpa using (List.append_singleton_inj.1 same).1
    have dot : '.' ∈ blank := (List.append_singleton_inj.1 same).1 ▸ by simp
    exact absurd (areBlank '.' dot) (by decide)

theorem callsForFile_shownName {base front : Location} {name : String}
    (valid : settings.validate = .ok ())
    (source : tree.IsSource settings root base front name)
    (plain : Text.IsPlain ("/".intercalate (front ++ [name]))) {intent : Intent}
    (same : intent.path = shownName (FileTree.sourceAt root front name)) :
    intent.CallsForFile ↔ intent.path.toList.head? ≠ some '\x60' := by
  have level := slash_not_mem_shownName source plain
  have up := shownName_ne_up valid source plain
  have visible : shownName (FileTree.sourceAt root front name) ≠ "" := by
    intro empty
    have text := congrArg String.toList empty
    exact (trim_name source plain).2.1 (by simpa [shownName, FileTree.sourceAt] using text)
  rw [← same] at level up visible
  have pieces : Path.pieces intent.path = [intent.path] := by
    rw [Path.pieces, Text.splitAt, Text.pieces_of_not_mem _ _ level]
    simp
  have names : Path.names intent.path = [intent.path] := by
    rw [Path.names, pieces]
    simp [visible]
  have anchored : Path.isAbsolute intent.path = false := by
    rw [Path.isAbsolute_eq _ _ _ pieces, beq_eq_false_iff_ne.2 visible]
    rfl
  rw [Intent.CallsForFile, names]
  refine ⟨fun calls => calls.2.1, fun known => ⟨visible, known, anchored, ?_⟩⟩
  simpa using up.symm

/-- In layers the tag of its layer stands for the name of every file, and its name for its path, which
is the path just of those files that lie in the directory itself. Making what the diagram calls for
succeeds and changes nothing exactly if all these names lead somewhere, those excepted that stand for
unknown ones. -/
theorem run_layered_calls [Python.Parser] (tree : FileTree) (settings : Settings) (root : String)
    (valid : settings.validate = .ok ()) (directory : tree.isDirectory root = true)
    (layered : settings.style = .layered)
    (plain : ∀ file ∈ tree.sourceFiles settings root, Text.IsPlain file.relPath) :
    ∃ (survey : Survey) (drawn : List SourceFile), run tree settings root = .ok survey ∧
      drawn.Perm (tree.sourceFiles settings root) ∧
      survey.diagram.nodes.map Node.text = drawn.map (textOf tree settings) ∧
      survey.diagram.nodes.map Node.heading? =
        drawn.map (fun file => some ((settings.layerOf file).tag, shownName file)) ∧
      (∀ file ∈ drawn, shownName file = file.relPath ↔ '/' ∉ file.relPath.toList) ∧
      ((∃ report, tree.sync root survey.diagram.intents = (.ok report, tree) ∧
          report.isUnchanged = true) ↔
        ∀ file ∈ drawn, (shownName file).toList.head? ≠ some '\x60' →
          tree.pathExists (Path.join root (shownName file)) = true) := by
  obtain ⟨base, seen⟩ := (FileTree.isDirectory_iff tree root).1 directory
  have texts := ofSubjects_texts settings directory
  have perm := drawnFiles_perm settings.style settings.layerOf tree.analysis
    (tree.sourceFiles settings root)
  rw [← subjects_eq] at perm
  -- Only files that the scan found are drawn, so each has a place below the directory.
  have known : ∀ file ∈ drawnFiles (tree.sourceFiles settings root)
      (placements settings.style (subjects tree settings root)), ∃ front name,
      tree.IsSource settings root base front name ∧
        Text.IsPlain ("/".intercalate (front ++ [name])) ∧
        FileTree.sourceAt root front name = file := by
    intro file drawn
    have listed := perm.mem_iff.1 drawn
    obtain ⟨front, name, source, rfl⟩ := (FileTree.mem_sourceFiles_iff seen file).1 listed
    exact ⟨front, name, source, plain _ listed, rfl⟩
  have each := headings_of_texts (fun file => ((settings.layerOf file).tag, shownName file)) texts
    fun file drawn color => by
      obtain ⟨front, name, source, visible, rfl⟩ := known file drawn
      exact heading_layered layered source visible color
  have headings := Diagram.headings_of_nodes each
  have synced := sync_headings_iff tree root headings fun file drawn intent path => by
    obtain ⟨front, name, source, visible, rfl⟩ := known file drawn
    exact callsForFile_shownName valid source visible path
  refine ⟨_, _, run_ok valid directory, perm, texts, each, fun file drawn => ?_, synced⟩
  obtain ⟨front, name, source, visible, rfl⟩ := known file drawn
  exact shownName_eq_relPath_iff source visible

theorem run_layered_calls_flat :
    let tree := (FileTree.empty.add ["p"] .directory).add ["p", "a.py"] (.file "def".toUTF8)
    (Settings.standard.validate = .ok () ∧ tree.isDirectory "p" = true ∧
      Settings.standard.style = .layered ∧
      ∀ file ∈ tree.sourceFiles Settings.standard "p", Text.IsPlain file.relPath) ∧
    ∃ (survey : Survey) (drawn : List SourceFile), run tree Settings.standard "p" = .ok survey ∧
      drawn.Perm (tree.sourceFiles Settings.standard "p") ∧
      survey.diagram.nodes.map Node.text = drawn.map (textOf tree Settings.standard) ∧
      survey.diagram.nodes.map Node.heading? =
        drawn.map (fun file => some ((Settings.standard.layerOf file).tag, shownName file)) ∧
      (∀ file ∈ drawn, shownName file = file.relPath ↔ '/' ∉ file.relPath.toList) ∧
      ((∃ report, tree.sync "p" survey.diagram.intents = (.ok report, tree) ∧
          report.isUnchanged = true) ↔
        ∀ file ∈ drawn, (shownName file).toList.head? ≠ some '\x60' →
          tree.pathExists (Path.join "p" (shownName file)) = true) := by
  intro tree
  have valid : Settings.standard.validate = .ok () := by decide +kernel
  have directory : tree.isDirectory "p" = true := by decide +kernel
  have plain : ∀ file ∈ tree.sourceFiles Settings.standard "p", Text.IsPlain file.relPath := by
    decide +kernel
  exact ⟨⟨valid, directory, rfl, plain⟩,
    run_layered_calls tree Settings.standard "p" valid directory rfl plain⟩

/-- A file that lies deeper is called for by its name alone, and so is made a second time. -/
theorem layered_stray :
    let tree := (FileTree.empty.add ["p"] .directory).add ["p", "a.py"] (.file .empty)
    Settings.standard.validate = .ok () ∧ tree.isDirectory "." = true ∧
      (∀ file ∈ tree.sourceFiles Settings.standard ".", Text.IsPlain file.relPath) ∧
      (tree.sourceFiles Settings.standard ".").map SourceFile.relPath = ["p/a.py"] ∧
      ∃ survey, run tree Settings.standard "." = .ok survey ∧
        survey.diagram.intents.map Intent.path = ["a.py"] ∧
        (tree.sync "." survey.diagram.intents).2.isFile "a.py" = true ∧
        tree.pathExists "a.py" = false := by
  intro tree
  have valid : Settings.standard.validate = .ok () := by decide +kernel
  have directory : tree.isDirectory "." = true := by decide +kernel
  refine ⟨valid, directory, by decide +kernel, by decide +kernel, _, run_ok valid directory, ?_, ?_,
    by decide +kernel⟩
  · decide +kernel
  · decide +kernel

end Survey

end SourceAtlas
