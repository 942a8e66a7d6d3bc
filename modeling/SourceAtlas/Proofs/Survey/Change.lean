import SourceAtlas.Proofs.Files.Content
import SourceAtlas.Proofs.Survey.Reading
import SourceAtlas.Proofs.Survey.Run
set_option autoImplicit false

namespace SourceAtlas

def Node.bare (node : Node) : Node :=
  { node with text := "" }

namespace FileTree

variable {tree : FileTree} {settings : Settings} {root : String} {base : Location}
  {location : Location} {contents : ByteArray}

theorem view?_refill (tree : FileTree) (location : Location) (contents : ByteArray) (path : String)
    :
    (tree.refill location contents).view? path =
      (tree.view? path).map fun found => (found.1, found.2.refilled location found.1 contents) := by
  rw [view?, view?, locate_refill]
  cases tree.locate .view path with
  | error e => rfl
  | ok spot => cases spot <;> rfl

theorem isCandidate_refill (path : String) (here : Location) (entry : Entry) :
    (tree.refill location contents).isCandidate path (entry.refilled location here contents) =
      tree.isCandidate path entry := by
  cases entry with
  | file old => rfl
  | directory => rfl
  | link target =>
    simp only [Entry.refilled, isCandidate, isFile, view?_refill]
    rcases tree.view? path with _ | ⟨there, _ | _ | _⟩ <;> rfl

theorem sourceFile?_refill (here names : Location) (entry : Entry) :
    (tree.refill location contents).sourceFile? settings root
        (names, entry.refilled location here contents) =
      tree.sourceFile? settings root (names, entry) := by
  simp only [sourceFile?, isCandidate_refill]

theorem entriesBelow_refill (tree : FileTree) (location base : Location) (contents : ByteArray) :
    (tree.refill location contents).entriesBelow base =
      (tree.entriesBelow base).map fun found =>
        (found.1, found.2.refilled location (base ++ found.1) contents) := by
  have entries : (tree.refill location contents).entries =
      tree.entries.map (refilled location contents) := rfl
  rw [entriesBelow, entriesBelow, entries, List.filterMap_map, List.map_filterMap]
  refine List.filterMap_congr ?_
  rintro ⟨here, entry⟩ -
  rw [Function.comp_apply, refilled_eq]
  cases below : below? base here with
  | none => simp only [below, Option.map_none]
  | some names =>
    obtain ⟨rfl, -⟩ := below?_eq_some below
    simp only [below, Option.map_some]

theorem sourceFiles_refill (directory : tree.view? root = some (base, .directory)) :
    (tree.refill location contents).sourceFiles settings root = tree.sourceFiles settings root := by
  have still : (tree.refill location contents).view? root = some (base, .directory) := by
    rw [view?_refill, directory]
    rfl
  rw [sourceFiles, sourceFiles, rootFile?_of_isDirectory ((isDirectory_iff _ root).2 ⟨base, still⟩),
    rootFile?_of_isDirectory ((isDirectory_iff _ root).2 ⟨base, directory⟩), entriesUnder,
    entriesUnder, still, directory]
  simp only [entriesBelow_refill, List.filter_map, List.filterMap_map, Function.comp_def,
    sourceFile?_refill]

theorem facts_refill [Python.Parser] (plain : tree.LinkFree)
    (directory : tree.view? root = some (base, .directory)) {front : Location} {name : String}
    {file : SourceFile} (listed : file ∈ tree.sourceFiles settings root)
    (other : file ≠ sourceAt root front name) :
    (tree.refill (base ++ front ++ [name]) contents).facts file.path = tree.facts file.path := by
  obtain ⟨front', name', source, rfl⟩ := (mem_sourceFiles_iff directory file).1 listed
  obtain ⟨held, found⟩ := source.holds plain
  have apart : base ++ (front' ++ [name']) ≠ base ++ front ++ [name] := by
    intro same
    rw [List.append_assoc, List.append_cancel_left_eq] at same
    obtain ⟨rfl, rfl⟩ := List.append_singleton_inj.1 same
    exact other rfl
  have still : (tree.refill (base ++ front ++ [name]) contents).view? root =
      some (base, .directory) := by
    rw [view?_refill, directory]
    rfl
  have found' : entry? (tree.refill (base ++ front ++ [name]) contents)
      (base ++ (front' ++ [name'])) = some (.file held) := by
    rw [entry?_refill, found, Option.map_some, Entry.refilled, if_neg apart]
  exact (facts_pathBelow still (by simp) found').trans (facts_pathBelow directory (by simp) found).symm

end FileTree

namespace Survey

section

variable {settings : Settings} {layer : SourceFile → Layer} {analysis analysis' : SourceFile → Analysis}
  {files drawn : List SourceFile} {placed : List Placement} {idOf : SourceFile → String}
  {changed : SourceFile}

theorem nodes_bare
    (first : Drawn settings layer analysis files placed idOf
      (draw settings (subjectsOf layer analysis files)))
    (second : Drawn settings layer analysis' files placed idOf
      (draw settings (subjectsOf layer analysis' files))) :
    (ofSubjects settings (subjectsOf layer analysis files)).diagram.nodes.map Node.bare =
      (ofSubjects settings (subjectsOf layer analysis' files)).diagram.nodes.map Node.bare := by
  rw [ofSubjects_nodes first, ofSubjects_nodes second, List.map_filterMap, List.map_filterMap]
  refine List.filterMap_congr fun placement _ => ?_
  rw [Option.map_map, Option.map_map]
  rfl

theorem nodes_filter
    (first : Drawn settings layer analysis files placed idOf
      (draw settings (subjectsOf layer analysis files)))
    (second : Drawn settings layer analysis' files placed idOf
      (draw settings (subjectsOf layer analysis' files)))
    (same : ∀ file ∈ files, file ≠ changed → analysis file = analysis' file) :
    ((ofSubjects settings (subjectsOf layer analysis files)).diagram.nodes.filter fun node =>
        node.id != idOf changed) =
      (ofSubjects settings (subjectsOf layer analysis' files)).diagram.nodes.filter fun node =>
        node.id != idOf changed := by
  rw [ofSubjects_nodes first, ofSubjects_nodes second, List.filter_filterMap, List.filter_filterMap]
  refine List.filterMap_congr fun placement _ => ?_
  cases found : files[placement.index]? with
  | none => rfl
  | some file =>
    have id (told : SourceFile → Analysis) :
        (nodeOf settings layer told idOf placement file).id = idOf file := rfl
    by_cases here : file = changed
    · rw [Option.map_some, Option.map_some, Option.filter_some, Option.filter_some, id, id, here]
      simp
    · have node : nodeOf settings layer analysis idOf placement file =
          nodeOf settings layer analysis' idOf placement file := by
        rw [nodeOf, nodeOf, same file (List.mem_of_getElem? found) here]
      rw [Option.map_some, Option.map_some, node]

theorem filter_eraseDups {α : Type} [BEq α] [LawfulBEq α] (p : α → Bool) (items : List α) :
    items.eraseDups.filter p = (items.filter p).eraseDups := by
  induction items using sieve_induction (fun first b : α => !b == first) with
  | nil => rfl
  | cons first rest ih =>
    rw [List.eraseDups_cons, List.filter_cons, ih, List.filter_filter]
    split
    · next kept =>
      rw [List.filter_cons_of_pos kept, List.eraseDups_cons, List.filter_filter]
      simp only [Bool.and_comm]
    · next dropped =>
      rw [List.filter_cons_of_neg dropped]
      congr 1
      refine List.filter_congr fun item _ => ?_
      by_cases twin : item = first
      · simp [twin, dropped]
      · simp [twin]

theorem references_congr
    (same : ∀ file ∈ files, (analysis file).imports = (analysis' file).imports) :
    references settings analysis files drawn = references settings analysis' files drawn :=
  List.flatMap_congr fun file mem => by rw [same file mem]

theorem references_filter (changed : SourceFile) :
    ((references settings analysis files drawn).filter fun pair => pair.1 != changed) =
      references settings analysis (files.filter (· != changed)) drawn := by
  induction files with
  | nil => rfl
  | cons file files ih =>
    have step : references settings analysis (file :: files) drawn =
        references settings analysis [file] drawn ++ references settings analysis files drawn := by
      simp [references]
    have source : ∀ pair ∈ references settings analysis [file] drawn, pair.1 = file :=
      fun pair mem => List.mem_singleton.1 ((mem_references ..).1 mem).1
    rw [step, List.filter_append, ih]
    by_cases here : file = changed
    · rw [List.filter_cons_of_neg (by simp [here]), List.filter_eq_nil_iff.2 fun pair mem => by
        simp [source pair mem, here]]
      rfl
    · rw [List.filter_cons_of_pos (by simp [here]), List.filter_eq_self.2 fun pair mem => by
        simp [source pair mem, here]]
      simp [references]

theorem links_filter (changed : SourceFile) :
    ((links settings analysis files drawn).filter fun pair => pair.1 != changed) =
      links settings analysis (files.filter (· != changed)) drawn := by
  rw [links, filter_eraseDups, List.filter_filter, links, ← references_filter, List.filter_filter]
  simp only [Bool.and_comm]

theorem edges_filter (inj : ∀ file ∈ files, idOf file = idOf changed → file = changed) :
    (((links settings analysis files drawn).map (edgeOf settings idOf)).filter fun edge =>
        edge.fromNode != idOf changed) =
      (links settings analysis (files.filter (· != changed)) drawn).map (edgeOf settings idOf) := by
  rw [List.filter_map, ← links_filter]
  refine congrArg _ (List.filter_congr ?_)
  rintro ⟨file, other⟩ mem
  have listed := ((mem_links ..).1 mem).1.1
  rw [Function.comp_apply, edgeOf_fromNode, Bool.eq_iff_iff, bne_iff_ne, bne_iff_ne]
  exact not_congr ⟨inj file listed, congrArg idOf⟩

theorem failures_filter
    (same : ∀ file ∈ files, file ≠ changed → analysis file = analysis' file) :
    ((failures (subjectsOf layer analysis files)).filter fun entry => entry.1 != changed.relPath) =
      (failures (subjectsOf layer analysis' files)).filter fun entry =>
        entry.1 != changed.relPath := by
  simp only [failures, subjectsOf, List.filterMap_map, List.filter_filterMap]
  refine List.filterMap_congr fun file mem => ?_
  simp only [Function.comp_apply]
  by_cases here : file = changed
  · rw [here]
    cases (analysis changed).failure <;> cases (analysis' changed).failure <;> simp [Option.filter]
  · rw [same file mem here]

end

/-- Two surveys that tell the same but for what a node says, for the edges that lead away from it, and
for the failure of a file. -/
structure AgreeBut (id relPath : String) (first second : Survey) : Prop where
  nodes : first.diagram.nodes.map Node.bare = second.diagram.nodes.map Node.bare
  texts : (first.diagram.nodes.filter fun node => node.id != id) =
    second.diagram.nodes.filter fun node => node.id != id
  edges : (first.diagram.edges.filter fun edge => edge.fromNode != id) =
    second.diagram.edges.filter fun edge => edge.fromNode != id
  degraded : (first.degraded.filter fun entry => entry.1 != relPath) =
    second.degraded.filter fun entry => entry.1 != relPath

/-- If one source file gets other contents, all that a survey tells of the other files stays. -/
theorem run_refill [Python.Parser] (tree : FileTree) (settings : Settings) (root : String)
    (base front : Location) (name : String) (contents : ByteArray) (plain : tree.LinkFree)
    (valid : settings.validate = .ok ()) (directory : tree.view? root = some (base, .directory))
    (source : tree.IsSource settings root base front name)
    (last : ∀ file ∈ tree.sourceFiles settings root, ∀ before after,
      file.nodeId.toList = before ++ settings.suffix.toList ++ after → after = [])
    :
    let changed := FileTree.sourceAt root front name
    let after := tree.refill (base ++ front ++ [name]) contents
    ∃ first second, run tree settings root = .ok first ∧ run after settings root = .ok second ∧
      ∃ drawn idOf,
        Depicts tree settings (tree.sourceFiles settings root) drawn idOf first.diagram.nodes ∧
        Depicts after settings (after.sourceFiles settings root) drawn idOf second.diagram.nodes ∧
        AgreeBut (idOf changed) changed.relPath first second := by
  intro changed after
  have isDirectory := (FileTree.isDirectory_iff tree root).2 ⟨base, directory⟩
  have still : after.isDirectory root = true := by
    refine (FileTree.isDirectory_iff after root).2 ⟨base, ?_⟩
    rw [FileTree.view?_refill, directory]
    rfl
  have scanned : after.sourceFiles settings root = tree.sourceFiles settings root :=
    FileTree.sourceFiles_refill directory
  have single := FileTree.sourceFiles_nodup isDirectory settings
  have listed : changed ∈ tree.sourceFiles settings root :=
    (FileTree.mem_sourceFiles_iff directory _).2 ⟨front, name, source, rfl⟩
  have same : ∀ file ∈ tree.sourceFiles settings root, file ≠ changed →
      tree.analysis file = after.analysis file := fun file mem other => by
    rw [FileTree.analysis, FileTree.analysis, FileTree.facts_refill plain directory mem other]
  obtain ⟨idOf, drawing⟩ := draw_drawn settings settings.layerOf single
  have first := drawing tree.analysis
  have second := drawing after.analysis
  have perm := drawnFiles_perm settings.style settings.layerOf tree.analysis
    (tree.sourceFiles settings root)
  have complete := listed_of_placements settings.style settings.layerOf tree.analysis
    (tree.sourceFiles settings root)
  rw [placements_subjectsOf] at first second perm complete
  have depicts := first.depicts single perm
  have stamped := stamped_of_last isDirectory last fun file mem => first.free file
    (perm.mem_iff.2 mem)
  have inj : ∀ file ∈ tree.sourceFiles settings root, ∀ other ∈ tree.sourceFiles settings root,
      idOf file = idOf other → file = other := fun file mem other mem' => depicts.idOf_inj mem mem'
  refine ⟨_, _, run_ok valid isDirectory, run_ok valid still, _, idOf, depicts, ?_, ?_⟩
  · rw [subjects_eq, scanned]
    exact second.depicts single perm
  rw [subjects_eq, subjects_eq, scanned]
  refine ⟨nodes_bare first second, nodes_filter first second same, ?_, failures_filter same⟩
  rw [ofSubjects_edges first complete, ofSubjects_edges second complete,
    edgesOf_references tree.analysis perm inj stamped,
    edgesOf_references after.analysis perm inj stamped,
    edges_filter fun file mem => inj file mem changed listed,
    edges_filter fun file mem => inj file mem changed listed, links, links,
    references_congr fun file mem => ?_]
  have kept := List.mem_filter.1 mem
  rw [same file kept.1 (by simpa using kept.2)]

theorem run_refill_broken :
    let tree := ((FileTree.empty.add ["p"] .directory).add ["p", "a.py"]
      (.file "import b".toUTF8)).add ["p", "b.py"] (.file "import a".toUTF8)
    (tree.LinkFree ∧ Settings.standard.validate = .ok () ∧
      tree.view? "p" = some (["p"], .directory) ∧
      tree.IsSource Settings.standard "p" ["p"] [] "a.py" ∧
      ∀ file ∈ tree.sourceFiles Settings.standard "p", ∀ before after, file.nodeId.toList =
        before ++ Settings.standard.suffix.toList ++ after → after = []) ∧
    let changed := FileTree.sourceAt "p" [] "a.py"
    let after := tree.refill (["p"] ++ [] ++ ["a.py"]) "def".toUTF8
    ∃ first second, run tree Settings.standard "p" = .ok first ∧
      run after Settings.standard "p" = .ok second ∧ ∃ drawn idOf,
        Depicts tree Settings.standard (tree.sourceFiles Settings.standard "p") drawn idOf
          first.diagram.nodes ∧
        Depicts after Settings.standard (after.sourceFiles Settings.standard "p") drawn idOf
          second.diagram.nodes ∧
        AgreeBut (idOf changed) changed.relPath first second := by
  intro tree
  have plain : tree.LinkFree := by decide
  have valid : Settings.standard.validate = .ok () := by decide +kernel
  have directory : tree.view? "p" = some (["p"], .directory) := by decide +kernel
  have source : tree.IsSource Settings.standard "p" ["p"] [] "a.py" :=
    ⟨by simp, rfl, .inl ⟨"import b".toUTF8, by decide +kernel⟩, "a", rfl⟩
  have unmarked : ∀ file ∈ tree.sourceFiles Settings.standard "p",
      Text.holds Settings.standard.suffix.toList file.nodeId.toList.dropLast = false := by
    decide +kernel
  have last : ∀ file ∈ tree.sourceFiles Settings.standard "p", ∀ before after,
      file.nodeId.toList = before ++ Settings.standard.suffix.toList ++ after → after = [] :=
    fun file mem => last_of_not_holds (unmarked file mem)
  exact ⟨⟨plain, valid, directory, source, last⟩,
    run_refill tree _ _ _ _ _ _ plain valid directory source last⟩

end Survey

end SourceAtlas
