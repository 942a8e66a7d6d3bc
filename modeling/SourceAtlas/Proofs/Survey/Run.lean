import SourceAtlas.Proofs.Survey.Drawing
import SourceAtlas.Proofs.Survey.SourceFiles
import SourceAtlas.Python.Reader.Tree
set_option autoImplicit false

namespace SourceAtlas

def Settings.layerOf (settings : Settings) (file : SourceFile) : Layer :=
  Layer.classify file.filename file.relPath settings.entryFile

def FileTree.analysis [Python.Parser] (tree : FileTree) (file : SourceFile) : Analysis :=
  Analysis.ofFacts (tree.facts file.path)

namespace Survey

variable {tree : FileTree} {settings : Settings} {root : String}

theorem subjects_eq [Python.Parser] (tree : FileTree) (settings : Settings) (root : String) :
    subjects tree settings root =
      subjectsOf settings.layerOf tree.analysis (tree.sourceFiles settings root) := rfl

theorem run_ok [Python.Parser] (valid : settings.validate = .ok ())
    (directory : tree.isDirectory root = true) :
    run tree settings root = .ok (ofSubjects settings (subjects tree settings root)) := by
  rw [run, valid]
  change (if tree.isDirectory root = true then _ else _) = _
  rw [if_pos directory]

/-- Nodes that show files: one for each, in some order, under ids that differ. -/
structure Depicts [Python.Parser] (tree : FileTree) (settings : Settings)
    (files drawn : List SourceFile) (idOf : SourceFile → String) (nodes : List Node) : Prop where
  single : files.Nodup
  all : drawn.Perm files
  shown : nodes.map (fun node => (node.id, node.text)) = drawn.map fun file =>
    (idOf file, Chart.nodeText settings.style file (settings.layerOf file)
      (tree.analysis file).responsibility)
  distinct : (nodes.map Node.id).Nodup

theorem Depicts.ids [Python.Parser] {files drawn : List SourceFile} {idOf : SourceFile → String}
    {nodes : List Node} (depicts : Depicts tree settings files drawn idOf nodes) :
    nodes.map Node.id = drawn.map idOf := by
  have firsts := congrArg (List.map Prod.fst) depicts.shown
  simpa [List.map_map, Function.comp_def] using firsts

theorem Depicts.idOf_inj [Python.Parser] {files drawn : List SourceFile}
    {idOf : SourceFile → String} {nodes : List Node}
    (depicts : Depicts tree settings files drawn idOf nodes) {file other : SourceFile}
    (listed : file ∈ files) (listed' : other ∈ files) (same : idOf file = idOf other) :
    file = other := by
  have distinct := depicts.distinct
  rw [depicts.ids] at distinct
  exact List.inj_on_of_nodup_map distinct (depicts.all.mem_iff.2 listed)
    (depicts.all.mem_iff.2 listed') same

theorem Depicts.id_mem [Python.Parser] {files drawn : List SourceFile} {idOf : SourceFile → String}
    {nodes : List Node} (depicts : Depicts tree settings files drawn idOf nodes)
    {file : SourceFile} (listed : file ∈ files) : idOf file ∈ nodes.map Node.id := by
  rw [depicts.ids]
  exact List.mem_map_of_mem (depicts.all.mem_iff.2 listed)

def edgeOf (settings : Settings) (idOf : SourceFile → String) (pair : SourceFile × SourceFile) :
    Edge :=
  let edge := Edge.link (idOf pair.1) (idOf pair.2)
  match settings.style with
  | .layered =>
    let strength := Strength.between (settings.layerOf pair.1) (settings.layerOf pair.2)
    { edge with label := strength.label, color := some strength.color }
  | .grid => edge

theorem edgeFor_targetOf (settings : Settings) (idOf : SourceFile → String)
    (pair : SourceFile × SourceFile) :
    Chart.edgeFor settings.style (targetOf settings settings.layerOf idOf pair.1)
      (targetOf settings settings.layerOf idOf pair.2) = edgeOf settings idOf pair := by
  unfold Chart.edgeFor edgeOf
  cases settings.style with
  | grid => rfl
  | layered =>
    simp only [targetOf, Strength.apply]
    split
    · next label found =>
      rw [found]
      rfl
    · next found =>
      rw [found]
      rfl

@[simp] theorem edgeOf_fromNode (settings : Settings) (idOf : SourceFile → String)
    (pair : SourceFile × SourceFile) : (edgeOf settings idOf pair).fromNode = idOf pair.1 := by
  rw [← edgeFor_targetOf, Chart.edgeFor_fromNode]
  rfl

@[simp] theorem edgeOf_toNode (settings : Settings) (idOf : SourceFile → String)
    (pair : SourceFile × SourceFile) : (edgeOf settings idOf pair).toNode = idOf pair.2 := by
  rw [← edgeFor_targetOf, Chart.edgeFor_toNode]
  rfl

@[simp] theorem edgeOf_id (settings : Settings) (idOf : SourceFile → String)
    (pair : SourceFile × SourceFile) :
    (edgeOf settings idOf pair).id = Edge.idBetween (idOf pair.1) (idOf pair.2) := by
  rw [← edgeFor_targetOf, Chart.edgeFor_id]
  rfl

def edgesOf (settings : Settings) (idOf : SourceFile → String)
    (pairs : List (SourceFile × SourceFile)) : List Edge :=
  ((pairs.map (edgeOf settings idOf)).filter fun edge => !edge.isLoop).eraseDupsBy
    fun a b => a.id == b.id

theorem mem_edgesOf {idOf : SourceFile → String} {pairs : List (SourceFile × SourceFile)}
    {edge : Edge} (mem : edge ∈ edgesOf settings idOf pairs) :
    ∃ pair ∈ pairs, edgeOf settings idOf pair = edge ∧ edge.fromNode ≠ edge.toNode := by
  obtain ⟨made, straight⟩ := List.mem_filter.1 (mem_of_mem_eraseDupsBy mem)
  obtain ⟨pair, listed, rfl⟩ := List.mem_map.1 made
  exact ⟨pair, listed, rfl, by simpa [Edge.isLoop] using straight⟩

theorem nodup_edgesOf_id (settings : Settings) (idOf : SourceFile → String)
    (pairs : List (SourceFile × SourceFile)) :
    ((edgesOf settings idOf pairs).map Edge.id).Nodup := by
  rw [edgesOf, ← eraseDupsBy_map Edge.id (· == ·)]
  exact nodup_eraseDups _

/-- If ids of edges tell pairs apart, references have the edges of the pairs of different files. -/
theorem edgesOf_eq {idOf : SourceFile → String} {pairs : List (SourceFile × SourceFile)}
    (apart : ∀ pair ∈ pairs, idOf pair.1 = idOf pair.2 → pair.1 = pair.2)
    (clear : ∀ a ∈ pairs, ∀ b ∈ pairs, Edge.idBetween (idOf a.1) (idOf a.2) =
      Edge.idBetween (idOf b.1) (idOf b.2) → a = b) :
    edgesOf settings idOf pairs =
      ((pairs.filter fun pair => pair.1 != pair.2).eraseDups).map (edgeOf settings idOf) := by
  have straight : (pairs.filter ((fun edge => !edge.isLoop) ∘ edgeOf settings idOf)) =
      pairs.filter fun pair => pair.1 != pair.2 := by
    refine List.filter_congr fun pair listed => ?_
    have same : (idOf pair.1 == idOf pair.2) = (pair.1 == pair.2) := by
      rw [Bool.eq_iff_iff, beq_iff_eq, beq_iff_eq]
      exact ⟨apart pair listed, congrArg idOf⟩
    simp only [Function.comp_apply, Edge.isLoop, edgeOf_fromNode, edgeOf_toNode, same]
    rfl
  rw [edgesOf, List.filter_map, eraseDupsBy_map, straight, List.eraseDups]
  refine congrArg (List.map _) (eraseDupsBy_congr _ _ _ fun a ha b hb => ?_)
  rw [edgeOf_id, edgeOf_id, Bool.eq_iff_iff, beq_iff_eq, beq_iff_eq]
  constructor
  · exact clear a (List.mem_filter.1 ha).1 b (List.mem_filter.1 hb).1
  · rintro rfl
    rfl

theorem ofSubjects_nodes {layer : SourceFile → Layer} {analysis : SourceFile → Analysis}
    {files : List SourceFile} {placed : List Placement} {idOf : SourceFile → String}
    (drawn : Drawn settings layer analysis files placed idOf
      (draw settings (subjectsOf layer analysis files))) :
    (ofSubjects settings (subjectsOf layer analysis files)).diagram.nodes =
      placed.filterMap fun placement =>
        files[placement.index]?.map (nodeOf settings layer analysis idOf placement) := by
  rw [← drawn.nodes]
  exact connect_nodes ..

theorem ofSubjects_shown {layer : SourceFile → Layer} {analysis : SourceFile → Analysis}
    {files : List SourceFile} {placed : List Placement} {idOf : SourceFile → String}
    (drawn : Drawn settings layer analysis files placed idOf
      (draw settings (subjectsOf layer analysis files))) :
    (ofSubjects settings (subjectsOf layer analysis files)).diagram.nodes.map Node.text =
      (drawnFiles files placed).map fun file =>
        Chart.nodeText settings.style file (layer file) (analysis file).responsibility := by
  rw [ofSubjects_nodes drawn, drawnFiles, List.map_filterMap, List.map_filterMap]
  refine List.filterMap_congr fun placement _ => ?_
  rw [Option.map_map]
  rfl

theorem ofSubjects_edges {analysis : SourceFile → Analysis} {files : List SourceFile}
    {placed : List Placement} {idOf : SourceFile → String}
    (drawn : Drawn settings settings.layerOf analysis files placed idOf
      (draw settings (subjectsOf settings.layerOf analysis files)))
    (complete : ∀ index < files.length, index ∈ placed.map Placement.index) :
    (ofSubjects settings (subjectsOf settings.layerOf analysis files)).diagram.edges =
      edgesOf settings idOf (references settings analysis files (drawnFiles files placed)) := by
  have edges := connect_diagram_edges _ drawn.edges
    ((draw settings (subjectsOf settings.layerOf analysis files)).dependencies
      (subjectsOf settings.layerOf analysis files))
  rw [drawn.dependencies complete, drawn.style, List.map_map] at edges
  simp only [Function.comp_def, edgeFor_targetOf] at edges
  rw [ofSubjects, drawn.dependencies complete]
  exact edges

theorem listed_of_placements (style : Style) (layer : SourceFile → Layer)
    (analysis : SourceFile → Analysis) (files : List SourceFile) :
    ∀ index < files.length,
      index ∈ (placements style (subjectsOf layer analysis files)).map Placement.index := by
  intro index bound
  refine (mem_order style _ index).2 ?_
  rwa [subjectsOf, List.length_map]

theorem Drawn.depicts [Python.Parser] {files : List SourceFile} {placed : List Placement}
    {idOf : SourceFile → String} (single : files.Nodup) (perm : (drawnFiles files placed).Perm files)
    (drawn : Drawn settings settings.layerOf tree.analysis files placed idOf
      (draw settings (subjectsOf settings.layerOf tree.analysis files))) :
    Depicts tree settings files (drawnFiles files placed) idOf
      (ofSubjects settings (subjectsOf settings.layerOf tree.analysis files)).diagram.nodes := by
  have nodes := (ofSubjects_nodes drawn).trans drawn.nodes.symm
  refine ⟨single, perm, ?_, ?_⟩
  · rw [nodes, drawn.nodes, drawnFiles, List.map_filterMap, List.map_filterMap]
    refine List.filterMap_congr fun placement _ => ?_
    rw [Option.map_map]
    rfl
  · rw [nodes, drawn.nodes_id]
    exact drawn.distinct

theorem ofSubjects_depicts [Python.Parser] (settings : Settings)
    (directory : tree.isDirectory root = true) :
    ∃ drawn idOf,
      Depicts tree settings (tree.sourceFiles settings root) drawn idOf
        (ofSubjects settings (subjects tree settings root)).diagram.nodes ∧
      (ofSubjects settings (subjects tree settings root)).diagram.edges =
        edgesOf settings idOf
          (references settings tree.analysis (tree.sourceFiles settings root) drawn) ∧
      ∀ file ∈ tree.sourceFiles settings root, ∃ taken, idOf file = freeId taken file.nodeId := by
  have single := FileTree.sourceFiles_nodup directory settings
  obtain ⟨idOf, drawing⟩ := draw_drawn settings settings.layerOf single
  have drawn := drawing tree.analysis
  have perm := drawnFiles_perm settings.style settings.layerOf tree.analysis
    (tree.sourceFiles settings root)
  exact ⟨_, idOf, drawn.depicts single perm,
    ofSubjects_edges drawn (listed_of_placements _ _ _ _),
    fun file listed => drawn.free file (perm.mem_iff.2 listed)⟩

theorem ofSubjects_degraded [Python.Parser] (tree : FileTree) (settings : Settings) (root : String)
    :
    (ofSubjects settings (subjects tree settings root)).degraded =
      (tree.sourceFiles settings root).filterMap fun file =>
        match tree.facts file.path with
        | .ok _ => none
        | .error failure => some (file.relPath, failure) := by
  rw [ofSubjects, failures, subjects, List.filterMap_map]
  refine List.filterMap_congr fun file _ => ?_
  simp only [Function.comp_apply]
  cases tree.facts file.path <;> rfl

theorem nodeText_split (style : Style) (file : SourceFile) (layer : Layer) :
    ∃ before, ∀ responsibility,
      Chart.nodeText style file layer responsibility = before ++ responsibility := by
  cases style with
  | grid => exact ⟨_, fun _ => rfl⟩
  | layered =>
    refine ⟨layer.tag ++ "\n" ++ (file.filename ++ "\n" ++ file.relPath ++ "\n\n"), fun _ => ?_⟩
    simp only [Chart.nodeText, String.append_assoc]

/-- A file that cannot be understood still has its node, which says so, and depends on nothing. -/
theorem failed_file [Python.Parser] {files drawn : List SourceFile} {idOf : SourceFile → String}
    {nodes : List Node} (depicts : Depicts tree settings files drawn idOf nodes) {file : SourceFile}
    (listed : file ∈ files) {failure : Failure} (failed : tree.facts file.path = .error failure) :
    (∃ node ∈ nodes, node.id = idOf file ∧
      ∃ before, node.text = before ++ ("parse failed: " ++ failure.message)) ∧
    ∀ edge ∈ edgesOf settings idOf (references settings tree.analysis files drawn),
      edge.fromNode ≠ idOf file := by
  have analyzed : tree.analysis file = ⟨[], "parse failed: " ++ failure.message, some failure⟩ := by
    rw [FileTree.analysis, failed]
    rfl
  constructor
  · have shown : (idOf file, Chart.nodeText settings.style file (settings.layerOf file)
        (tree.analysis file).responsibility) ∈ nodes.map fun node => (node.id, node.text) := by
      rw [depicts.shown]
      exact List.mem_map_of_mem (f := fun file => (idOf file, Chart.nodeText settings.style file
        (settings.layerOf file) (tree.analysis file).responsibility)) (depicts.all.mem_iff.2 listed)
    obtain ⟨node, mem, same⟩ := List.mem_map.1 shown
    obtain ⟨id, text⟩ := Prod.mk.inj same
    obtain ⟨before, ends⟩ := nodeText_split settings.style file (settings.layerOf file)
    refine ⟨node, mem, id, before, ?_⟩
    rw [text, ends, analyzed]
  · intro edge mem same
    obtain ⟨⟨source, target⟩, referred, rfl, -⟩ := mem_edgesOf mem
    obtain ⟨inFiles, -, imported, held, -⟩ :=
      (mem_references settings tree.analysis files drawn source target).1 referred
    rw [edgeOf_fromNode] at same
    obtain rfl := depicts.idOf_inj inFiles listed same
    rw [analyzed] at held
    exact absurd held List.not_mem_nil

/-- A diagram of files without loose ends, with the files that could not be understood. -/
structure IsClosed [Python.Parser] (tree : FileTree) (settings : Settings) (files : List SourceFile)
    (survey : Survey) (drawn : List SourceFile) (idOf : SourceFile → String) : Prop where
  nodes : Depicts tree settings files drawn idOf survey.diagram.nodes
  ends : ∀ edge ∈ survey.diagram.edges, edge.fromNode ∈ survey.diagram.nodes.map Node.id ∧
    edge.toNode ∈ survey.diagram.nodes.map Node.id ∧ edge.fromNode ≠ edge.toNode
  ids : (survey.diagram.edges.map Edge.id).Nodup
  degraded : survey.degraded = files.filterMap fun file =>
    match tree.facts file.path with
    | .ok _ => none
    | .error failure => some (file.relPath, failure)
  failed : ∀ file ∈ files, ∀ failure, tree.facts file.path = .error failure →
    (∃ node ∈ survey.diagram.nodes, node.id = idOf file ∧
      ∃ before, node.text = before ++ ("parse failed: " ++ failure.message)) ∧
    ∀ edge ∈ survey.diagram.edges, edge.fromNode ≠ idOf file

/-- A survey of a directory succeeds with a diagram whose edges lead between its nodes, each of which
shows one source file. -/
theorem run_isClosed [Python.Parser] (tree : FileTree) (settings : Settings) (root : String)
    (valid : settings.validate = .ok ()) (directory : tree.isDirectory root = true) :
    ∃ survey, run tree settings root = .ok survey ∧
      ∃ drawn idOf, IsClosed tree settings (tree.sourceFiles settings root) survey drawn idOf := by
  obtain ⟨drawn, idOf, depicts, edges, -⟩ := ofSubjects_depicts settings directory
  refine ⟨_, run_ok valid directory, drawn, idOf, depicts, ?_, ?_,
    ofSubjects_degraded tree settings root, ?_⟩
  · intro edge mem
    rw [edges] at mem
    obtain ⟨⟨source, target⟩, referred, rfl, straight⟩ := mem_edgesOf mem
    obtain ⟨inFiles, inDrawn, -⟩ := (mem_references ..).1 referred
    refine ⟨?_, ?_, straight⟩
    · rw [edgeOf_fromNode]
      exact depicts.id_mem inFiles
    · rw [edgeOf_toNode]
      exact depicts.id_mem (depicts.all.mem_iff.1 inDrawn)
  · rw [edges]
    exact nodup_edgesOf_id settings idOf _
  · intro file listed failure failed
    rw [edges]
    exact failed_file depicts listed failed

theorem run_isClosed_broken :
    let tree := ((FileTree.empty.add ["p"] .directory).add ["p", "a.py"]
      (.file "import b".toUTF8)).add ["p", "b.py"] (.file "def".toUTF8)
    Settings.standard.validate = .ok () ∧ tree.isDirectory "p" = true ∧
      ∃ survey, run tree Settings.standard "p" = .ok survey ∧ ∃ drawn idOf,
        IsClosed tree Settings.standard (tree.sourceFiles Settings.standard "p") survey drawn idOf :=
  ⟨by decide +kernel, by decide +kernel,
    run_isClosed _ _ _ (by decide +kernel) (by decide +kernel)⟩

/-- A diagram of files whose edges are the references between different files. -/
structure IsExact [Python.Parser] (tree : FileTree) (settings : Settings) (files : List SourceFile)
    (survey : Survey) (drawn : List SourceFile) (idOf : SourceFile → String) : Prop where
  nodes : Depicts tree settings files drawn idOf survey.diagram.nodes
  edges : survey.diagram.edges =
    (links settings tree.analysis files drawn).map (edgeOf settings idOf)
  once : (survey.diagram.edges.map fun edge => (edge.fromNode, edge.toNode)).Nodup
  pairs : ∀ file ∈ files, ∀ other ∈ files,
    (idOf file, idOf other) ∈ survey.diagram.edges.map
        (fun edge => (edge.fromNode, edge.toNode)) ↔
      file ≠ other ∧ ∃ imported ∈ (tree.analysis file).imports,
        resolvesTo imported (other.modulePath settings.extension) = true

theorem Depicts.pair_inj [Python.Parser] {files drawn : List SourceFile}
    {idOf : SourceFile → String} {nodes : List Node}
    (depicts : Depicts tree settings files drawn idOf nodes) {a b : SourceFile × SourceFile}
    (ha : a.1 ∈ files ∧ a.2 ∈ files) (hb : b.1 ∈ files ∧ b.2 ∈ files)
    (same : (idOf a.1, idOf a.2) = (idOf b.1, idOf b.2)) : a = b := by
  obtain ⟨source, target⟩ := Prod.mk.inj same
  exact Prod.ext (depicts.idOf_inj ha.1 hb.1 source) (depicts.idOf_inj ha.2 hb.2 target)

theorem isExact_of_edges [Python.Parser] {files drawn : List SourceFile}
    {idOf : SourceFile → String} {survey : Survey}
    (depicts : Depicts tree settings files drawn idOf survey.diagram.nodes)
    (edges : survey.diagram.edges =
      (links settings tree.analysis files drawn).map (edgeOf settings idOf))
    :
    IsExact tree settings files survey drawn idOf := by
  have ends : (survey.diagram.edges.map fun edge => (edge.fromNode, edge.toNode)) =
      (links settings tree.analysis files drawn).map fun pair => (idOf pair.1, idOf pair.2) := by
    rw [edges, List.map_map]
    simp [Function.comp_def]
  have inside : ∀ pair ∈ links settings tree.analysis files drawn,
      pair.1 ∈ files ∧ pair.2 ∈ files := by
    rintro ⟨file, other⟩ mem
    obtain ⟨⟨inFiles, inDrawn⟩, -⟩ := (mem_links ..).1 mem
    exact ⟨inFiles, depicts.all.mem_iff.1 inDrawn⟩
  refine ⟨depicts, edges, ?_, fun file listed other listed' => ?_⟩
  · rw [ends]
    exact (nodup_links ..).map_on fun a ha b hb same =>
      depicts.pair_inj (inside a ha) (inside b hb) same
  · rw [ends]
    constructor
    · intro mem
      obtain ⟨pair, held, same⟩ := List.mem_map.1 mem
      obtain rfl := depicts.pair_inj (b := (file, other)) (inside pair held) ⟨listed, listed'⟩ same
      exact ((mem_links ..).1 held).2
    · intro refers
      have held := (mem_links settings tree.analysis files drawn file other).2
        ⟨⟨listed, depicts.all.mem_iff.2 listed'⟩, refers⟩
      exact List.mem_map.2 ⟨_, held, rfl⟩

theorem edgesOf_references (analysis : SourceFile → Analysis) {files drawn : List SourceFile}
    {idOf : SourceFile → String} (perm : drawn.Perm files)
    (inj : ∀ file ∈ files, ∀ other ∈ files, idOf file = idOf other → file = other)
    (stamped : ∀ file ∈ files, Stamped settings.suffix.toList (idOf file)) :
    edgesOf settings idOf (references settings analysis files drawn) =
      (links settings analysis files drawn).map (edgeOf settings idOf) := by
  have inside : ∀ pair ∈ references settings analysis files drawn,
      pair.1 ∈ files ∧ pair.2 ∈ files := by
    rintro ⟨file, other⟩ mem
    obtain ⟨inFiles, inDrawn, -⟩ := (mem_references ..).1 mem
    exact ⟨inFiles, perm.mem_iff.1 inDrawn⟩
  refine edgesOf_eq (fun pair mem => inj _ (inside pair mem).1 _ (inside pair mem).2) ?_
  intro a ha b hb same
  obtain ⟨source, target⟩ :=
    idBetween_inj (stamped _ (inside a ha).1) (stamped _ (inside b hb).1) same
  exact Prod.ext (inj _ (inside a ha).1 _ (inside b hb).1 source)
    (inj _ (inside a ha).2 _ (inside b hb).2 target)

theorem stamped_of_last (directory : tree.isDirectory root = true)
    (last : ∀ file ∈ tree.sourceFiles settings root, ∀ before after,
      file.nodeId.toList = before ++ settings.suffix.toList ++ after → after = [])
    {idOf : SourceFile → String}
    (free : ∀ file ∈ tree.sourceFiles settings root, ∃ taken, idOf file = freeId taken file.nodeId) :
    ∀ file ∈ tree.sourceFiles settings root, Stamped settings.suffix.toList (idOf file) := by
  intro file listed
  obtain ⟨taken, same⟩ := free file listed
  rw [same]
  exact freeId_stamped taken _ ⟨FileTree.suffix_nodeId directory listed, last file listed⟩

/-- If no path's id has the extension before its end, the edges are exactly the references between
different files, in the order in which they are found. -/
theorem run_isExact [Python.Parser] (tree : FileTree) (settings : Settings) (root : String)
    (valid : settings.validate = .ok ()) (directory : tree.isDirectory root = true)
    (last : ∀ file ∈ tree.sourceFiles settings root, ∀ before after,
      file.nodeId.toList = before ++ settings.suffix.toList ++ after → after = []) :
    ∃ survey, run tree settings root = .ok survey ∧
      ∃ drawn idOf, IsExact tree settings (tree.sourceFiles settings root) survey drawn idOf := by
  obtain ⟨drawn, idOf, depicts, edges, free⟩ := ofSubjects_depicts settings directory
  have stamped := stamped_of_last directory last free
  rw [edgesOf_references tree.analysis depicts.all (fun _ mem _ mem' => depicts.idOf_inj mem mem')
    stamped] at edges
  exact ⟨_, run_ok valid directory, drawn, idOf, isExact_of_edges depicts edges⟩

theorem last_of_not_holds {part cs : List Char} (apart : Text.holds part cs.dropLast = false)
    (before after : List Char) (split : cs = before ++ part ++ after) : after = [] := by
  by_contra more
  have held : Text.holds part cs.dropLast = true := by
    rw [split, List.dropLast_append_of_ne_nil more]
    exact (Text.holds_iff part _).2 ⟨before, after.dropLast, rfl⟩
  rw [apart] at held
  cases held

theorem run_isExact_pair :
    let tree := ((FileTree.empty.add ["p"] .directory).add ["p", "a.py"]
      (.file "import b".toUTF8)).add ["p", "b.py"] (.file "".toUTF8)
    Settings.standard.validate = .ok () ∧ tree.isDirectory "p" = true ∧
      (∀ file ∈ tree.sourceFiles Settings.standard "p", ∀ before after, file.nodeId.toList =
        before ++ Settings.standard.suffix.toList ++ after → after = []) ∧
      ∃ survey, run tree Settings.standard "p" = .ok survey ∧ ∃ drawn idOf,
        IsExact tree Settings.standard (tree.sourceFiles Settings.standard "p") survey drawn
          idOf := by
  intro tree
  have valid : Settings.standard.validate = .ok () := by decide +kernel
  have directory : tree.isDirectory "p" = true := by decide +kernel
  have plain : ∀ file ∈ tree.sourceFiles Settings.standard "p",
      Text.holds Settings.standard.suffix.toList file.nodeId.toList.dropLast = false := by
    decide +kernel
  have last : ∀ file ∈ tree.sourceFiles Settings.standard "p", ∀ before after,
      file.nodeId.toList = before ++ Settings.standard.suffix.toList ++ after → after = [] :=
    fun file mem => last_of_not_holds (plain file mem)
  exact ⟨valid, directory, last, run_isExact tree _ _ valid directory last⟩

end Survey

end SourceAtlas
