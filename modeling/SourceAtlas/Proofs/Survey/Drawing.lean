import Mathlib.Data.List.Basic
import SourceAtlas.Proofs.Survey.EdgeSet
import SourceAtlas.Proofs.Survey.NodeId
import SourceAtlas.Proofs.Survey.Order
set_option autoImplicit false

namespace SourceAtlas.Survey

def subjectsOf (layer : SourceFile → Layer) (analysis : SourceFile → Analysis)
    (files : List SourceFile) : List Subject :=
  files.map fun file => ⟨file, layer file, analysis file⟩

def drawnFiles (files : List SourceFile) (placed : List Placement) : List SourceFile :=
  placed.filterMap fun placement => files[placement.index]?

def targetOf (settings : Settings) (layer : SourceFile → Layer) (idOf : SourceFile → String)
    (file : SourceFile) : Target :=
  ⟨file.modulePath settings.extension, idOf file, layer file⟩

def nodeOf (settings : Settings) (layer : SourceFile → Layer) (analysis : SourceFile → Analysis)
    (idOf : SourceFile → String) (placement : Placement) (file : SourceFile) : Node :=
  Chart.nodeFor settings.style (idOf file) file (layer file) (analysis file).responsibility
    placement.x placement.y

structure Drawn (settings : Settings) (layer : SourceFile → Layer)
    (analysis : SourceFile → Analysis) (files : List SourceFile) (placed : List Placement)
    (idOf : SourceFile → String) (drawing : Drawing) : Prop where
  style : drawing.chart.style = settings.style
  edges : drawing.chart.edges = EdgeSet.empty
  inStep : drawing.chart.InStep
  nodes : drawing.chart.nodes = placed.filterMap fun placement =>
    files[placement.index]?.map (nodeOf settings layer analysis idOf placement)
  targets : drawing.targets = placed.filterMap fun placement =>
    files[placement.index]?.map fun file => (placement.index, targetOf settings layer idOf file)
  distinct : ((drawnFiles files placed).map idOf).Nodup
  free : ∀ file ∈ drawnFiles files placed, ∃ taken, idOf file = freeId taken file.nodeId

variable {settings : Settings} {layer : SourceFile → Layer} {analysis : SourceFile → Analysis}
  {files : List SourceFile} {placed : List Placement} {idOf : SourceFile → String}
  {drawing : Drawing}

theorem Drawn.nodes_id (drawn : Drawn settings layer analysis files placed idOf drawing) :
    drawing.chart.nodes.map Node.id = (drawnFiles files placed).map idOf := by
  rw [drawn.nodes, drawnFiles, List.map_filterMap, List.map_filterMap]
  refine List.filterMap_congr fun placement _ => ?_
  rw [Option.map_map]
  rfl

theorem Drawn.targets_snd (drawn : Drawn settings layer analysis files placed idOf drawing) :
    drawing.targets.map Prod.snd =
      (drawnFiles files placed).map (targetOf settings layer idOf) := by
  rw [drawn.targets, drawnFiles, List.map_filterMap, List.map_filterMap]
  refine List.filterMap_congr fun placement _ => ?_
  rw [Option.map_map]
  rfl

theorem filterMap_files_concat {β : Type} (old new : Placement → SourceFile → β)
    (placement : Placement) (file : SourceFile) (here : files[placement.index]? = some file)
    (kept : ∀ p ∈ placed, ∀ other, files[p.index]? = some other → new p other = old p other) :
    ((placed ++ [placement]).filterMap fun p => files[p.index]?.map (new p)) =
      (placed.filterMap fun p => files[p.index]?.map (old p)) ++ [new placement file] := by
  have same : (placed.filterMap fun p => files[p.index]?.map (new p)) =
      placed.filterMap fun p => files[p.index]?.map (old p) := by
    refine List.filterMap_congr fun p mem => ?_
    cases found : files[p.index]? with
    | none => rfl
    | some other => rw [Option.map_some, Option.map_some, kept p mem other found]
  rw [List.filterMap_append, same]
  simp [here]

theorem Drawn.add (drawn : Drawn settings layer analysis files placed idOf drawing)
    (placement : Placement) (file : SourceFile) (here : files[placement.index]? = some file)
    (new : file ∉ drawnFiles files placed) :
    Drawn settings layer analysis files (placed ++ [placement])
      (fun other => if other = file then freeId ((drawnFiles files placed).map idOf) file.nodeId
        else idOf other)
      (drawing.add settings.extension (subjectsOf layer analysis files) placement) := by
  rw [← drawn.nodes_id]
  have subject : (subjectsOf layer analysis files)[placement.index]? =
      some ⟨file, layer file, analysis file⟩ := by
    rw [subjectsOf, List.getElem?_map, here]
    rfl
  have old : ∀ other ∈ drawnFiles files placed, other ≠ file := fun other mem same =>
    new (same ▸ mem)
  have kept : ∀ p ∈ placed, ∀ other, files[p.index]? = some other → other ≠ file :=
    fun p mem other found => old other (List.mem_filterMap.2 ⟨p, mem, found⟩)
  have onwards : drawnFiles files (placed ++ [placement]) = drawnFiles files placed ++ [file] := by
    rw [drawnFiles, List.filterMap_append, ← drawnFiles]
    simp [here]
  have id : freeId drawing.chart.taken file.nodeId =
      freeId (drawing.chart.nodes.map Node.id) file.nodeId := drawn.inStep.freeId_eq _
  rw [Drawing.add, subject]
  refine ⟨drawn.style, drawn.edges, drawn.inStep.addFile .., ?_, ?_, ?_, ?_⟩
  · rw [filterMap_files_concat (nodeOf settings layer analysis idOf) _ placement file here ?_,
      ← drawn.nodes]
    · simp [Chart.addFile, nodeOf, drawn.style, id]
    · intro p mem other found
      simp [nodeOf, kept p mem other found]
  · rw [filterMap_files_concat (fun p f => (p.index, targetOf settings layer idOf f)) _ placement
      file here ?_, ← drawn.targets]
    · simp [Chart.addFile, targetOf, Chart.nodeFor, Node.ofText, Node.withColor, id]
    · intro p mem other found
      simp [targetOf, kept p mem other found]
  · have unchanged : (drawnFiles files placed).map (fun other => if other = file then
        freeId (drawing.chart.nodes.map Node.id) file.nodeId else idOf other) =
        (drawnFiles files placed).map idOf :=
      List.map_congr_left fun other mem => if_neg (old other mem)
    rw [onwards, List.map_append, unchanged, List.nodup_append]
    refine ⟨drawn.distinct, by simp, ?_⟩
    intro id mem other last same
    rw [← drawn.nodes_id] at mem
    rw [List.map_singleton, if_pos rfl, List.mem_singleton] at last
    exact freeId_not_mem _ file.nodeId (last ▸ same ▸ mem)
  · intro other mem
    rw [onwards] at mem
    rcases List.mem_append.1 mem with earlier | last
    · rw [if_neg (old other earlier)]
      exact drawn.free other earlier
    · obtain rfl := List.mem_singleton.1 last
      exact ⟨_, if_pos rfl⟩

theorem foldl_drawn (settings : Settings) (layer : SourceFile → Layer) {files : List SourceFile}
    (single : files.Nodup) (placed : List Placement)
    (once : (placed.map Placement.index).Nodup)
    (bound : ∀ placement ∈ placed, placement.index < files.length) :
    ∃ idOf, ∀ analysis, Drawn settings layer analysis files placed idOf
      (placed.foldl (Drawing.add settings.extension (subjectsOf layer analysis files))
        ⟨Chart.empty settings.style, []⟩) := by
  induction placed using List.reverseRecOn with
  | nil => exact ⟨fun _ => "", fun _ => ⟨rfl, rfl, rfl, rfl, rfl, .nil, by simp [drawnFiles]⟩⟩
  | append_singleton placed placement ih =>
    rw [List.map_append, List.nodup_append] at once
    obtain ⟨idOf, drawn⟩ := ih once.1 fun p mem => bound p (List.mem_append_left _ mem)
    have inside := bound placement (by simp)
    have here : files[placement.index]? = some files[placement.index] :=
      List.getElem?_eq_getElem inside
    have new : files[placement.index] ∉ drawnFiles files placed := by
      intro mem
      obtain ⟨p, earlier, found⟩ := List.mem_filterMap.1 mem
      have range := bound p (List.mem_append_left _ earlier)
      have same := (List.getElem?_inj range single).1 (found.trans here.symm)
      exact once.2.2 p.index (List.mem_map_of_mem earlier) placement.index (by simp) same
    refine ⟨fun other => if other = files[placement.index] then
      freeId ((drawnFiles files placed).map idOf) files[placement.index].nodeId else idOf other,
      fun analysis => ?_⟩
    rw [List.foldl_append]
    exact (drawn analysis).add placement _ here new

theorem placements_subjectsOf (style : Style) (layer : SourceFile → Layer)
    (analysis : SourceFile → Analysis) (files : List SourceFile) :
    placements style (subjectsOf layer analysis files) = places style (files.map layer) := by
  rw [placements_eq_places, subjectsOf, List.map_map]
  rfl

theorem draw_drawn (settings : Settings) (layer : SourceFile → Layer) {files : List SourceFile}
    (single : files.Nodup) :
    ∃ idOf, ∀ analysis, Drawn settings layer analysis files
      (placements settings.style (subjectsOf layer analysis files)) idOf
      (draw settings (subjectsOf layer analysis files)) := by
  obtain ⟨idOf, drawn⟩ := foldl_drawn settings layer single
    (places settings.style (files.map layer)) (nodup_places _ _) fun placement mem => by
      have index := (mem_places _ _ placement.index).1 (List.mem_map_of_mem mem)
      rwa [List.length_map] at index
  refine ⟨idOf, fun analysis => ?_⟩
  rw [draw, placements_subjectsOf]
  exact drawn analysis

theorem filterMap_range {α : Type} (items : List α) :
    ((List.range items.length).filterMap fun index => items[index]?) = items := by
  induction items using List.reverseRecOn with
  | nil => rfl
  | append_singleton items item ih =>
    rw [List.length_append, List.length_singleton, List.range_succ, List.filterMap_append]
    have before : ((List.range items.length).filterMap fun index => (items ++ [item])[index]?) =
        items := by
      refine Eq.trans (List.filterMap_congr fun index mem => ?_) ih
      exact List.getElem?_append_left (List.mem_range.1 mem)
    rw [before]
    simp

theorem drawnFiles_perm (style : Style) (layer : SourceFile → Layer)
    (analysis : SourceFile → Analysis) (files : List SourceFile) :
    (drawnFiles files (placements style (subjectsOf layer analysis files))).Perm files := by
  have indices := order_perm style (subjectsOf layer analysis files)
  rw [subjectsOf, List.length_map, ← subjectsOf] at indices
  have taken := indices.filterMap fun index => files[index]?
  rwa [filterMap_range, order, List.filterMap_map] at taken

theorem Drawn.target? (drawn : Drawn settings layer analysis files placed idOf drawing)
    {index : Nat} {file : SourceFile} (here : files[index]? = some file)
    (listed : index ∈ placed.map Placement.index) :
    drawing.target? index = some (targetOf settings layer idOf file) := by
  have known : (index, targetOf settings layer idOf file) ∈ drawing.targets := by
    obtain ⟨placement, mem, rfl⟩ := List.mem_map.1 listed
    rw [drawn.targets]
    exact List.mem_filterMap.2 ⟨placement, mem, by rw [here]; rfl⟩
  rw [Drawing.target?]
  cases found : drawing.targets.find? fun item => item.1 == index with
  | none =>
    have never := List.find?_eq_none.1 found _ known
    simp at never
  | some item =>
    have same : item.1 = index := by simpa using List.find?_some found
    have mem := List.mem_of_find?_eq_some found
    rw [drawn.targets] at mem
    obtain ⟨placement, -, made⟩ := List.mem_filterMap.1 mem
    obtain ⟨other, there, rfl⟩ := Option.map_eq_some_iff.1 made
    simp only at same
    rw [same, here] at there
    obtain rfl := Option.some.inj there
    rfl

/-- The references of files to drawn ones: the files in order, what they import in order, and the
drawn files that each of these imports refers to. -/
def references (settings : Settings) (analysis : SourceFile → Analysis)
    (files drawn : List SourceFile) : List (SourceFile × SourceFile) :=
  files.flatMap fun file => (analysis file).imports.flatMap fun imported =>
    (drawn.filter fun other => resolvesTo imported (other.modulePath settings.extension)).map
      fun other => (file, other)

theorem mem_references (settings : Settings) (analysis : SourceFile → Analysis)
    (files drawn : List SourceFile) (file other : SourceFile) :
    (file, other) ∈ references settings analysis files drawn ↔
      file ∈ files ∧ other ∈ drawn ∧ ∃ imported ∈ (analysis file).imports,
        resolvesTo imported (other.modulePath settings.extension) = true := by
  simp only [references, List.mem_flatMap, List.mem_map, List.mem_filter, Prod.mk.injEq]
  constructor
  · rintro ⟨_, listed, imported, held, _, ⟨inDrawn, refers⟩, rfl, rfl⟩
    exact ⟨listed, inDrawn, imported, held, refers⟩
  · rintro ⟨listed, inDrawn, imported, held, refers⟩
    exact ⟨file, listed, imported, held, other, ⟨inDrawn, refers⟩, rfl, rfl⟩

def links (settings : Settings) (analysis : SourceFile → Analysis)
    (files drawn : List SourceFile) : List (SourceFile × SourceFile) :=
  ((references settings analysis files drawn).filter fun pair => pair.1 != pair.2).eraseDups

theorem mem_links (settings : Settings) (analysis : SourceFile → Analysis)
    (files drawn : List SourceFile) (file other : SourceFile) :
    (file, other) ∈ links settings analysis files drawn ↔
      (file ∈ files ∧ other ∈ drawn) ∧ file ≠ other ∧ ∃ imported ∈ (analysis file).imports,
        resolvesTo imported (other.modulePath settings.extension) = true := by
  rw [links, List.mem_eraseDups, List.mem_filter, mem_references, bne_iff_ne]
  constructor
  · rintro ⟨⟨listed, inDrawn, refers⟩, apart⟩
    exact ⟨⟨listed, inDrawn⟩, apart, refers⟩
  · rintro ⟨⟨listed, inDrawn⟩, apart, refers⟩
    exact ⟨⟨listed, inDrawn, refers⟩, apart⟩

theorem nodup_links (settings : Settings) (analysis : SourceFile → Analysis)
    (files drawn : List SourceFile) : (links settings analysis files drawn).Nodup :=
  nodup_eraseDups _

theorem resolve_targets (settings : Settings) (layer : SourceFile → Layer)
    (idOf : SourceFile → String) (drawn : List SourceFile) (imported : String) :
    resolve (drawn.map (targetOf settings layer idOf)) imported =
      (drawn.filter fun other => resolvesTo imported (other.modulePath settings.extension)).map
        (targetOf settings layer idOf) := by
  simp only [resolve, List.filter_map, Function.comp_def, targetOf]

def dependenciesOf (targets : List Target) (source : Target) (imports : List String) :
    List (Target × Target) :=
  imports.flatMap fun imported => (resolve targets imported).map fun target => (source, target)

theorem dependenciesOf_targetOf (settings : Settings) (layer : SourceFile → Layer)
    (idOf : SourceFile → String) (drawn : List SourceFile) (file : SourceFile)
    (imports : List String) :
    dependenciesOf (drawn.map (targetOf settings layer idOf)) (targetOf settings layer idOf file)
        imports =
      (imports.flatMap fun imported =>
        (drawn.filter fun other => resolvesTo imported (other.modulePath settings.extension)).map
          fun other => (file, other)).map fun pair =>
        (targetOf settings layer idOf pair.1, targetOf settings layer idOf pair.2) := by
  rw [dependenciesOf, List.map_flatMap]
  refine List.flatMap_congr fun imported _ => ?_
  rw [resolve_targets, List.map_map, List.map_map]
  rfl

theorem Drawn.dependencies (drawn : Drawn settings layer analysis files placed idOf drawing)
    (complete : ∀ index < files.length, index ∈ placed.map Placement.index) :
    drawing.dependencies (subjectsOf layer analysis files) =
      (references settings analysis files (drawnFiles files placed)).map fun pair =>
        (targetOf settings layer idOf pair.1, targetOf settings layer idOf pair.2) := by
  have known : drawing.dependencies (subjectsOf layer analysis files) =
      (subjectsOf layer analysis files).zipIdx.flatMap fun item =>
        dependenciesOf (drawing.targets.map Prod.snd) (targetOf settings layer idOf item.1.file)
          item.1.analysis.imports := by
    refine List.flatMap_congr ?_
    rintro ⟨subject, index⟩ mem
    have stands := List.mk_mem_zipIdx_iff_getElem?.1 mem
    rw [subjectsOf, List.getElem?_map] at stands
    obtain ⟨file, here, rfl⟩ := Option.map_eq_some_iff.1 stands
    simp only [drawn.target? here (complete index (List.getElem?_eq_some_iff.1 here).choose),
      dependenciesOf]
  rw [known, Placement.flatMap_zipIdx_fst fun subject : Subject =>
    dependenciesOf (drawing.targets.map Prod.snd) (targetOf settings layer idOf subject.file)
      subject.analysis.imports]
  rw [subjectsOf, List.flatMap_map, references, List.map_flatMap, drawn.targets_snd]
  exact List.flatMap_congr fun file _ => dependenciesOf_targetOf settings layer idOf _ file _

end SourceAtlas.Survey
