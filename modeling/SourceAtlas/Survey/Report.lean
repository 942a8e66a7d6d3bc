import SourceAtlas.Python.Facts
import SourceAtlas.Survey.Chart
import SourceAtlas.Survey.Scan
set_option autoImplicit false

/-!
# Surveys

A survey turns the source files below a directory into a diagram: a node for every file, placed by
layer or in a grid, and an edge for every import that refers to one of them. A file that cannot be
read or understood keeps its node, says why, and depends on nothing.
-/

namespace SourceAtlas

structure Analysis where
  imports : List String
  responsibility : String
  failure : Option Failure

namespace Analysis

def ofFacts : Except Failure Python.Facts → Analysis
  | .ok facts => ⟨facts.imports, facts.responsibility, none⟩
  | .error failure => ⟨[], "parse failed: " ++ failure.message, some failure⟩

end Analysis

def FileTree.facts [Python.Parser] (tree : FileTree) (path : String) :
    Except Failure Python.Facts :=
  match tree.readText path with
  | .error error => .error (.unreadable path error)
  | .ok source => (Python.understand source).mapError fun message => .unparseable ⟨path, message⟩

structure Subject where
  file : SourceFile
  layer : Layer
  analysis : Analysis

/-- The outcome of a survey: the diagram, and the files whose analysis failed with the reasons. -/
structure Survey where
  diagram : Diagram
  degraded : List (String × Failure)

namespace Survey

def subjects [Python.Parser] (tree : FileTree) (settings : Settings) (root : String) : List Subject :=
  (tree.sourceFiles settings root).map fun file =>
    ⟨file, Layer.classify file.filename file.relPath settings.entryFile,
      Analysis.ofFacts (tree.facts file.path)⟩

def placements (style : Style) (subjects : List Subject) : List Placement :=
  match style with
  | .layered => Placement.layered (subjects.map Subject.layer)
  | .grid => Placement.grid subjects.length

/-- A chart and the targets of the subjects that have been drawn, with their indices. -/
structure Drawing where
  chart : Chart
  targets : List (Nat × Target)

def Drawing.add (extension : String) (subjects : List Subject) (drawing : Drawing)
    (placement : Placement) : Drawing :=
  match subjects[placement.index]? with
  | none => drawing
  | some subject =>
    let (node, chart) := drawing.chart.addFile subject.file subject.layer
      subject.analysis.responsibility placement.x placement.y
    let target : Target := ⟨subject.file.modulePath extension, node.id, subject.layer⟩
    ⟨chart, drawing.targets ++ [(placement.index, target)]⟩

def draw (settings : Settings) (subjects : List Subject) : Drawing :=
  (placements settings.style subjects).foldl (Drawing.add settings.extension subjects)
    ⟨Chart.empty settings.style, []⟩

def Drawing.target? (drawing : Drawing) (index : Nat) : Option Target :=
  (drawing.targets.find? fun item => item.1 == index).map Prod.snd

/-- The dependencies of subjects: the files in order, what they import in order, and the targets of
each of these imports in the order of the nodes. -/
def Drawing.dependencies (drawing : Drawing) (subjects : List Subject) : List (Target × Target) :=
  subjects.zipIdx.flatMap fun (subject, index) =>
    match drawing.target? index with
    | none => []
    | some source => subject.analysis.imports.flatMap fun imported =>
      (resolve (drawing.targets.map Prod.snd) imported).map fun target => (source, target)

def connect (chart : Chart) (dependencies : List (Target × Target)) : Chart :=
  dependencies.foldl (fun chart pair => (chart.addDependency pair.1 pair.2).2) chart

def failures (subjects : List Subject) : List (String × Failure) :=
  subjects.filterMap fun subject =>
    subject.analysis.failure.map fun failure => (subject.file.relPath, failure)

def ofSubjects (settings : Settings) (subjects : List Subject) : Survey :=
  let drawing := draw settings subjects
  ⟨(connect drawing.chart (drawing.dependencies subjects)).diagram, failures subjects⟩

def run [Python.Parser] (tree : FileTree) (settings : Settings) (root : String) : Except Failure Survey := do
  settings.validate
  if tree.isDirectory root then .ok (ofSubjects settings (subjects tree settings root))
  else .error (.pathNotFound root)

def summary (survey : Survey) : String :=
  toString survey.diagram.nodes.length ++ " nodes, " ++
    toString survey.diagram.edges.length ++ " edges, " ++
    toString survey.degraded.length ++ " files could not be analyzed"

end Survey

end SourceAtlas
