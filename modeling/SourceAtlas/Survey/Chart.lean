import SourceAtlas.Survey.Dependency
import SourceAtlas.Survey.Placement
import SourceAtlas.Survey.SourceFile
import SourceAtlas.Survey.Style
set_option autoImplicit false

namespace SourceAtlas

structure Chart where
  style : Style
  nodes : List Node
  edges : EdgeSet
  taken : List String

/-- The first free one of the ids with the numbers from some number on; the fuel bounds how many are
tried. -/
def numberedId (taken : List String) (base : String) : Nat → Nat → String
  | 0, number => base ++ "~" ++ toString number
  | fuel + 1, number =>
    let id := base ++ "~" ++ toString number
    if taken.contains id then numberedId taken base fuel (number + 1) else id

def freeId (taken : List String) (base : String) : String :=
  if taken.contains base then numberedId taken base taken.length 2 else base

namespace Chart

def empty (style : Style) : Chart := ⟨style, [], EdgeSet.empty, []⟩

def nodeText (style : Style) (file : SourceFile) (layer : Layer) (responsibility : String) :
    String :=
  let body := file.filename ++ "\n" ++ file.relPath ++ "\n\n" ++ responsibility
  match style with
  | .layered => layer.tag ++ "\n" ++ body
  | .grid => body

def nodeColor (style : Style) (file : SourceFile) (layer : Layer) : String :=
  match style with
  | .layered => layer.color
  | .grid => filenameColor file.filename

def nodeFor (style : Style) (id : String) (file : SourceFile) (layer : Layer)
    (responsibility : String) (x y : Int) : Node :=
  (Node.ofText id (nodeText style file layer responsibility) x y).withColor
    (nodeColor style file layer)

def addFile (chart : Chart) (file : SourceFile) (layer : Layer) (responsibility : String)
    (x y : Int) : Node × Chart :=
  let id := freeId chart.taken file.nodeId
  let node := nodeFor chart.style id file layer responsibility x y
  (node, { chart with nodes := chart.nodes ++ [node], taken := id :: chart.taken })

def edgeFor (style : Style) (source target : Target) : Edge :=
  let edge := Edge.link source.nodeId target.nodeId
  match style with
  | .layered => (Strength.between source.layer target.layer).apply edge
  | .grid => edge

/-- The chart with one more dependency, and whether it is new and no loop. -/
def addDependency (chart : Chart) (source target : Target) : Bool × Chart :=
  let (added, edges) := chart.edges.insert (edgeFor chart.style source target)
  (added, { chart with edges := edges })

def diagram (chart : Chart) : Diagram :=
  ⟨chart.nodes, chart.edges.edges⟩

end Chart

end SourceAtlas
