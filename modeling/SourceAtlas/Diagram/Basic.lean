import SourceAtlas.Json.Value
set_option autoImplicit false

namespace SourceAtlas

open Number (Binary64)

structure Node where
  id : String
  kind : String
  text : String
  x : Binary64
  y : Binary64
  width : Binary64
  height : Binary64
  color : Option String
  extra : Json.Members
deriving DecidableEq

inductive Side
  | top
  | right
  | bottom
  | left
deriving DecidableEq, Repr

structure Edge where
  id : String
  fromNode : String
  fromSide : Option Side
  toNode : String
  toSide : Option Side
  label : Option String
  color : Option String
  extra : Json.Members
deriving DecidableEq

structure Diagram where
  nodes : List Node
  edges : List Edge
deriving DecidableEq

namespace Node

def textKind : String := "text"

def defaultWidth : Binary64 := Binary64.ofNat 350

def defaultHeight : Binary64 := Binary64.ofNat 220

def ofText (id text : String) (x y : Int) : Node where
  id := id
  kind := textKind
  text := text
  x := Binary64.ofInt x
  y := Binary64.ofInt y
  width := defaultWidth
  height := defaultHeight
  color := none
  extra := []

def withColor (node : Node) (color : String) : Node :=
  { node with color := some color }

end Node

namespace Side

def all : List Side := [top, right, bottom, left]

def name : Side → String
  | top => "top"
  | right => "right"
  | bottom => "bottom"
  | left => "left"

def ofName? (name : String) : Option Side :=
  all.find? fun side => side.name == name

end Side

namespace Edge

def idBetween (source target : String) : String :=
  "edge_" ++ source ++ "_" ++ target

def link (source target : String) : Edge where
  id := idBetween source target
  fromNode := source
  fromSide := some .bottom
  toNode := target
  toSide := some .top
  label := none
  color := none
  extra := []

def withLabel (edge : Edge) (label : String) : Edge :=
  { edge with label := some label }

def withColor (edge : Edge) (color : String) : Edge :=
  { edge with color := some color }

def isLoop (edge : Edge) : Bool :=
  edge.fromNode == edge.toNode

end Edge

namespace Diagram

def empty : Diagram := ⟨[], []⟩

def isEmpty (diagram : Diagram) : Bool :=
  diagram.nodes.isEmpty && diagram.edges.isEmpty

def node? (diagram : Diagram) (id : String) : Option Node :=
  diagram.nodes.find? fun node => node.id == id

end Diagram

theorem Side.ofName?_name (side : Side) : Side.ofName? side.name = some side := by
  cases side <;> rfl

end SourceAtlas
