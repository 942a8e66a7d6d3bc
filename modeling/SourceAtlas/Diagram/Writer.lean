import SourceAtlas.Diagram.Basic
import SourceAtlas.Json.Writer
set_option autoImplicit false

namespace SourceAtlas

open Number (Binary64)

def Json.ofCoordinate (x : Binary64) : Json :=
  match x.whole? with
  | some i => .number (.integer i)
  | none => .number (.real x)

def Json.optionalText (key : String) : Option String → Json.Members
  | some text => [(key, .string text)]
  | none => []

namespace Node

def shownText (node : Node) : Option String :=
  if node.kind = textKind ∨ node.text ≠ "" then some node.text else none

def toJson (node : Node) : Json :=
  .object <|
    [("id", .string node.id), ("type", .string node.kind)] ++
    Json.optionalText "text" node.shownText ++
    [("x", Json.ofCoordinate node.x), ("y", Json.ofCoordinate node.y),
      ("width", Json.ofCoordinate node.width), ("height", Json.ofCoordinate node.height)] ++
    Json.optionalText "color" node.color ++
    node.extra

end Node

namespace Edge

def toJson (edge : Edge) : Json :=
  .object <|
    [("id", .string edge.id), ("fromNode", .string edge.fromNode)] ++
    Json.optionalText "fromSide" (edge.fromSide.map Side.name) ++
    [("toNode", .string edge.toNode)] ++
    Json.optionalText "toSide" (edge.toSide.map Side.name) ++
    Json.optionalText "label" edge.label ++
    Json.optionalText "color" edge.color ++
    edge.extra

end Edge

namespace Diagram

def toJson (diagram : Diagram) : Json :=
  .object [("nodes", .array (diagram.nodes.map Node.toJson)),
    ("edges", .array (diagram.edges.map Edge.toJson))]

def write (diagram : Diagram) : String :=
  diagram.toJson.write

end Diagram

end SourceAtlas
