import SourceAtlas.Diagram.Reader
import SourceAtlas.Proofs.Json.Grammar
set_option autoImplicit false

/-!
# The grammar of diagram texts

A document is an object with the nodes and the edges, which are objects themselves, or else a list of
one or both. A member that is not known may be any value: in a node or an edge, where it is kept, one
that means something and does not nest too deep; in the document, where it is skipped, any at all.
-/

namespace SourceAtlas

open Json

def Node.shape : Shape where
  known
    | "id" | "type" | "text" => some IsString
    | "x" | "y" | "width" | "height" => some IsInRange
    | "color" => some (Nullable IsString)
    | _ => none
  other := IsValue Tokens.meaningful innerDepth
  required := ["id"]

namespace Side

def IsName : Language := fun cs => ∃ side : Side, Spells side.name cs

def IsTagged : Language := fun cs => ∃ inner, cs = '{' :: inner ∧
  Entries (fun _ => IsMember IsName IsNull) '}' true [()] inner

def IsSide : Language := fun cs => IsName cs ∨ IsTagged cs

end Side

def Edge.shape : Shape where
  known
    | "id" | "fromNode" | "toNode" => some IsString
    | "fromSide" | "toSide" => some (Nullable Side.IsSide)
    | "label" | "color" => some (Nullable IsString)
    | _ => none
  other := IsValue Tokens.meaningful innerDepth
  required := ["id", "fromNode", "toNode"]

namespace Diagram

def shape : Shape where
  known
    | "nodes" => some (IsSequence (IsRecord Node.shape))
    | "edges" => some (IsSequence (IsRecord Edge.shape))
    | _ => none
  other := IsJson
  required := []

def IsListed : Language := fun cs => ∃ inner keys, cs = '[' :: inner ∧
  Entries shape.value ']' true keys inner ∧ keys <+: ["nodes", "edges"]

def IsDocument : Language := fun cs => IsRecord shape cs ∨ IsListed cs

def IsCanvas : Language := Padded IsDocument

end Diagram

end SourceAtlas
