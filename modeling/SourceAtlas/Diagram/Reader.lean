import SourceAtlas.Diagram.Basic
import SourceAtlas.Json.Skip
set_option autoImplicit false

/-!
# Reading diagrams

A diagram is read in one pass over its text, so of several faults the first one in the text is
reported. Nodes and edges are gathered member by member in drafts, whose missing members get their
defaults at the end; a known member may stand only once. The document itself may also be a list of
the nodes and the edges.
-/

namespace SourceAtlas

open Json
open Number (Binary64)

def Json.readOnce {α : Type} (key : String) (old : Option α)
    (item : List Char → Except Fault (α × List Char)) (cs : List Char) :
    Except Fault (Option α × List Char) :=
  match old with
  | some _ => refuseRepeated key cs
  | none => do
    let (value, rest) ← readMember item cs
    .ok (some value, rest)

/-- What a draft comes to once its object is closed, or else the key that it is missing. -/
def Json.closeRecord {σ α : Type} (finish : σ → Except String α) (draft : σ) (rest : List Char) :
    Except Fault (α × List Char) :=
  match finish draft with
  | .ok a => .ok (a, rest)
  | .error key => stopAt (.missingKey key) rest

/-- An object whose members are gathered in a draft, one by one, and the draft then finished. -/
def Json.readRecord {σ α : Type} (expected : String)
    (add : σ → String → List Char → Except Fault (σ × List Char)) (empty : σ)
    (finish : σ → Except String α) (cs : List Char) : Except Fault (α × List Char) :=
  match skipGap cs with
  | '{' :: rest => do
    let (draft, rest) ← readMembers add ('{' :: rest) true empty rest
    closeRecord finish draft rest
  | rest => refuse expected rest

/-- How many lists and objects may be open inside a node or an edge, which stands in a list in an
object. -/
def Json.innerDepth : Nat := depthLimit - 3

namespace Node

structure Draft where
  id : Option String
  kind : Option String
  text : Option String
  x : Option Binary64
  y : Option Binary64
  width : Option Binary64
  height : Option Binary64
  color : Option (Option String)
  extra : Members

def Draft.empty : Draft := ⟨none, none, none, none, none, none, none, none, []⟩

def Draft.add (draft : Draft) (key : String) (cs : List Char) :
    Except Fault (Draft × List Char) := do
  match key with
  | "id" =>
    let (value, rest) ← readOnce key draft.id readText cs
    .ok ({ draft with id := value }, rest)
  | "type" =>
    let (value, rest) ← readOnce key draft.kind readText cs
    .ok ({ draft with kind := value }, rest)
  | "text" =>
    let (value, rest) ← readOnce key draft.text readText cs
    .ok ({ draft with text := value }, rest)
  | "x" =>
    let (value, rest) ← readOnce key draft.x readReal cs
    .ok ({ draft with x := value }, rest)
  | "y" =>
    let (value, rest) ← readOnce key draft.y readReal cs
    .ok ({ draft with y := value }, rest)
  | "width" =>
    let (value, rest) ← readOnce key draft.width readReal cs
    .ok ({ draft with width := value }, rest)
  | "height" =>
    let (value, rest) ← readOnce key draft.height readReal cs
    .ok ({ draft with height := value }, rest)
  | "color" =>
    let (value, rest) ← readOnce key draft.color (readOptional readText) cs
    .ok ({ draft with color := value }, rest)
  | _ =>
    let (extra, rest) ← addMember (readValue innerDepth) draft.extra key cs
    .ok ({ draft with extra := extra }, rest)

/-- The node of a draft with an id, or else the key that is missing. -/
def Draft.finish (draft : Draft) : Except String Node :=
  match draft.id with
  | none => .error "id"
  | some id =>
    .ok {
      id := id
      kind := draft.kind.getD textKind
      text := draft.text.getD ""
      x := draft.x.getD Binary64.zero
      y := draft.y.getD Binary64.zero
      width := draft.width.getD defaultWidth
      height := draft.height.getD defaultHeight
      color := draft.color.join
      extra := draft.extra }

def read (cs : List Char) : Except Fault (Node × List Char) :=
  readRecord "struct Node" Draft.add Draft.empty Draft.finish cs

end Node

namespace Side

def readName (cs : List Char) : Except Fault (Side × List Char) := do
  let (name, rest) ← readTextAs "variant identifier" cs
  match ofName? name with
  | some side => .ok (side, rest)
  | none => stopAt (.unknownWord name (all.map Side.name)) rest

def readNothing (cs : List Char) : Except Fault (List Char) :=
  match skipGap cs with
  | 'n' :: rest => readNull rest
  | rest => refuse "unit" rest

/-- A side: its name, or an object whose only key is the name and whose value is null. -/
def read (cs : List Char) : Except Fault (Side × List Char) :=
  match skipGap cs with
  | '{' :: rest => do
    let (side, rest) ← readName rest
    let rest ← readMember (fun cs => (fun rest => ((), rest)) <$> readNothing cs) rest
    match skipGap rest.2 with
    | [] => stopAt .endInObject []
    | '}' :: rest => .ok (side, rest)
    | rest => stopAt .expectedValue rest
  | '"' :: rest => readName ('"' :: rest)
  | [] => stopOn .endInValue []
  | rest => stopOn .expectedValue rest

end Side

namespace Edge

structure Draft where
  id : Option String
  fromNode : Option String
  fromSide : Option (Option Side)
  toNode : Option String
  toSide : Option (Option Side)
  label : Option (Option String)
  color : Option (Option String)
  extra : Members

def Draft.empty : Draft := ⟨none, none, none, none, none, none, none, []⟩

def Draft.add (draft : Draft) (key : String) (cs : List Char) :
    Except Fault (Draft × List Char) := do
  match key with
  | "id" =>
    let (value, rest) ← readOnce key draft.id readText cs
    .ok ({ draft with id := value }, rest)
  | "fromNode" =>
    let (value, rest) ← readOnce key draft.fromNode readText cs
    .ok ({ draft with fromNode := value }, rest)
  | "fromSide" =>
    let (value, rest) ← readOnce key draft.fromSide (readOptional Side.read) cs
    .ok ({ draft with fromSide := value }, rest)
  | "toNode" =>
    let (value, rest) ← readOnce key draft.toNode readText cs
    .ok ({ draft with toNode := value }, rest)
  | "toSide" =>
    let (value, rest) ← readOnce key draft.toSide (readOptional Side.read) cs
    .ok ({ draft with toSide := value }, rest)
  | "label" =>
    let (value, rest) ← readOnce key draft.label (readOptional readText) cs
    .ok ({ draft with label := value }, rest)
  | "color" =>
    let (value, rest) ← readOnce key draft.color (readOptional readText) cs
    .ok ({ draft with color := value }, rest)
  | _ =>
    let (extra, rest) ← addMember (readValue innerDepth) draft.extra key cs
    .ok ({ draft with extra := extra }, rest)

/-- The edge of a draft with an id and two ends, or else the key that is missing. -/
def Draft.finish (draft : Draft) : Except String Edge :=
  match draft.id, draft.fromNode, draft.toNode with
  | none, _, _ => .error "id"
  | _, none, _ => .error "fromNode"
  | _, _, none => .error "toNode"
  | some id, some fromNode, some toNode =>
    .ok {
      id := id
      fromNode := fromNode
      fromSide := draft.fromSide.join
      toNode := toNode
      toSide := draft.toSide.join
      label := draft.label.join
      color := draft.color.join
      extra := draft.extra }

def read (cs : List Char) : Except Fault (Edge × List Char) :=
  readRecord "struct Edge" Draft.add Draft.empty Draft.finish cs

end Edge

namespace Diagram

structure Draft where
  nodes : Option (List Node)
  edges : Option (List Edge)

def Draft.empty : Draft := ⟨none, none⟩

def Draft.add (draft : Draft) (key : String) (cs : List Char) :
    Except Fault (Draft × List Char) := do
  match key with
  | "nodes" =>
    let (value, rest) ← readOnce key draft.nodes (readList Node.read) cs
    .ok ({ draft with nodes := value }, rest)
  | "edges" =>
    let (value, rest) ← readOnce key draft.edges (readList Edge.read) cs
    .ok ({ draft with edges := value }, rest)
  | _ => do
    let rest ← skipValue (← readColon cs)
    .ok (draft, rest)

def Draft.finish (draft : Draft) : Diagram :=
  ⟨draft.nodes.getD [], draft.edges.getD []⟩

def readSection {α : Type} (first : Bool) (item : List Char → Except Fault (α × List Char))
    (cs : List Char) : Except Fault (Option α × List Char) := do
  let (more, rest) ← nextItem first cs
  if more then
    let (value, rest) ← item rest
    .ok (some value, rest)
  else .ok (none, rest)

def readDocument (cs : List Char) : Except Fault (Diagram × List Char) :=
  match skipGap cs with
  | '[' :: rest => do
    let (nodes, rest) ← readSection true (readList Node.read) rest
    let (edges, rest) ← readSection nodes.isNone (readList Edge.read) rest
    let rest ← closeList rest
    .ok (Draft.finish ⟨nodes, edges⟩, rest)
  | '{' :: rest => do
    let (draft, rest) ← readMembers Draft.add ('{' :: rest) true Draft.empty rest
    .ok (draft.finish, rest)
  | rest => refuse "struct Diagram" rest

def read (text : String) : Except Fault Diagram := do
  let (diagram, rest) ← readDocument text.toList
  readEnd rest
  .ok diagram

end Diagram

end SourceAtlas
