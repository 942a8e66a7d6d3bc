set_option autoImplicit false

namespace SourceAtlas.Python

/-- A place in a text: rows are counted from 0, and so are the bytes of a row. -/
structure Position where
  row : Nat
  column : Nat
deriving DecidableEq, Repr

inductive Kind
  | block
  | decoratedDefinition
  | comment
  | importStatement
  | importFromStatement
  | futureImportStatement
  | classDefinition
  | functionDefinition
  | expressionStatement
  | string
  | concatenatedString
  | dottedName
  | aliasedImport
  | relativeImport
  | error
  | other (name : String)
deriving DecidableEq, Repr

inductive Field
  | name
  | moduleName
  | other (name : String)
deriving DecidableEq, Repr

/-- A node without the nodes below it. Keywords and punctuation are nodes that have no name; a node
is missing if the parser has put it in. The text is all that the node spans. -/
structure Label where
  kind : Kind
  field : Option Field
  isNamed : Bool
  isMissing : Bool
  start : Position
  text : String
deriving DecidableEq, Repr

inductive Node
  | mk (label : Label) (children : List Node)

namespace Node

def label : Node → Label
  | mk label _ => label

def children : Node → List Node
  | mk _ children => children

def kind (node : Node) : Kind :=
  node.label.kind

def text (node : Node) : String :=
  node.label.text

def namedChildren (node : Node) : List Node :=
  node.children.filter fun child => child.label.isNamed

def childrenAt (node : Node) (field : Field) : List Node :=
  node.children.filter fun child => child.label.field == some field

def childAt? (node : Node) (field : Field) : Option Node :=
  node.children.find? fun child => child.label.field == some field

end Node

def Label.isFault (label : Label) : Bool :=
  label.kind == .error || label.isMissing

mutual

def Node.hasError : Node → Bool
  | .mk label children => label.isFault || haveError children

def haveError : List Node → Bool
  | [] => false
  | child :: rest => child.hasError || haveError rest

end

mutual

def Node.fault? : Node → Option Node
  | .mk label children => if label.isFault then some (.mk label children) else faultAmong? children

def faultAmong? : List Node → Option Node
  | [] => none
  | child :: rest =>
    if child.hasError then
      match child.fault? with
      | some found => some found
      | none => faultAmong? rest
    else faultAmong? rest

end

def Node.complaint (root : Node) : String :=
  match root.fault? with
  | some node =>
    "invalid syntax at line " ++ toString (node.label.start.row + 1) ++ ", column " ++
      toString (node.label.start.column + 1)
  | none => "invalid syntax"

/-- The parser of source texts, which comes from outside: the tree that it makes of a text. -/
class Parser where
  tree? : String → Option Node

end SourceAtlas.Python
