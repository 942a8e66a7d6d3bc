import SourceAtlas.Python.Docstring
import SourceAtlas.Python.Node
set_option autoImplicit false

namespace SourceAtlas.Python

open SourceAtlas.Text

structure Facts where
  imports : List String := []
  docstring : Option String := none
  classes : List String := []
  functions : List String := []
deriving DecidableEq, Repr

/-- The text of a name without its white space, if anything is left. -/
def dottedText? (node : Node) : Option String :=
  let name := node.text.toList.filter fun c => !isBlank c
  if name.isEmpty then none else some (String.ofList name)

def plainImports (node : Node) : List String :=
  (node.childrenAt .name).filterMap fun child =>
    let target :=
      match child.kind with
      | .aliasedImport => child.childAt? .name
      | .dottedName => some child
      | _ => none
    target.bind dottedText?

/-- The module of `from x import y`, which `from . import y` does not name. -/
def fromModule? (node : Node) : Option String :=
  (node.childAt? .moduleName).bind fun module =>
    match module.kind with
    | .dottedName => dottedText? module
    | .relativeImport =>
      (module.namedChildren.find? fun child => child.kind == .dottedName).bind dottedText?
    | _ => none

def definitionName? (node : Node) : Option String :=
  (node.childAt? .name).map Node.text

def Facts.collect (facts : Facts) (node : Node) : Facts :=
  match node.kind with
  | .importStatement => { facts with imports := facts.imports ++ plainImports node }
  | .importFromStatement => { facts with imports := facts.imports ++ (fromModule? node).toList }
  | .futureImportStatement => { facts with imports := facts.imports ++ ["__future__"] }
  | .classDefinition => { facts with classes := facts.classes ++ (definitionName? node).toList }
  | .functionDefinition =>
    { facts with functions := facts.functions ++ (definitionName? node).toList }
  | _ => facts

mutual

/-- The nodes next to a node on the way down. Blocks and decorated definitions are looked through, so
that nesting follows statements, and comments are passed over. -/
def Node.nested : Node → List Node
  | .mk _ children => reached children

def reached : List Node → List Node
  | [] => []
  | child :: rest =>
    (if child.label.isNamed then
      match child.kind with
      | .block => child.nested
      | .decoratedDefinition => child.nested
      | .comment => []
      | _ => [child]
    else []) ++ reached rest

end

mutual

def Node.size : Node → Nat
  | .mk _ children => sizes children + 1

def sizes : List Node → Nat
  | [] => 0
  | node :: nodes => node.size + sizes nodes

end

/-- The nodes of a queue: the first one is taken out, and what is next to it goes to the end. The
fuel bounds the number of nodes. -/
def visited : Nat → List Node → List Node
  | 0, _ => []
  | _, [] => []
  | fuel + 1, node :: queue => node :: visited fuel (queue ++ node.nested)

/-- The literals that a text begins with, if its first statement is nothing else. -/
def Node.documentation? (root : Node) : Option (List String) :=
  match root.namedChildren.find? fun child => child.kind != .comment with
  | none => none
  | some statement =>
    match statement.kind, statement.namedChildren with
    | .expressionStatement, [expression] =>
      match expression.kind with
      | .string => some [expression.text]
      | .concatenatedString =>
        some ((expression.namedChildren.filter fun part => part.kind == .string).map Node.text)
      | _ => none
    | _, _ => none

def Node.facts (root : Node) : Facts :=
  (visited root.size [root]).foldl Facts.collect
    { docstring := root.documentation?.bind docstring? }

def withoutMark (text : String) : String :=
  match text.toList with
  | '\ufeff' :: rest => String.ofList rest
  | _ => text

def understand [Parser] (text : String) : Except String Facts :=
  match Parser.tree? (withoutMark text) with
  | none => .error "parser produced no tree"
  | some root => if root.hasError then .error root.complaint else .ok root.facts

/-- The facts of a source text; a text that is no source has none. -/
def facts? [Parser] (text : String) : Option Facts :=
  (understand text).toOption

def Facts.publicFunctions (facts : Facts) : List String :=
  facts.functions.filter fun name => name.toList.head? != some '_'

def listedFunctions : Nat := 5

def noResponsibility : String :=
  "no declared responsibility (empty file or no exported symbols)"

/-- The lines of a summary: description, types, functions, each if there is something to say. -/
def Facts.summaryLines (facts : Facts) : List String :=
  let described :=
    match facts.docstring with
    | some doc => if doc.isEmpty then [] else ["description: " ++ doc]
    | none => []
  let types :=
    if facts.classes.isEmpty then [] else ["types: " ++ ", ".intercalate facts.classes]
  let functions := facts.publicFunctions
  let listed :=
    if functions.isEmpty then []
    else
      ["core functions: " ++ ", ".intercalate (functions.take listedFunctions) ++
        if functions.length > listedFunctions then "..." else ""]
  described ++ types ++ listed

def Facts.responsibility (facts : Facts) : String :=
  if facts.summaryLines.isEmpty then noResponsibility else "\n".intercalate facts.summaryLines

end SourceAtlas.Python
