import SourceAtlas.Diagram.Basic
import SourceAtlas.Text.Blank
import SourceAtlas.Text.Lines
set_option autoImplicit false

namespace SourceAtlas

structure Intent where
  name : String
  path : String
  responsibility : String
  color : Option String
deriving DecidableEq, Repr

namespace Intent

def visibleLines (text : String) : List (List Char) :=
  ((Text.pieces '\n' text.toList).map Text.trim).filter fun line => !line.isEmpty

def ofText? (text : String) (color : Option String) : Option Intent :=
  match visibleLines text with
  | name :: path :: rest =>
    some ⟨String.ofList name, String.ofList path, String.ofList (Text.joined '\n' rest), color⟩
  | _ => none

def isPlaceholder (intent : Intent) : Bool :=
  intent.path.toList.head? == some '\x60'

def isMaterializable (intent : Intent) : Bool :=
  !intent.path.isEmpty && !intent.isPlaceholder

/-- The contents of a new file for the component: a docstring that tells its name and what it is
for. -/
def skeleton (intent : Intent) : String :=
  "\"\"\"\n" ++ intent.name ++ "\n\nResponsibility: " ++ intent.responsibility ++ "\n\"\"\"\n\n"

end Intent

def Diagram.intents (diagram : Diagram) : List Intent :=
  diagram.nodes.filterMap fun node => Intent.ofText? node.text node.color

end SourceAtlas
