import SourceAtlas.Diagram.Reader
import SourceAtlas.Diagram.Writer
import SourceAtlas.Failure
import SourceAtlas.Files.Access
set_option autoImplicit false

namespace SourceAtlas.Diagram

/-- The diagram that a text holds; the failure names the path that the text came from. -/
def ofText (path text : String) : Except Failure Diagram :=
  match read text with
  | .ok diagram => .ok diagram
  | .error fault => .error (.malformedDiagram path (fault.message text.toList))

/-- The diagram in the file at a path; where there is no file, it is empty. -/
def load (tree : FileTree) (path : String) : Except Failure Diagram :=
  match tree.readText path with
  | .ok text => ofText path text
  | .error .notFound => .ok empty
  | .error error => .error (.file error)

/-- Writes a diagram to a path and makes the directories that it lies in. -/
def save (tree : FileTree) (path : String) (diagram : Diagram) : Option Failure × FileTree :=
  match tree.makeDirectories ((Path.parent? path).getD "") with
  | (some error, tree) => (some (.file error), tree)
  | (none, tree) =>
    match tree.writeText path diagram.write with
    | .error error => (some (.file error), tree)
    | .ok tree => (none, tree)

end SourceAtlas.Diagram
