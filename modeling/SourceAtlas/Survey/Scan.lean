import SourceAtlas.Files.Walk
import SourceAtlas.Settings.Basic
import SourceAtlas.Survey.SourceFile
import SourceAtlas.Text.Search
set_option autoImplicit false

namespace SourceAtlas

namespace Settings

def suffix (settings : Settings) : String :=
  "." ++ settings.extension

def reaches (settings : Settings) (names : Location) : Bool :=
  names.dropLast.all fun name => !settings.excluded.contains name

end Settings

namespace FileTree

def isCandidate (tree : FileTree) (path : String) : Entry → Bool
  | .file _ => true
  | .directory => false
  | .link _ => tree.isFile path

def sourceFile? (tree : FileTree) (settings : Settings) (root : String)
    (found : Location × Entry) : Option SourceFile :=
  let (names, entry) := found
  let path := pathBelow root names
  let name := names.getLast?.getD ""
  if settings.reaches names && tree.isCandidate path entry && Text.endsIn name settings.suffix then
    some ⟨name, "/".intercalate names, path⟩
  else none

def rootFile? (tree : FileTree) (settings : Settings) (root : String) : Option SourceFile :=
  match tree.locate .inspect root with
  | .ok (.taken _ entry) =>
    let name := Path.fileName root
    if tree.isCandidate root entry && Text.endsIn name settings.suffix then some ⟨name, "", root⟩
    else none
  | _ => none

def sourceFiles (tree : FileTree) (settings : Settings) (root : String) : List SourceFile :=
  (tree.rootFile? settings root).toList ++
    (tree.entriesUnder root).filterMap (tree.sourceFile? settings root)

end FileTree

end SourceAtlas
