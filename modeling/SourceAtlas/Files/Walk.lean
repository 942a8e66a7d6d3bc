import SourceAtlas.Files.Access
set_option autoImplicit false

namespace SourceAtlas.FileTree

def below? (base location : Location) : Option Location :=
  if base.isPrefixOf location ∧ base ≠ location then some (location.drop base.length) else none

def entriesBelow (tree : FileTree) (base : Location) : List (Location × Entry) :=
  tree.entries.filterMap fun (location, entry) =>
    (below? base location).map fun names => (names, entry)

def pathBelow (path : String) (names : Location) : String :=
  Path.join path ("/".intercalate names)

/-- Whether a walk from a path can open the directory that names lead to. It opens each directory by
its whole path. -/
def opens (path : String) (names : Location) : Bool :=
  names.isEmpty || (pathBelow path names).utf8ByteSize < pathLimit

/-- The entries below a path that leads to a directory, those in a directory that cannot be opened
left out; other paths have none. -/
def entriesUnder (tree : FileTree) (path : String) : List (Location × Entry) :=
  match tree.view? path with
  | some (location, .directory) =>
    (tree.entriesBelow location).filter fun found => opens path found.1.dropLast
  | _ => []

end SourceAtlas.FileTree
