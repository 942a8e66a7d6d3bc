import SourceAtlas.Text.Search
set_option autoImplicit false

namespace SourceAtlas

/-- The id of a node for a path, in which every slash becomes an underscore. -/
def nodeIdFor (relPath : String) : String :=
  Text.replaced '/' '_' relPath

/-- The dotted name of a module: its path without the extension, in which every slash becomes a
dot. -/
def modulePathFor (relPath extension : String) : String :=
  let stem := (Text.before? ('.' :: extension.toList) relPath.toList).getD relPath.toList
  Text.replaced '/' '.' (String.ofList stem)

/-- A file with its name, its path below the surveyed directory and the path that opens it. -/
structure SourceFile where
  filename : String
  relPath : String
  path : String
deriving DecidableEq, Repr

namespace SourceFile

def nodeId (file : SourceFile) : String :=
  nodeIdFor file.relPath

def modulePath (file : SourceFile) (extension : String) : String :=
  modulePathFor file.relPath extension

end SourceFile

end SourceAtlas
