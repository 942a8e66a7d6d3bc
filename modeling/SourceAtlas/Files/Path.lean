import SourceAtlas.Text.Lines
set_option autoImplicit false

namespace SourceAtlas.Path

/-- The names of a path with the empty ones between, before and behind slashes. -/
def pieces (path : String) : List String :=
  Text.splitAt '/' path

def names (path : String) : List String :=
  (pieces path).filter fun name => name != ""

def isAbsolute (path : String) : Bool :=
  path.toList.head? == some '/'

def endsInSlash (path : String) : Bool :=
  path.toList.getLast? == some '/'

def join (base path : String) : String :=
  if isAbsolute path || base.isEmpty then path
  else if endsInSlash base then base ++ path
  else base ++ "/" ++ path

def isIdle (piece : String) : Bool :=
  piece == "" || piece == "."

/-- Pieces, of which the first one is kept in any case, without the idle ones at the end. -/
def settle : List String → List String
  | [] => []
  | first :: rest => first :: (rest.reverse.dropWhile isIdle).reverse

def ofPieces : List String → String
  | [""] => "/"
  | pieces => "/".intercalate pieces

/-- The path of the directory that a path lies in; the root has none. -/
def parent? (path : String) : Option String :=
  match settle (pieces path) with
  | [] => none
  | [""] => none
  | [_] => some ""
  | pieces => some (ofPieces (settle pieces.dropLast))

/-- The last name of a path, or the path itself if it ends otherwise. -/
def fileName (path : String) : String :=
  match (settle (pieces path)).getLast? with
  | some name => if name == "" || name == "." || name == ".." then path else name
  | none => path

def staysBelow (path : String) : Bool :=
  !isAbsolute path && !(pieces path).contains ".."

end SourceAtlas.Path
