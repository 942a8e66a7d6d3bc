import SourceAtlas.Files.Lookup
set_option autoImplicit false

namespace SourceAtlas.FileTree

def view? (tree : FileTree) (path : String) : Option (Location × Entry) :=
  match tree.locate .view path with
  | .ok (.taken location entry) => some (location, entry)
  | _ => none

def pathExists (tree : FileTree) (path : String) : Bool :=
  (tree.view? path).isSome

def isDirectory (tree : FileTree) (path : String) : Bool :=
  match tree.view? path with
  | some (_, .directory) => true
  | _ => false

def isFile (tree : FileTree) (path : String) : Bool :=
  match tree.view? path with
  | some (_, .file _) => true
  | _ => false

def readBytes (tree : FileTree) (path : String) : Except FileError ByteArray := do
  match ← tree.locate .view path with
  | .taken _ (.file contents) => .ok contents
  | .taken _ .directory => .error .isDirectory
  | .taken _ (.link _) => .error .tooManyLinks
  | .vacant _ => .error .notFound

def readText (tree : FileTree) (path : String) : Except FileError String := do
  match String.fromUTF8? (← tree.readBytes path) with
  | some text => .ok text
  | none => .error .notText

def writeBytes (tree : FileTree) (path : String) (contents : ByteArray) :
    Except FileError FileTree := do
  match ← tree.locate .write path with
  | .taken location (.file _) => .ok (tree.refill location contents)
  | .taken _ _ => .error .isDirectory
  | .vacant location => .ok (tree.add location (.file contents))

def writeText (tree : FileTree) (path text : String) : Except FileError FileTree :=
  tree.writeBytes path text.toUTF8

def make (tree : FileTree) (path : String) (entry : Entry) : Except FileError FileTree := do
  match ← tree.locate .make path with
  | .taken _ _ => .error .alreadyExists
  | .vacant location => .ok (tree.add location entry)

def makeDirectory (tree : FileTree) (path : String) : Except FileError FileTree :=
  tree.make path .directory

def makeLink (tree : FileTree) (path target : String) : Except FileError FileTree :=
  if target.toList.contains '\x00' then .error .nulInPath
  else tree.make path (.link target)

/-- A path and those of the directories it lies in, up to the first one with an empty name or
without a parent. The fuel bounds their number. -/
def lineage : Nat → String → List String
  | 0, _ => []
  | fuel + 1, path =>
    match path, Path.parent? path with
    | "", _ => []
    | _, none => []
    | path, some parent => path :: lineage fuel parent

/-- Makes the directories of a list of paths, each in the one before it; one that is there already
will do. -/
def makeEach (tree : FileTree) : List String → Option FileError × FileTree
  | [] => (none, tree)
  | path :: paths =>
    match tree.makeDirectory path with
    | .ok tree => makeEach tree paths
    | .error e => if tree.isDirectory path then makeEach tree paths else (some e, tree)

/-- Makes the first directory of a list of paths that can be made or is there already, and then those
that stand before it, which are inside. -/
def makeLineage (tree : FileTree) (missing : List String) :
    List String → Option FileError × FileTree
  | [] => tree.makeEach missing
  | path :: paths =>
    match tree.makeDirectory path with
    | .ok tree => tree.makeEach missing
    | .error .notFound => makeLineage tree (path :: missing) paths
    | .error e => if tree.isDirectory path then tree.makeEach missing else (some e, tree)

/-- Makes a directory and all that it lies in, as far as they are not there. What was made before
an error stays. -/
def makeDirectories (tree : FileTree) (path : String) : Option FileError × FileTree :=
  tree.makeLineage [] (lineage (path.length + 1) path)

end SourceAtlas.FileTree
