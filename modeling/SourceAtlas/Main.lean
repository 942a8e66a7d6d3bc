import SourceAtlas.Command.Run
set_option autoImplicit false

/-!
# The program

Takes a snapshot of the files that a command line is about, runs the command line on the snapshot,
and writes to the disk what the run has changed. A link in the snapshot leads to where it leads in
the end; one that leads nowhere has an empty target.
-/

namespace SourceAtlas.Disk

def pathOf (location : Location) : String :=
  "/" ++ "/".intercalate location

def realLocation (path : String) : IO Location := do
  return Path.names (← IO.FS.realPath path).toString

def linkTarget (path : String) : IO String := do
  try return pathOf (← realLocation path)
  catch _ => return ""

def entryAt? (location : Location) : IO (Option Entry) := do
  let path := (← IO.currentDir) / pathOf location
  try
    match (← path.symlinkMetadata).type with
    | .dir => return some .directory
    | .file => return some (.file (← IO.FS.readBinFile path))
    | .symlink => return some (.link (← linkTarget path.toString))
    | .other => return none
  catch _ => return none

def namesIn (location : Location) : IO (List String) := do
  try
    let found ← ((← IO.currentDir) / pathOf location).readDir
    return found.toList.map fun entry => entry.fileName
  catch _ => return []

def withWay (tree : FileTree) (location : Location) : FileTree :=
  (List.range location.length).foldl (fun tree n => tree.add (location.take n) .directory) tree

/-- The tree with what stands at a location on the disk and all that is below it. -/
partial def capture (tree : FileTree) (location : Location) : IO FileTree := do
  match ← entryAt? location with
  | none => return tree
  | some entry =>
    let tree := (withWay tree location).add location entry
    match entry with
    | .file _ => return tree
    | .directory =>
      (← namesIn location).foldlM (fun tree name => capture tree (location ++ [name])) tree
    | .link target =>
      let next := Path.names target
      if target = "" ∨ (tree.entry? next).isSome then return tree else capture tree next

/-- The tree with what the names of a path lead to from a directory on the disk. -/
partial def captureAlong (tree : FileTree) (location : Location) : List String → IO FileTree
  | [] => capture tree location
  | "." :: names => captureAlong tree location names
  | ".." :: names => captureAlong tree location.dropLast names
  | name :: names => do
    let next := location ++ [name]
    match ← entryAt? next with
    | some (.link target) =>
      let tree := (withWay tree next).add next (.link target)
      if target = "" then return tree else captureAlong tree (Path.names target) names
    | some .directory => captureAlong ((withWay tree next).add next .directory) next names
    | some (.file contents) => return (withWay tree next).add next (.file contents)
    | none => return tree

/-- The tree with what a path leads to. -/
def capturePath (tree : FileTree) (path : String) : IO FileTree :=
  captureAlong tree (if Path.isAbsolute path then [] else tree.here) (Path.names path)

def start : IO FileTree := do
  let here ← realLocation "."
  return ((withWay FileTree.empty here).add here .directory).moveTo here

def writeChanges (before after : FileTree) : IO Unit := do
  for (location, entry) in after.entries do
    unless before.entry? location = some entry do
      match entry with
      | .file contents => IO.FS.writeBinFile (pathOf location) contents
      | .directory => IO.FS.createDirAll (pathOf location)
      | .link _ => pure ()

def snapshot (command : Command) : IO FileTree := do
  let tree ← command.configPaths.foldlM capturePath (← start)
  let settings := match command.configPaths with
    | path :: _ => Settings.loadOrStandard tree path
    | [] => Settings.standard
  (command.paths settings).foldlM capturePath tree

end SourceAtlas.Disk

open SourceAtlas

def main (args : List String) : IO UInt32 := do
  let tree ← match Command.ofArguments? args with
    | some command => Disk.snapshot command
    | none => pure FileTree.empty
  let outcome := runArguments tree args
  Disk.writeChanges tree outcome.tree
  IO.print outcome.output
  match outcome.complaint with
  | some complaint => IO.eprintln complaint
  | none => pure ()
  if outcome.exitCode = 2 then
    IO.eprint (String.join (Command.helpLines.map fun line => line ++ "\n"))
  return outcome.exitCode.toUInt32
