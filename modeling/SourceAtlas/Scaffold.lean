import SourceAtlas.Diagram.Intent
import SourceAtlas.Failure
import SourceAtlas.Files.Walk
import SourceAtlas.Text.Search
set_option autoImplicit false

/-!
# Making what a diagram calls for

For every component that names a file below the project's root, the file is made if it is not there,
and so are the directories that it lies in. Nothing that is there already is changed.
-/

namespace SourceAtlas

/-- What has been made and what has been left out, as paths in the order in which they came. -/
structure SyncReport where
  directories : List String
  files : List String
  skipped : List String
deriving DecidableEq, Repr

namespace SyncReport

def empty : SyncReport := ⟨[], [], []⟩

def isUnchanged (report : SyncReport) : Bool :=
  report.directories.isEmpty && report.files.isEmpty

end SyncReport

def Intent.isWanted (intent : Intent) : Bool :=
  intent.isMaterializable && Path.staysBelow intent.path

namespace FileTree

def syncParent (tree : FileTree) (path : String) (report : SyncReport) :
    Except FileError SyncReport × FileTree :=
  match Path.parent? path with
  | none => (.ok report, tree)
  | some parent =>
    if parent = "" ∨ tree.pathExists parent then (.ok report, tree)
    else match tree.makeDirectories parent with
      | (some error, tree) => (.error error, tree)
      | (none, tree) => (.ok { report with directories := report.directories ++ [parent] }, tree)

def syncFile (tree : FileTree) (path : String) (intent : Intent) (report : SyncReport) :
    Except FileError SyncReport × FileTree :=
  if tree.pathExists path then (.ok report, tree)
  else match tree.writeText path intent.skeleton with
    | .error error => (.error error, tree)
    | .ok tree => (.ok { report with files := report.files ++ [path] }, tree)

def syncOne (tree : FileTree) (root : String) (intent : Intent) (report : SyncReport) :
    Except FileError SyncReport × FileTree :=
  if intent.isWanted then
    let path := Path.join root intent.path
    match tree.syncParent path report with
    | (.error error, tree) => (.error error, tree)
    | (.ok report, tree) => tree.syncFile path intent report
  else if intent.path = "" then (.ok report, tree)
  else (.ok { report with skipped := report.skipped ++ [intent.path] }, tree)

/-- Makes what components call for, one after the other up to the first failure. -/
def syncEach (tree : FileTree) (root : String) (report : SyncReport) :
    List Intent → Except FileError SyncReport × FileTree
  | [] => (.ok report, tree)
  | intent :: intents =>
    match tree.syncOne root intent report with
    | (.error error, tree) => (.error error, tree)
    | (.ok report, tree) => syncEach tree root report intents

def sync (tree : FileTree) (root : String) (intents : List Intent) :
    Except FileError SyncReport × FileTree :=
  tree.syncEach root SyncReport.empty intents

def listedDirectory : String := "src"

/-- The files with an extension below the directory `src` of a root, links left out. -/
def listing (tree : FileTree) (root extension : String) : List String :=
  (tree.entriesUnder (Path.join root listedDirectory)).filterMap fun (names, entry) =>
    match entry with
    | .file _ =>
      if Text.endsIn (names.getLast?.getD "") ("." ++ extension) then
        some ("/".intercalate (listedDirectory :: names))
      else none
    | _ => none

end FileTree

end SourceAtlas
