import SourceAtlas.Command.Basic
import SourceAtlas.Diagram.File
import SourceAtlas.Diagram.Intent
import SourceAtlas.Python.Reader.Tree
import SourceAtlas.Scaffold
import SourceAtlas.Settings.Reader
import SourceAtlas.Survey.Report
import SourceAtlas.Text.Quoted
set_option autoImplicit false

namespace SourceAtlas

/-- What a run of the program leaves: its exit code, the lines that it has printed, why it failed,
and the tree. -/
structure Outcome where
  exitCode : Nat
  lines : List String
  failure : Option Failure
  tree : FileTree

namespace Outcome

def done (lines : List String) (tree : FileTree) : Outcome := ⟨0, lines, none, tree⟩

def failed (lines : List String) (failure : Failure) (tree : FileTree) : Outcome :=
  ⟨1, lines, some failure, tree⟩

def output (outcome : Outcome) : String :=
  String.join (outcome.lines.map fun line => line ++ "\n")

def complaint (outcome : Outcome) : Option String :=
  outcome.failure.map fun failure => "Error: " ++ failure.message

end Outcome

namespace Command

def standardConfig : String := "archcanvas.toml"

/-- The settings in a file that is named, or else in the standard one if they can be had. -/
def settingsOf (tree : FileTree) : Option String → Except Failure Settings
  | some path => Settings.load tree path
  | none => .ok (Settings.loadOrStandard tree standardConfig)

def configPaths : Command → List String
  | reverse _ _ config _ => [config.getD standardConfig]
  | sync _ _ config _ => [config.getD standardConfig]
  | _ => []

/-- The paths that a command looks at or writes to, once its settings are known. -/
def paths (settings : Settings) : Command → List String
  | reverse root wishes _ _ => [root, wishes.output.getD settings.output]
  | sync canvas root _ _ => [canvas, root]
  | intents canvas => [canvas]
  | _ => []

def shownFailures : Nat := 5

def failureLines (failures : List (String × Failure)) : List String :=
  if failures.isEmpty then []
  else
    let shown := failures.take shownFailures
    let others := failures.length - shownFailures
    ["", "Could not analyze (" ++ toString failures.length ++ "):"] ++
      shown.map (fun (file, failure) => "  " ++ file ++ ": " ++ failure.message) ++
      (if others = 0 then [] else ["  ... and " ++ toString others ++ " more"])

def surveyLines (root : String) (settings : Settings) : List String :=
  ["Scanning: " ++ root, "Output: " ++ settings.output, "Style: " ++ settings.style.title,
    "Exclude: " ++ Text.quotedList settings.excluded]

def runReverse [Python.Parser] (tree : FileTree) (root : String) (wishes : Wishes)
    (config : Option String) (verbose : Bool) : Outcome :=
  match settingsOf tree config with
  | .error failure => .failed [] failure tree
  | .ok settings =>
    match settings.merge wishes with
    | (.error failure, _) => .failed [] failure tree
    | (.ok (), settings) =>
      let said := if verbose then surveyLines root settings else []
      match Survey.run tree settings root with
      | .error failure => .failed said failure tree
      | .ok survey =>
        let said := said ++ failureLines survey.degraded
        match survey.diagram.save tree settings.output with
        | (some failure, tree) => .failed said failure tree
        | (none, tree) =>
          .done (said ++ [survey.summary, "Canvas written to: " ++ settings.output]) tree

def reportLines (report : SyncReport) : List String :=
  report.directories.map ("Created directory: " ++ ·) ++
    report.files.map ("Created file: " ++ ·) ++
    report.skipped.map ("Skipped: " ++ ·) ++
    (if report.isUnchanged then ["Structure already up to date"] else [])

def listingLines (files : List String) : List String :=
  ("Source files under src: " ++ toString files.length) :: files.map ("  " ++ ·)

def runSync (tree : FileTree) (canvas root : String) (config : Option String) (verbose : Bool) :
    Outcome :=
  match settingsOf tree config with
  | .error failure => .failed [] failure tree
  | .ok settings =>
    let said :=
      if verbose then ["Root: " ++ root, "Extension: " ++ settings.extension] else []
    match Diagram.load tree canvas with
    | .error failure => .failed said failure tree
    | .ok diagram =>
      let intents := diagram.intents
      let said := said ++
        ["Found " ++ toString intents.length ++ " components in " ++ canvas]
      match tree.sync root intents with
      | (.error error, tree) => .failed said (.file error) tree
      | (.ok report, tree) =>
        .done (said ++ reportLines report ++ listingLines (tree.listing root settings.extension))
          tree

def runIntents (tree : FileTree) (canvas : String) : Outcome :=
  match Diagram.load tree canvas with
  | .error failure => .failed [] failure tree
  | .ok diagram => .done (diagram.intents.map fun intent => intent.name ++ "\t" ++ intent.path) tree

def helpLines : List String :=
  ["Usage: archcanvas <COMMAND>", "", "Commands:",
    "  reverse  Scan a source tree and write its dependency canvas",
    "  sync     Create directories and file skeletons described by a canvas",
    "  intents  List the components a canvas describes",
    "  version  Show version information"]

def run [Python.Parser] (tree : FileTree) : Command → Outcome
  | reverse root wishes config verbose => runReverse tree root wishes config verbose
  | sync canvas root config verbose => runSync tree canvas root config verbose
  | intents canvas => runIntents tree canvas
  | version => .done ["archcanvas 0.1.0"] tree
  | help => .done helpLines tree

end Command

/-- Runs the program with a command line on a tree. A command line that asks for nothing changes
nothing. -/
def runArguments [Python.Parser] (tree : FileTree) (args : List String) : Outcome :=
  match Command.ofArguments? args with
  | some command => command.run tree
  | none => ⟨2, [], none, tree⟩

end SourceAtlas
