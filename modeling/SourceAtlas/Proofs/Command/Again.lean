import SourceAtlas.Proofs.Command.Frame
import SourceAtlas.Proofs.Files.Descent
import SourceAtlas.Proofs.Survey.Aside
set_option autoImplicit false

/-!
# Surveys that are made twice

A survey whose output is neither one of the files that it looks at nor its own file of settings is
made again with the same result and no further change. If it fails, it fails again, for the same
reason unless a step upwards leads away from directories that it has made.
-/

namespace SourceAtlas

namespace FileTree

theorem SavedAt.last {before after : FileTree} {path : String} {contents : ByteArray}
    (saved : before.SavedAt after path contents) {front : Location} {name : String}
    (here : front ++ [name] = before.destination path) :
    (Path.names path).getLast? = some name := by
  obtain ⟨init, last, same, dot, up⟩ := saved.named
  rw [destination, same, List.foldl_append, List.foldl_cons, List.foldl_nil, advance, if_neg dot,
    if_neg up] at here
  obtain ⟨-, rfl⟩ := List.append_singleton_inj.1 here
  rw [same, List.getLast?_concat]

end FileTree

/-- A diagram that is saved under a name that is not one of a source file is not seen by a survey. -/
theorem Diagram.save_aside {tree : FileTree} (plain : tree.LinkFree) {settings : Settings}
    {path : String} (diagram : Diagram)
    (other : Text.endsIn ((Path.names path).getLast?.getD "") settings.suffix = false) :
    tree.Aside (save tree path diagram).2 settings := by
  obtain ⟨written, paved⟩ := save_effect plain path diagram
  refine ⟨plain, (save_plain plain path diagram).1,
    fun base location directory => view?_saved plain path diagram directory (.inl rfl),
    fun front name ends contents => entry?_saved_iff plain path diagram (fun done here => ?_) contents⟩
  rw [(written done).last here] at other
  exact absurd (ends.symm.trans other) (by decide)

theorem Toml.read_brace {text : String} {cs : List Char} (starts : text.toList = '\x7b' :: cs) :
    Toml.read text = none := by
  rw [Toml.read, starts]
  rfl

theorem Diagram.write_brace (diagram : Diagram) : ∃ cs, diagram.write.toList = '\x7b' :: cs := by
  rw [Diagram.write, Json.write, Diagram.toJson, String.toList_ofList, Json.writeValue]
  exact ⟨_, rfl⟩

theorem Settings.read_diagram (diagram : Diagram) :
    Settings.read diagram.write = .error .settingsText := by
  obtain ⟨cs, starts⟩ := diagram.write_brace
  rw [Settings.read, Toml.read_brace starts]
  rfl

namespace Command

/-- Whether a command does not write what it reads: the output of a survey has not the name of a
source file, and it does not replace the file of settings. -/
def SparesInputs (tree : FileTree) : Command → Prop
  | reverse _ wishes config _ => ∀ settings ∈ surveySettings? tree wishes config,
    Text.endsIn ((Path.names settings.output).getLast?.getD "") settings.suffix = false ∧
      (tree.isFile (config.getD standardConfig) = true →
        tree.destination (config.getD standardConfig) ≠ tree.destination settings.output)
  | _ => True

instance (tree : FileTree) : DecidablePred (SparesInputs tree)
  | reverse _ wishes config _ =>
    inferInstanceAs (Decidable (∀ settings ∈ surveySettings? tree wishes config, _ ∧ (_ → _)))
  | sync _ _ _ _ => isTrue trivial
  | intents _ => isTrue trivial
  | version => isTrue trivial
  | help => isTrue trivial

/-- Whether the output of a survey has a step upwards. -/
def OutputLeadsUp (tree : FileTree) : Command → Prop
  | reverse _ wishes config _ =>
    ∃ settings ∈ surveySettings? tree wishes config, ".." ∈ Path.names settings.output
  | _ => False

variable {tree : FileTree} {path : String}

theorem readText_saved (plain : tree.LinkFree) (diagram : Diagram) {base text : String}
    (apart : tree.isFile base = true → tree.destination base ≠ tree.destination path)
    (read : tree.readText base = .ok text) :
    (diagram.save tree path).2.readText base = .ok text := by
  obtain ⟨location, contents, seen, decoded⟩ := (FileTree.readText_eq_ok_iff tree base text).1 read
  have isFile : tree.isFile base = true := by rw [FileTree.isFile, seen]
  have here : location = tree.destination base :=
    FileTree.locate_destination plain ((FileTree.view?_eq_some_iff tree base _ _).1 seen)
  have still := Diagram.view?_saved plain path diagram seen (.inr (here ▸ apart isFile))
  exact (FileTree.readText_eq_ok_iff _ base text).2 ⟨location, contents, still, decoded⟩

theorem view?_standardConfig {contents : ByteArray}
    (stands : tree.entry? (tree.destination standardConfig) = some (.file contents)) :
    tree.view? standardConfig = some (tree.destination standardConfig, .file contents) := by
  have fits : FileTree.Fits standardConfig := ⟨by decide, by decide, by decide⟩
  exact (FileTree.view?_eq_some_iff ..).2
    ((FileTree.locate_of_fits tree .view fits).trans (FileTree.walk_file _ stands))

/-- Settings that are found under the standard name are the same after saving, and none come up if
there were none: directories are no files, and a diagram holds no settings. -/
theorem loadOrStandard_saved (plain : tree.LinkFree) (diagram : Diagram)
    (apart : tree.isFile standardConfig = true →
      tree.destination standardConfig ≠ tree.destination path) :
    Settings.loadOrStandard (diagram.save tree path).2 standardConfig =
      Settings.loadOrStandard tree standardConfig := by
  obtain ⟨written, paved⟩ := Diagram.save_effect plain path diagram
  cases read : tree.readText standardConfig with
  | ok text =>
    have read' := readText_saved plain diagram apart read
    simp only [Settings.loadOrStandard, Settings.load, read, read']
  | error e =>
    have before : Settings.loadOrStandard tree standardConfig = .standard := by
      simp only [Settings.loadOrStandard, Settings.load, read]
    rw [before]
    cases read' : (diagram.save tree path).2.readText standardConfig with
    | error e' => simp only [Settings.loadOrStandard, Settings.load, read']
    | ok text =>
      obtain ⟨location, contents, seen, decoded⟩ := (FileTree.readText_eq_ok_iff _ _ _).1 read'
      have found := (FileTree.view?_eq_some_iff _ _ _ _).1 seen
      have stands : FileTree.entry? (diagram.save tree path).2 location = some (.file contents) :=
        FileTree.locate_sound _ .view _ _ found
      obtain ⟨plain', here⟩ := Diagram.save_plain plain path diagram
      have same : location = tree.destination standardConfig :=
        (FileTree.locate_destination plain' found).trans (FileTree.destination_of_here here _)
      by_cases new : (diagram.save tree path).1 = none ∧ location = tree.destination path
      · have saved := (written new.1).stands
        rw [← new.2, stands] at saved
        obtain rfl := Entry.file.inj (Option.some.inj saved)
        rw [FileTree.decoded_toUTF8] at decoded
        obtain rfl := Option.some.inj decoded
        simp only [Settings.loadOrStandard, Settings.load, read', Settings.read_diagram]
      · -- Any other file was there before, and so its text would have been read.
        have old := (Diagram.entry?_saved_iff plain path diagram
          (fun done this => new ⟨done, this⟩) contents).1 stands
        have text' := (FileTree.readText_eq_ok_iff tree standardConfig text).2
          ⟨_, contents, view?_standardConfig (same ▸ old), decoded⟩
        rw [read] at text'
        cases text'

theorem settingsOf_saved (plain : tree.LinkFree) (diagram : Diagram) {config : Option String}
    {settings : Settings}
    (apart : tree.isFile (config.getD standardConfig) = true →
      tree.destination (config.getD standardConfig) ≠ tree.destination path)
    (had : settingsOf tree config = .ok settings) :
    settingsOf (diagram.save tree path).2 config = .ok settings := by
  cases config with
  | none => exact (congrArg Except.ok (loadOrStandard_saved plain diagram apart)).trans had
  | some base =>
    rw [Option.getD_some] at apart
    change Settings.load tree base = .ok settings at had
    change Settings.load (diagram.save tree path).2 base = .ok settings
    rw [Settings.load] at had ⊢
    cases read : tree.readText base with
    | error e =>
      rw [read] at had
      cases had
    | ok text =>
      rw [read] at had
      rw [readText_saved plain diagram apart read]
      exact had

theorem surveySettings?_congr {before after : FileTree} {wishes : Wishes} {config : Option String}
    (same : ∀ settings, settingsOf before config = .ok settings →
      settingsOf after config = .ok settings) {settings : Settings}
    (had : surveySettings? before wishes config = some settings) :
    surveySettings? after wishes config = some settings := by
  rw [surveySettings?] at had ⊢
  split at had
  · cases had
  next base found =>
  rw [same base found]
  exact had

theorem surveyEnd_lines (root : String) (verbose : Bool) (settings : Settings) (survey : Survey)
    {outcome : Option Failure} {saved : Option Failure × FileTree}
    (alike : outcome = none ↔ saved.1 = none) (after : FileTree) :
    (surveyEnd root verbose settings survey (outcome, after)).lines =
      (surveyEnd root verbose settings survey saved).lines := by
  obtain ⟨_ | failure, before⟩ := saved
  · obtain rfl := alike.2 rfl
    rfl
  · cases outcome with
    | none => cases alike.1 rfl
    | some other => rfl

/-- A survey that does not replace what it looks at is made again with the same outcome. Only the
reason of a failure may be another one, if a directory could not be made behind a step upwards. -/
theorem runReverse_again [Python.Parser] (plain : tree.LinkFree) {root : String} {wishes : Wishes}
    {config : Option String} {verbose : Bool}
    (spares : (reverse root wishes config verbose).SparesInputs tree) :
    let first := runReverse tree root wishes config verbose
    let second := runReverse first.tree root wishes config verbose
    second.exitCode = first.exitCode ∧ second.lines = first.lines ∧ second.tree = first.tree ∧
      (second.failure ≠ first.failure → first.failure = some (.file .alreadyExists) ∧
        (reverse root wishes config verbose).OutputLeadsUp tree) := by
  intro first second
  rcases runReverse_cases tree root wishes config verbose with ⟨lines, failure, ends⟩ |
    ⟨settings, survey, had, ran⟩
  · have same : first.tree = tree := congrArg Outcome.tree ends
    have equal : second = first := congrArg (runReverse · root wishes config verbose) same
    rw [equal]
    exact ⟨rfl, rfl, rfl, fun other => absurd rfl other⟩
  · obtain ⟨other, apart⟩ := spares settings had
    have ends : first = surveyEnd root verbose settings survey
        (survey.diagram.save tree settings.output) := runReverse_eq had ran
    have left : first.tree = (survey.diagram.save tree settings.output).2 := by
      rw [ends, surveyEnd_tree]
    have had' := surveySettings?_congr (fun _ => settingsOf_saved plain survey.diagram apart) had
    have ran' := Survey.run_aside (Diagram.save_aside plain survey.diagram other) ran
    rw [← left] at had' ran'
    obtain ⟨outcome, again, alike, reason⟩ := Diagram.save_again tree settings.output survey.diagram
    have ends' : second = surveyEnd root verbose settings survey (outcome, first.tree) := by
      rw [left, ← again, ← left]
      exact runReverse_eq had' ran'
    rw [left] at ends'
    rw [ends, ends', surveyEnd_exitCode, surveyEnd_exitCode, surveyEnd_tree, surveyEnd_tree,
      surveyEnd_failure, surveyEnd_failure]
    refine ⟨by simp only [alike], surveyEnd_lines root verbose settings survey alike _, rfl, ?_⟩
    intro differ
    obtain ⟨taken, up⟩ := reason differ
    exact ⟨taken, settings, had, up⟩

theorem readCommand_cases {specs : List OptionSpec} {room : Nat} {args : List String}
    {command : Words → Option Command} {asked : Command}
    (read : readCommand specs room args command = some asked) :
    asked = help ∨ ∃ words, command words = some asked := by
  rw [readCommand] at read
  split at read
  · cases read
  · exact .inl (Option.some.inj read).symm
  · exact .inr ⟨_, read⟩

theorem readReverse_cases {args : List String} {command : Command}
    (asked : readReverse args = some command) :
    command = help ∨ ∃ root wishes config verbose, command = reverse root wishes config verbose := by
  refine (readCommand_cases asked).imp id ?_
  rintro ⟨words, same⟩
  obtain ⟨root, -, same⟩ := Option.bind_eq_some_iff.1 same
  exact ⟨root, _, _, _, (Option.some.inj same).symm⟩

end Command

/-- Without links, a command line that asks for a survey and spares what the survey looks at can be
given again: the same is said, with the same exit code, and the tree is not changed any further. The
reason of a failure is the same, too, unless a directory could not be made behind a step upwards. -/
theorem reverse_again [Python.Parser] (tree : FileTree) (args : List String) (plain : tree.LinkFree)
    (spares : ∀ command ∈ Command.ofArguments? ("reverse" :: args),
      command.SparesInputs tree) :
    let first := runArguments tree ("reverse" :: args)
    let second := runArguments first.tree ("reverse" :: args)
    second.exitCode = first.exitCode ∧ second.lines = first.lines ∧ second.tree = first.tree ∧
      (second.failure = first.failure ∨ first.failure = some (.file .alreadyExists) ∧
        ∃ command ∈ Command.ofArguments? ("reverse" :: args), command.OutputLeadsUp tree) := by
  intro first second
  have idle (same : first.tree = tree) : second = first :=
    congrArg (runArguments · ("reverse" :: args)) same
  cases asked : Command.ofArguments? ("reverse" :: args) with
  | none =>
    have same : first.tree = tree := by simp only [first, runArguments, asked]
    rw [idle same]
    exact ⟨rfl, rfl, rfl, .inl rfl⟩
  | some command =>
    have run (tree : FileTree) : runArguments tree ("reverse" :: args) = command.run tree := by
      simp only [runArguments, asked]
    rcases Command.readReverse_cases asked with rfl | ⟨root, wishes, config, verbose, rfl⟩
    · have same : first.tree = tree := congrArg Outcome.tree (run tree)
      rw [idle same]
      exact ⟨rfl, rfl, rfl, .inl rfl⟩
    · obtain ⟨exitCode, lines, tree', failure⟩ := Command.runReverse_again plain (spares _ asked)
      simp only [first, second, run]
      refine ⟨exitCode, lines, tree', or_iff_not_imp_left.2 fun differ => ?_⟩
      obtain ⟨taken, up⟩ := failure differ
      exact ⟨taken, _, rfl, up⟩

/-- A survey that is written to a new directory inside the one that it looks at. -/
theorem reverse_again_nested :
    let tree := FileTree.empty.add ["a.py"] (.file "import b".toUTF8)
    let args := [".", "--output", "d/x.canvas"]
    let first := runArguments tree ("reverse" :: args)
    let second := runArguments first.tree ("reverse" :: args)
    (tree.LinkFree ∧ ∀ command ∈ Command.ofArguments? ("reverse" :: args),
      command.SparesInputs tree) ∧
    first.exitCode = 0 ∧ first.tree ≠ tree ∧
    second.exitCode = first.exitCode ∧ second.lines = first.lines ∧ second.tree = first.tree ∧
      (second.failure = first.failure ∨ first.failure = some (.file .alreadyExists) ∧
        ∃ command ∈ Command.ofArguments? ("reverse" :: args), command.OutputLeadsUp tree) := by
  intro tree args first second
  have plain : tree.LinkFree := by decide
  have spares : ∀ command ∈ Command.ofArguments? ("reverse" :: args), command.SparesInputs tree := by
    decide +kernel
  exact ⟨⟨plain, spares⟩, by decide +kernel, by decide +kernel, reverse_again tree args plain spares⟩

/-- The first run makes the directory `m`, which the step upwards leaves, and so finds a file where it
would make the next one. The second run finds the directories it needs and fails at the file. -/
theorem reverse_again_other_error :
    let tree := FileTree.empty.add ["f"] (.file .empty)
    let args := [".", "--output", "m/../f/d/x.canvas"]
    let first := runArguments tree ("reverse" :: args)
    let second := runArguments first.tree ("reverse" :: args)
    (tree.LinkFree ∧ ∀ command ∈ Command.ofArguments? ("reverse" :: args),
      command.SparesInputs tree) ∧
    first.complaint = some "Error: IO error: File exists (os error 17)" ∧
    second.complaint = some "Error: IO error: Not a directory (os error 20)" := by
  decide +kernel

end SourceAtlas
