import SourceAtlas.Command.Run
import SourceAtlas.Proofs.Diagram.Effect
import SourceAtlas.Proofs.Scaffold.Report
set_option autoImplicit false

namespace SourceAtlas

namespace Command

def surveySettings? (tree : FileTree) (wishes : Wishes) (config : Option String) :
    Option Settings :=
  match settingsOf tree config with
  | .error _ => none
  | .ok settings =>
    match settings.merge wishes with
    | (.error _, _) => none
    | (.ok (), settings) => some settings

def surveyEnd (root : String) (verbose : Bool) (settings : Settings) (survey : Survey) :
    Option Failure × FileTree → Outcome :=
  let said := (if verbose then surveyLines root settings else []) ++ failureLines survey.degraded
  fun
    | (some failure, tree) => .failed said failure tree
    | (none, tree) =>
      .done (said ++ [survey.summary, "Canvas written to: " ++ settings.output]) tree

variable {tree : FileTree} {root : String} {wishes : Wishes} {config : Option String}
  {verbose : Bool} {settings : Settings} {survey : Survey}

theorem runReverse_eq [Python.Parser] (had : surveySettings? tree wishes config = some settings)
    (ran : Survey.run tree settings root = .ok survey) :
    runReverse tree root wishes config verbose =
      surveyEnd root verbose settings survey (survey.diagram.save tree settings.output) := by
  revert had
  rw [surveySettings?, runReverse]
  cases settingsOf tree config with
  | error failure => nofun
  | ok base =>
    dsimp only
    rcases base.merge wishes with ⟨failure | ⟨⟩, merged⟩
    · nofun
    · intro had
      obtain rfl := Option.some.inj had
      simp only [ran]
      rfl

theorem runReverse_cases [Python.Parser] (tree : FileTree) (root : String) (wishes : Wishes)
    (config : Option String) (verbose : Bool) :
    (∃ lines failure, runReverse tree root wishes config verbose = .failed lines failure tree) ∨
      ∃ settings survey, surveySettings? tree wishes config = some settings ∧
        Survey.run tree settings root = .ok survey := by
  rw [runReverse, surveySettings?]
  cases settingsOf tree config with
  | error failure => exact .inl ⟨_, _, rfl⟩
  | ok base =>
    dsimp only
    rcases base.merge wishes with ⟨failure | ⟨⟩, merged⟩
    · exact .inl ⟨_, _, rfl⟩
    · dsimp only
      cases ran : Survey.run tree merged root with
      | error failure => exact .inl ⟨_, failure, rfl⟩
      | ok survey => exact .inr ⟨merged, survey, rfl, ran⟩

theorem surveyEnd_tree (saved : Option Failure × FileTree) :
    (surveyEnd root verbose settings survey saved).tree = saved.2 := by
  obtain ⟨_ | failure, after⟩ := saved <;> rfl

theorem surveyEnd_failure (saved : Option Failure × FileTree) :
    (surveyEnd root verbose settings survey saved).failure = saved.1 := by
  obtain ⟨_ | failure, after⟩ := saved <;> rfl

theorem surveyEnd_exitCode (saved : Option Failure × FileTree) :
    (surveyEnd root verbose settings survey saved).exitCode = if saved.1 = none then 0 else 1 := by
  obtain ⟨_ | failure, after⟩ := saved <;> rfl

/-- What a survey with settings leaves: a diagram that is saved if it succeeds, and otherwise at most
directories on the way to its output. -/
theorem runReverse_effect [Python.Parser] (plain : tree.LinkFree) (root : String) (wishes : Wishes)
    (config : Option String) (verbose : Bool) :
    let outcome := runReverse tree root wishes config verbose
    (outcome.exitCode = 0 ∧ ∃ settings survey, surveySettings? tree wishes config = some settings ∧
        Survey.run tree settings root = .ok survey ∧
        tree.SavedAt outcome.tree settings.output survey.diagram.write.toUTF8) ∨
      outcome.exitCode = 1 ∧ (outcome.tree = tree ∨
        ∃ settings, surveySettings? tree wishes config = some settings ∧
          tree.Grows outcome.tree (tree.Paves settings.output)) := by
  intro outcome
  rcases runReverse_cases tree root wishes config verbose with ⟨lines, failure, ends⟩ |
    ⟨settings, survey, had, ran⟩
  · have same : outcome = .failed lines failure tree := ends
    rw [same]
    exact .inr ⟨rfl, .inl rfl⟩
  · have same : outcome = _ := runReverse_eq had ran
    obtain ⟨written, paved⟩ := Diagram.save_effect plain settings.output survey.diagram
    rw [same, surveyEnd_exitCode, surveyEnd_tree]
    split
    · next done => exact .inl ⟨rfl, settings, survey, had, ran, written done⟩
    · next fails => exact .inr ⟨rfl, .inr ⟨settings, had, paved fails⟩⟩

def OnlyTells : Command → Prop
  | intents _ => True
  | version => True
  | help => True
  | _ => False

theorem run_of_onlyTells [Python.Parser] {command : Command} (tells : command.OnlyTells) :
    (command.run tree).tree = tree := by
  cases command with
  | reverse root wishes config verbose => exact tells.elim
  | sync canvas root config verbose => exact tells.elim
  | intents canvas =>
    change (runIntents tree canvas).tree = tree
    rw [runIntents]
    split <;> rfl
  | version => rfl
  | help => rfl

theorem runSync_cases (tree : FileTree) (canvas root : String) (config : Option String)
    (verbose : Bool) :
    let outcome := runSync tree canvas root config verbose
    (outcome.exitCode = 1 ∧ outcome.tree = tree) ∨
      (∃ settings diagram, settingsOf tree config = .ok settings ∧
        Diagram.load tree canvas = .ok diagram ∧ outcome.tree = (tree.sync root diagram.intents).2) := by
  rw [runSync]
  split
  · exact .inl ⟨rfl, rfl⟩
  next settings found =>
  simp only
  split
  · exact .inl ⟨rfl, rfl⟩
  next diagram loaded =>
  refine .inr ⟨settings, diagram, found, loaded, ?_⟩
  split
  · next stops => rw [stops]; rfl
  · next done => rw [done]; rfl

theorem run_exitCode [Python.Parser] (tree : FileTree) (command : Command) :
    (command.run tree).exitCode < 2 := by
  cases command with
  | reverse root wishes config verbose =>
    change (runReverse tree root wishes config verbose).exitCode < 2
    rcases runReverse_cases tree root wishes config verbose with ⟨lines, failure, ends⟩ |
      ⟨settings, survey, had, ran⟩
    · rw [ends]
      exact Nat.one_lt_two
    · rw [runReverse_eq had ran, surveyEnd_exitCode]
      split <;> decide
  | sync canvas root config verbose =>
    change (runSync tree canvas root config verbose).exitCode < 2
    rw [runSync]
    split
    · exact Nat.one_lt_two
    simp only
    split
    · exact Nat.one_lt_two
    · split
      · exact Nat.one_lt_two
      · exact Nat.two_pos
  | intents canvas =>
    change (runIntents tree canvas).exitCode < 2
    rw [runIntents]
    split
    · exact Nat.one_lt_two
    · exact Nat.two_pos
  | version => exact Nat.two_pos
  | help => exact Nat.two_pos

def LacksInput (tree : FileTree) : Command → Prop
  | sync canvas _ config _ =>
    (∃ failure, settingsOf tree config = .error failure) ∨
      ∃ failure, Diagram.load tree canvas = .error failure
  | _ => False

theorem run_of_lacksInput [Python.Parser] {command : Command} (lacks : command.LacksInput tree) :
    (command.run tree).tree = tree := by
  cases command with
  | sync canvas root config verbose =>
    rcases runSync_cases tree canvas root config verbose with ⟨-, same⟩ |
      ⟨settings, diagram, found, loaded, -⟩
    · exact same
    · rcases lacks with ⟨failure, unset⟩ | ⟨failure, unread⟩
      · rw [found] at unset
        cases unset
      · rw [loaded] at unread
        cases unread
  | reverse root wishes config verbose => exact lacks.elim
  | intents canvas => exact lacks.elim
  | version => exact lacks.elim
  | help => exact lacks.elim

theorem le_run_of_failed [Python.Parser] (plain : tree.LinkFree) (command : Command)
    (failed : (command.run tree).exitCode = 1) : tree ≤ (command.run tree).tree := by
  have kept (same : (command.run tree).tree = tree) : tree ≤ (command.run tree).tree :=
    same.symm ▸ FileTree.le_rfl tree
  cases command with
  | reverse root wishes config verbose =>
    rcases runReverse_effect plain root wishes config verbose with ⟨done, -⟩ |
      ⟨-, same | ⟨settings, -, paved⟩⟩
    · rw [run, done] at failed
      cases failed
    · exact kept same
    · exact paved.le
  | sync canvas root config verbose =>
    rcases runSync_cases tree canvas root config verbose with ⟨-, same⟩ |
      ⟨settings, diagram, -, -, made⟩
    · exact kept same
    · have grown := FileTree.le_sync tree root diagram.intents
      rw [← made] at grown
      exact grown
  | intents canvas => exact kept (run_of_onlyTells trivial)
  | version => exact kept (run_of_onlyTells trivial)
  | help => exact kept (run_of_onlyTells trivial)

end Command

/-- What a run leaves of a tree, depending on the command that it was asked for, if any. -/
structure Framed [Python.Parser] (tree : FileTree) (asked : Option Command) (outcome : Outcome) :
    Prop where
  /-- A command line that asks for nothing. -/
  usage : outcome.exitCode = 2 ↔ asked = none
  /-- It changes nothing, and nor does a command that only tells something or lacks its input. -/
  still : (∀ command, asked = some command → command.OnlyTells ∨ command.LacksInput tree) →
    outcome.tree = tree
  /-- A survey that is written changes its output and nothing else but directories on the way. -/
  written : ∀ root wishes config verbose, asked = some (.reverse root wishes config verbose) →
    outcome.exitCode = 0 → ∃ settings survey,
      Command.surveySettings? tree wishes config = some settings ∧
      Survey.run tree settings root = .ok survey ∧
      tree.SavedAt outcome.tree settings.output survey.diagram.write.toUTF8
  /-- One that fails adds at most directories on the way. -/
  broken : ∀ root wishes config verbose, asked = some (.reverse root wishes config verbose) →
    outcome.exitCode = 1 → outcome.tree = tree ∨ ∃ settings,
      Command.surveySettings? tree wishes config = some settings ∧
      tree.Grows outcome.tree (tree.Paves settings.output)
  /-- After any failure all files are as they were. -/
  failed : outcome.exitCode = 1 → ∀ location contents,
    tree.entry? location = some (.file contents) →
    outcome.tree.entry? location = some (.file contents)

/-- Without links, a command line changes no more than what it is for, and a failure costs no file. -/
theorem runArguments_framed [Python.Parser] (tree : FileTree) (args : List String)
    (plain : tree.LinkFree) :
    Framed tree (Command.ofArguments? args) (runArguments tree args) := by
  rw [runArguments]
  cases Command.ofArguments? args with
  | none => exact ⟨by simp, fun _ => rfl, nofun, nofun, nofun⟩
  | some command =>
    refine ⟨?_, fun idle => ?_, ?_, ?_, fun failed => ?_⟩
    · have code := Command.run_exitCode tree command
      constructor
      · intro wrong
        simp only at wrong
        omega
      · exact nofun
    · rcases idle command rfl with tells | lacks
      · exact Command.run_of_onlyTells tells
      · exact Command.run_of_lacksInput lacks
    · rintro root wishes config verbose ⟨⟩ done
      rcases Command.runReverse_effect plain root wishes config verbose with ⟨-, written⟩ | ⟨failed, -⟩
      · exact written
      · exact absurd (done.symm.trans failed) (by decide)
    · rintro root wishes config verbose ⟨⟩ failed
      rcases Command.runReverse_effect plain root wishes config verbose with ⟨done, -⟩ | ⟨-, broken⟩
      · exact absurd (done.symm.trans failed) (by decide)
      · exact broken
    · exact fun location contents => (Command.le_run_of_failed plain command failed).2 location _

/-- A survey whose output comes to lie in directories that are new. -/
theorem runArguments_framed_nested :
    let tree := FileTree.empty.add ["a.py"] (.file "import a".toUTF8)
    let args := ["reverse", ".", "--output", "m/../d/x.canvas"]
    tree.LinkFree ∧ (runArguments tree args).exitCode = 0 ∧
      FileTree.entry? (runArguments tree args).tree ["m"] = some .directory ∧
      FileTree.entry? (runArguments tree args).tree ["d"] = some .directory ∧
      Framed tree (Command.ofArguments? args) (runArguments tree args) := by
  intro tree args
  have plain : tree.LinkFree := by decide
  exact ⟨plain, by decide +kernel, by decide +kernel, by decide +kernel,
    runArguments_framed tree args plain⟩

end SourceAtlas
