import SourceAtlas.Proofs.Scaffold
set_option autoImplicit false

namespace SourceAtlas

theorem Path.up_mem_names (path : String) : ".." ∈ names path ↔ ".." ∈ pieces path := by
  simp [names, List.mem_filter]

/-- Whether a component calls for a file: its path is given, is no placeholder, is relative and has
no step upwards. -/
def Intent.CallsForFile (intent : Intent) : Prop :=
  intent.path ≠ "" ∧ intent.path.toList.head? ≠ some '\x60' ∧
    Path.isAbsolute intent.path = false ∧ ".." ∉ Path.names intent.path

instance (intent : Intent) : Decidable intent.CallsForFile :=
  inferInstanceAs (Decidable (_ ∧ _ ∧ _ ∧ _))

theorem Intent.isWanted_iff (intent : Intent) :
    intent.isWanted = true ↔ intent.CallsForFile := by
  simp [isWanted, isMaterializable, isPlaceholder, Path.staysBelow, CallsForFile,
    Path.up_mem_names, and_assoc]

/-- Whether a path is given but leads to no file below a root: it is a placeholder, or it is absolute
or has a step upwards. -/
def Path.LeadsElsewhere (path : String) : Prop :=
  path ≠ "" ∧ (path.toList.head? = some '\x60' ∨ isAbsolute path = true ∨ ".." ∈ names path)

instance (path : String) : Decidable (Path.LeadsElsewhere path) :=
  inferInstanceAs (Decidable (_ ∧ _))

theorem Intent.leadsElsewhere_iff (intent : Intent) :
    Path.LeadsElsewhere intent.path ↔ ¬ (intent.isWanted = true ∨ intent.path = "") := by
  rw [isWanted_iff, CallsForFile, Path.LeadsElsewhere]
  by_cases given : intent.path = ""
  · simp [given]
  · simp only [given, not_false_eq_true, ne_eq, true_and, or_false, not_and_or, not_not,
      Bool.not_eq_false]

namespace FileTree

theorem passed_skipped_eq (report : SyncReport) (intent : Intent) :
    (passed report intent).skipped =
      report.skipped ++ [intent.path].filter fun path => Path.LeadsElsewhere path := by
  rw [passed]
  split
  · next other =>
    have stays : ¬ Path.LeadsElsewhere intent.path := by
      rw [Intent.leadsElsewhere_iff]
      exact not_not.2 other
    simp [stays]
  · next elsewhere =>
    have leads := (Intent.leadsElsewhere_iff intent).2 elsewhere
    simp [leads]

theorem foldl_passed_skipped (intents : List Intent) (report : SyncReport) :
    (intents.foldl passed report).skipped =
      report.skipped ++ (intents.map Intent.path).filter fun path => Path.LeadsElsewhere path := by
  induction intents generalizing report with
  | nil => simp
  | cons intent intents ih =>
    rw [List.foldl_cons, ih, passed_skipped_eq, List.append_assoc, ← List.filter_append]
    rfl

/-- A run from one tree and report to others keeps what is there, and the second report is without
a change exactly if the first one was and the tree is still the same. -/
def Tells (before : FileTree) (report : SyncReport) (after : FileTree) (made : SyncReport) : Prop :=
  before ≤ after ∧ (made.isUnchanged = true ↔ report.isUnchanged = true ∧ after = before)

theorem Tells.same {tree : FileTree} {report made : SyncReport}
    (equal : made.isUnchanged = report.isUnchanged) : tree.Tells report tree made :=
  ⟨le_rfl tree, by simp [equal]⟩

theorem Tells.trans {a b c : FileTree} {first second third : SyncReport}
    (h₁ : a.Tells first b second) (h₂ : b.Tells second c third) : a.Tells first c third := by
  obtain ⟨le₁, iff₁⟩ := h₁
  obtain ⟨le₂, iff₂⟩ := h₂
  refine ⟨le_trans le₁ le₂, ?_⟩
  rw [iff₂, iff₁]
  constructor
  · rintro ⟨⟨unchanged, rfl⟩, rfl⟩
    exact ⟨unchanged, rfl⟩
  · rintro ⟨unchanged, rfl⟩
    -- A tree between two equal ones is equal to them.
    have middle : b = c := le_antisymm le₂ le₁
    exact ⟨⟨unchanged, middle⟩, middle.symm⟩

theorem Tells.new {before after : FileTree} {report made : SyncReport} {path : String}
    (grown : before ≤ after) (absent : before.pathExists path = false)
    (there : after.pathExists path = true) (named : made.isUnchanged = false) :
    before.Tells report after made := by
  refine ⟨grown, ?_⟩
  have changed : after ≠ before := by
    rintro rfl
    rw [absent] at there
    cases there
  simp [named, changed]

theorem syncParent_tells {tree after : FileTree} {path : String} {report made : SyncReport}
    (done : tree.syncParent path report = (.ok made, after)) : tree.Tells report after made := by
  obtain ⟨grown, housed, -⟩ := syncParent_ok done
  have step := syncParent_step tree path report
  rw [done] at step
  cases step with
  | housed => exact .same rfl
  | made up named absent _ =>
    have there := (housed _ up).resolve_left named
    exact .new grown absent there (by simp [SyncReport.isUnchanged])

theorem syncFile_tells {tree after : FileTree} {path : String} {intent : Intent}
    {report made : SyncReport} (done : tree.syncFile path intent report = (.ok made, after)) :
    tree.Tells report after made := by
  obtain ⟨grown, there, -⟩ := syncFile_ok done
  have step := syncFile_step tree path intent report
  rw [done] at step
  cases step with
  | there => exact .same rfl
  | written absent _ => exact .new grown absent there (by simp [SyncReport.isUnchanged])

theorem syncOne_tells {tree after : FileTree} {root : String} {intent : Intent}
    {report made : SyncReport} (done : tree.syncOne root intent report = (.ok made, after)) :
    tree.Tells report after made := by
  have step := syncOne_step tree root intent report
  rw [done] at step
  cases step with
  | passed => exact .same (passed_isUnchanged report intent)
  | file _ parents file => exact (syncParent_tells parents).trans (syncFile_tells file)

theorem syncEach_tells {tree after : FileTree} {root : String} {intents : List Intent}
    {report made : SyncReport} (done : tree.syncEach root report intents = (.ok made, after)) :
    tree.Tells report after made := by
  induction intents generalizing tree report with
  | nil =>
    obtain ⟨rfl, rfl⟩ : report = made ∧ tree = after := by simpa [syncEach] using done
    exact .same rfl
  | cons intent intents ih =>
    obtain ⟨middle, next, first, rest⟩ := syncEach_cons_ok done
    exact (syncOne_tells first).trans (ih rest)

theorem le_sync (tree : FileTree) (root : String) (intents : List Intent) :
    tree ≤ (tree.sync root intents).2 := by
  cases run : tree.sync root intents with
  | mk outcome after =>
    cases outcome with
    | ok report => exact (syncEach_ok run).1
    | error e => exact (syncEach_error run).1

/-- Whether it succeeds or fails, making what components call for leaves every entry as it is. If it
succeeds, the report is without a change exactly if the tree is the same as before, and the paths it
leaves out are those that lead elsewhere, in their order. -/
theorem sync_keeps_and_tells (tree : FileTree) (root : String) (intents : List Intent) :
    (∀ location entry, tree.entry? location = some entry →
      entry? (tree.sync root intents).2 location = some entry) ∧
    ∀ report, (tree.sync root intents).1 = .ok report →
      (report.isUnchanged = true ↔ (tree.sync root intents).2 = tree) ∧
      report.skipped =
        (intents.map Intent.path).filter fun path => Path.LeadsElsewhere path := by
  refine ⟨(le_sync tree root intents).2, fun report done => ?_⟩
  have run : tree.syncEach root SyncReport.empty intents =
      (.ok report, (tree.sync root intents).2) := Prod.ext done rfl
  have tells := (syncEach_tells run).2
  have skipped := (syncEach_ok run).2.2 SyncReport.empty rfl
  rw [foldl_passed_skipped] at skipped
  refine ⟨?_, by simpa [SyncReport.empty] using skipped.symm⟩
  have start : SyncReport.empty.isUnchanged = true := rfl
  simpa [start] using tells

end FileTree

end SourceAtlas
