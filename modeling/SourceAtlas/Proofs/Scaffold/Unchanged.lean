import SourceAtlas.Proofs.Files.Descent
import SourceAtlas.Proofs.Scaffold.Report
set_option autoImplicit false

namespace SourceAtlas.FileTree

theorem housed_of_pathExists {tree : FileTree} {path : String}
    (there : tree.pathExists path = true) : tree.Housed path := by
  intro parent up
  by_cases named : parent = ""
  · exact .inl named
  · exact .inr (pathExists_of_isDirectory (isDirectory_parent there up named))

theorem settled_iff (tree : FileTree) (root : String) (intent : Intent) :
    tree.Settled root intent ↔
      (intent.CallsForFile → tree.pathExists (Path.join root intent.path) = true) := by
  rw [Settled, Intent.isWanted_iff]
  constructor
  · exact fun settled wanted => (settled wanted).2
  · exact fun there wanted => ⟨housed_of_pathExists (there wanted), there wanted⟩

theorem sync_unchanged_iff (tree : FileTree) (root : String) (intents : List Intent) :
    (∃ report, tree.sync root intents = (.ok report, tree) ∧ report.isUnchanged = true) ↔
      ∀ intent ∈ intents, intent.CallsForFile →
        tree.pathExists (Path.join root intent.path) = true := by
  constructor
  · rintro ⟨report, done, -⟩ intent listed
    exact (settled_iff tree root intent).1 ((syncEach_ok done).2.1 intent listed)
  · intro there
    have settled : ∀ intent ∈ intents, tree.Settled root intent := fun intent listed =>
      (settled_iff tree root intent).2 (there intent listed)
    have done := syncEach_settled settled [] SyncReport.empty
    rw [List.append_nil] at done
    exact ⟨_, done, foldl_passed_isUnchanged intents _⟩

end SourceAtlas.FileTree
