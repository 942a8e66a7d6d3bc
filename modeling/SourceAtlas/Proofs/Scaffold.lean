import SourceAtlas.Proofs.Files.Content
import SourceAtlas.Proofs.Files.Lineage
import SourceAtlas.Scaffold
set_option autoImplicit false

namespace SourceAtlas

namespace FileTree

theorem writeText_vacant {tree after : FileTree} {path text : String}
    (absent : tree.pathExists path = false) (written : tree.writeText path text = .ok after) :
    ∃ location, tree.locate .write path = .ok (.vacant location) ∧
      after = tree.add location (.file text.toUTF8) := by
  rcases writeBytes_cases written with ⟨location, old, found, -⟩ | vacant
  · have seen : tree.view? path = some (location, .file old) :=
      (view?_eq_some_iff tree path _ _).2
        (locate_seen (le_rfl tree) .write path _ _ found (.file location old (by decide)))
    rw [pathExists, seen] at absent
    cases absent
  · exact vacant

theorem writeText_ok {tree after : FileTree} {path text : String}
    (absent : tree.pathExists path = false) (written : tree.writeText path text = .ok after) :
    tree ≤ after ∧ after.pathExists path = true := by
  obtain ⟨location, seen⟩ := locate_written written
  obtain ⟨new, -, rfl⟩ := writeText_vacant absent written
  refine ⟨le_add tree new _, ?_⟩
  rw [pathExists, (view?_eq_some_iff _ path _ _).2 seen]
  rfl

theorem lineage_of_parent {tree : FileTree} {path parent : String}
    (up : Path.parent? path = some parent) (named : parent ≠ "")
    (absent : tree.pathExists parent = false) :
    ∃ rest, lineage (parent.length + 1) parent = parent :: rest := by
  rcases Path.parent?_tidy up named with rfl | ⟨-, further⟩
  · rw [pathExists_of_isDirectory (isDirectory_root tree)] at absent
    cases absent
  · obtain ⟨next, above⟩ := Option.ne_none_iff_exists'.1 further
    rw [lineage_succ, if_neg named, above]
    exact ⟨_, rfl⟩

def Housed (tree : FileTree) (path : String) : Prop :=
  ∀ parent, Path.parent? path = some parent → parent = "" ∨ tree.pathExists parent = true

theorem syncParent_housed {tree : FileTree} {path : String} (housed : tree.Housed path)
    (report : SyncReport) : tree.syncParent path report = (.ok report, tree) := by
  rw [syncParent]
  split
  · rfl
  · next parent up => rw [if_pos (housed parent up)]

inductive ParentStep (tree : FileTree) (path : String) (report : SyncReport) :
    Except FileError SyncReport × FileTree → Prop
  | housed (housed : tree.Housed path) : ParentStep tree path report (.ok report, tree)
  | stuck {parent : String} {e : FileError} {after : FileTree}
      (up : Path.parent? path = some parent) (named : parent ≠ "")
      (absent : tree.pathExists parent = false)
      (stops : tree.makeDirectories parent = (some e, after)) :
      ParentStep tree path report (.error e, after)
  | made {parent : String} {after : FileTree} (up : Path.parent? path = some parent)
      (named : parent ≠ "") (absent : tree.pathExists parent = false)
      (makes : tree.makeDirectories parent = (none, after)) :
      ParentStep tree path report
        (.ok { report with directories := report.directories ++ [parent] }, after)

theorem syncParent_step (tree : FileTree) (path : String) (report : SyncReport) :
    tree.ParentStep path report (tree.syncParent path report) := by
  rw [syncParent]
  split
  · next up =>
    refine .housed fun parent here => ?_
    rw [up] at here
    cases here
  next parent up =>
  split
  · next there =>
    refine .housed fun other here => ?_
    obtain rfl := Option.some.inj (up.symm.trans here)
    exact there
  next absent =>
  obtain ⟨named, unseen⟩ := not_or.1 absent
  split
  · next e after stops => exact .stuck up named (Bool.not_eq_true _ ▸ unseen) stops
  · next after makes => exact .made up named (Bool.not_eq_true _ ▸ unseen) makes

theorem le_syncParent (tree : FileTree) (path : String) (report : SyncReport) :
    tree ≤ (tree.syncParent path report).2 := by
  have step := syncParent_step tree path report
  generalize tree.syncParent path report = result at step ⊢
  cases step with
  | housed => exact le_rfl tree
  | @stuck parent e after _ _ _ stops =>
    have grown := le_makeDirectories tree parent
    rwa [stops] at grown
  | @made parent after _ _ _ makes =>
    have grown := le_makeDirectories tree parent
    rwa [makes] at grown

theorem syncParent_ok {tree after : FileTree} {path : String} {report made : SyncReport}
    (done : tree.syncParent path report = (.ok made, after)) :
    tree ≤ after ∧ after.Housed path ∧ made.skipped = report.skipped := by
  have grown := le_syncParent tree path report
  have step := syncParent_step tree path report
  rw [done] at grown step
  cases step with
  | housed housed => exact ⟨grown, housed, rfl⟩
  | @made parent _ up named absent makes =>
    obtain ⟨rest, row⟩ := lineage_of_parent up named absent
    rw [makeDirectories, row] at makes
    refine ⟨grown, fun other here => ?_, rfl⟩
    obtain rfl := Option.some.inj (up.symm.trans here)
    exact .inr (pathExists_of_isDirectory (makeLineage_done makes))

theorem syncParent_stuck {tree after : FileTree} {path parent : String} {e : FileError}
    (up : Path.parent? path = some parent) (named : parent ≠ "")
    (absent : tree.pathExists parent = false)
    (stops : tree.makeDirectories parent = (some e, after)) (report : SyncReport) :
    tree.syncParent path report = (.error e, after) := by
  rw [syncParent, up]
  simp only
  rw [if_neg (by simp [named, absent]), stops]

theorem syncParent_report {tree after : FileTree} {path : String} {report : SyncReport}
    {e : FileError} (failed : tree.syncParent path report = (.error e, after))
    (other : SyncReport) : tree.syncParent path other = (.error e, after) := by
  have step := syncParent_step tree path report
  rw [failed] at step
  cases step with
  | stuck up named absent stops => exact syncParent_stuck up named absent stops other

theorem syncParent_again {tree after : FileTree} {path : String} {report : SyncReport}
    {e : FileError} (failed : tree.syncParent path report = (.error e, after)) :
    after = tree ∨ ∃ parent, Path.Below parent path ∧ Fits parent ∧
      after.isDirectory parent = false ∧
      (e = .nameTooLong ∧ (∀ report, after.syncParent path report = (.error e, after)) ∨
        e = .alreadyExists ∧ ".." ∈ Path.names parent ∧
          (after.pathExists parent = true ∧
              (∀ report, after.syncParent path report = (.ok report, after)) ∨
            ∃ e', ∀ report, after.syncParent path report = (.error e', after))) := by
  have step := syncParent_step tree path report
  rw [failed] at step
  cases step with
  | @stuck parent _ _ up named absent stops =>
    obtain ⟨rest, row⟩ := lineage_of_parent up named absent
    have inner : Path.Row (parent :: rest) := row ▸ lineage_row (parent.length + 1) parent
      fun _ => (Path.parent?_tidy up named).imp id And.left
    have visible : ∀ p ∈ parent :: rest, p ≠ "" := row ▸ lineage_visible (parent.length + 1) parent
    have further (e' : FileError) (outside : after.pathExists parent = false)
        (again : after.makeLineage [] (parent :: rest) = (some e', after)) (report : SyncReport) :
        after.syncParent path report = (.error e', after) :=
      syncParent_stuck up named outside (by rw [makeDirectories, row, again]) report
    rw [makeDirectories, row] at stops
    rcases makeLineage_again inner visible stops with same | ⟨fits, other, reason⟩
    · exact .inl same
    refine .inr ⟨parent, Path.parent?_below up named, fits, other, ?_⟩
    rcases reason with ⟨long, outside, again⟩ | ⟨exists', up', e', again⟩
    · exact .inl ⟨long, further e outside again⟩
    · refine .inr ⟨exists', up', ?_⟩
      cases there : after.pathExists parent with
      | false => exact .inr ⟨e', further e' there again⟩
      | true =>
        refine .inl ⟨rfl, fun report => syncParent_housed (fun other here => ?_) report⟩
        obtain rfl := Option.some.inj (up.symm.trans here)
        exact .inr there

inductive FileStep (tree : FileTree) (path : String) (intent : Intent) (report : SyncReport) :
    Except FileError SyncReport × FileTree → Prop
  | there (there : tree.pathExists path = true) : FileStep tree path intent report (.ok report, tree)
  | failed {e : FileError} (absent : tree.pathExists path = false)
      (fails : tree.writeText path intent.skeleton = .error e) :
      FileStep tree path intent report (.error e, tree)
  | written {after : FileTree} (absent : tree.pathExists path = false)
      (writes : tree.writeText path intent.skeleton = .ok after) :
      FileStep tree path intent report (.ok { report with files := report.files ++ [path] }, after)

theorem syncFile_step (tree : FileTree) (path : String) (intent : Intent) (report : SyncReport) :
    tree.FileStep path intent report (tree.syncFile path intent report) := by
  rw [syncFile]
  split
  · next there => exact .there there
  next absent =>
  split
  · next fails => exact .failed (Bool.not_eq_true _ ▸ absent) fails
  · next writes => exact .written (Bool.not_eq_true _ ▸ absent) writes

theorem syncFile_fails {tree : FileTree} {path : String} {intent : Intent} {e : FileError}
    (absent : tree.pathExists path = false) (fails : tree.writeText path intent.skeleton = .error e)
    (report : SyncReport) : tree.syncFile path intent report = (.error e, tree) := by
  rw [syncFile, if_neg (by simp [absent]), fails]

theorem syncFile_ok {tree after : FileTree} {path : String} {intent : Intent}
    {report made : SyncReport} (done : tree.syncFile path intent report = (.ok made, after)) :
    tree ≤ after ∧ after.pathExists path = true ∧ made.skipped = report.skipped := by
  have step := syncFile_step tree path intent report
  rw [done] at step
  cases step with
  | there there => exact ⟨le_rfl tree, there, rfl⟩
  | written absent writes =>
    obtain ⟨grown, there⟩ := writeText_ok absent writes
    exact ⟨grown, there, rfl⟩

theorem syncFile_again {tree after : FileTree} {path : String} {intent : Intent}
    {report : SyncReport} {e : FileError}
    (failed : tree.syncFile path intent report = (.error e, after)) :
    after = tree ∧ ∀ report, tree.syncFile path intent report = (.error e, tree) := by
  have step := syncFile_step tree path intent report
  rw [failed] at step
  cases step with
  | failed absent fails => exact ⟨rfl, syncFile_fails absent fails⟩

theorem syncFile_blocked {tree : FileTree} {parent path : String} (below : Path.Below parent path)
    (fits : Fits parent) (other : tree.isDirectory parent = false) (intent : Intent) :
    ∃ e, ∀ report, tree.syncFile path intent report = (.error e, tree) := by
  obtain ⟨seen, unseen⟩ := locate_fails_below fits other below .view
  obtain ⟨e, fails⟩ := locate_fails_below fits other below .write
  have written : tree.writeText path intent.skeleton = .error e := by
    rw [writeText, writeBytes, fails]
    rfl
  exact ⟨e, syncFile_fails (pathExists_of_locate_error unseen) written⟩

def Settled (tree : FileTree) (root : String) (intent : Intent) : Prop :=
  intent.isWanted = true →
    tree.Housed (Path.join root intent.path) ∧ tree.pathExists (Path.join root intent.path) = true

theorem Settled.mono {before after : FileTree} (grown : before ≤ after) {root : String}
    {intent : Intent} (settled : before.Settled root intent) : after.Settled root intent := by
  intro wanted
  obtain ⟨housed, there⟩ := settled wanted
  exact ⟨fun parent up => (housed parent up).imp id (pathExists_mono grown),
    pathExists_mono grown there⟩

def passed (report : SyncReport) (intent : Intent) : SyncReport :=
  if intent.isWanted ∨ intent.path = "" then report
  else { report with skipped := report.skipped ++ [intent.path] }

theorem passed_isUnchanged (report : SyncReport) (intent : Intent) :
    (passed report intent).isUnchanged = report.isUnchanged := by
  rw [passed]
  split <;> rfl

theorem foldl_passed_isUnchanged (intents : List Intent) (report : SyncReport) :
    (intents.foldl passed report).isUnchanged = report.isUnchanged := by
  induction intents generalizing report with
  | nil => rfl
  | cons intent intents ih =>
    rw [List.foldl_cons, ih]
    exact passed_isUnchanged report intent

theorem passed_skipped {first second : SyncReport} (same : first.skipped = second.skipped)
    (intent : Intent) : (passed first intent).skipped = (passed second intent).skipped := by
  rw [passed, passed]
  split
  · exact same
  · simp [same]

theorem syncOne_of_parent_error {tree middle : FileTree} {root : String} {intent : Intent}
    {report : SyncReport} {e : FileError} (wanted : intent.isWanted = true)
    (parents : tree.syncParent (Path.join root intent.path) report = (.error e, middle)) :
    tree.syncOne root intent report = (.error e, middle) := by
  rw [syncOne, if_pos wanted]
  simp only [parents]

theorem syncOne_of_parent_ok {tree middle : FileTree} {root : String} {intent : Intent}
    {report made : SyncReport} (wanted : intent.isWanted = true)
    (parents : tree.syncParent (Path.join root intent.path) report = (.ok made, middle)) :
    tree.syncOne root intent report = middle.syncFile (Path.join root intent.path) intent made := by
  rw [syncOne, if_pos wanted]
  simp only [parents]

theorem syncOne_unwanted (tree : FileTree) (root : String) {intent : Intent}
    (other : ¬ intent.isWanted = true) (report : SyncReport) :
    tree.syncOne root intent report = (.ok (passed report intent), tree) := by
  rw [syncOne, if_neg other, passed]
  by_cases blank : intent.path = ""
  · rw [if_pos blank, if_pos (.inr blank)]
  · rw [if_neg blank, if_neg (not_or.2 ⟨other, blank⟩)]

inductive OneStep (tree : FileTree) (root : String) (intent : Intent) (report : SyncReport) :
    Except FileError SyncReport × FileTree → Prop
  | passed (other : ¬ intent.isWanted = true) :
      OneStep tree root intent report (.ok (passed report intent), tree)
  | stuck {e : FileError} {after : FileTree} (wanted : intent.isWanted = true)
      (parents : tree.syncParent (Path.join root intent.path) report = (.error e, after)) :
      OneStep tree root intent report (.error e, after)
  | file {middle : SyncReport} {next : FileTree} {result : Except FileError SyncReport × FileTree}
      (wanted : intent.isWanted = true)
      (parents : tree.syncParent (Path.join root intent.path) report = (.ok middle, next))
      (file : next.syncFile (Path.join root intent.path) intent middle = result) :
      OneStep tree root intent report result

theorem syncOne_step (tree : FileTree) (root : String) (intent : Intent) (report : SyncReport) :
    tree.OneStep root intent report (tree.syncOne root intent report) := by
  by_cases wanted : intent.isWanted = true
  swap
  · rw [syncOne_unwanted tree root wanted]
    exact .passed wanted
  cases parents : tree.syncParent (Path.join root intent.path) report with
  | mk outcome next =>
    cases outcome with
    | error e =>
      rw [syncOne_of_parent_error wanted parents]
      exact .stuck wanted parents
    | ok middle =>
      rw [syncOne_of_parent_ok wanted parents]
      exact .file wanted parents rfl

theorem syncOne_settled {tree : FileTree} {root : String} {intent : Intent}
    (settled : tree.Settled root intent) (report : SyncReport) :
    tree.syncOne root intent report = (.ok (passed report intent), tree) := by
  by_cases wanted : intent.isWanted = true
  · obtain ⟨housed, there⟩ := settled wanted
    rw [syncOne_of_parent_ok wanted (syncParent_housed housed report), syncFile, if_pos there,
      passed, if_pos (.inl wanted)]
  · exact syncOne_unwanted tree root wanted report

theorem syncOne_ok {tree after : FileTree} {root : String} {intent : Intent}
    {report made : SyncReport} (done : tree.syncOne root intent report = (.ok made, after)) :
    tree ≤ after ∧ after.Settled root intent ∧
      made.skipped = (passed report intent).skipped := by
  have step := syncOne_step tree root intent report
  rw [done] at step
  cases step with
  | passed other => exact ⟨le_rfl tree, fun never => absurd never other, rfl⟩
  | file wanted parents file =>
    obtain ⟨grown, housed, skipped⟩ := syncParent_ok parents
    obtain ⟨grown', there, skipped'⟩ := syncFile_ok file
    refine ⟨le_trans grown grown', fun _ => ⟨fun parent up => ?_, there⟩, ?_⟩
    · exact (housed parent up).imp id (pathExists_mono grown')
    · rw [skipped', skipped, passed, if_pos (.inl wanted)]

/-- A component that cannot be made cannot be made either on the tree that this leaves. The error is
the same, unless a directory could not be made behind a step upwards of the root. -/
theorem syncOne_again {tree after : FileTree} {root : String} {intent : Intent}
    {report : SyncReport} {e : FileError}
    (failed : tree.syncOne root intent report = (.error e, after)) :
    tree ≤ after ∧ ∃ e', (∀ report, after.syncOne root intent report = (.error e', after)) ∧
      (e' ≠ e → e = .alreadyExists ∧ (Path.pieces root).contains ".." = true) := by
  have step := syncOne_step tree root intent report
  rw [failed] at step
  cases step with
  | @file middle next _ wanted parents file =>
    obtain ⟨rfl, again⟩ := syncFile_again file
    obtain ⟨grown, housed, -⟩ := syncParent_ok parents
    refine ⟨grown, e, fun report => ?_, fun never => absurd rfl never⟩
    rw [syncOne_of_parent_ok wanted (syncParent_housed housed report)]
    exact again report
  | stuck wanted parents =>
    have grown := le_syncParent tree (Path.join root intent.path) report
    rw [parents] at grown
    refine ⟨grown, ?_⟩
    rcases syncParent_again parents with rfl | ⟨parent, below, fits, other, reason⟩
    · exact ⟨e, fun report => syncOne_of_parent_error wanted (syncParent_report parents report),
        fun never => absurd rfl never⟩
    rcases reason with ⟨-, again⟩ | ⟨exists', up, again⟩
    · exact ⟨e, fun report => syncOne_of_parent_error wanted (again report),
        fun never => absurd rfl never⟩
    have outside : (Path.pieces root).contains ".." = true := by
      obtain ⟨-, rest, -, same⟩ := below
      exact Path.up_mem_join ((Bool.and_eq_true _ _).mp wanted).2 (by simp [same, up])
    rcases again with ⟨-, housed⟩ | ⟨e', again⟩
    · obtain ⟨e', blocked⟩ := syncFile_blocked below fits other intent
      refine ⟨e', fun report => ?_, fun _ => ⟨exists', outside⟩⟩
      rw [syncOne_of_parent_ok wanted (housed report)]
      exact blocked report
    · exact ⟨e', fun report => syncOne_of_parent_error wanted (again report),
        fun _ => ⟨exists', outside⟩⟩

theorem syncEach_settled {tree : FileTree} {root : String} {intents : List Intent}
    (settled : ∀ intent ∈ intents, tree.Settled root intent) (rest : List Intent)
    (report : SyncReport) :
    tree.syncEach root report (intents ++ rest) =
      tree.syncEach root (intents.foldl passed report) rest := by
  induction intents generalizing report with
  | nil => rfl
  | cons intent intents ih =>
    have first := syncOne_settled (settled intent (List.mem_cons_self ..)) report
    rw [List.cons_append, syncEach, first]
    exact ih (fun other mem => settled other (List.mem_cons_of_mem _ mem)) _

theorem syncEach_cons_ok {tree after : FileTree} {root : String} {intent : Intent}
    {intents : List Intent} {report made : SyncReport}
    (done : tree.syncEach root report (intent :: intents) = (.ok made, after)) :
    ∃ middle next, tree.syncOne root intent report = (.ok middle, next) ∧
      next.syncEach root middle intents = (.ok made, after) := by
  rw [syncEach] at done
  split at done
  · cases done
  · next middle next first => exact ⟨middle, next, first, done⟩

theorem syncEach_ok {tree after : FileTree} {root : String} {intents : List Intent}
    {report made : SyncReport} (done : tree.syncEach root report intents = (.ok made, after)) :
    tree ≤ after ∧ (∀ intent ∈ intents, after.Settled root intent) ∧
      ∀ start : SyncReport, start.skipped = report.skipped →
        (intents.foldl passed start).skipped = made.skipped := by
  induction intents generalizing tree report with
  | nil =>
    obtain ⟨rfl, rfl⟩ : report = made ∧ tree = after := by simpa [syncEach] using done
    exact ⟨le_rfl tree, by simp, fun start same => same⟩
  | cons intent intents ih =>
    obtain ⟨middle, next, first, rest⟩ := syncEach_cons_ok done
    obtain ⟨grown, settled, skipped⟩ := syncOne_ok first
    obtain ⟨grown', others, later⟩ := ih rest
    refine ⟨le_trans grown grown', ?_, fun start same => ?_⟩
    · intro other mem
      rcases List.mem_cons.1 mem with rfl | mem
      · exact settled.mono grown'
      · exact others other mem
    · exact later _ ((passed_skipped same intent).trans skipped.symm)

theorem syncEach_error {tree after : FileTree} {root : String} {intents : List Intent}
    {report : SyncReport} {e : FileError}
    (failed : tree.syncEach root report intents = (.error e, after)) :
    tree ≤ after ∧ ∃ e', (∀ report, after.syncEach root report intents = (.error e', after)) ∧
      (e' ≠ e → e = .alreadyExists ∧ (Path.pieces root).contains ".." = true) := by
  induction intents generalizing tree report with
  | nil => cases failed
  | cons intent intents ih =>
    rw [syncEach] at failed
    split at failed
    · next e₀ next first =>
      obtain ⟨rfl, rfl⟩ : e₀ = e ∧ next = after := by simpa using failed
      obtain ⟨grown, e', again, change⟩ := syncOne_again first
      refine ⟨grown, e', fun report => ?_, change⟩
      rw [syncEach, again]
    · next middle next first =>
      obtain ⟨grown, settled, -⟩ := syncOne_ok first
      obtain ⟨grown', e', again, change⟩ := ih failed
      refine ⟨le_trans grown grown', e', fun report => ?_, change⟩
      rw [syncEach, syncOne_settled (settled.mono grown')]
      exact again _

/-- Making what components call for a second time makes nothing if it went well and leaves out the
same paths. If it failed it fails again and changes nothing, with the same error unless the root has
a step upwards and a directory could not be made because something else is there. -/
theorem sync_again (tree : FileTree) (root : String) (intents : List Intent) :
    match tree.sync root intents with
    | (.ok report, after) => ∃ again, after.sync root intents = (.ok again, after) ∧
        again.isUnchanged = true ∧ again.skipped = report.skipped
    | (.error e, after) => ∃ e', after.sync root intents = (.error e', after) ∧
        (e' ≠ e → e = .alreadyExists ∧ (Path.pieces root).contains ".." = true) := by
  split
  · next report after done =>
    obtain ⟨-, settled, skipped⟩ := syncEach_ok done
    have again := syncEach_settled settled [] SyncReport.empty
    rw [List.append_nil] at again
    exact ⟨_, again, foldl_passed_isUnchanged intents _, skipped _ rfl⟩
  · next e after failed =>
    obtain ⟨-, e', again, change⟩ := syncEach_error failed
    exact ⟨e', again _, change⟩

/-- The error of a second time can be another one: the directory `m` is made on the way to `m/../f`,
which is a file, and then a file is looked for behind that file. -/
theorem sync_again_other_error :
    let tree := empty.add ["f"] (.file .empty)
    let intents : List Intent := [⟨"Z", "z.py", "r", none⟩]
    let first := tree.sync "m/../f" intents
    first = (.error .alreadyExists, tree.add ["m"] .directory) ∧
      first.2.sync "m/../f" intents = (.error .notDirectory, first.2) := by
  decide +kernel

end FileTree

end SourceAtlas
