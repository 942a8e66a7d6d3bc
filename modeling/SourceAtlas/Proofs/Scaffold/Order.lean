import SourceAtlas.Proofs.Files.Within
import SourceAtlas.Proofs.Scaffold.Reach
import SourceAtlas.Proofs.Scaffold.Unchanged
set_option autoImplicit false

/-!
# Components in another order

Components whose files lie apart can be made in any order. What one order makes in the end is an
upper bound for all others: whatever has been made so far, each component that is left finds there
what it needs or can make it.
-/

namespace SourceAtlas

/-- Two components of which neither has the file of the other one, or a directory on the way there, as
its own file. -/
def Intent.Apart (first second : Intent) : Prop :=
  ¬ FileTree.steps first.path <+: FileTree.steps second.path ∧
    ¬ FileTree.steps second.path <+: FileTree.steps first.path

instance (first second : Intent) : Decidable (first.Apart second) :=
  inferInstanceAs (Decidable (_ ∧ _))

instance : Std.Symm Intent.Apart :=
  ⟨fun _ _ apart => ⟨apart.2, apart.1⟩⟩

namespace FileTree

variable {tree before whole : FileTree} {root : String} {intent : Intent}

theorem placeOf_prefix_iff {first second : Intent} (calls : first.CallsForFile)
    (calls' : second.CallsForFile) :
    tree.placeOf root first <+: tree.placeOf root second ↔
      steps first.path <+: steps second.path := by
  rw [placeOf_eq tree root calls, placeOf_eq tree root calls', List.prefix_append_right_inj]

structure Finished (before whole : FileTree) (root : String) (intent : Intent) : Prop where
  there : whole.pathExists (Path.join root intent.path) = true
  new : before.entry? (before.placeOf root intent) = none →
    whole.entry? (before.placeOf root intent) = some (.file intent.skeleton.toUTF8)

theorem syncParent_within (grown : before ≤ whole) (plain : whole.LinkFree) {path : String}
    (level : ".." ∉ Path.names path) (there : whole.pathExists path = true) (report : SyncReport) :
    ∃ made after, before.syncParent path report = (.ok made, after) ∧ after ≤ whole ∧
      made.files = report.files := by
  have within {parent : String} (up : Path.parent? path = some parent) (named : parent ≠ "") :=
    makeDirectories_within grown plain ((Path.parent?_tidy up named).imp id And.left)
      (level_below (Path.parent?_below up named) level) (isDirectory_parent there up named)
  have step := syncParent_step before path report
  generalize before.syncParent path report = result at step ⊢
  cases step with
  | housed => exact ⟨report, before, rfl, grown, rfl⟩
  | stuck up named _ stops =>
    obtain ⟨after, made, -⟩ := within up named
    rw [stops] at made
    cases made
  | made up named _ makes =>
    obtain ⟨after, made, le⟩ := within up named
    obtain ⟨-, rfl⟩ := Prod.mk.inj (makes.symm.trans made)
    exact ⟨_, _, rfl, le, rfl⟩

theorem entry?_housed (grown : before ≤ whole) (plain : whole.LinkFree) {path : String}
    (level : ".." ∉ Path.names path) (there : whole.pathExists path = true)
    (further : steps path ≠ []) (housed : before.Housed path) :
    before.entry? (before.goal path).dropLast = some .directory := by
  cases up : Path.parent? path with
  | none => exact absurd (steps_of_no_parent up) further
  | some parent =>
    rw [← goal_dropLast up further before]
    rcases housed parent up with rfl | exists'
    · have blank : steps "" = [] := by decide
      rw [goal, blank, List.append_nil]
      exact entry?_origin before ""
    · by_cases named : parent = ""
      · subst named
        simp [pathExists, view?, locate] at exists'
      obtain ⟨goal, seen⟩ := (isDirectory_iff whole parent).1 (isDirectory_parent there up named)
      have level' := level_below (Path.parent?_below up named) level
      have here : goal = before.goal parent :=
        (locate_ahead plain level' ((view?_eq_some_iff whole _ _ _).1 seen)).1.trans
          (goal_of_le grown parent)
      subst here
      rw [pathExists, view?_within grown plain level' seen, Option.isSome_map] at exists'
      obtain ⟨entry, held⟩ := Option.isSome_iff_exists.1 exists'
      rw [held, ← grown.2 _ _ held]
      exact locate_sound whole .view parent _ ((view?_eq_some_iff whole _ _ _).1 seen)

/-- If a component is done in a larger tree, it can be done, and this does not lead beyond that tree. -/
theorem syncOne_within (grown : before ≤ whole) (plain : whole.LinkFree)
    (level : ".." ∉ Path.names root) (calls : intent.CallsForFile)
    (finished : before.Finished whole root intent) (report : SyncReport) :
    ∃ made after, before.syncOne root intent report = (.ok made, after) ∧ after ≤ whole ∧
      made.files = report.files ++
        if before.entry? (before.placeOf root intent) = none then [Path.join root intent.path]
        else [] := by
  have wanted := (Intent.isWanted_iff intent).2 calls
  have whole' := level_join level calls
  obtain ⟨⟨goal, entry⟩, seen⟩ := Option.isSome_iff_exists.1 finished.there
  have here : goal = before.placeOf root intent := by
    have led := (locate_ahead plain whole' ((view?_eq_some_iff whole _ _ _).1 seen)).1
    exact led.trans (placeOf_of_le grown root intent)
  subst here
  have viewed := view?_within grown plain whole' seen
  cases held : before.entry? (before.placeOf root intent) with
  | some other =>
    have there : before.pathExists (Path.join root intent.path) = true := by
      rw [pathExists, viewed, held]
      rfl
    have settled := (settled_iff before root intent).2 fun _ => there
    exact ⟨_, before, syncOne_settled settled report, grown, by simp [passed, wanted]⟩
  | none =>
    have further : steps (Path.join root intent.path) ≠ [] := by
      intro nameless
      rw [placeOf, goal, nameless, List.append_nil, entry?_origin] at held
      cases held
    obtain ⟨made, middle, parents, le, files⟩ :=
      syncParent_within grown plain whole' finished.there report
    obtain ⟨grown', housed, -⟩ := syncParent_ok parents
    have inside := entry?_housed le plain whole' finished.there further housed
    rw [goal_of_le grown'] at inside
    -- Directories that are made on the way are above the place of the file.
    have absent : middle.entry? (before.placeOf root intent) = none := by
      have grows := syncParent_grows (plain.of_le grown) whole' report
      rw [parents] at grows
      by_contra there
      obtain ⟨entry, there⟩ := Option.ne_none_iff_exists'.1 there
      obtain ⟨-, -, short⟩ := grows.new _ _ there held
      exact short.ne rfl
    have stands : whole.entry? (before.placeOf root intent) = some entry :=
      locate_sound whole .view _ _ ((view?_eq_some_iff whole _ _ _).1 seen)
    obtain rfl := Option.some.inj (stands.symm.trans (finished.new held))
    have unseen : ¬ middle.pathExists (Path.join root intent.path) = true := by
      rw [pathExists, view?_within le plain whole' seen, absent]
      simp
    obtain ⟨after, written, le'⟩ := writeText_within le plain whole' seen absent inside
    have new : middle.syncFile (Path.join root intent.path) intent made =
        (.ok { made with files := made.files ++ [Path.join root intent.path] }, after) := by
      rw [syncFile, if_neg unseen, written]
    exact ⟨_, after, (syncOne_of_parent_ok wanted parents).trans new, le', by simp [files]⟩

theorem OnTheWay.isPrefix {path : String} {location : Location} {entry : Entry}
    (new : before.OnTheWay path intent location entry) : location <+: before.goal path := by
  cases new with
  | directory above short => exact above
  | file named => exact List.prefix_rfl

theorem entry?_apart (plain : before.LinkFree) (level : ".." ∉ Path.names root) {other : Intent}
    (apart : intent.Apart other) (calls : other.CallsForFile) (report : SyncReport) :
    entry? (before.syncOne root intent report).2 (before.placeOf root other) =
      before.entry? (before.placeOf root other) := by
  have grows := syncOne_grows plain level intent report
  cases held : before.entry? (before.placeOf root other) with
  | some entry => exact grows.le.2 _ _ held
  | none =>
    by_contra found
    obtain ⟨entry, found⟩ := Option.ne_none_iff_exists'.1 found
    obtain ⟨calls', new⟩ := grows.new _ _ found held
    exact apart.2 ((placeOf_prefix_iff calls calls').1 new.isPrefix)

/-- Components that lie apart and are done in a larger tree can be done one after the other. -/
theorem syncEach_within (grown : before ≤ whole) (plain : whole.LinkFree)
    (level : ".." ∉ Path.names root) {intents : List Intent} (apart : intents.Pairwise Intent.Apart)
    (calls : ∀ intent ∈ intents, intent.CallsForFile)
    (finished : ∀ intent ∈ intents, before.Finished whole root intent) (report : SyncReport) :
    ∃ made after, before.syncEach root report intents = (.ok made, after) ∧ after ≤ whole ∧
      made.files = report.files ++
        (intents.filter fun intent => before.entry? (before.placeOf root intent) = none).map
          fun intent => Path.join root intent.path := by
  induction intents generalizing before report with
  | nil => exact ⟨report, before, rfl, grown, (List.append_nil _).symm⟩
  | cons intent intents ih =>
    obtain ⟨others, apart⟩ := List.pairwise_cons.1 apart
    obtain ⟨own, calls⟩ := List.forall_mem_cons.1 calls
    obtain ⟨one, finished⟩ := List.forall_mem_cons.1 finished
    obtain ⟨made, next, done, le, files⟩ := syncOne_within grown plain level own one report
    have same (other : Intent) (mem : other ∈ intents) :
        next.entry? (next.placeOf root other) = before.entry? (before.placeOf root other) := by
      have kept := entry?_apart (plain.of_le grown) level (others other mem) (calls other mem) report
      rw [done] at kept
      rw [placeOf_of_le (syncOne_ok done).1, kept]
    have later (other : Intent) (mem : other ∈ intents) : next.Finished whole root other := by
      obtain ⟨there, new⟩ := finished other mem
      refine ⟨there, fun absent => ?_⟩
      rw [placeOf_of_le (syncOne_ok done).1]
      exact new ((same other mem).symm.trans absent)
    obtain ⟨made', after, rest, le', files'⟩ := ih le apart calls later made
    refine ⟨made', after, ?_, le', ?_⟩
    · rw [syncEach, done]
      exact rest
    · have kept := List.filter_congr fun other mem => congrArg (fun e => decide (e = none))
        (same other mem)
      rw [files', files, kept, List.append_assoc, List.filter_cons]
      split <;> simp_all

variable {intents : List Intent}

theorem eq_of_placeOf_prefix (apart : intents.Pairwise Intent.Apart)
    (calls : ∀ intent ∈ intents, intent.CallsForFile) {first second : Intent}
    (mem : first ∈ intents) (mem' : second ∈ intents)
    (above : before.placeOf root first <+: before.placeOf root second) : first = second := by
  by_contra differ
  exact (apart.forall mem mem' differ).1
    ((placeOf_prefix_iff (calls _ mem) (calls _ mem')).1 above)

theorem finished_of_syncEach (plain : before.LinkFree) (level : ".." ∉ Path.names root)
    (apart : intents.Pairwise Intent.Apart) (calls : ∀ intent ∈ intents, intent.CallsForFile)
    {report made : SyncReport} (done : before.syncEach root report intents = (.ok made, whole)) :
    whole.LinkFree ∧ ∀ intent ∈ intents, before.Finished whole root intent := by
  have grows := syncEach_grows plain level intents report
  rw [done] at grows
  refine ⟨grows.linkFree, fun intent mem => ?_⟩
  have there := ((syncEach_ok done).2.1 intent mem ((Intent.isWanted_iff intent).2 (calls _ mem))).2
  refine ⟨there, fun absent => ?_⟩
  obtain ⟨entry, found⟩ := taken_of_pathExists grows.linkFree (level_join level (calls _ mem)) there
  rw [goal_of_le grows.le] at found
  rw [placeOf, found]
  -- What is new in the place of the file is called for by this component alone.
  have called := grows.new _ _ found absent
  generalize place : before.goal (Path.join root intent.path) = location at called
  cases called with
  | directory mem' calls' above short =>
    subst place
    obtain rfl := eq_of_placeOf_prefix apart calls mem mem' above
    exact absurd rfl short.ne
  | @file earlier later other order calls' named first =>
    have mem' : other ∈ intents := by simp [order]
    have above : before.placeOf root intent <+: before.placeOf root other := place ▸ List.prefix_rfl
    obtain rfl := eq_of_placeOf_prefix apart calls mem mem' above
    rfl

/-- In a tree without links and below a root without steps upwards, components whose files lie apart
can be made in any order: what can be done in one can be done in the other, with the same tree in the
end and the same new files. -/
theorem sync_perm (tree : FileTree) (root : String) (intents others : List Intent)
    (plain : tree.LinkFree) (level : ".." ∉ Path.names root)
    (calls : ∀ intent ∈ intents, intent.CallsForFile) (apart : intents.Pairwise Intent.Apart)
    (order : others.Perm intents) (report : SyncReport)
    (done : (tree.sync root intents).1 = .ok report) :
    ∃ again, tree.sync root others = (.ok again, (tree.sync root intents).2) ∧
      again.files.Perm report.files := by
  have apart' : others.Pairwise Intent.Apart :=
    (order.pairwise_iff fun apart => symm apart).2 apart
  have calls' : ∀ intent ∈ others, intent.CallsForFile := fun intent mem =>
    calls intent (order.mem_iff.1 mem)
  generalize run : tree.sync root intents = result at done
  obtain ⟨outcome, whole⟩ := result
  obtain rfl : outcome = .ok report := done
  obtain ⟨plain', finished⟩ := finished_of_syncEach plain level apart calls run
  obtain ⟨again, whole', run', le, files'⟩ :=
    syncEach_within (syncEach_ok run).1 plain' level apart' calls'
      (fun intent mem => finished intent (order.mem_iff.1 mem)) SyncReport.empty
  -- The first order is within what the second one makes, just as the other way round.
  obtain ⟨plain'', finished'⟩ := finished_of_syncEach plain level apart' calls' run'
  obtain ⟨made, whole'', run'', le', files⟩ :=
    syncEach_within (syncEach_ok run').1 plain'' level apart calls
      (fun intent mem => finished' intent (order.mem_iff.2 mem)) SyncReport.empty
  obtain ⟨same, rfl⟩ := Prod.mk.inj (run.symm.trans run'')
  obtain rfl := Except.ok.inj same
  obtain rfl := le_antisymm le le'
  refine ⟨again, run', ?_⟩
  rw [files, files']
  exact ((order.filter _).map _).append_left _

/-- Two components share a missing directory; the other order names it for the other one. -/
theorem sync_perm_shared_directory :
    let tree := empty.add ["keep"] (.file .empty)
    let first : Intent := ⟨"A", "p/q/a.py", "a", none⟩
    let second : Intent := ⟨"B", "p/b.py", "b", none⟩
    tree.LinkFree ∧ ".." ∉ Path.names "r" ∧
      (∀ intent ∈ [first, second], intent.CallsForFile) ∧
      [first, second].Pairwise Intent.Apart ∧ [second, first].Perm [first, second] ∧
      (tree.sync "r" [first, second]).1 =
        .ok ⟨["r/p/q"], ["r/p/q/a.py", "r/p/b.py"], []⟩ ∧
      ∃ again, tree.sync "r" [second, first] = (.ok again, (tree.sync "r" [first, second]).2) ∧
        again.files.Perm ["r/p/q/a.py", "r/p/b.py"] := by
  intro tree first second
  have plain : tree.LinkFree := by decide
  have level : ".." ∉ Path.names "r" := by decide
  have calls : ∀ intent ∈ [first, second], intent.CallsForFile := by decide
  have apart : [first, second].Pairwise Intent.Apart := by decide
  have order : [second, first].Perm [first, second] := by decide
  have done : (tree.sync "r" [first, second]).1 =
      .ok ⟨["r/p/q"], ["r/p/q/a.py", "r/p/b.py"], []⟩ := by decide +kernel
  exact ⟨plain, level, calls, apart, order, done,
    sync_perm tree "r" [first, second] [second, first] plain level calls apart order _ done⟩

end FileTree

end SourceAtlas
