import SourceAtlas.Proofs.Files.Direct
import SourceAtlas.Proofs.Scaffold.Report
set_option autoImplicit false

namespace SourceAtlas.FileTree

inductive OnTheWay (tree : FileTree) (path : String) (intent : Intent) : Location → Entry → Prop
  | directory {location : Location} (above : location <+: tree.goal path)
    (short : location.length < (tree.goal path).length) :
    OnTheWay tree path intent location .directory
  | file (named : ∃ init last, Path.names path = init ++ [last] ∧ last ≠ ".") :
    OnTheWay tree path intent (tree.goal path) (.file intent.skeleton.toUTF8)

theorem OnTheWay.of_le {before after : FileTree} (grown : before ≤ after) {path : String}
    {intent : Intent} {location : Location} {entry : Entry}
    (new : after.OnTheWay path intent location entry) :
    before.OnTheWay path intent location entry := by
  have same := goal_of_le grown path
  cases new with
  | directory above short =>
    rw [same] at above short
    exact .directory above short
  | file named =>
    rw [same]
    exact .file named

theorem syncParent_grows {tree : FileTree} (plain : tree.LinkFree) {path : String}
    (level : ".." ∉ Path.names path) (report : SyncReport) :
    tree.Grows (tree.syncParent path report).2 fun location entry => entry = .directory ∧
      location <+: tree.goal path ∧ location.length < (tree.goal path).length := by
  have below {parent : String} (up : Path.parent? path = some parent) (named : parent ≠ "") :
      tree.Grows (tree.makeDirectories parent).2 fun location entry => entry = .directory ∧
        location <+: tree.goal path ∧ location.length < (tree.goal path).length := by
    obtain ⟨above, short⟩ := goal_parent up named tree
    have inner := level_below (Path.parent?_below up named) level
    exact (makeDirectories_grows plain inner).mono fun location entry new => And.intro new.1
      (And.intro (new.2.trans above) (new.2.length_le.trans_lt short))
  have step := syncParent_step tree path report
  generalize tree.syncParent path report = result at step ⊢
  cases step with
  | housed => exact .refl plain _
  | stuck up named _ stops =>
    have grows := below up named
    rwa [stops] at grows
  | made up named _ makes =>
    have grows := below up named
    rwa [makes] at grows

theorem syncFile_grows {tree : FileTree} (plain : tree.LinkFree) {path : String}
    (level : ".." ∉ Path.names path) (intent : Intent) (report : SyncReport) :
    tree.Grows (tree.syncFile path intent report).2 (tree.OnTheWay path intent) := by
  have step := syncFile_step tree path intent report
  generalize tree.syncFile path intent report = result at step ⊢
  cases step with
  | there | failed => exact .refl plain _
  | written absent writes =>
    obtain ⟨location, found, rfl⟩ := writeText_vacant absent writes
    obtain ⟨here, named⟩ := locate_ahead plain level found
    refine (grows_add plain location rfl).mono ?_
    rintro l e ⟨rfl, rfl⟩
    have goal : l = tree.goal path := here
    rw [goal]
    exact .file (named l rfl)

theorem taken_of_pathExists {tree : FileTree} (plain : tree.LinkFree) {path : String}
    (level : ".." ∉ Path.names path) (there : tree.pathExists path = true) :
    ∃ entry, tree.entry? (tree.goal path) = some entry := by
  obtain ⟨⟨location, entry⟩, seen⟩ := Option.isSome_iff_exists.1 there
  have found := (view?_eq_some_iff tree path location entry).1 seen
  have here : location = tree.goal path := (locate_ahead plain level found).1
  have stands : tree.entry? location = some entry := locate_sound tree .view path _ found
  exact ⟨entry, here ▸ stands⟩

def placeOf (tree : FileTree) (root : String) (intent : Intent) : Location :=
  tree.goal (Path.join root intent.path)

theorem placeOf_eq (tree : FileTree) (root : String) {intent : Intent}
    (calls : intent.CallsForFile) :
    tree.placeOf root intent = tree.goal root ++ steps intent.path := by
  obtain ⟨-, -, relative, -⟩ := calls
  exact goal_join relative tree root

theorem placeOf_of_le {before after : FileTree} (grown : before ≤ after) (root : String)
    (intent : Intent) : after.placeOf root intent = before.placeOf root intent :=
  goal_of_le grown _

theorem level_join {root : String} (level : ".." ∉ Path.names root) {intent : Intent}
    (calls : intent.CallsForFile) : ".." ∉ Path.names (Path.join root intent.path) := by
  obtain ⟨-, -, relative, inner⟩ := calls
  rw [Path.names_join relative, List.mem_append]
  exact not_or.2 ⟨level, inner⟩

theorem syncOne_grows {tree : FileTree} (plain : tree.LinkFree) {root : String}
    (level : ".." ∉ Path.names root) (intent : Intent) (report : SyncReport) :
    tree.Grows (tree.syncOne root intent report).2 fun location entry =>
      intent.CallsForFile ∧ tree.OnTheWay (Path.join root intent.path) intent location entry := by
  by_cases wanted : intent.isWanted = true
  swap
  · rw [syncOne_unwanted tree root wanted]
    exact .refl plain _
  have calls := (Intent.isWanted_iff intent).1 wanted
  have whole := level_join level calls
  refine Grows.mono ?_ fun location entry new => ⟨calls, new⟩
  have first : tree.Grows (tree.syncParent (Path.join root intent.path) report).2
      (tree.OnTheWay (Path.join root intent.path) intent) :=
    (syncParent_grows plain whole report).mono fun _ _ ⟨kind, above, short⟩ =>
      kind ▸ .directory above short
  cases parents : tree.syncParent (Path.join root intent.path) report with
  | mk outcome middle =>
    rw [parents] at first
    cases outcome with
    | error e =>
      rw [syncOne_of_parent_error wanted parents]
      exact first
    | ok made =>
      rw [syncOne_of_parent_ok wanted parents]
      have second := syncFile_grows first.linkFree whole intent made
      exact first.trans second (fun _ _ new => new) fun _ _ _ new => new.of_le first.le

/-- What components call for: the file of each, with the text of the first one that calls for it, and
the directories on the way there. -/
inductive CalledFor (tree : FileTree) (root : String) (intents : List Intent) :
    Location → Entry → Prop
  | directory {intent : Intent} (mem : intent ∈ intents) (calls : intent.CallsForFile)
    {location : Location} (above : location <+: tree.placeOf root intent)
    (short : location.length < (tree.placeOf root intent).length) :
    CalledFor tree root intents location .directory
  | file {earlier later : List Intent} {intent : Intent}
    (order : intents = earlier ++ intent :: later) (calls : intent.CallsForFile)
    (named : ∃ init last, Path.names (Path.join root intent.path) = init ++ [last] ∧ last ≠ ".")
    (first : ∀ other ∈ earlier, other.CallsForFile →
      tree.placeOf root other ≠ tree.placeOf root intent) :
    CalledFor tree root intents (tree.placeOf root intent) (.file intent.skeleton.toUTF8)

theorem OnTheWay.calledFor {tree : FileTree} {root : String} {intent : Intent}
    (calls : intent.CallsForFile) {location : Location} {entry : Entry}
    (new : tree.OnTheWay (Path.join root intent.path) intent location entry)
    (rest : List Intent) : tree.CalledFor root (intent :: rest) location entry := by
  cases new with
  | directory above short => exact .directory (List.mem_cons_self ..) calls above short
  | file named => exact .file (List.nil_append _).symm calls named (by simp)

theorem CalledFor.cons {before after : FileTree} (grown : before ≤ after) {root : String}
    {intent : Intent} {rest : List Intent} {location : Location} {entry : Entry}
    (taken : intent.CallsForFile → ∃ e, after.entry? (after.placeOf root intent) = some e)
    (absent : after.entry? location = none) (new : after.CalledFor root rest location entry) :
    before.CalledFor root (intent :: rest) location entry := by
  cases new with
  | directory mem calls above short =>
    rw [placeOf_of_le grown] at above short
    exact .directory (List.mem_cons_of_mem _ mem) calls above short
  | @file earlier later other order calls named first =>
    -- Where the file of the first component belongs something stands, so nothing new is made there.
    have apart : intent.CallsForFile → after.placeOf root intent ≠ after.placeOf root other := by
      intro calls' same
      obtain ⟨e, found⟩ := taken calls'
      rw [same, absent] at found
      cases found
    rw [placeOf_of_le grown]
    refine .file (order ▸ (List.cons_append ..).symm : _ = (intent :: earlier) ++ _) calls named ?_
    intro third mem calls'
    rw [← placeOf_of_le grown, ← placeOf_of_le grown root other]
    rcases List.mem_cons.1 mem with rfl | mem
    · exact apart calls'
    · exact first third mem calls'

theorem syncEach_grows {tree : FileTree} (plain : tree.LinkFree) {root : String}
    (level : ".." ∉ Path.names root) (intents : List Intent) (report : SyncReport) :
    tree.Grows (tree.syncEach root report intents).2 (tree.CalledFor root intents) := by
  induction intents generalizing tree report with
  | nil => exact .refl plain _
  | cons intent intents ih =>
    have one := syncOne_grows plain level intent report
    have early : ∀ location entry, intent.CallsForFile ∧
        tree.OnTheWay (Path.join root intent.path) intent location entry →
        tree.CalledFor root (intent :: intents) location entry :=
      fun _ _ new => new.2.calledFor new.1 intents
    rw [syncEach]
    split
    · next e next stops =>
      rw [stops] at one
      exact one.mono early
    · next middle next done =>
      rw [done] at one
      have settled := (syncOne_ok done).2.1
      have taken : intent.CallsForFile →
          ∃ e, next.entry? (next.placeOf root intent) = some e := fun calls =>
        taken_of_pathExists one.linkFree (level_join level calls)
          (settled ((Intent.isWanted_iff intent).2 calls)).2
      exact one.trans (ih one.linkFree middle) early fun _ _ absent new =>
        CalledFor.cons one.le taken absent new

theorem names_ne_nil {path : String} (given : path ≠ "") (relative : Path.isAbsolute path = false) :
    Path.names path ≠ [] := by
  cases cut : Path.pieces path with
  | nil => exact absurd cut (Path.pieces_ne_nil path)
  | cons first rest =>
    have anchor := Path.isAbsolute_eq path first rest cut
    rw [relative] at anchor
    have visible : first ≠ "" := by
      rintro rfl
      have single : rest = [] := by simpa using anchor
      rw [single, Path.pieces, Text.splitAt] at cut
      have whole := Text.joined_pieces '/' path.toList
      obtain ⟨cs, only, blank⟩ := List.map_eq_singleton_iff.1 cut
      have empty : cs = [] := by simpa using congrArg String.toList blank
      rw [only, empty] at whole
      exact given (String.toList_eq_nil_iff.1 whole.symm)
    rw [Path.names, cut]
    simp [visible]

/-- What is called for lies below the root, or is a directory on the way to the root or the root
itself. -/
theorem CalledFor.inside {tree : FileTree} {root : String} {intents : List Intent}
    {location : Location} {entry : Entry} (called : tree.CalledFor root intents location entry) :
    tree.goal root <+: location ∧ location ≠ tree.goal root ∨
      entry = .directory ∧ location <+: tree.goal root := by
  cases called with
  | directory mem calls above short =>
    rw [placeOf_eq tree root calls] at above
    -- Two locations on the way to one file: one of them is on the way to the other.
    rcases List.prefix_or_prefix_of_prefix above (List.prefix_append ..) with outer | inner
    · exact .inr ⟨rfl, outer⟩
    · by_cases same : location = tree.goal root
      · exact .inr ⟨rfl, same ▸ List.prefix_rfl⟩
      · exact .inl ⟨inner, same⟩
  | @file earlier later intent order calls named first =>
    obtain ⟨given, -, relative, -⟩ := id calls
    obtain ⟨init, last, cut, visible⟩ := named
    rw [Path.names_join relative] at cut
    -- The last name is one of the component, so its file is below the root and not the root.
    obtain ⟨front, own⟩ : ∃ front, Path.names intent.path = front ++ [last] := by
      rcases List.eq_nil_or_concat' (Path.names intent.path) with nameless | ⟨front, final, own⟩
      · exact absurd nameless (names_ne_nil given relative)
      · rw [own, ← List.append_assoc] at cut
        obtain rfl := (List.append_inj' cut rfl).2 |> List.singleton_inj.1
        exact ⟨front, own⟩
    have further : steps intent.path ≠ [] := by
      simp [steps, own, visible]
    rw [placeOf_eq tree root calls]
    exact .inl ⟨List.prefix_append .., by simpa using further⟩

/-- In a tree without links and below a root without steps upwards, all that is new after making what
components call for, be it done or broken off, is called for, and it lies below the root unless it is
a directory on the way there. If all is done, something stands wherever a file is called for. -/
theorem sync_makes_what_is_called_for (tree : FileTree) (root : String) (intents : List Intent)
    (plain : tree.LinkFree) (level : ".." ∉ Path.names root) :
    (∀ location entry, entry? (tree.sync root intents).2 location = some entry →
      tree.entry? location = none →
      tree.CalledFor root intents location entry ∧
        (tree.goal root <+: location ∧ location ≠ tree.goal root ∨
          entry = .directory ∧ location <+: tree.goal root)) ∧
    ∀ report, (tree.sync root intents).1 = .ok report → ∀ intent ∈ intents, intent.CallsForFile →
      ∃ entry, entry? (tree.sync root intents).2 (tree.placeOf root intent) = some entry := by
  have grows := syncEach_grows plain level intents SyncReport.empty
  refine ⟨fun location entry found absent => ?_, fun report done intent mem calls => ?_⟩
  · have called := grows.new location entry found absent
    exact ⟨called, called.inside⟩
  · have run : tree.syncEach root SyncReport.empty intents =
        (.ok report, (tree.sync root intents).2) := Prod.ext done rfl
    have settled := (syncEach_ok run).2.1 intent mem ((Intent.isWanted_iff intent).2 calls)
    have taken := taken_of_pathExists grows.linkFree (level_join level calls) settled.2
    have same := placeOf_of_le grows.le root intent
    rw [placeOf] at same
    rw [same] at taken
    exact taken

/-- Two spellings of one file and a path that leads out: the first component gives the text. -/
theorem sync_makes_what_is_called_for_alias :
    let tree := empty.add ["keep"] (.file .empty)
    let intents : List Intent :=
      [⟨"Out", "../out.py", "", none⟩, ⟨"A", "./a.py", "a", none⟩, ⟨"B", "a.py", "b", none⟩]
    tree.LinkFree ∧ ".." ∉ Path.names "p/q" ∧
      (tree.sync "p/q" intents).1 =
        .ok ⟨["p/q"], ["p/q/./a.py"], ["../out.py"]⟩ ∧
      tree.CalledFor "p/q" intents ["p", "q", "a.py"]
        (.file (Intent.skeleton ⟨"A", "./a.py", "a", none⟩).toUTF8) ∧
      tree.CalledFor "p/q" intents ["p"] .directory := by
  intro tree intents
  have plain : tree.LinkFree := by decide
  have level : ".." ∉ Path.names "p/q" := by decide
  have called := (sync_makes_what_is_called_for tree "p/q" intents plain level).1
  refine ⟨plain, level, by decide +kernel, ?_, ?_⟩
  · exact (called _ _ (by decide +kernel) (by decide +kernel)).1
  · exact (called _ _ (by decide +kernel) (by decide +kernel)).1

end SourceAtlas.FileTree
