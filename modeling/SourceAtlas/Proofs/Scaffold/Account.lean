import Mathlib.Data.List.Nodup
import SourceAtlas.Proofs.Scaffold.Listing
import SourceAtlas.Proofs.Scaffold.Reach
set_option autoImplicit false

/-!
# What a listing gains

In a tree without links and below a root without steps upwards, the report of a success names the
files that are new, each once. Those of them that are below `src` and end in the extension are what
the listing gains.
-/

namespace SourceAtlas

namespace Path

theorem exists_append_of_mem_intercalate (separator : String) {piece : String} {all : List String}
    (mem : piece ∈ all) : ∃ front back, separator.intercalate all = front ++ piece ++ back := by
  induction all with
  | nil => cases mem
  | cons first rest ih =>
    by_cases last : rest = []
    · obtain rfl : piece = first := by simpa [last] using mem
      exact ⟨"", "", by simp [last]⟩
    rw [String.intercalate_cons_of_ne_nil last]
    rcases List.mem_cons.1 mem with rfl | mem
    · exact ⟨"", separator ++ separator.intercalate rest, by simp [String.append_assoc]⟩
    · obtain ⟨front, back, same⟩ := ih mem
      exact ⟨first ++ separator ++ front, back, by rw [same]; simp [String.append_assoc]⟩

theorem size_intercalate_cons (separator first : String) (rest : List String) :
    (separator.intercalate rest).utf8ByteSize ≤
      (separator.intercalate (first :: rest)).utf8ByteSize := by
  by_cases last : rest = []
  · simp [last]
  · rw [String.intercalate_cons_of_ne_nil last]
    simp only [String.utf8ByteSize_append]
    omega

theorem size_intercalate_le (separator : String) {kept whole : List String}
    (sublist : kept.Sublist whole) :
    (separator.intercalate kept).utf8ByteSize ≤ (separator.intercalate whole).utf8ByteSize := by
  induction sublist with
  | slnil => exact Nat.le_refl _
  | cons first _ ih => exact ih.trans (size_intercalate_cons separator first _)
  | @cons_cons kept whole first sublist ih =>
    by_cases last : kept = []
    · subst last
      by_cases alone : whole = []
      · rw [alone]
      · rw [String.intercalate_singleton, String.intercalate_cons_of_ne_nil alone]
        simp only [String.utf8ByteSize_append]
        omega
    · have visible : whole ≠ [] := fun blank => last (List.sublist_nil.1 (blank ▸ sublist))
      rw [String.intercalate_cons_of_ne_nil last, String.intercalate_cons_of_ne_nil visible]
      simp only [String.utf8ByteSize_append]
      omega

end Path

namespace FileTree

/-- If a joined path can be looked up, so can each piece of its second part, joined to the first. -/
theorem Fits.join_piece {root part piece : String} (fits : Fits (Path.join root part))
    (relative : Path.isAbsolute part = false) (relative' : Path.isAbsolute piece = false)
    (named : piece ≠ "") (mem : piece ∈ Path.pieces part) : Fits (Path.join root piece) := by
  obtain ⟨gap, joined⟩ := Path.exists_join_eq root
  obtain ⟨front, back, same⟩ := Path.exists_append_of_mem_intercalate "/" mem
  rw [Path.intercalate_pieces] at same
  obtain ⟨nul, -, short⟩ := fits
  rw [joined part relative, same] at nul short
  rw [joined piece relative']
  refine ⟨fun inside => nul ?_, by simp [named], ?_⟩
  · simp only [String.toList_append, List.mem_append] at inside ⊢
    tauto
  · simp only [String.utf8ByteSize_append] at short ⊢
    omega

variable {tree before middle after : FileTree} {root path extension : String}
  {paths more : List String} {intent : Intent} {report made : SyncReport} {names : Location}

/-- A tree without links that has grown by the files at the end of some paths below a root, each a
place of its own, and by directories. -/
structure Adds (before : FileTree) (root : String) (after : FileTree) (paths : List String) : Prop
    where
  le : before ≤ after
  linkFree : after.LinkFree
  new : ∀ location contents, after.entry? location = some (.file contents) →
    before.entry? location = none → ∃ path ∈ paths, before.goal path = location
  absent : ∀ path ∈ paths, before.entry? (before.goal path) = none
  there : ∀ path ∈ paths, ∃ contents, after.entry? (before.goal path) = some (.file contents)
  once : (paths.map before.goal).Nodup
  below : ∀ path ∈ paths, Fits path ∧
    ∃ part, Path.isAbsolute part = false ∧ path = Path.join root part

theorem Grows.adds {new : Location → Entry → Prop} (grows : before.Grows after new)
    (directories : ∀ location entry, new location entry → entry = .directory) (root : String) :
    before.Adds root after [] := by
  refine ⟨grows.le, grows.linkFree, fun location contents found absent => ?_, by simp, by simp,
    List.nodup_nil, by simp⟩
  cases directories _ _ (grows.new _ _ found absent)

theorem Adds.refl (plain : tree.LinkFree) (root : String) : tree.Adds root tree [] :=
  (Grows.refl plain fun _ entry => entry = .directory).adds (fun _ _ kind => kind) root

theorem Adds.trans (first : before.Adds root middle paths) (second : middle.Adds root after more) :
    before.Adds root after (paths ++ more) := by
  have same (path : String) : middle.goal path = before.goal path := goal_of_le first.le path
  have vacant (path : String) (mem : path ∈ more) : middle.entry? (before.goal path) = none :=
    same path ▸ second.absent path mem
  refine ⟨le_trans first.le second.le, second.linkFree, fun location contents found absent => ?_,
    fun path mem => ?_, fun path mem => ?_, ?_, fun path mem => ?_⟩
  · rcases new_or_kept second.le found with fresh | made
    · obtain ⟨path, mem, here⟩ := second.new location contents found fresh
      exact ⟨path, List.mem_append_right _ mem, same path ▸ here⟩
    · obtain ⟨path, mem, here⟩ := first.new location contents made absent
      exact ⟨path, List.mem_append_left _ mem, here⟩
  · rcases List.mem_append.1 mem with early | late
    · exact first.absent path early
    · exact absent_of_le first.le (vacant path late)
  · rcases List.mem_append.1 mem with early | late
    · obtain ⟨contents, found⟩ := first.there path early
      exact ⟨contents, second.le.2 _ _ found⟩
    · obtain ⟨contents, found⟩ := second.there path late
      exact ⟨contents, same path ▸ found⟩
  · rw [List.map_append]
    refine List.nodup_append'.2 ⟨first.once, ?_, ?_⟩
    · exact (List.map_congr_left fun path _ => same path) ▸ second.once
    · -- Where the first step made a file nothing new is made.
      intro location early late
      obtain ⟨path, mem, rfl⟩ := List.mem_map.1 early
      obtain ⟨other, mem', here⟩ := List.mem_map.1 late
      obtain ⟨contents, found⟩ := first.there path mem
      rw [← here, vacant other mem'] at found
      cases found
  · exact (List.mem_append.1 mem).elim (first.below path) (second.below path)

theorem syncParent_files (done : tree.syncParent path report = (.ok made, after)) :
    made.files = report.files := by
  have step := syncParent_step tree path report
  rw [done] at step
  cases step with
  | housed | made => rfl

theorem syncFile_adds (plain : tree.LinkFree) {part : String}
    (relative : Path.isAbsolute part = false) (level : ".." ∉ Path.names (Path.join root part))
    (done : tree.syncFile (Path.join root part) intent report = (.ok made, after)) :
    ∃ paths, made.files = report.files ++ paths ∧ tree.Adds root after paths := by
  have step := syncFile_step tree (Path.join root part) intent report
  rw [done] at step
  cases step with
  | there => exact ⟨[], (List.append_nil _).symm, .refl plain root⟩
  | written absent writes =>
    obtain ⟨location, found, rfl⟩ := writeText_vacant absent writes
    obtain rfl : location = tree.goal (Path.join root part) := (locate_ahead plain level found).1
    have can := locate_sound tree .write _ _ found (.file intent.skeleton.toUTF8) rfl
    have vacant := ((canAdd_iff tree _ _).1 can).2.2.2
    have plainFile : (Entry.file intent.skeleton.toUTF8).isLink = false := rfl
    have grows := grows_add plain (tree.goal (Path.join root part)) plainFile
    refine ⟨[Path.join root part], rfl, grows.le, grows.linkFree, fun l contents stands absent => ?_,
      by simpa using vacant, ?_, List.nodup_singleton _, ?_⟩
    · exact ⟨_, List.mem_singleton.2 rfl, (grows.new l _ stands absent).2.symm⟩
    · exact List.forall_mem_singleton.2 ⟨_, by rw [entry?_add can, if_pos rfl]⟩
    · simpa using ⟨fits_of_locate found, part, relative, rfl⟩

theorem syncOne_adds (plain : tree.LinkFree) (level : ".." ∉ Path.names root)
    (done : tree.syncOne root intent report = (.ok made, after)) :
    ∃ paths, made.files = report.files ++ paths ∧ tree.Adds root after paths := by
  have step := syncOne_step tree root intent report
  rw [done] at step
  cases step with
  | passed =>
    refine ⟨[], ?_, .refl plain root⟩
    rw [passed, List.append_nil]
    split <;> rfl
  | file wanted parents file =>
    have calls := (Intent.isWanted_iff intent).1 wanted
    have whole := level_join level calls
    have grows := syncParent_grows plain whole report
    rw [parents] at grows
    have first := grows.adds (fun _ _ new => new.1) root
    obtain ⟨paths, files, second⟩ := syncFile_adds first.linkFree calls.2.2.1 whole file
    exact ⟨paths, by rw [files, syncParent_files parents], first.trans second⟩

theorem syncEach_adds {intents : List Intent} (plain : tree.LinkFree)
    (level : ".." ∉ Path.names root)
    (done : tree.syncEach root report intents = (.ok made, after)) :
    ∃ paths, made.files = report.files ++ paths ∧ tree.Adds root after paths := by
  induction intents generalizing tree report with
  | nil =>
    obtain ⟨rfl, rfl⟩ : report = made ∧ tree = after := by simpa [syncEach] using done
    exact ⟨[], (List.append_nil _).symm, .refl plain root⟩
  | cons intent intents ih =>
    obtain ⟨middle, next, first, rest⟩ := syncEach_cons_ok done
    obtain ⟨paths, files, adds⟩ := syncOne_adds plain level first
    obtain ⟨grown', files', adds'⟩ := ih adds.linkFree rest
    exact ⟨paths ++ grown', by rw [files', files, List.append_assoc], adds.trans adds'⟩

theorem sync_adds {intents : List Intent} (plain : tree.LinkFree) (level : ".." ∉ Path.names root)
    (done : (tree.sync root intents).1 = .ok report) :
    tree.Adds root (tree.sync root intents).2 report.files := by
  have run : tree.syncEach root SyncReport.empty intents =
      (.ok report, (tree.sync root intents).2) := Prod.ext done rfl
  obtain ⟨paths, files, adds⟩ := syncEach_adds plain level run
  rw [files]
  exact adds

theorem view?_directory_iff_of_level (plain : tree.LinkFree) (level : ".." ∉ Path.names path)
    (location : Location) : tree.view? path = some (location, .directory) ↔
      Fits path ∧ location = tree.goal path ∧ tree.entry? location = some .directory := by
  constructor
  · intro seen
    have found := (view?_eq_some_iff tree path _ _).1 seen
    exact ⟨fits_of_locate found, (locate_ahead plain level found).1, locate_sound tree .view _ _ found⟩
  · rintro ⟨fits, rfl, stands⟩
    exact (view?_directory_iff tree fits _).2 ⟨_, pass_directories linkLimit level stands⟩

theorem listedDirectory_relative : Path.isAbsolute listedDirectory = false := by decide

theorem steps_listedDirectory : steps listedDirectory = [listedDirectory] := by decide

def isListable (extension : String) : Location → Bool
  | [] => false
  | name :: rest => name = listedDirectory && rest ≠ [] &&
    Text.endsIn (rest.getLast?.getD "") ("." ++ extension)

theorem isListable_iff : isListable extension names = true ↔ ∃ rest, names = listedDirectory :: rest ∧
    rest ≠ [] ∧ Text.endsIn (rest.getLast?.getD "") ("." ++ extension) = true := by
  cases names with
  | nil => simp [isListable]
  | cons name rest => simp [isListable, and_assoc]

theorem mem_listedNames_iff_of_linkFree (plain : tree.LinkFree) (level : ".." ∉ Path.names root) :
    names ∈ tree.listedNames root extension ↔
      Fits (Path.join root listedDirectory) ∧ opens root names.dropLast = true ∧
        isListable extension names = true ∧
        ∃ contents, tree.entry? (tree.goal root ++ names) = some (.file contents) := by
  have level' : ".." ∉ Path.names (Path.join root listedDirectory) := by
    rw [Path.names_join listedDirectory_relative, List.mem_append]
    exact not_or.2 ⟨level, by decide⟩
  have goal : tree.goal (Path.join root listedDirectory) = tree.goal root ++ [listedDirectory] := by
    rw [goal_join listedDirectory_relative, steps_listedDirectory]
  simp only [mem_listedNames_iff, view?_directory_iff_of_level plain level', isListable_iff, goal]
  constructor
  · rintro ⟨base, rest, contents, ⟨fits, rfl, -⟩, rfl, visible, stands, opened, ends⟩
    refine ⟨fits, ?_, ⟨rest, rfl, visible, ends⟩, contents, by rwa [List.append_cons]⟩
    rw [List.dropLast_cons_of_ne_nil visible]
    exact (opens_listedDirectory stands).2 ⟨Nat.not_le.1 fits.2.2, opened⟩
  · rintro ⟨fits, opened, ⟨rest, rfl, visible, ends⟩, contents, stands⟩
    rw [List.append_cons] at stands
    rw [List.dropLast_cons_of_ne_nil visible] at opened
    exact ⟨_, rest, contents, ⟨fits, rfl, entry?_above stands visible⟩, rfl, visible, stands,
      ((opens_listedDirectory stands).1 opened).2, ends⟩

def namesBehind (root path : String) : Location :=
  (steps path).drop (steps root).length

theorem namesBehind_join {part : String} (relative : Path.isAbsolute part = false) (root : String) :
    namesBehind root (Path.join root part) = steps part := by
  have split : steps (Path.join root part) = steps root ++ steps part := by
    rw [steps, Path.names_join relative, List.filter_append, steps, steps]
  rw [namesBehind, split, List.drop_left]

theorem Adds.goal (adds : before.Adds root after paths) (mem : path ∈ paths) :
    before.goal path = before.goal root ++ namesBehind root path := by
  obtain ⟨-, part, relative, rfl⟩ := adds.below path mem
  rw [goal_join relative, namesBehind_join relative]

theorem Adds.fits (adds : before.Adds root after paths) (mem : path ∈ paths)
    (listable : isListable extension (namesBehind root path) = true) :
    Fits (Path.join root listedDirectory) := by
  obtain ⟨fits, part, relative, rfl⟩ := adds.below path mem
  obtain ⟨rest, own, -⟩ := isListable_iff.1 listable
  rw [namesBehind_join relative] at own
  have held : listedDirectory ∈ steps part := own ▸ List.mem_cons_self ..
  exact fits.join_piece relative listedDirectory_relative (by decide)
    (List.mem_filter.1 (List.mem_filter.1 held).1).1

theorem Adds.opened (adds : before.Adds root after paths) (mem : path ∈ paths) :
    opens root (namesBehind root path).dropLast = true := by
  obtain ⟨contents, stands⟩ := adds.there path mem
  rw [adds.goal mem] at stands
  obtain ⟨fits, part, relative, rfl⟩ := adds.below path mem
  rw [namesBehind_join relative] at stands ⊢
  have proper : ∀ name ∈ (steps part).dropLast, isProperName name = true := fun name held =>
    List.all_eq_true.1 (entry?_isProperName stands) name
      (List.mem_append_right _ (List.dropLast_subset _ held))
  by_cases here : (steps part).dropLast = []
  · rw [here, opens, List.isEmpty_nil, Bool.true_or]
  have kept : (steps part).dropLast.Sublist (Path.pieces part) :=
    (List.dropLast_sublist _).trans (List.filter_sublist.trans List.filter_sublist)
  have shorter := Path.size_intercalate_le "/" kept
  rw [Path.intercalate_pieces] at shorter
  obtain ⟨gap, joined⟩ := Path.exists_join_eq root
  have short := fits.2.2
  rw [joined part relative] at short
  rw [opens, List.isEmpty_eq_false_iff.2 here, Bool.false_or, decide_eq_true_eq, pathBelow,
    joined _ (Path.isAbsolute_relative here proper)]
  simp only [String.utf8ByteSize_append] at short ⊢
  omega

def listableNames (root extension : String) (paths : List String) : List Location :=
  (paths.map (namesBehind root)).filter (isListable extension)

theorem Adds.mem_listedNames (adds : before.Adds root after paths)
    (level : ".." ∉ Path.names root) : names ∈ after.listedNames root extension ↔
      names ∈ before.listedNames root extension ∨ names ∈ listableNames root extension paths := by
  rw [mem_listedNames_iff_of_linkFree adds.linkFree level,
    mem_listedNames_iff_of_linkFree (adds.linkFree.of_le adds.le) level, goal_of_le adds.le,
    listableNames, List.mem_filter, List.mem_map]
  constructor
  · rintro ⟨fits, opened, listable, contents, stands⟩
    rcases new_or_kept adds.le stands with fresh | held
    · obtain ⟨path, mem, here⟩ := adds.new _ _ stands fresh
      rw [adds.goal mem] at here
      exact .inr ⟨⟨path, mem, List.append_cancel_left here⟩, listable⟩
    · exact .inl ⟨fits, opened, listable, contents, held⟩
  · rintro (⟨fits, opened, listable, contents, stands⟩ | ⟨⟨path, mem, rfl⟩, listable⟩)
    · exact ⟨fits, opened, listable, contents, adds.le.2 _ _ stands⟩
    · obtain ⟨contents, stands⟩ := adds.there path mem
      rw [adds.goal mem] at stands
      exact ⟨adds.fits mem listable, adds.opened mem, listable, contents, stands⟩

theorem Adds.listedNames_perm (adds : before.Adds root after paths)
    (level : ".." ∉ Path.names root) : (after.listedNames root extension).Perm
      (before.listedNames root extension ++ listableNames root extension paths) := by
  have apart : (listableNames root extension paths).Nodup := by
    refine (List.Nodup.of_map (before.goal root ++ ·) ?_).filter _
    have once := adds.once
    rw [List.map_congr_left fun path mem => adds.goal mem] at once
    simpa [Function.comp_def] using once
  refine (List.perm_ext_iff_of_nodup (listedNames_ordered ..).nodup (List.nodup_append'.2
    ⟨(listedNames_ordered ..).nodup, apart, ?_⟩)).2 fun names => ?_
  · -- What is new was not there, so that it was not listed either.
    intro names listed new
    obtain ⟨-, -, -, contents, stands⟩ :=
      (mem_listedNames_iff_of_linkFree (adds.linkFree.of_le adds.le) level).1 listed
    obtain ⟨path, mem, rfl⟩ := List.mem_map.1 (List.mem_filter.1 new).1
    rw [← adds.goal mem, adds.absent path mem] at stands
    cases stands
  · rw [adds.mem_listedNames level, List.mem_append]

theorem listing_ordered (tree : FileTree) (root extension : String) :
    (tree.listing root extension).Pairwise fun a b =>
      (Path.pieces a).map Text.bytes < (Path.pieces b).map Text.bytes := by
  have ordered := listedNames_ordered tree root extension
  rw [← map_pieces_listing, List.pairwise_map] at ordered
  exact ordered.imp Text.map_bytes_lt

/-- In a tree without links and below a root without steps upwards, the files that are new after a
success are those in the report, and the listing gains those of them that are below `src` and end in
the extension. It shows each file once, in the order of the bytes of the names. -/
theorem listing_sync (tree : FileTree) (root extension : String) (intents : List Intent)
    (report : SyncReport) (plain : tree.LinkFree) (level : ".." ∉ Path.names root)
    (done : (tree.sync root intents).1 = .ok report) :
    let after := (tree.sync root intents).2
    (∀ location, (tree.entry? location = none ∧
        ∃ contents, after.entry? location = some (.file contents)) ↔
      ∃ path ∈ report.files, tree.goal path = location) ∧
    (after.listing root extension).Perm (tree.listing root extension ++
      (listableNames root extension report.files).map ("/".intercalate ·)) ∧
    (after.listing root extension).Pairwise fun a b =>
      (Path.pieces a).map Text.bytes < (Path.pieces b).map Text.bytes := by
  intro after
  have adds : tree.Adds root after report.files := sync_adds plain level done
  refine ⟨fun location => ⟨?_, ?_⟩, ?_, listing_ordered after root extension⟩
  · rintro ⟨absent, contents, stands⟩
    exact adds.new location contents stands absent
  · rintro ⟨path, mem, rfl⟩
    exact ⟨adds.absent path mem, adds.there path mem⟩
  · rw [listing_eq_map, listing_eq_map, ← List.map_append]
    exact (adds.listedNames_perm level).map _

/-- One file is there before, one is spelled otherwise than it is listed, and one is not listed. -/
theorem listing_sync_spelled :
    let tree := ((empty.add ["p"] .directory).add ["p", "src"] .directory).add
      ["p", "src", "old.py"] (.file .empty)
    let intents : List Intent := [⟨"B", "src/pkg/b.py", "b", none⟩, ⟨"A", "./src//a.py", "a", none⟩,
      ⟨"Old", "src/old.py", "o", none⟩, ⟨"Run", "run.py", "r", none⟩]
    let result := tree.sync "p" intents
    let files := ["p/src/pkg/b.py", "p/./src//a.py", "p/run.py"]
    tree.LinkFree ∧ ".." ∉ Path.names "p" ∧ result.1 = .ok ⟨["p/src/pkg"], files, []⟩ ∧
      (listing result.2 "p" "py").Perm ["src/old.py", "src/pkg/b.py", "src/a.py"] ∧
      (listing result.2 "p" "py").Pairwise fun a b =>
        (Path.pieces a).map Text.bytes < (Path.pieces b).map Text.bytes := by
  intro tree intents result files
  have plain : tree.LinkFree := by decide
  have level : ".." ∉ Path.names "p" := by decide
  have done : result.1 = .ok ⟨["p/src/pkg"], files, []⟩ := by decide +kernel
  have gained : tree.listing "p" "py" ++ (listableNames "p" "py" files).map ("/".intercalate ·) =
      ["src/old.py", "src/pkg/b.py", "src/a.py"] := by decide +kernel
  obtain ⟨-, perm, ordered⟩ := listing_sync tree "p" "py" intents _ plain level done
  exact ⟨plain, level, done, gained ▸ perm, ordered⟩

end FileTree

end SourceAtlas
