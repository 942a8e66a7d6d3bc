import SourceAtlas.Proofs.Survey.Reading
import SourceAtlas.Proofs.Survey.Run
set_option autoImplicit false

namespace SourceAtlas

namespace FileTree

/-- A tree that differs from another one in nothing that a survey sees: its directories are still
there, and it has the same source files with the same contents. -/
structure Aside (before after : FileTree) (settings : Settings) : Prop where
  plain : before.LinkFree
  linkFree : after.LinkFree
  directories : ∀ path location, before.view? path = some (location, .directory) →
    after.view? path = some (location, .directory)
  sources : ∀ front name, Text.endsIn name settings.suffix = true → ∀ contents,
    after.entry? (front ++ [name]) = some (.file contents) ↔
      before.entry? (front ++ [name]) = some (.file contents)

variable {tree before after : FileTree} {settings : Settings} {root : String} {base : Location}

/-- Without links a source file is a file whose name ends in the extension, behind names of which none
is excluded. -/
theorem isSource_iff (plain : tree.LinkFree) (front : Location) (name : String) :
    tree.IsSource settings root base front name ↔
      (∀ dir ∈ front, dir ∉ settings.excluded) ∧ opens root front = true ∧
      (∃ contents, tree.entry? (base ++ front ++ [name]) = some (.file contents)) ∧
      Text.endsIn name settings.suffix = true := by
  rw [endsIn_suffix_iff]
  constructor
  · intro source
    refine ⟨fun dir mem => ?_, source.opened, ?_, source.ends⟩
    · obtain ⟨above, below, cut⟩ := List.append_of_mem mem
      exact (source.entered above dir below cut).2
    · rw [List.append_assoc]
      exact source.holds plain
  · rintro ⟨free, opened, stands, ends⟩
    refine ⟨?_, opened, .inl stands, ends⟩
    rintro above dir below rfl
    obtain ⟨contents, found⟩ := stands
    have onwards : tree.entry? (base ++ above ++ [dir] ++ (below ++ [name])) =
        some (.file contents) := by simpa using found
    exact ⟨entry?_above onwards (by simp), free dir (by simp)⟩

theorem Aside.isSource_iff (aside : before.Aside after settings) (front : Location)
    (name : String) : after.IsSource settings root base front name ↔
      before.IsSource settings root base front name := by
  rw [FileTree.isSource_iff aside.plain, FileTree.isSource_iff aside.linkFree]
  refine and_congr_right fun _ => and_congr_right fun _ => and_congr_left fun ends => ?_
  exact exists_congr fun contents => aside.sources (base ++ front) name ends contents

theorem Aside.sourceFiles (aside : before.Aside after settings)
    (directory : before.view? root = some (base, .directory)) :
    after.sourceFiles settings root = before.sourceFiles settings root := by
  obtain ⟨depth, deep⟩ := exists_depth before
  obtain ⟨depth', deep'⟩ := exists_depth after
  have equal : after.positions settings root base depth' =
      before.positions settings root base depth := by
    refine eq_of_ordered _ (fun a => ?_) (fun a b c low high => ?_) (positions_ordered ..)
      (positions_ordered ..) ?_
    · exact List.lt_irrefl _
    · exact List.lt_trans low high
    · rintro ⟨front, name⟩
      rw [mem_positions_iff deep', mem_positions_iff deep, aside.isSource_iff]
  rw [sourceFiles_eq_map directory deep,
    sourceFiles_eq_map (aside.directories root base directory) deep', equal]

theorem Aside.analysis [Python.Parser] (aside : before.Aside after settings)
    (directory : before.view? root = some (base, .directory)) :
    ∀ file ∈ before.sourceFiles settings root, after.analysis file = before.analysis file := by
  intro file listed
  obtain ⟨front, name, source, rfl⟩ := (mem_sourceFiles_iff directory file).1 listed
  obtain ⟨-, -, ⟨contents, found⟩, ends⟩ := (FileTree.isSource_iff aside.plain front name).1 source
  have found' := (aside.sources (base ++ front) name ends contents).2 found
  rw [List.append_assoc] at found found'
  have facts := facts_pathBelow directory (by simp) found
  have facts' := facts_pathBelow (aside.directories root base directory) (by simp) found'
  exact congrArg Analysis.ofFacts (facts'.trans facts.symm)

end FileTree

namespace Survey

theorem run_aside [Python.Parser] {before after : FileTree} {settings : Settings} {root : String}
    {survey : Survey} (aside : before.Aside after settings)
    (ran : run before settings root = .ok survey) :
    run after settings root = .ok survey := by
  cases valid : settings.validate with
  | error failure =>
    rw [run, valid] at ran
    cases ran
  | ok =>
    cases seen : before.isDirectory root with
    | false =>
      rw [run, valid] at ran
      change (if before.isDirectory root = true then _ else _) = _ at ran
      rw [seen] at ran
      cases ran
    | true =>
      obtain ⟨base, directory⟩ := (FileTree.isDirectory_iff before root).1 seen
      have still := (FileTree.isDirectory_iff after root).2
        ⟨base, aside.directories root base directory⟩
      rw [run_ok valid seen] at ran
      have same : subjects after settings root = subjects before settings root := by
        rw [subjects_eq, subjects_eq, aside.sourceFiles directory, subjectsOf, subjectsOf]
        exact List.map_congr_left fun file listed => by rw [aside.analysis directory file listed]
      rw [run_ok valid still, same, ran]

end Survey

end SourceAtlas
