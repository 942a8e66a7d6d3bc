import SourceAtlas.Proofs.Files.Descent
import SourceAtlas.Survey.Scan
set_option autoImplicit false

namespace SourceAtlas.FileTree

theorem rootFile?_of_isDirectory {tree : FileTree} {root : String}
    (directory : tree.isDirectory root = true) (settings : Settings) :
    tree.rootFile? settings root = none := by
  obtain ⟨goal, seen⟩ := (isDirectory_iff tree root).1 directory
  rw [rootFile?]
  split
  · next location entry found =>
    have other : tree.isCandidate root entry = false := by
      cases entry with
      | directory => rfl
      | link target => rw [isCandidate, isFile, seen]
      | file contents =>
        have file := locate_seen (le_rfl tree) .inspect root _ _ found
          (.file location contents (by decide))
        rw [← view?_eq_some_iff, seen] at file
        cases file
    simp [other]
  · rfl

theorem sourceFiles_of_isDirectory {tree : FileTree} {root : String}
    (directory : tree.isDirectory root = true) (settings : Settings) :
    tree.sourceFiles settings root =
      (tree.entriesUnder root).filterMap (tree.sourceFile? settings root) := by
  rw [sourceFiles, rootFile?_of_isDirectory directory, Option.toList_none, List.nil_append]

theorem sourceFile?_eq_some {tree : FileTree} {settings : Settings} {root : String}
    {names : Location} {entry : Entry} {file : SourceFile}
    (found : tree.sourceFile? settings root (names, entry) = some file) :
    file.relPath = "/".intercalate names ∧
      Text.endsIn (names.getLast?.getD "") settings.suffix = true := by
  rw [sourceFile?] at found
  split at found
  · next checks =>
    obtain rfl := Option.some.inj found
    exact ⟨rfl, ((Bool.and_eq_true _ _).mp checks).2⟩
  · cases found

theorem sourceFiles_distinct {tree : FileTree} {root : String}
    (directory : tree.isDirectory root = true) (settings : Settings) :
    (tree.sourceFiles settings root).Pairwise fun a b => a.relPath ≠ b.relPath := by
  rw [sourceFiles_of_isDirectory directory, List.pairwise_filterMap]
  refine (entriesUnder_ordered tree root).imp_of_mem fun {first second} hf hs before => ?_
  intro a ha b hb same
  rw [(sourceFile?_eq_some ha).1, (sourceFile?_eq_some hb).1] at same
  obtain ⟨visible, proper⟩ := mem_entriesUnder hf
  obtain ⟨visible', proper'⟩ := mem_entriesUnder hs
  have pieces := congrArg Path.pieces same
  rw [Path.pieces_relative visible proper, Path.pieces_relative visible' proper'] at pieces
  rw [pieces] at before
  exact List.lt_irrefl _ before

theorem sourceFiles_nodup {tree : FileTree} {root : String}
    (directory : tree.isDirectory root = true) (settings : Settings) :
    (tree.sourceFiles settings root).Nodup :=
  (sourceFiles_distinct directory settings).imp fun apart same => apart (congrArg _ same)

theorem suffix_nodeId {tree : FileTree} {settings : Settings} {root : String}
    (directory : tree.isDirectory root = true) {file : SourceFile}
    (mem : file ∈ tree.sourceFiles settings root) :
    settings.suffix.toList <:+ file.nodeId.toList := by
  rw [sourceFiles_of_isDirectory directory] at mem
  obtain ⟨⟨names, entry⟩, held, found⟩ := List.mem_filterMap.1 mem
  obtain ⟨visible, proper⟩ := mem_entriesUnder held
  obtain ⟨path, ends⟩ := sourceFile?_eq_some found
  obtain ⟨init, last, rfl⟩ := (List.eq_nil_or_concat' names).resolve_left visible
  have inLast : settings.suffix.toList <:+ last.toList := by
    simpa [Text.endsIn, List.isSuffixOf_iff_suffix] using ends
  have lastInPath : last.toList <:+ file.relPath.toList := by
    rw [path]
    exact Path.suffix_intercalate init last
  have kept : (settings.suffix.toList.map fun c => if c = '/' then '_' else c) =
      settings.suffix.toList := by
    have plain : '/' ∉ last.toList := slash_not_mem_of_isProperName (proper last (by simp))
    refine (List.map_congr_left fun c inSuffix => ?_).trans (List.map_id _)
    have apart : c ≠ '/' := by
      rintro rfl
      exact plain (inLast.subset inSuffix)
    rw [if_neg apart, id]
  rw [SourceFile.nodeId, nodeIdFor, Text.replaced, String.toList_ofList, ← kept]
  exact (inLast.trans lastInPath).map _

end SourceAtlas.FileTree
