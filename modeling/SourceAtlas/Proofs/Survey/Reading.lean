import SourceAtlas.Proofs.Files.Direct
import SourceAtlas.Proofs.Survey.Scan
import SourceAtlas.Survey.Report
set_option autoImplicit false

namespace SourceAtlas

def factsIn [Python.Parser] (contents : ByteArray) (path : String) : Except Failure Python.Facts :=
  if FileTree.pathLimit ≤ path.utf8ByteSize then .error (.unreadable path .nameTooLong)
  else
    match String.fromUTF8? contents with
    | none => .error (.unreadable path .notText)
    | some text =>
      (Python.understand text).mapError fun message => .unparseable ⟨path, message⟩

namespace FileTree

variable {tree : FileTree} {settings : Settings} {root : String} {base : Location}

theorem locate_tooLong (tree : FileTree) (purpose : Purpose) {path : String}
    (visible : '\x00' ∉ path.toList ∧ path ≠ "") (long : pathLimit ≤ path.utf8ByteSize) :
    tree.locate purpose path = .error .nameTooLong := by
  rw [locate, if_neg (by simpa using visible.1), if_neg visible.2, if_pos long]

theorem facts_pathBelow [Python.Parser] {names : Location} {contents : ByteArray}
    (directory : tree.view? root = some (base, .directory)) (visible : names ≠ [])
    (found : tree.entry? (base ++ names) = some (.file contents)) :
    tree.facts (pathBelow root names) = factsIn contents (pathBelow root names) := by
  rw [factsIn]
  split
  · next long =>
    have fits := fits_of_locate ((view?_eq_some_iff tree root _ _).1 directory)
    have proper := entry?_isProperName found
    have proper : ∀ name ∈ names, isProperName name = true := fun name mem =>
      List.all_eq_true.1 proper name (List.mem_append_right _ mem)
    have fails := locate_tooLong tree .view (pathBelow_visible fits visible proper) long
    have unread : tree.readText (pathBelow root names) = .error .nameTooLong := by
      rw [readText, readBytes, fails]
      rfl
    rw [facts, unread]
  · next short =>
    have seen := view?_pathBelow_file directory visible found (Nat.not_le.1 short)
    have bytes : tree.readBytes (pathBelow root names) = .ok contents := by
      rw [readBytes, (view?_eq_some_iff tree _ _ _).1 seen]
      rfl
    rw [facts, readText, bytes]
    cases decoded : String.fromUTF8? contents with
    | none => simp [bind, Except.bind, decoded]
    | some text => simp [bind, Except.bind, decoded]

theorem IsSource.holds (plain : tree.LinkFree) {front : Location} {name : String}
    (source : tree.IsSource settings root base front name) :
    ∃ contents, tree.entry? (base ++ (front ++ [name])) = some (.file contents) := by
  rw [← List.append_assoc]
  rcases source.stands with file | ⟨⟨target, found⟩, -⟩
  · exact file
  · exact absurd found (plain.entry? _ _)

end FileTree

end SourceAtlas
