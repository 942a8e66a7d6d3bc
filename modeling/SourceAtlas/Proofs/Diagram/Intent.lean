import Mathlib.Data.List.Basic
import SourceAtlas.Diagram.Intent
import SourceAtlas.Proofs.Text.Ink
set_option autoImplicit false

namespace SourceAtlas

namespace Text

/-- A text on one line that no blank character begins or ends. -/
structure IsPlain (text : String) : Prop where
  single : '\n' ∉ text.toList
  start : ∀ c, text.toList.head? = some c → isBlank c = false
  last : ∀ c, text.toList.getLast? = some c → isBlank c = false

-- Each end is one character, so nothing here is decided by running through every character there is.
instance (text : String) : Decidable (IsPlain text) :=
  decidable_of_iff ('\n' ∉ text.toList ∧ text.toList.head?.all (!isBlank ·) = true ∧
      text.toList.getLast?.all (!isBlank ·) = true)
    ⟨fun h => ⟨h.1, by simpa [Option.all_eq_true] using h.2.1,
        by simpa [Option.all_eq_true] using h.2.2⟩,
      fun h => ⟨h.single, by simpa [Option.all_eq_true] using h.start,
        by simpa [Option.all_eq_true] using h.last⟩⟩

theorem trimEnd_visible {cs : List Char} (last : ∀ c, cs.getLast? = some c → isBlank c = false) :
    trimEnd cs = cs := by
  rcases List.eq_nil_or_concat' cs with rfl | ⟨front, c, rfl⟩
  · rfl
  · simp [trimEnd, last c (by simp)]

theorem trim_visible {cs : List Char} (start : ∀ c, cs.head? = some c → isBlank c = false)
    (last : ∀ c, cs.getLast? = some c → isBlank c = false) : trim cs = cs := by
  cases cs with
  | nil => rfl
  | cons c cs => rw [trim, trimStart_visible c cs (start c rfl), trimEnd_visible last]

theorem IsPlain.trim {text : String} (plain : IsPlain text) :
    Text.trim text.toList = text.toList :=
  trim_visible plain.start plain.last

theorem isPlain_trim {cs : List Char} (single : '\n' ∉ cs) : IsPlain (String.ofList (trim cs)) := by
  refine ⟨?_, fun c first => ?_, fun c last => ?_⟩
  · rw [String.toList_ofList]
    exact fun mem => single (mem_of_mem_trim mem)
  · rw [String.toList_ofList] at first
    obtain ⟨rest, whole⟩ := trimEnd_isPrefix (trimStart cs)
    refine @head?_dropWhile_blank cs c ?_
    rw [← trimStart, ← whole, List.head?_append, ← trim, first, Option.some_or]
  · rw [String.toList_ofList, trim, trimEnd, List.getLast?_reverse] at last
    exact head?_dropWhile_blank last

theorem trim_concat (front : List Char) {c : Char} (visible : isBlank c = false) :
    ∃ blank rest, (∀ b ∈ blank, isBlank b = true) ∧ front = blank ++ rest ∧
      trim (front ++ [c]) = rest ++ [c] := by
  induction front with
  | nil =>
    refine ⟨[], [], by simp, rfl, ?_⟩
    simp [trim, trimStart_visible c [] visible, trimEnd, visible]
  | cons d front ih =>
    by_cases start : isBlank d = true
    · obtain ⟨blank, rest, areBlank, rfl, same⟩ := ih
      refine ⟨d :: blank, rest, by simpa [start] using areBlank, rfl, ?_⟩
      rwa [List.cons_append, trim, trimStart_blank d _ start, ← trim]
    · refine ⟨[], d :: front, by simp, rfl, ?_⟩
      refine trim_visible (fun e same => ?_) fun e same => ?_
      · simpa [← Option.some.inj same] using start
      · rw [List.getLast?_concat] at same
        exact Option.some.inj same ▸ visible

end Text

namespace Intent

theorem visibleLines_append (first second : String) :
    visibleLines (first ++ "\n" ++ second) = visibleLines first ++ visibleLines second := by
  have feed : ("\n" : String).toList = ['\n'] := rfl
  rw [visibleLines, String.toList_append, String.toList_append, feed, List.append_assoc,
    List.singleton_append, Text.pieces_append, List.map_append, List.filter_append]
  rfl

theorem visibleLines_single {text : String} (single : '\n' ∉ text.toList)
    (visible : Text.trim text.toList ≠ []) : visibleLines text = [Text.trim text.toList] := by
  rw [visibleLines, Text.pieces_of_not_mem _ _ single]
  simp [visible]

theorem ofText?_lines {name path : String} (rest : String) (color : Option String)
    (single : '\n' ∉ name.toList) (visible : Text.trim name.toList ≠ [])
    (single' : '\n' ∉ path.toList) (visible' : Text.trim path.toList ≠ []) :
    ofText? (name ++ "\n" ++ (path ++ "\n" ++ rest)) color =
      some ⟨String.ofList (Text.trim name.toList), String.ofList (Text.trim path.toList),
        String.ofList (Text.joined '\n' (visibleLines rest)), color⟩ := by
  rw [ofText?, visibleLines_append, visibleLines_append, visibleLines_single single visible,
    visibleLines_single single' visible']
  rfl

theorem plain_of_mem_visibleLines {text : String} {line : List Char}
    (listed : line ∈ visibleLines text) : Text.IsPlain (String.ofList line) ∧ line ≠ [] := by
  obtain ⟨trimmed, visible⟩ := List.mem_filter.1 listed
  obtain ⟨piece, cut, rfl⟩ := List.mem_map.1 trimmed
  exact ⟨Text.isPlain_trim (Text.separator_not_mem_pieces '\n' _ piece cut), by simpa using visible⟩

end Intent

end SourceAtlas
