import SourceAtlas.Proofs.Diagram.Intent
set_option autoImplicit false

namespace SourceAtlas

namespace Text

/-- The lines of a text: what stands before, between and behind its line feeds. -/
def feedLines (text : String) : List (List Char) :=
  text.toList.splitOn '\n'

/-- Lines with blank lines put between them and blanks put at their ends. -/
inductive SpacedOut : List (List Char) → List (List Char) → Prop
  | nil : SpacedOut [] []
  | between {blank : List Char} {lines spaced : List (List Char)}
      (clear : isBlankLine blank = true) (rest : SpacedOut lines spaced) :
      SpacedOut lines (blank :: spaced)
  | around {before line after : List Char} {lines spaced : List (List Char)}
      (left : isBlankLine before = true) (right : isBlankLine after = true)
      (rest : SpacedOut lines spaced) :
      SpacedOut (line :: lines) ((before ++ line ++ after) :: spaced)

theorem feedLines_eq (text : String) : feedLines text = pieces '\n' text.toList := by
  have cut := List.splitOn_intercalate '\n' (separator_not_mem_pieces '\n' text.toList)
    (pieces_ne_nil '\n' text.toList)
  rwa [← joined_eq_intercalate, joined_pieces] at cut

theorem feedLines_append (first second : String) :
    feedLines (first ++ "\n" ++ second) = feedLines first ++ feedLines second := by
  have feed : (first ++ "\n" ++ second).toList = first.toList ++ '\n' :: second.toList := by simp
  rw [feedLines_eq, feed, pieces_append, ← feedLines_eq, ← feedLines_eq]

theorem feedLines_single {text : String} (single : '\n' ∉ text.toList) :
    feedLines text = [text.toList] := by
  rw [feedLines_eq, pieces_of_not_mem '\n' _ single]

theorem trim_eq_nil_iff (cs : List Char) : trim cs = [] ↔ isBlankLine cs = true := by
  rw [trim, trimEnd_eq_nil_iff, trimStart, ink_dropWhile, isBlankLine_iff]

theorem trim_around {before after : List Char} (line : List Char)
    (left : isBlankLine before = true) (right : isBlankLine after = true) :
    trim (before ++ line ++ after) = trim line := by
  have start : trimStart (before ++ (line ++ after)) = trimStart (line ++ after) :=
    List.dropWhile_append_of_pos (List.all_eq_true.1 left)
  rw [List.append_assoc, trim, start, ← trim, trim_eq_trimStart,
    trimEnd_append_blanks line (ink_of_isBlankLine right), ← trim_eq_trimStart]

theorem exists_around_trim (cs : List Char) : ∃ before after,
    isBlankLine before = true ∧ isBlankLine after = true ∧ before ++ trim cs ++ after = cs := by
  let behind := trimStart cs
  refine ⟨cs.takeWhile isBlank, (behind.reverse.takeWhile isBlank).reverse, ?_, ?_, ?_⟩
  · exact List.all_takeWhile
  · rw [isBlankLine, List.all_reverse]
    exact List.all_takeWhile
  · have ends : trimEnd behind ++ (behind.reverse.takeWhile isBlank).reverse = behind := by
      rw [trimEnd, ← List.reverse_append, List.takeWhile_append_dropWhile, List.reverse_reverse]
    rw [List.append_assoc, trim, ends]
    exact List.takeWhile_append_dropWhile

theorem SpacedOut.cons {lines spaced : List (List Char)} (line : List Char)
    (rest : SpacedOut lines spaced) : SpacedOut (line :: lines) (line :: spaced) := by
  have bare : SpacedOut (line :: lines) (([] ++ line ++ []) :: spaced) := .around rfl rfl rest
  simpa using bare

theorem SpacedOut.refl (lines : List (List Char)) : SpacedOut lines lines := by
  induction lines with
  | nil => exact .nil
  | cons line lines ih => exact .cons line ih

end Text

namespace Intent

open Text (feedLines SpacedOut isBlankLine)

def shown (lines : List (List Char)) : List (List Char) :=
  (lines.map Text.trim).filter fun line => !line.isEmpty

theorem visibleLines_eq_shown (text : String) : visibleLines text = shown (feedLines text) := by
  rw [visibleLines, shown, Text.feedLines_eq]

theorem shown_cons_blank {line : List Char} (blank : isBlankLine line = true)
    (lines : List (List Char)) : shown (line :: lines) = shown lines := by
  rw [shown, List.map_cons, (Text.trim_eq_nil_iff line).2 blank]
  rfl

theorem shown_cons_visible {line : List Char} (visible : isBlankLine line = false)
    (lines : List (List Char)) : shown (line :: lines) = Text.trim line :: shown lines := by
  have visible : Text.trim line ≠ [] := by
    rw [Ne, Text.trim_eq_nil_iff, visible]
    decide
  rw [shown, List.map_cons, List.filter_cons_of_pos (by simpa using visible), shown]

theorem length_shown (lines : List (List Char)) :
    (shown lines).length = (lines.filter fun line => !isBlankLine line).length := by
  induction lines with
  | nil => rfl
  | cons line lines ih =>
    cases visible : isBlankLine line with
    | true => rw [shown_cons_blank visible, ih, List.filter_cons_of_neg (by simp [visible])]
    | false =>
      rw [shown_cons_visible visible, List.filter_cons_of_pos (by simp [visible]),
        List.length_cons, List.length_cons, ih]

theorem shown_spacedOut {lines spaced : List (List Char)} (out : SpacedOut lines spaced) :
    shown spaced = shown lines := by
  induction out with
  | nil => rfl
  | between clear _ ih => rw [shown_cons_blank clear, ih]
  | @around before line after lines spaced left right _ ih =>
    have same := Text.trim_around line left right
    unfold shown at ih ⊢
    rw [List.map_cons, List.map_cons, same, List.filter_cons, List.filter_cons, ih]

theorem spacedOut_shown (lines : List (List Char)) : SpacedOut (shown lines) lines := by
  induction lines with
  | nil => exact .nil
  | cons line lines ih =>
    cases visible : isBlankLine line with
    | true =>
      rw [shown_cons_blank visible]
      exact .between visible ih
    | false =>
      rw [shown_cons_visible visible]
      obtain ⟨before, after, left, right, whole⟩ := Text.exists_around_trim line
      have out : SpacedOut (Text.trim line :: shown lines)
          ((before ++ Text.trim line ++ after) :: lines) := .around left right ih
      rwa [whole] at out

def IsNeat (line : List Char) : Prop :=
  Text.IsPlain (String.ofList line) ∧ line ≠ []

theorem IsNeat.trim {line : List Char} (neat : IsNeat line) : Text.trim line = line := by
  have plain := neat.1.trim
  rwa [String.toList_ofList] at plain

theorem IsNeat.single {line : List Char} (neat : IsNeat line) : '\n' ∉ line := by
  have plain := neat.1.single
  rwa [String.toList_ofList] at plain

theorem IsNeat.start {line : List Char} (neat : IsNeat line) :
    ∀ c, line.head? = some c → Text.isBlank c = false := by
  have plain := neat.1.start
  rwa [String.toList_ofList] at plain

theorem IsNeat.last {line : List Char} (neat : IsNeat line) :
    ∀ c, line.getLast? = some c → Text.isBlank c = false := by
  have plain := neat.1.last
  rwa [String.toList_ofList] at plain

theorem IsNeat.visible {line : List Char} (neat : IsNeat line) : isBlankLine line = false := by
  rw [Bool.eq_false_iff, Ne, ← Text.trim_eq_nil_iff, neat.trim]
  exact neat.2

theorem shown_neat {lines : List (List Char)} (neat : ∀ line ∈ lines, IsNeat line) :
    shown lines = lines := by
  induction lines with
  | nil => rfl
  | cons line lines ih =>
    rw [List.forall_mem_cons] at neat
    rw [shown_cons_visible neat.1.visible, neat.1.trim, ih neat.2]

theorem visibleLines_eq_iff (text : String) (lines : List (List Char)) :
    visibleLines text = lines ↔ (∀ line ∈ lines, IsNeat line) ∧ SpacedOut lines (feedLines text) := by
  constructor
  · rintro rfl
    refine ⟨fun line listed => plain_of_mem_visibleLines listed, ?_⟩
    rw [visibleLines_eq_shown]
    exact spacedOut_shown _
  · rintro ⟨neat, out⟩
    rw [visibleLines_eq_shown, shown_spacedOut out, shown_neat neat]

/-- The lines of an intent one below the other. -/
def text (intent : Intent) : String :=
  intent.name ++ "\n" ++ intent.path ++ "\n" ++ intent.responsibility

structure IsTold (intent : Intent) (lines : List (List Char)) : Prop where
  neat : ∀ line ∈ lines, IsNeat line
  parts : ∃ rest, lines = intent.name.toList :: intent.path.toList :: rest ∧
    intent.responsibility.toList = Text.joined '\n' rest

theorem ofText?_visibleLines (text : String) (color : Option String) (intent : Intent) :
    ofText? text color = some intent ↔ intent.color = color ∧ ∃ rest,
      visibleLines text = intent.name.toList :: intent.path.toList :: rest ∧
        intent.responsibility.toList = Text.joined '\n' rest := by
  obtain ⟨name, path, responsibility, tint⟩ := intent
  unfold ofText?
  constructor
  · intro called
    split at called
    · next first second rest lines =>
      cases called
      exact ⟨rfl, rest, by simp [lines]⟩
    · cases called
  · rintro ⟨rfl, rest, lines, joins⟩
    simp only at lines joins
    simp only [lines, ← joins, String.ofList_toList]

/-- A text calls for an intent just when it comes from the lines of the intent by spacing them
out. -/
theorem ofText?_eq_some_iff (text : String) (color : Option String) (intent : Intent) :
    ofText? text color = some intent ↔
      intent.color = color ∧ ∃ lines, intent.IsTold lines ∧ SpacedOut lines (feedLines text) := by
  rw [ofText?_visibleLines]
  refine and_congr_right fun _ => ?_
  constructor
  · rintro ⟨rest, lines, joins⟩
    obtain ⟨neat, out⟩ := (visibleLines_eq_iff text _).1 lines
    exact ⟨_, ⟨neat, rest, rfl, joins⟩, out⟩
  · rintro ⟨_, ⟨neat, rest, rfl, joins⟩, out⟩
    exact ⟨rest, (visibleLines_eq_iff text _).2 ⟨neat, out⟩, joins⟩

theorem IsTold.spacedOut_text {intent : Intent} {lines : List (List Char)}
    (told : intent.IsTold lines) : SpacedOut lines (feedLines intent.text) := by
  obtain ⟨neat, rest, rfl, joins⟩ := told
  rw [List.forall_mem_cons, List.forall_mem_cons] at neat
  obtain ⟨name, path, isRest⟩ := neat
  have behind : SpacedOut rest (feedLines intent.responsibility) := by
    rw [Text.feedLines_eq, joins]
    cases rest with
    -- The line feed behind the path stays, with an empty line after it.
    | nil => exact .between rfl .nil
    | cons first others =>
      rw [Text.pieces_joined '\n' _ (List.cons_ne_nil _ _) fun line listed => (isRest line listed).single]
      exact .refl _
  rw [text, Text.feedLines_append, Text.feedLines_append, Text.feedLines_single name.single,
    Text.feedLines_single path.single]
  exact .cons _ (.cons _ behind)

theorem ofText?_eq_none_iff (text : String) (color : Option String) :
    ofText? text color = none ↔ ((feedLines text).filter fun line => !isBlankLine line).length < 2 := by
  rw [← length_shown, ← visibleLines_eq_shown, ofText?]
  split
  · next lines => simp [lines]
  · next few =>
    simp only [true_iff]
    cases lines : visibleLines text with
    | nil => decide
    | cons first more =>
      cases more with
      | nil => simp
      | cons second rest => exact absurd lines (few first second rest)

/-- A text calls for nothing just when it has fewer than two lines that are not blank. The lines of
an intent that a text calls for are a text that calls for it, too, and spacing a text out does not
change what it calls for. -/
theorem ofText?_normal (color : Option String) :
    (∀ text, ofText? text color = none ↔
      ((feedLines text).filter fun line => !isBlankLine line).length < 2) ∧
    (∀ text intent, ofText? text color = some intent →
      ofText? intent.text color = some intent) ∧
    ∀ text other, SpacedOut (feedLines text) (feedLines other) →
      ofText? other color = ofText? text color := by
  refine ⟨fun text => ofText?_eq_none_iff text color, fun text intent called => ?_,
    fun text other out => ?_⟩
  · obtain ⟨tint, lines, told, -⟩ := (ofText?_eq_some_iff text color intent).1 called
    exact (ofText?_eq_some_iff intent.text color intent).2 ⟨tint, lines, told, told.spacedOut_text⟩
  · have same : visibleLines other = visibleLines text := by
      rw [visibleLines_eq_shown, visibleLines_eq_shown, shown_spacedOut out]
    rw [ofText?, ofText?, same]

/-- A text with an inner carriage return and nothing behind the path, spaced out by a blank line of
two kinds of blanks and by margins. -/
theorem ofText?_normal_spaced :
    let text := "Name\rof it\npath.py"
    let other := " \u2003\n\tName\rof it \r\npath.py\u0085\n"
    let intent : Intent := ⟨"Name\rof it", "path.py", "", some "3"⟩
    (ofText? text (some "3") = some intent ∧ SpacedOut (feedLines text) (feedLines other)) ∧
      ofText? intent.text (some "3") = some intent ∧
      ofText? other (some "3") = ofText? text (some "3") := by
  intro text other intent
  have called : ofText? text (some "3") = some intent := by decide +kernel
  have spread : feedLines other =
      [[' ', '\u2003'], ['\t'] ++ "Name\rof it".toList ++ [' ', '\r'],
        [] ++ "path.py".toList ++ ['\u0085'], []] := by decide +kernel
  have lines : feedLines text = ["Name\rof it".toList, "path.py".toList] := by decide +kernel
  have out : SpacedOut (feedLines text) (feedLines other) := by
    rw [lines, spread]
    exact .between rfl (.around rfl rfl (.around rfl rfl (.between rfl .nil)))
  exact ⟨⟨called, out⟩, (ofText?_normal (some "3")).2.1 text intent called,
    (ofText?_normal (some "3")).2.2 text other out⟩

end Intent

end SourceAtlas
