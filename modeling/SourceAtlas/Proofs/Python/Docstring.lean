import Mathlib.Data.List.Induction
import Mathlib.Data.List.TakeWhile
import SourceAtlas.Proofs.Diagram.Intent
import SourceAtlas.Python.Docstring
set_option autoImplicit false

namespace SourceAtlas.Python

open SourceAtlas.Text

theorem ink_expandTabs (cs : List Char) : ink (expandTabs cs) = ink cs := by
  induction cs with
  | nil => rfl
  | cons c cs ih =>
    rw [expandTabs, List.flatMap_cons, ← expandTabs, ink_append, ih]
    split
    · next tab =>
      subst tab
      rfl
    · rw [← ink_append, List.singleton_append]

theorem ink_cutMargin (margin : Nat) (line : List Char) : ink (cutMargin margin line) = ink line := by
  have spaces : ∀ c ∈ line.take (min margin (indentation line)), isBlank c = true := by
    intro c mem
    have inside : line.take (min margin (indentation line)) <+: line.takeWhile (· == ' ') := by
      refine List.prefix_of_prefix_length_le (List.take_prefix ..) (List.takeWhile_prefix _) ?_
      rw [List.length_take, indentation]
      omega
    have space := List.mem_takeWhile_imp (inside.subset mem)
    rw [beq_iff_eq.1 space]
    decide
  rw [cutMargin, ink_trimEnd]
  conv => rhs; rw [← List.take_append_drop (min margin (indentation line)) line, ink_append,
    (ink_eq_nil_iff _).2 spaces, List.nil_append]

theorem inkAll_dropWhile (all : List (List Char)) :
    inkAll (all.dropWhile isBlankLine) = inkAll all := by
  induction all with
  | nil => rfl
  | cons line rest ih =>
    by_cases blank : isBlankLine line = true
    · rw [List.dropWhile_cons_of_pos blank, ih, inkAll_cons, ink_of_isBlankLine blank,
        List.nil_append]
    · rw [List.dropWhile_cons_of_neg blank]

theorem inkAll_dropWhile_end (all : List (List Char)) :
    inkAll (all.reverse.dropWhile isBlankLine).reverse = inkAll all := by
  induction all using List.reverseRecOn with
  | nil => rfl
  | append_singleton rest line ih =>
    rw [List.reverse_append, List.reverse_singleton, List.singleton_append]
    by_cases blank : isBlankLine line = true
    · rw [List.dropWhile_cons_of_pos blank, ih, inkAll_append, inkAll_cons,
        ink_of_isBlankLine blank]
      simp
    · rw [List.dropWhile_cons_of_neg blank]
      simp

theorem inkAll_cleanLines (raw : List Char) : inkAll (cleanLines raw) = ink raw := by
  have whole := (inkAll_lines (expandTabs raw)).trans (ink_expandTabs raw)
  rw [cleanLines]
  cases cut : lines (expandTabs raw) with
  | nil => rw [← whole, cut]
  | cons first rest =>
    rw [cut] at whole
    simp only [dropBlankEnds]
    rw [inkAll_dropWhile_end, inkAll_dropWhile, inkAll_cons, ink_trim,
      inkAll_map_congr rest fun line _ => ink_cutMargin _ line, ← inkAll_cons, whole]

theorem ink_cleanDocstring (raw : List Char) : ink (cleanDocstring raw) = ink raw := by
  rw [cleanDocstring, ink_joined (by decide), inkAll_cleanLines]

@[simp] theorem expandTabs_append (first second : List Char) :
    expandTabs (first ++ second) = expandTabs first ++ expandTabs second :=
  List.flatMap_append

theorem expandTabs_cons {c : Char} (other : c ≠ '\t') (cs : List Char) :
    expandTabs (c :: cs) = c :: expandTabs cs := by
  rw [expandTabs, List.flatMap_cons, if_neg other]
  rfl

theorem ne_tab_of_visible {c : Char} (visible : isBlank c = false) : c ≠ '\t' := by
  rintro rfl
  cases visible

theorem expandTabs_joined (all : List (List Char)) :
    expandTabs (joined '\n' all) = joined '\n' (all.map expandTabs) := by
  induction all with
  | nil => rfl
  | cons piece rest ih =>
    cases rest with
    | nil => rfl
    | cons next more =>
      rw [joined, expandTabs_append, expandTabs_cons (by decide), ih]
      rfl

theorem expandTabs_single {line : List Char} (single : '\n' ∉ line) : '\n' ∉ expandTabs line := by
  intro mem
  obtain ⟨c, held, mem⟩ := List.mem_flatMap.1 mem
  split at mem
  · simp at mem
  · exact single (List.mem_singleton.1 mem ▸ held)

theorem margin_eq_zero {lines : List (List Char)} {line : List Char} (listed : line ∈ lines)
    (visible : isBlankLine line = false) (flush : indentation line = 0) : margin lines = 0 := by
  have held : 0 ∈ (lines.filter fun line => !isBlankLine line).map indentation :=
    List.mem_map.2 ⟨line, List.mem_filter.2 ⟨listed, by simp [visible]⟩, flush⟩
  rw [margin]
  cases least : ((lines.filter fun line => !isBlankLine line).map indentation).min? with
  | none => rfl
  | some n => exact Nat.le_zero.1 ((List.min?_eq_some_iff.1 least).2 0 held)

theorem indentation_dropReturn {c : Char} (visible : isBlank c = false) (cs : List Char) :
    isBlankLine (dropReturn (c :: cs)) = false ∧ indentation (dropReturn (c :: cs)) = 0 := by
  have kept := (ink_dropReturn (c :: cs)).trans (ink_cons_visible visible cs)
  cases cut : dropReturn (c :: cs) with
  | nil =>
    rw [cut] at kept
    cases kept
  | cons d rest =>
    obtain rfl : d = c := (List.cons_prefix_cons.1 (cut ▸ dropReturn_isPrefix (c :: cs))).1
    have apart : (d == ' ') = false := by
      rw [beq_eq_false_iff_ne]
      rintro rfl
      cases visible
    exact ⟨by simp [isBlankLine, visible], by simp [indentation, apart]⟩

theorem cutMargin_zero (line : List Char) : cutMargin 0 line = trimEnd line := by
  rw [cutMargin, Nat.zero_min, List.drop_zero]

theorem trimEnd_expandTabs {line : List Char}
    (last : ∀ c, line.getLast? = some c → isBlank c = false) :
    trimEnd (expandTabs line) = expandTabs line := by
  rcases List.eq_nil_or_concat' line with rfl | ⟨front, c, rfl⟩
  · rfl
  · have visible := last c List.getLast?_concat
    have ends : expandTabs (front ++ [c]) = expandTabs front ++ [c] := by
      rw [expandTabs_append, expandTabs_cons (ne_tab_of_visible visible)]
      rfl
    rw [ends]
    refine trimEnd_visible fun d same => ?_
    rw [List.getLast?_concat] at same
    exact Option.some.inj same ▸ visible

theorem dropBlankEnds_visible {first last : List Char} (middle : List (List Char))
    (visible : ink first ≠ []) (visible' : ink last ≠ []) :
    dropBlankEnds ([] :: first :: middle ++ [last]) = first :: middle ++ [last] := by
  have starts : isBlankLine first = false :=
    Bool.eq_false_iff.2 fun blank => visible (ink_of_isBlankLine blank)
  have ends : isBlankLine last = false :=
    Bool.eq_false_iff.2 fun blank => visible' (ink_of_isBlankLine blank)
  rw [dropBlankEnds, List.cons_append, List.dropWhile_cons_of_pos rfl, List.cons_append,
    List.dropWhile_cons_of_neg (by simp [starts]), ← List.cons_append, List.reverse_append,
    List.reverse_singleton, List.singleton_append, List.dropWhile_cons_of_neg (by simp [ends])]
  simp

/-- Lines without blank ends, of which the first one has no margin, are shown as they are but for
tabs. The last line may have a blank end. -/
theorem cleanDocstring_flush {c : Char} {first last : List Char} {middle : List (List Char)}
    (starts : isBlank c = false) (single : ∀ line ∈ (c :: first) :: middle ++ [last], '\n' ∉ line)
    (full : ∀ line ∈ (c :: first) :: middle, ∀ d, line.getLast? = some d → isBlank d = false)
    (visible : ink last ≠ []) :
    cleanDocstring ('\n' :: joined '\n' ((c :: first) :: middle ++ [last]) ++ ['\n']) =
      trimEnd (expandTabs (joined '\n' ((c :: first) :: middle ++ [last]))) := by
  have clean : ∀ line ∈ ((c :: first) :: middle ++ [last]).map expandTabs, '\n' ∉ line := by
    intro line listed
    obtain ⟨original, held, rfl⟩ := List.mem_map.1 listed
    exact expandTabs_single (single original held)
  have cut : lines (expandTabs ('\n' :: joined '\n' ((c :: first) :: middle ++ [last]) ++ ['\n'])) =
      [] :: (((c :: first) :: middle ++ [last]).map expandTabs).map dropReturn := by
    have tabs : expandTabs ('\n' :: joined '\n' ((c :: first) :: middle ++ [last]) ++ ['\n']) =
        [] ++ '\n' :: joined '\n' (((c :: first) :: middle ++ [last]).map expandTabs) ++ ['\n'] := by
      rw [expandTabs_append, expandTabs_cons (by decide), expandTabs_joined]
      rfl
    rw [tabs, lines_closed, pieces_append, pieces_joined _ _ (by simp) clean]
    rfl
  have margin : margin ((((c :: first) :: middle ++ [last]).map expandTabs).map dropReturn) = 0 := by
    obtain ⟨shows, flush⟩ := indentation_dropReturn starts (expandTabs first)
    rw [← expandTabs_cons (ne_tab_of_visible starts)] at shows flush
    exact margin_eq_zero (List.mem_map_of_mem (List.mem_map_of_mem (List.mem_cons_self ..))) shows flush
  have trimmed : ((((c :: first) :: middle ++ [last]).map expandTabs).map dropReturn).map (cutMargin 0) =
      ((c :: first) :: middle).map expandTabs ++ [trimEnd (expandTabs last)] := by
    have each (line : List Char) : cutMargin 0 (dropReturn (expandTabs line)) = trimEnd (expandTabs line) := by
      rw [cutMargin_zero, trimEnd_dropReturn]
    rw [List.map_map, List.map_map, List.map_append]
    congr 1
    · refine List.map_congr_left fun line listed => (each line).trans ?_
      exact trimEnd_expandTabs (full line listed)
    · exact congrArg (fun line => [line]) (each last)
  rw [cleanDocstring, cleanLines, cut]
  dsimp only
  rw [margin, trimmed]
  have ends : ink (trimEnd (expandTabs last)) ≠ [] := by rwa [ink_trimEnd, ink_expandTabs]
  have begins : ink (expandTabs (c :: first)) ≠ [] := by
    rw [ink_expandTabs, ink_cons_visible starts]
    exact List.cons_ne_nil _ _
  have whole := dropBlankEnds_visible (middle.map expandTabs) begins ends
  have shown : dropBlankEnds (trim [] :: (((c :: first) :: middle).map expandTabs ++
      [trimEnd (expandTabs last)])) =
        ((c :: first) :: middle).map expandTabs ++ [trimEnd (expandTabs last)] := whole
  have separated := trimEnd_append ['\n'] (ink_expandTabs last ▸ visible)
  rw [shown, expandTabs_joined, List.map_append, List.map_singleton, joined_concat (by simp),
    joined_concat (by simp), trimEnd_append _ (by rwa [ink_cons_blank (by decide), ink_expandTabs])]
  exact congrArg (joined '\n' (((c :: first) :: middle).map expandTabs) ++ ·) separated.symm

theorem indentation_trimEnd {line : List Char} (visible : ink line ≠ []) :
    indentation (trimEnd line) = indentation line := by
  induction line with
  | nil => rfl
  | cons c line ih =>
    by_cases space : c = ' '
    · subst space
      rw [ink_cons_blank (by decide)] at visible
      have ends : trimEnd (' ' :: line) = ' ' :: trimEnd line := trimEnd_append [' '] visible
      have inner := ih visible
      simp only [indentation] at inner ⊢
      rw [ends, List.takeWhile_cons_of_pos (by decide), List.takeWhile_cons_of_pos (by decide),
        List.length_cons, List.length_cons, inner]
    · have flush : (c == ' ') = false := beq_eq_false_iff_ne.2 space
      have zero (cs : List Char) : indentation (c :: cs) = 0 := by simp [indentation, flush]
      rw [zero]
      cases cut : trimEnd (c :: line) with
      | nil => rfl
      | cons d rest =>
        obtain ⟨rfl, -⟩ := List.cons_prefix_cons.1 (cut ▸ trimEnd_isPrefix (c :: line))
        exact zero rest

theorem cutMargin_nil (margin : Nat) : cutMargin margin [] = [] := by
  rw [cutMargin, List.drop_nil]
  rfl

theorem cutMargin_trimEnd (margin : Nat) (line : List Char) :
    cutMargin margin (trimEnd line) = cutMargin margin line := by
  by_cases visible : ink line = []
  · have shown := ink_cutMargin margin line
    rw [cutMargin, ink_trimEnd, visible] at shown
    rw [(trimEnd_eq_nil_iff line).2 visible, cutMargin_nil, cutMargin, (trimEnd_eq_nil_iff _).2 shown]
  · rw [cutMargin, cutMargin, indentation_trimEnd visible]
    have short : min margin (indentation line) ≤ line.length :=
      (Nat.min_le_right ..).trans (List.takeWhile_prefix _).length_le
    have shown : ink (line.drop (min margin (indentation line))) ≠ [] := by
      have shown := ink_cutMargin margin line
      rw [cutMargin, ink_trimEnd] at shown
      rwa [shown]
    have whole := trimEnd_append (line.take (min margin (indentation line))) shown
    rw [List.take_append_drop] at whole
    rw [whole, List.drop_left' (List.length_take_of_le short), trimEnd_trimEnd]

theorem margin_map_trimEnd (lines : List (List Char)) : margin (lines.map trimEnd) = margin lines := by
  have shown : (fun line => !isBlankLine line) ∘ trimEnd = fun line => !isBlankLine line :=
    funext fun line => congrArg not (isBlankLine_trimEnd line)
  rw [margin, margin, List.filter_map, shown, List.map_map]
  refine congrArg (fun all => all.min?.getD 0) (List.map_congr_left fun line listed => ?_)
  refine indentation_trimEnd fun blank => ?_
  have visible := (List.mem_filter.1 listed).2
  rw [(isBlankLine_iff line).2 blank] at visible
  cases visible

def shownLines : List (List Char) → List (List Char)
  | [] => []
  | first :: rest => dropBlankEnds (trim first :: rest.map (cutMargin (margin rest)))

theorem cleanLines_eq (raw : List Char) : cleanLines raw = shownLines (lines (expandTabs raw)) := by
  rw [cleanLines]
  cases lines (expandTabs raw) <;> rfl

theorem shownLines_map_trimEnd (all : List (List Char)) :
    shownLines (all.map trimEnd) = shownLines all := by
  cases all with
  | nil => rfl
  | cons first rest =>
    have cut : cutMargin (margin rest) ∘ trimEnd = cutMargin (margin rest) :=
      funext (cutMargin_trimEnd (margin rest))
    rw [List.map_cons, shownLines, shownLines, margin_map_trimEnd, List.map_map, cut,
      trim_eq_trimStart, trimEnd_trimEnd, ← trim_eq_trimStart]

theorem dropBlankEnds_above {above : List (List Char)} (blank : ∀ line ∈ above, ink line = [])
    (lines : List (List Char)) : dropBlankEnds (above ++ lines) = dropBlankEnds lines := by
  rw [dropBlankEnds, List.dropWhile_append_of_pos fun line held => (isBlankLine_iff line).2 (blank line held),
    dropBlankEnds]

theorem dropBlankEnds_below {below : List (List Char)} (blank : ∀ line ∈ below, ink line = [])
    (lines : List (List Char)) : dropBlankEnds (lines ++ below) = dropBlankEnds lines := by
  have blanks : ∀ line ∈ below, isBlankLine line = true := fun line held =>
    (isBlankLine_iff line).2 (blank line held)
  rw [dropBlankEnds, dropBlankEnds, List.dropWhile_append]
  split
  · next empty =>
    rw [List.isEmpty_iff.1 empty, List.dropWhile_eq_nil_iff.2 blanks]
  · rw [List.reverse_append,
      List.dropWhile_append_of_pos fun line held => blanks line (List.mem_reverse.1 held)]

theorem shownLines_concat_nil (all : List (List Char)) :
    shownLines (all ++ [[]]) = shownLines all := by
  cases all with
  | nil => rfl
  | cons first rest =>
    have same : margin (rest ++ [[]]) = margin rest := by
      rw [margin, margin, List.filter_append]
      simp [isBlankLine]
    have whole := @dropBlankEnds_below [[]] (by simp) (trim first :: rest.map (cutMargin (margin rest)))
    rw [List.cons_append, shownLines, shownLines, same, List.map_append, List.map_singleton, cutMargin_nil]
    exact whole

theorem cleanLines_eq_pieces (raw : List Char) :
    cleanLines raw = shownLines ((pieces '\n' (expandTabs raw)).map trimEnd) := by
  rw [cleanLines_eq, ← shownLines_map_trimEnd, lines]
  have trims : (fun line => trimEnd (dropReturn line)) = trimEnd := funext trimEnd_dropReturn
  cases cut : (pieces '\n' (expandTabs raw)).reverse with
  | nil => exact absurd (List.reverse_eq_nil_iff.1 cut) (pieces_ne_nil '\n' _)
  | cons last ended =>
    have cut : pieces '\n' (expandTabs raw) = ended.reverse ++ [last] := by
      rw [← List.reverse_reverse (pieces '\n' _), cut, List.reverse_cons]
    have whole : (ended.reverse.map dropReturn).map trimEnd = ended.reverse.map trimEnd := by
      rw [List.map_map]
      exact congrArg (List.map · _) trims
    rw [cut, List.map_append, List.map_singleton]
    dsimp only
    split
    · next blank =>
      rw [whole, blank]
      exact (shownLines_concat_nil _).symm
    · rw [List.map_append, whole, List.map_singleton]

end SourceAtlas.Python
