import SourceAtlas.Proofs.Python.Docstring
set_option autoImplicit false

namespace SourceAtlas.Python

open SourceAtlas.Text

theorem pieces_expandTabs (raw : List Char) :
    pieces '\n' (expandTabs raw) = (pieces '\n' raw).map expandTabs := by
  have clean : ∀ line ∈ (pieces '\n' raw).map expandTabs, '\n' ∉ line := by
    intro line listed
    obtain ⟨piece, cut, rfl⟩ := List.mem_map.1 listed
    exact expandTabs_single (separator_not_mem_pieces '\n' raw piece cut)
  conv => lhs; rw [← joined_pieces '\n' raw, expandTabs_joined]
  exact pieces_joined '\n' _ (by simp [pieces_ne_nil]) clean

structure IsMargin (lines : List (List Char)) (width : Nat) : Prop where
  shared : ∀ line ∈ lines, ink line ≠ [] → List.replicate width ' ' <+: line
  reached : (∃ line ∈ lines, ink line ≠ []) → ∃ line ∈ lines, ink line ≠ [] ∧ indentation line = width

theorem replicate_isPrefix_iff (width : Nat) (line : List Char) :
    List.replicate width ' ' <+: line ↔ width ≤ indentation line := by
  induction line generalizing width with
  | nil => cases width <;> simp [indentation, List.replicate_succ]
  | cons c line ih =>
    cases width with
    | zero => simp
    | succ width =>
      rw [List.replicate_succ, List.cons_prefix_cons, ih, indentation, indentation]
      by_cases space : c = ' '
      · simp [space]
      · simp [space, Ne.symm space]

theorem indentation_append (width : Nat) (line : List Char) :
    indentation (List.replicate width ' ' ++ line) = width + indentation line := by
  rw [indentation, List.takeWhile_append_of_pos (by simp), List.length_append, List.length_replicate,
    indentation]

theorem isMargin_margin (lines : List (List Char)) : IsMargin lines (margin lines) := by
  have listed {width : Nat} : width ∈ (lines.filter fun line => !isBlankLine line).map indentation ↔
      ∃ line ∈ lines, ink line ≠ [] ∧ indentation line = width := by
    simp [isBlankLine_iff, ← Bool.not_eq_true, and_assoc]
  rw [margin]
  cases least : ((lines.filter fun line => !isBlankLine line).map indentation).min? with
  | none =>
    have blank : ¬ ∃ line ∈ lines, ink line ≠ [] := by
      rintro ⟨line, held, visible⟩
      have bound := listed.2 ⟨line, held, visible, rfl⟩
      rw [List.min?_eq_none_iff.1 least] at bound
      exact List.not_mem_nil bound
    exact ⟨fun line held visible => absurd ⟨line, held, visible⟩ blank, fun bound => absurd bound blank⟩
  | some width =>
    obtain ⟨reached, below⟩ := List.min?_eq_some_iff.1 least
    refine ⟨fun line held visible => ?_, fun _ => listed.1 reached⟩
    rw [replicate_isPrefix_iff]
    exact below _ (listed.2 ⟨line, held, visible, rfl⟩)

theorem margin_le_indentation {lines : List (List Char)} {line : List Char} (held : line ∈ lines)
    (visible : ink line ≠ []) : margin lines ≤ indentation line :=
  (replicate_isPrefix_iff ..).1 ((isMargin_margin lines).shared line held visible)

theorem IsMargin.eq {lines : List (List Char)} {width other : Nat} (isMargin : IsMargin lines width)
    (isOther : IsMargin lines other) (shows : ∃ line ∈ lines, ink line ≠ []) : width = other := by
  obtain ⟨line, held, visible, rfl⟩ := isMargin.reached shows
  obtain ⟨line', held', visible', rfl⟩ := isOther.reached shows
  have le := (replicate_isPrefix_iff ..).1 (isMargin.shared line' held' visible')
  have ge := (replicate_isPrefix_iff ..).1 (isOther.shared line held visible)
  omega

def cutAt (width : Nat) (line : List Char) : List Char :=
  trimEnd (line.drop width)

theorem cutAt_of_blank {line : List Char} (blank : ink line = []) (width : Nat) :
    cutAt width line = [] := by
  rw [cutAt, trimEnd_eq_nil_iff, ink_eq_nil_iff]
  exact fun c mem => (ink_eq_nil_iff line).1 blank c (List.mem_of_mem_drop mem)

theorem cutMargin_eq_cutAt {lines : List (List Char)} {line : List Char} (held : line ∈ lines) :
    cutMargin (margin lines) line = cutAt (margin lines) line := by
  by_cases visible : ink line = []
  · rw [cutAt_of_blank visible, cutMargin, trimEnd_eq_nil_iff, ink_eq_nil_iff]
    exact fun c mem => (ink_eq_nil_iff line).1 visible c (List.mem_of_mem_drop mem)
  · rw [cutMargin, Nat.min_eq_left (margin_le_indentation held visible), cutAt]

def marginless : List (List Char) → List (List Char)
  | [] => []
  | first :: rest => trim first :: rest.map (cutAt (margin rest))

theorem shownLines_eq_marginless (all : List (List Char)) :
    shownLines all = dropBlankEnds (marginless all) := by
  cases all with
  | nil => rfl
  | cons first rest =>
    rw [shownLines, List.map_congr_left fun _ held => cutMargin_eq_cutAt held]
    rfl

theorem cleanLines_eq_marginless (raw : List Char) :
    cleanLines raw = dropBlankEnds (marginless ((pieces '\n' raw).map expandTabs)) := by
  rw [cleanLines_eq_pieces, shownLines_map_trimEnd, pieces_expandTabs, shownLines_eq_marginless]

/-- A text with so many spaces more behind every line feed. -/
def deepened (depth : Nat) (raw : List Char) : List Char :=
  raw.flatMap fun c => if c = '\n' then '\n' :: List.replicate depth ' ' else [c]

theorem pieces_deepened (depth : Nat) {raw first : List Char} {rest : List (List Char)}
    (cut : pieces '\n' raw = first :: rest) :
    pieces '\n' (deepened depth raw) = first :: rest.map (List.replicate depth ' ' ++ ·) := by
  induction raw generalizing first rest with
  | nil =>
    obtain ⟨rfl, rfl⟩ := List.cons.inj cut
    rfl
  | cons c raw ih =>
    rw [deepened, List.flatMap_cons, ← deepened]
    obtain ⟨rfl, rfl, rfl⟩ | ⟨other, head, rfl, behind⟩ := pieces_cons_cases cut
    · obtain ⟨head, more, behind⟩ := List.exists_cons_of_ne_nil (pieces_ne_nil '\n' raw)
      have spaces : '\n' ∉ List.replicate depth ' ' := by simp
      rw [if_pos rfl, List.cons_append, ← List.nil_append ('\n' :: _), pieces_append,
        pieces_prepend '\n' spaces (ih behind), behind]
      rfl
    · rw [if_neg other, pieces_prepend '\n' (by simpa using Ne.symm other) (ih behind)]
      rfl

theorem expandTabs_deeper (depth : Nat) (line : List Char) :
    expandTabs (List.replicate depth ' ' ++ line) = List.replicate depth ' ' ++ expandTabs line := by
  induction depth with
  | zero => rfl
  | succ depth ih =>
    rw [List.replicate_succ, List.cons_append, expandTabs_cons (by decide), ih, List.cons_append]

theorem ink_deeper (depth : Nat) (line : List Char) :
    ink (List.replicate depth ' ' ++ line) = ink line := by
  rw [ink_append, (ink_eq_nil_iff _).2, List.nil_append]
  intro c mem
  rw [List.eq_of_mem_replicate mem]
  rfl

theorem IsMargin.deeper {lines : List (List Char)} {width : Nat} (isMargin : IsMargin lines width)
    (depth : Nat) : IsMargin (lines.map (List.replicate depth ' ' ++ ·)) (depth + width) := by
  constructor
  · intro line listed visible
    obtain ⟨original, held, rfl⟩ := List.mem_map.1 listed
    rw [ink_deeper] at visible
    rw [List.replicate_add]
    exact List.prefix_append_right_inj _ |>.2 (isMargin.shared original held visible)
  · rintro ⟨line, listed, visible⟩
    obtain ⟨original, held, rfl⟩ := List.mem_map.1 listed
    rw [ink_deeper] at visible
    obtain ⟨least, held, visible, rfl⟩ := isMargin.reached ⟨original, held, visible⟩
    exact ⟨_, List.mem_map_of_mem held, by rwa [ink_deeper], indentation_append depth least⟩

theorem cutAt_deeper (depth width : Nat) (line : List Char) :
    cutAt (depth + width) (List.replicate depth ' ' ++ line) = cutAt width line := by
  rw [cutAt, ← List.drop_drop, List.drop_left' List.length_replicate, cutAt]

theorem map_cutAt_deeper (depth : Nat) (lines : List (List Char)) :
    (lines.map (List.replicate depth ' ' ++ ·)).map
        (cutAt (margin (lines.map (List.replicate depth ' ' ++ ·)))) =
      lines.map (cutAt (margin lines)) := by
  rw [List.map_map]
  refine List.map_congr_left fun line held => ?_
  rw [Function.comp_apply]
  by_cases visible : ink line = []
  · rw [cutAt_of_blank visible, cutAt_of_blank (by rwa [ink_deeper])]
  · have shows : ∃ line ∈ lines.map (List.replicate depth ' ' ++ ·), ink line ≠ [] :=
      ⟨_, List.mem_map_of_mem held, by rwa [ink_deeper]⟩
    rw [(isMargin_margin _).eq ((isMargin_margin lines).deeper depth) shows, cutAt_deeper]

theorem cleanDocstring_deepened (depth : Nat) (raw : List Char) :
    cleanDocstring (deepened depth raw) = cleanDocstring raw := by
  rw [cleanDocstring, cleanDocstring, cleanLines_eq_marginless, cleanLines_eq_marginless]
  cases cut : pieces '\n' raw with
  | nil => exact absurd cut (pieces_ne_nil '\n' raw)
  | cons first rest =>
    have tabs : (rest.map (List.replicate depth ' ' ++ ·)).map expandTabs =
        (rest.map expandTabs).map (List.replicate depth ' ' ++ ·) := by
      rw [List.map_map, List.map_map]
      exact List.map_congr_left fun line _ => expandTabs_deeper depth line
    rw [pieces_deepened depth cut, List.map_cons, List.map_cons, marginless, marginless, tabs,
      map_cutAt_deeper]

theorem dropBlankEnds_between (lines : List (List Char)) : ∃ above below,
    lines = above ++ dropBlankEnds lines ++ below ∧ ∀ line ∈ above ++ below, ink line = [] := by
  refine ⟨lines.takeWhile isBlankLine,
    ((lines.dropWhile isBlankLine).reverse.takeWhile isBlankLine).reverse, ?_, ?_⟩
  · rw [dropBlankEnds, List.append_assoc, ← List.reverse_append, List.takeWhile_append_dropWhile,
      List.reverse_reverse, List.takeWhile_append_dropWhile]
  · intro line listed
    rw [← isBlankLine_iff]
    rcases List.mem_append.1 listed with above | below
    · exact List.mem_takeWhile_imp above
    · exact List.mem_takeWhile_imp (List.mem_reverse.1 below)

theorem dropBlankEnds_last {lines : List (List Char)} {line : List Char}
    (last : (dropBlankEnds lines).getLast? = some line) : ink line ≠ [] := by
  rw [dropBlankEnds, List.getLast?_reverse] at last
  have stops := List.head?_dropWhile_not isBlankLine (lines.dropWhile isBlankLine).reverse
  rw [last] at stops
  rw [Ne, ← isBlankLine_iff]
  simpa using stops

theorem dropBlankEnds_head {lines : List (List Char)} {line : List Char}
    (head : (dropBlankEnds lines).head? = some line) : ink line ≠ [] := by
  have isPrefix : dropBlankEnds lines <+: lines.dropWhile isBlankLine := by
    have ends := List.reverse_prefix.2
      (@List.dropWhile_suffix _ (lines.dropWhile isBlankLine).reverse isBlankLine)
    rwa [List.reverse_reverse] at ends
  obtain ⟨below, whole⟩ := isPrefix
  have stops := List.head?_dropWhile_not isBlankLine lines
  rw [← whole, List.head?_append, head, Option.some_or] at stops
  rw [Ne, ← isBlankLine_iff]
  simpa using stops

theorem mem_of_mem_dropBlankEnds {lines : List (List Char)} {line : List Char}
    (held : line ∈ dropBlankEnds lines) : line ∈ lines := by
  obtain ⟨above, below, whole, -⟩ := dropBlankEnds_between lines
  rw [whole]
  exact List.mem_append_left below (List.mem_append_right above held)

theorem tab_not_mem_expandTabs (cs : List Char) : '\t' ∉ expandTabs cs := by
  intro mem
  obtain ⟨c, -, mem⟩ := List.mem_flatMap.1 mem
  split at mem
  · exact absurd (List.eq_of_mem_replicate mem) (by decide)
  · next other => exact other (List.mem_singleton.1 mem).symm

theorem mem_of_mem_cutAt {width : Nat} {line : List Char} {c : Char} (mem : c ∈ cutAt width line) :
    c ∈ line :=
  List.mem_of_mem_drop ((trimEnd_isPrefix _).subset mem)

theorem trimEnd_trim (cs : List Char) : trimEnd (trim cs) = trim cs :=
  trimEnd_trimEnd (trimStart cs)

theorem marginless_cases {lines : List (List Char)} {line : List Char} (held : line ∈ marginless lines) :
    trimEnd line = line ∧ ∃ original ∈ lines, line ⊆ original := by
  cases lines with
  | nil => exact absurd held List.not_mem_nil
  | cons first rest =>
    rcases List.mem_cons.1 held with rfl | behind
    · exact ⟨trimEnd_trim first, first, List.mem_cons_self .., fun _ => mem_of_mem_trim⟩
    · obtain ⟨original, listed, rfl⟩ := List.mem_map.1 behind
      exact ⟨trimEnd_trimEnd _, original, List.mem_cons_of_mem _ listed, fun _ => mem_of_mem_cutAt⟩

theorem cleanLines_neat {raw line : List Char} (held : line ∈ cleanLines raw) :
    trimEnd line = line ∧ '\n' ∉ line ∧ '\t' ∉ line := by
  rw [cleanLines_eq_marginless] at held
  obtain ⟨trimmed, original, listed, inside⟩ := marginless_cases (mem_of_mem_dropBlankEnds held)
  refine ⟨trimmed, fun mem => ?_, fun mem => ?_⟩
  · rw [← pieces_expandTabs] at listed
    exact separator_not_mem_pieces '\n' _ original listed (inside mem)
  · obtain ⟨piece, -, rfl⟩ := List.mem_map.1 listed
    exact tab_not_mem_expandTabs piece (inside mem)

theorem pieces_cleanDocstring {raw : List Char} (nonempty : cleanLines raw ≠ []) :
    pieces '\n' (cleanDocstring raw) = cleanLines raw :=
  pieces_joined '\n' _ nonempty fun _ held => (cleanLines_neat held).2.1

/-- The lines of a documentation string are those of its text, cut at the margin. -/
structure Shows (raw shown : List Char) : Prop where
  tabless : '\t' ∉ shown
  trimmed : ∀ line ∈ pieces '\n' shown, trimEnd line = line
  ends : shown ≠ [] → (∀ line, (pieces '\n' shown).head? = some line → ink line ≠ []) ∧
    ∀ line, (pieces '\n' shown).getLast? = some line → ink line ≠ []
  whole : ink shown = ink raw
  cut : ∃ first rest width above below, pieces '\n' raw = first :: rest ∧
    IsMargin (rest.map expandTabs) width ∧ (∀ line ∈ above ++ below, ink line = []) ∧
    trim (expandTabs first) :: rest.map (fun line => trimEnd ((expandTabs line).drop width)) =
      above ++ pieces '\n' shown ++ below

theorem cleanDocstring_between {raw first : List Char} {rest : List (List Char)}
    (split : pieces '\n' raw = first :: rest) : ∃ above below, (∀ line ∈ above ++ below, ink line = []) ∧
      marginless ((first :: rest).map expandTabs) = above ++ pieces '\n' (cleanDocstring raw) ++ below := by
  obtain ⟨above, below, whole, blank⟩ := dropBlankEnds_between (marginless ((first :: rest).map expandTabs))
  rw [← split, ← cleanLines_eq_marginless, split] at whole
  by_cases empty : cleanLines raw = []
  · -- Nothing is shown, which is one empty line.
    rw [empty, List.append_nil] at whole
    have starts : trim (expandTabs first) = [] := by
      rw [← trimEnd_trim, trimEnd_eq_nil_iff]
      exact blank _ (whole ▸ List.mem_cons_self ..)
    refine ⟨[], _, fun line listed => blank line (whole ▸ List.mem_cons_of_mem _ listed), ?_⟩
    rw [cleanDocstring, empty, List.map_cons, marginless, starts]
    rfl
  · rw [pieces_cleanDocstring empty]
    exact ⟨above, below, blank, whole⟩

theorem cleanDocstring_trimmed {raw line : List Char} (listed : line ∈ pieces '\n' (cleanDocstring raw)) :
    trimEnd line = line := by
  by_cases empty : cleanLines raw = []
  · rw [cleanDocstring, empty] at listed
    rw [List.mem_singleton.1 listed]
    rfl
  · rw [pieces_cleanDocstring empty] at listed
    exact (cleanLines_neat listed).1

theorem tab_not_mem_cleanDocstring (raw : List Char) : '\t' ∉ cleanDocstring raw := by
  intro mem
  rcases mem_joined mem with feed | ⟨line, held, mem⟩
  · cases feed
  · exact (cleanLines_neat held).2.2 mem

theorem cleanDocstring_ends {raw : List Char} (shows : cleanDocstring raw ≠ []) :
    (∀ line, (pieces '\n' (cleanDocstring raw)).head? = some line → ink line ≠ []) ∧
      ∀ line, (pieces '\n' (cleanDocstring raw)).getLast? = some line → ink line ≠ [] := by
  have full : cleanLines raw ≠ [] := fun empty => shows (by rw [cleanDocstring, empty]; rfl)
  rw [pieces_cleanDocstring full, cleanLines_eq_marginless]
  exact ⟨fun _ => dropBlankEnds_head, fun _ => dropBlankEnds_last⟩

/-- How a documentation string is shown does not depend on how deep its lines are indented. -/
theorem cleanDocstring_shows (raw : List Char) (depth : Nat) :
    cleanDocstring (deepened depth raw) = cleanDocstring raw ∧ Shows raw (cleanDocstring raw) := by
  obtain ⟨first, rest, split⟩ := List.exists_cons_of_ne_nil (pieces_ne_nil '\n' raw)
  obtain ⟨above, below, blank, whole⟩ := cleanDocstring_between split
  refine ⟨cleanDocstring_deepened depth raw, ?_⟩
  exact
    { tabless := tab_not_mem_cleanDocstring raw
      trimmed := fun _ => cleanDocstring_trimmed
      ends := cleanDocstring_ends
      whole := ink_cleanDocstring raw
      cut := by
        refine ⟨first, rest, _, above, below, split, isMargin_margin _, blank, ?_⟩
        rw [← whole, List.map_cons, marginless, List.map_map]
        rfl }

end SourceAtlas.Python
