import SourceAtlas.Proofs.Python.Margin
set_option autoImplicit false

namespace SourceAtlas.Python

open SourceAtlas.Text

def fillTabs : Nat → List Char → List Char
  | _, [] => []
  | column, c :: cs =>
    if c = '\t' then
      List.replicate (8 - column % 8) ' ' ++ fillTabs (column + (8 - column % 8)) cs
    else if c = '\n' ∨ c = '\r' then c :: fillTabs 0 cs
    else c :: fillTabs (column + 1) cs

def dropSpaces (line : List Char) : List Char :=
  line.dropWhile (· == ' ')

def leastIndent? (lines : List (List Char)) : Option Nat :=
  ((lines.filter fun line => dropSpaces line != []).map fun line =>
    line.length - (dropSpaces line).length).min?

def unindented (lines : List (List Char)) : List (List Char) :=
  match leastIndent? lines with
  | none => lines
  | some width => lines.map (List.drop width)

def dropEmptyEnds (lines : List (List Char)) : List (List Char) :=
  ((lines.reverse.dropWhile List.isEmpty).reverse).dropWhile List.isEmpty

/-- How documentation strings are cleaned where they are inspected. -/
def cleandoc (raw : List Char) : List Char :=
  match pieces '\n' (fillTabs 0 raw) with
  | [] => []
  | first :: rest => joined '\n' (dropEmptyEnds (dropSpaces first :: unindented rest))

/-- A text less the blank ends of its lines and the blank lines at both ends. -/
def bare (text : List Char) : List Char :=
  joined '\n' (dropBlankEnds ((pieces '\n' text).map trimEnd))

theorem fillTabs_tab (column : Nat) (cs : List Char) : fillTabs column ('\t' :: cs) =
    List.replicate (8 - column % 8) ' ' ++ fillTabs (column + (8 - column % 8)) cs :=
  if_pos rfl

theorem ink_fillTabs (column : Nat) (cs : List Char) : ink (fillTabs column cs) = ink cs := by
  induction cs generalizing column with
  | nil => rfl
  | cons c cs ih =>
    rw [fillTabs]
    split
    · next tab =>
      subst tab
      rw [ink_deeper, ih, ink_cons_blank (by decide)]
    split
    · exact ink_cons_congr (ih 0) c
    · exact ink_cons_congr (ih _) c

theorem pieces_fillTabs (column : Nat) {raw first : List Char} {rest : List (List Char)}
    (cut : pieces '\n' raw = first :: rest) :
    pieces '\n' (fillTabs column raw) = fillTabs column first :: rest.map (fillTabs 0) := by
  induction raw generalizing column first rest with
  | nil =>
    obtain ⟨rfl, rfl⟩ := List.cons.inj cut
    rfl
  | cons c raw ih =>
    obtain ⟨rfl, rfl, rfl⟩ | ⟨other, head, rfl, behind⟩ := pieces_cons_cases cut
    · obtain ⟨head, more, behind⟩ := List.exists_cons_of_ne_nil (pieces_ne_nil '\n' raw)
      have whole := pieces_append '\n' [] (fillTabs 0 raw)
      rw [ih 0 behind] at whole
      rw [behind]
      exact whole
    · have clean : '\n' ∉ [c] := by simpa using Ne.symm other
      rw [fillTabs, fillTabs]
      split
      · exact pieces_prepend '\n' (by simp) (ih _ behind)
      split
      · exact pieces_prepend '\n' clean (ih 0 behind)
      · exact pieces_prepend '\n' clean (ih _ behind)

theorem pieces_filled (raw : List Char) :
    pieces '\n' (fillTabs 0 raw) = (pieces '\n' raw).map (fillTabs 0) := by
  obtain ⟨first, rest, split⟩ := List.exists_cons_of_ne_nil (pieces_ne_nil '\n' raw)
  rw [pieces_fillTabs 0 split, split, List.map_cons]

theorem fillTabs_of_not_mem {cs : List Char} (untabbed : '\t' ∉ cs) (column : Nat) :
    fillTabs column cs = cs := by
  induction cs generalizing column with
  | nil => rfl
  | cons c cs ih =>
    rw [List.mem_cons, not_or] at untabbed
    rw [fillTabs, if_neg (Ne.symm untabbed.1), ih untabbed.2, ih untabbed.2, ite_self]

def TakesOne (c : Char) : Prop :=
  c ≠ '\t' ∧ c ≠ '\n' ∧ c ≠ '\r'

theorem fillTabs_one {c : Char} (one : TakesOne c) (column : Nat) (cs : List Char) :
    fillTabs column (c :: cs) = c :: fillTabs (column + 1) cs := by
  rw [fillTabs, if_neg one.1, if_neg (by simp [one.2])]

def Tabbed (line : List Char) : Prop :=
  ∀ c ∈ line, isBlank c = true → c = ' ' ∨ c = '\t'

theorem Tabbed.cases {c : Char} {cs : List Char} (tabbed : Tabbed (c :: cs)) :
    (c = '\t' ∨ TakesOne c) ∧ Tabbed cs := by
  refine ⟨or_iff_not_imp_left.2 fun other => ⟨other, ?_, ?_⟩,
    fun d mem => tabbed d (List.mem_cons_of_mem _ mem)⟩
  · rintro rfl
    exact absurd (tabbed '\n' (List.mem_cons_self ..) rfl) (by decide)
  · rintro rfl
    exact absurd (tabbed '\r' (List.mem_cons_self ..) rfl) (by decide)

theorem Tabbed.fillTabs_append {front : List Char} (tabbed : Tabbed front) (column : Nat)
    (cs : List Char) : fillTabs column (front ++ cs) =
      fillTabs column front ++ fillTabs (column + (fillTabs column front).length) cs := by
  induction front generalizing column with
  | nil => rfl
  | cons c front ih =>
    obtain ⟨rfl | one, behind⟩ := tabbed.cases
    · rw [List.cons_append, fillTabs_tab, fillTabs_tab, ih behind, List.append_assoc,
        List.length_append, List.length_replicate, Nat.add_assoc]
    · rw [List.cons_append, fillTabs_one one, fillTabs_one one, ih behind, List.cons_append,
        List.length_cons, Nat.add_assoc, Nat.add_comm 1]

def Spaced (line : List Char) : Prop :=
  ∀ c ∈ line, isBlank c = true → c = ' '

theorem Tabbed.spaced_fillTabs {cs : List Char} (tabbed : Tabbed cs) (column : Nat) :
    Spaced (fillTabs column cs) := by
  induction cs generalizing column with
  | nil => nofun
  | cons c cs ih =>
    obtain ⟨rfl | one, behind⟩ := tabbed.cases
    · rw [fillTabs_tab]
      intro d mem blank
      rcases List.mem_append.1 mem with here | mem
      · exact List.eq_of_mem_replicate here
      · exact ih behind _ d mem blank
    · rw [fillTabs_one one]
      intro d mem blank
      rcases List.mem_cons.1 mem with rfl | mem
      · exact (tabbed d (List.mem_cons_self ..) blank).resolve_right one.1
      · exact ih behind _ d mem blank

theorem bare_joined {lines : List (List Char)} (single : ∀ line ∈ lines, '\n' ∉ line) :
    bare (joined '\n' lines) = joined '\n' (dropBlankEnds (lines.map trimEnd)) := by
  cases lines with
  | nil => rfl
  | cons line lines => rw [bare, pieces_joined '\n' _ (by simp) single]

theorem dropEmptyEnds_between (lines : List (List Char)) : ∃ above below,
    lines = above ++ dropEmptyEnds lines ++ below ∧ ∀ line ∈ above ++ below, line = [] := by
  refine ⟨((lines.reverse.dropWhile List.isEmpty).reverse).takeWhile List.isEmpty,
    (lines.reverse.takeWhile List.isEmpty).reverse, ?_, ?_⟩
  · rw [dropEmptyEnds, List.takeWhile_append_dropWhile, ← List.reverse_append,
      List.takeWhile_append_dropWhile, List.reverse_reverse]
  · intro line listed
    rw [← List.isEmpty_iff]
    rcases List.mem_append.1 listed with above | below
    · exact List.mem_takeWhile_imp above
    · exact List.mem_takeWhile_imp (List.mem_reverse.1 below)

theorem mem_of_mem_dropEmptyEnds {lines : List (List Char)} {line : List Char}
    (held : line ∈ dropEmptyEnds lines) : line ∈ lines := by
  obtain ⟨above, below, whole, -⟩ := dropEmptyEnds_between lines
  rw [whole]
  exact List.mem_append_left below (List.mem_append_right above held)

theorem dropBlankEnds_dropEmptyEnds (lines : List (List Char)) :
    dropBlankEnds ((dropEmptyEnds lines).map trimEnd) = dropBlankEnds (lines.map trimEnd) := by
  obtain ⟨above, below, whole, empty⟩ := dropEmptyEnds_between lines
  have blank {ends : List (List Char)} (inside : ends ⊆ above ++ below) :
      ∀ line ∈ ends.map trimEnd, ink line = [] := by
    intro line listed
    obtain ⟨original, held, rfl⟩ := List.mem_map.1 listed
    rw [empty original (inside held)]
    rfl
  conv => rhs; rw [whole]
  rw [List.map_append, List.map_append, dropBlankEnds_below (blank (List.subset_append_right ..)),
    dropBlankEnds_above (blank (List.subset_append_left ..))]

theorem Spaced.dropSpaces_eq {line : List Char} (spaced : Spaced line) :
    dropSpaces line = trimStart line := by
  induction line with
  | nil => rfl
  | cons c line ih =>
    by_cases space : c = ' '
    · subst space
      rw [trimStart_blank ' ' line rfl, ← ih fun d mem => spaced d (List.mem_cons_of_mem _ mem), dropSpaces,
        List.dropWhile_cons_of_pos rfl, dropSpaces]
    · have visible : isBlank c = false :=
        Bool.eq_false_iff.2 fun blank => space (spaced c (List.mem_cons_self ..) blank)
      rw [trimStart_visible c line visible, dropSpaces, List.dropWhile_cons_of_neg (by simpa using space)]

theorem unindented_eq {lines : List (List Char)} (spaced : ∀ line ∈ lines, Spaced line) :
    unindented lines = lines.map (List.drop (margin lines)) := by
  have shown : ∀ line ∈ lines, (dropSpaces line != []) = !isBlankLine line := by
    intro line held
    rw [(spaced line held).dropSpaces_eq, Bool.eq_iff_iff, bne_iff_ne, Bool.not_eq_true', ← Bool.not_eq_true,
      isBlankLine, List.all_eq_true, trimStart, Ne, List.dropWhile_eq_nil_iff]
  have width (line : List Char) : line.length - (dropSpaces line).length = indentation line := by
    have whole := congrArg List.length (List.takeWhile_append_dropWhile (p := (· == ' ')) (l := line))
    rw [List.length_append, ← dropSpaces, ← indentation] at whole
    omega
  have least : leastIndent? lines =
      ((lines.filter fun line => !isBlankLine line).map indentation).min? := by
    rw [leastIndent?, List.filter_congr shown]
    exact congrArg (fun f => (List.map f _).min?) (funext width)
  rw [unindented, least, margin]
  cases ((lines.filter fun line => !isBlankLine line).map indentation).min? with
  | none => exact (List.map_id lines).symm
  | some width => rfl

theorem bare_cleandoc {raw : List Char} (tabbed : ∀ line ∈ pieces '\n' raw, Tabbed line) :
    bare (cleandoc raw) =
      joined '\n' (dropBlankEnds (marginless ((pieces '\n' raw).map (fillTabs 0)))) := by
  obtain ⟨first, rest, split⟩ := List.exists_cons_of_ne_nil (pieces_ne_nil '\n' raw)
  have cut := pieces_fillTabs 0 split
  have clean := separator_not_mem_pieces '\n' (fillTabs 0 raw)
  rw [split] at tabbed
  rw [cut] at clean
  obtain ⟨starts, behind⟩ := List.forall_mem_cons.1 tabbed
  obtain ⟨single, singles⟩ := List.forall_mem_cons.1 clean
  have spaced : ∀ line ∈ rest.map (fillTabs 0), Spaced line :=
    List.forall_mem_map.2 fun line held => (behind line held).spaced_fillTabs 0
  have lines : ∀ line ∈ dropEmptyEnds (dropSpaces (fillTabs 0 first) :: unindented (rest.map (fillTabs 0))),
      '\n' ∉ line := by
    intro line held
    rw [unindented_eq spaced] at held
    rcases List.mem_cons.1 (mem_of_mem_dropEmptyEnds held) with rfl | listed
    · exact fun mem => single ((List.dropWhile_suffix _).subset mem)
    · obtain ⟨original, held', rfl⟩ := List.mem_map.1 listed
      exact fun mem => singles original held' (List.mem_of_mem_drop mem)
  rw [cleandoc, cut]
  dsimp only
  rw [bare_joined lines, dropBlankEnds_dropEmptyEnds, unindented_eq spaced, List.map_cons,
    (starts.spaced_fillTabs 0).dropSpaces_eq, List.map_map, split]
  rfl

end SourceAtlas.Python
