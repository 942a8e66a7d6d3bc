import Mathlib.Data.List.Forall2
import SourceAtlas.Proofs.Python.Cleandoc
set_option autoImplicit false

/-!
# Tab stops

The reference for documentation strings, `cleandoc`, takes tabs to the next column that eight divides,
where the library writes eight spaces for each. Blank ends of lines and of the whole apart, nothing else
is different: both show the same if the tabs between visible characters stand at such columns and those
before them make all lines wider by the same number.
-/

namespace SourceAtlas.Python

open SourceAtlas.Text

def surplus (line : List Char) : Nat :=
  indentation (expandTabs line) - indentation (fillTabs 0 line)

/-- Tabs between visible characters stand at columns that eight divides, and those before them make all
lines but the first wider by the same number of columns. -/
structure TabsFit (raw : List Char) : Prop where
  inner : ∀ line ∈ pieces '\n' raw, ∀ before after, line = before ++ '\t' :: after →
    ink before ≠ [] → ink after ≠ [] → 8 ∣ (fillTabs 0 before).length
  margins : ∀ line ∈ (pieces '\n' raw).tail, ∀ other ∈ (pieces '\n' raw).tail,
    ink line ≠ [] → ink other ≠ [] → surplus line = surplus other

/-- A text without other blank characters than spaces, tabs and line feeds. -/
def TabbedText (raw : List Char) : Prop :=
  ∀ c ∈ raw, isBlank c = true → c = ' ' ∨ c = '\t' ∨ c = '\n'

instance (raw : List Char) : Decidable (TabbedText raw) :=
  List.decidableBAll _ raw

theorem expandTabs_tab (cs : List Char) :
    expandTabs ('\t' :: cs) = List.replicate 8 ' ' ++ expandTabs cs := by
  rw [expandTabs, List.flatMap_cons, if_pos rfl, ← expandTabs]

theorem Tabbed.length_fillTabs_le {cs : List Char} (tabbed : Tabbed cs) (column : Nat) :
    (fillTabs column cs).length ≤ (expandTabs cs).length := by
  induction cs generalizing column with
  | nil => exact Nat.le_refl 0
  | cons c cs ih =>
    obtain ⟨rfl | one, behind⟩ := tabbed.cases
    · have less := ih behind (column + (8 - column % 8))
      rw [fillTabs_tab, expandTabs_tab, List.length_append, List.length_append, List.length_replicate,
        List.length_replicate]
      omega
    · have less := ih behind (column + 1)
      rw [fillTabs_one one, expandTabs_cons one.1, List.length_cons, List.length_cons]
      omega

section
variable {cs : List Char} (visible : ink cs ≠ [])
include visible

theorem trimEnd_fillTabs_tab (column : Nat) : trimEnd (fillTabs column ('\t' :: cs)) =
    List.replicate (8 - column % 8) ' ' ++ trimEnd (fillTabs (column + (8 - column % 8)) cs) := by
  rw [fillTabs_tab, trimEnd_append _ (by rwa [ink_fillTabs])]

theorem trimEnd_expandTabs_tab :
    trimEnd (expandTabs ('\t' :: cs)) = List.replicate 8 ' ' ++ trimEnd (expandTabs cs) := by
  rw [expandTabs_tab, trimEnd_append _ (by rwa [ink_expandTabs])]

theorem trimEnd_fillTabs_one {c : Char} (one : TakesOne c) (column : Nat) :
    trimEnd (fillTabs column (c :: cs)) = c :: trimEnd (fillTabs (column + 1) cs) := by
  rw [fillTabs_one one]
  exact trimEnd_append [c] (by rwa [ink_fillTabs])

theorem trimEnd_expandTabs_one {c : Char} (one : TakesOne c) :
    trimEnd (expandTabs (c :: cs)) = c :: trimEnd (expandTabs cs) := by
  have shows : ink (expandTabs cs) ≠ [] := by rwa [ink_expandTabs]
  rw [expandTabs_cons one.1]
  exact trimEnd_append [c] shows

end

theorem Tabbed.trimEnd_last {c : Char} {cs : List Char} (tabbed : Tabbed (c :: cs))
    (last : ink cs = []) (column : Nat) :
    trimEnd (fillTabs column (c :: cs)) = trimEnd (expandTabs (c :: cs)) := by
  have trims (column : Nat) : trimEnd (fillTabs column cs) = trimEnd (expandTabs cs) := by
    rw [(trimEnd_eq_nil_iff _).2 (by rwa [ink_fillTabs]), (trimEnd_eq_nil_iff _).2 (by rwa [ink_expandTabs])]
  obtain ⟨rfl | one, -⟩ := tabbed.cases
  · rw [(trimEnd_eq_nil_iff _).2, (trimEnd_eq_nil_iff _).2]
    · rwa [ink_expandTabs, ink_cons_blank (by decide)]
    · rwa [ink_fillTabs, ink_cons_blank (by decide)]
  · rw [fillTabs_one one, expandTabs_cons one.1]
    exact trimEnd_cons_congr (trims _) c

theorem Tabbed.length_trimEnd_le {cs : List Char} (tabbed : Tabbed cs) (column : Nat) :
    (trimEnd (fillTabs column cs)).length ≤ (trimEnd (expandTabs cs)).length := by
  induction cs generalizing column with
  | nil => exact Nat.le_refl 0
  | cons c cs ih =>
    by_cases last : ink cs = []
    · rw [tabbed.trimEnd_last last]
    obtain ⟨rfl | one, behind⟩ := tabbed.cases
    · have less := ih behind (column + (8 - column % 8))
      rw [trimEnd_fillTabs_tab last, trimEnd_expandTabs_tab last, List.length_append, List.length_append,
        List.length_replicate, List.length_replicate]
      omega
    · have less := ih behind (column + 1)
      rw [trimEnd_fillTabs_one last one, trimEnd_expandTabs_one last one, List.length_cons, List.length_cons]
      omega

def Fits (column : Nat) (cs : List Char) : Prop :=
  ∀ before after, cs = before ++ '\t' :: after → ink after ≠ [] →
    8 ∣ column + (fillTabs column before).length

theorem fits_last (column : Nat) (c : Char) {cs : List Char} (last : ink cs = []) :
    Fits column (c :: cs) := by
  intro before after split visible
  have behind : after <:+ cs := by
    cases before with
    | nil => exact (List.cons.inj split).2 ▸ List.suffix_rfl
    | cons d before =>
      rw [(List.cons.inj split).2]
      exact (List.suffix_cons ..).trans (List.suffix_append ..)
  exact absurd ((ink_eq_nil_iff after).2 fun d mem => (ink_eq_nil_iff cs).1 last d (behind.subset mem)) visible

theorem fits_tab (column : Nat) {cs : List Char} (visible : ink cs ≠ []) :
    Fits column ('\t' :: cs) ↔ 8 ∣ column ∧ Fits (column + 8) cs := by
  have shift (before : List Char) (full : 8 ∣ column) :
      column + (fillTabs column ('\t' :: before)).length =
        column + 8 + (fillTabs (column + 8) before).length := by
    rw [fillTabs_tab, show 8 - column % 8 = 8 by omega, List.length_append, List.length_replicate,
      Nat.add_assoc]
  constructor
  · intro fits
    have full : 8 ∣ column := fits [] cs rfl visible
    refine ⟨full, fun before after split shows => ?_⟩
    rw [← shift before full]
    exact fits ('\t' :: before) after (congrArg ('\t' :: ·) split) shows
  · rintro ⟨full, fits⟩ before after split shows
    cases before with
    | nil => exact full
    | cons d before =>
      obtain ⟨rfl, rfl⟩ := List.cons.inj split
      rw [shift before full]
      exact fits before after rfl shows

theorem fits_one {c : Char} (one : TakesOne c) (column : Nat) (cs : List Char) :
    Fits column (c :: cs) ↔ Fits (column + 1) cs := by
  have shift (before : List Char) : column + (fillTabs column (c :: before)).length =
      column + 1 + (fillTabs (column + 1) before).length := by
    rw [fillTabs_one one, List.length_cons, Nat.add_comm _ 1, Nat.add_assoc]
  constructor
  · intro fits before after split shows
    rw [← shift]
    exact fits (c :: before) after (congrArg (c :: ·) split) shows
  · intro fits before after split shows
    cases before with
    | nil => exact absurd (List.cons.inj split).1 one.1
    | cons d before =>
      obtain ⟨rfl, rfl⟩ := List.cons.inj split
      rw [shift]
      exact fits before after rfl shows

theorem Tabbed.trimEnd_eq_iff {cs : List Char} (tabbed : Tabbed cs) (column : Nat) :
    trimEnd (fillTabs column cs) = trimEnd (expandTabs cs) ↔ Fits column cs := by
  induction cs generalizing column with
  | nil => exact iff_of_true rfl fun before after split => by simp at split
  | cons c cs ih =>
    by_cases last : ink cs = []
    · exact iff_of_true (tabbed.trimEnd_last last column) (fits_last column c last)
    obtain ⟨rfl | one, behind⟩ := tabbed.cases
    · rw [trimEnd_fillTabs_tab last, trimEnd_expandTabs_tab last, fits_tab column last, ← ih behind]
      constructor
      · intro same
        -- No rest of the line can make up for a column that a tab is short of.
        have less := behind.length_trimEnd_le (column + (8 - column % 8))
        have length := congrArg List.length same
        simp only [List.length_append, List.length_replicate] at length
        have full : 8 - column % 8 = 8 := by omega
        rw [full] at same
        exact ⟨by omega, List.append_cancel_left same⟩
      · rintro ⟨full, same⟩
        rw [show 8 - column % 8 = 8 by omega, same]
    · rw [trimEnd_fillTabs_one last one, trimEnd_expandTabs_one last one, List.cons_inj_right, ih behind,
        fits_one one]

theorem Spaced.eq_replicate {line : List Char} (spaced : Spaced line) (blank : ink line = []) :
    line = List.replicate line.length ' ' :=
  List.eq_replicate_iff.2 ⟨rfl, fun c mem => spaced c mem ((ink_eq_nil_iff line).1 blank c mem)⟩

theorem Tabbed.spaced_expandTabs {cs : List Char} (tabbed : Tabbed cs) : Spaced (expandTabs cs) := by
  intro c mem blank
  obtain ⟨d, held, mem⟩ := List.mem_flatMap.1 mem
  split at mem
  · exact List.eq_of_mem_replicate mem
  · next other =>
    obtain rfl := List.mem_singleton.1 mem
    exact (tabbed c held blank).resolve_right other

theorem indentation_visible {c : Char} (visible : isBlank c = false) (cs : List Char) :
    indentation (c :: cs) = 0 := by
  have other : (c == ' ') = false := by
    rw [beq_eq_false_iff_ne]
    rintro rfl
    cases visible
  rw [indentation, List.takeWhile_cons_of_neg (by simp [other]), List.length_nil]

theorem trimStart_cases (line : List Char) :
    trimStart line = [] ∨ ∃ c cs, trimStart line = c :: cs ∧ isBlank c = false := by
  cases whole : trimStart line with
  | nil => exact .inl rfl
  | cons c cs =>
    have first : (line.dropWhile isBlank).head? = some c := by rw [← trimStart, whole, List.head?_cons]
    exact .inr ⟨c, cs, rfl, head?_dropWhile_blank first⟩

theorem trimStart_append {front : List Char} (visible : ink front ≠ []) (cs : List Char) :
    trimStart (front ++ cs) = trimStart front ++ cs := by
  have full : ¬ (front.dropWhile isBlank).isEmpty = true := by
    rw [List.isEmpty_iff, List.dropWhile_eq_nil_iff]
    exact fun blank => visible ((ink_eq_nil_iff front).2 blank)
  rw [trimStart, List.dropWhile_append, if_neg full, trimStart]

theorem takeWhile_blank_append {front : List Char} (visible : ink front ≠ []) (cs : List Char) :
    (front ++ cs).takeWhile isBlank = front.takeWhile isBlank := by
  have whole := List.takeWhile_append_dropWhile (p := isBlank) (l := front ++ cs)
  have rest := trimStart_append visible cs
  rw [trimStart, trimStart] at rest
  rw [rest, ← List.append_assoc] at whole
  have front' := List.append_cancel_right whole
  conv at front' => rhs; rw [← List.takeWhile_append_dropWhile (p := isBlank) (l := front)]
  exact List.append_cancel_right front'

theorem trimStart_deeper (depth : Nat) (cs : List Char) :
    trimStart (List.replicate depth ' ' ++ cs) = trimStart cs :=
  List.dropWhile_append_of_pos fun c mem => by rw [List.eq_of_mem_replicate mem]; rfl

theorem deeper_eq_iff {first second : List Char} (flush : indentation first = 0)
    (flush' : indentation second = 0) (depth depth' : Nat) :
    List.replicate depth ' ' ++ first = List.replicate depth' ' ' ++ second ↔
      depth = depth' ∧ first = second := by
  constructor
  · intro same
    have width := congrArg indentation same
    rw [indentation_append, indentation_append, flush, flush'] at width
    obtain rfl : depth = depth' := width
    exact ⟨rfl, List.append_cancel_left same⟩
  · rintro ⟨rfl, rfl⟩
    rfl

theorem cutAt_spaces {width depth : Nat} (le : width ≤ depth) {cs : List Char} (visible : ink cs ≠ []) :
    cutAt width (List.replicate depth ' ' ++ cs) = List.replicate (depth - width) ' ' ++ trimEnd cs := by
  rw [cutAt, List.drop_append_of_le_length (by rwa [List.length_replicate]), List.drop_replicate,
    trimEnd_append _ visible]

theorem visible_expandTabs (line : List Char) :
    indentation (expandTabs (trimStart line)) = 0 ∧
      trimStart (expandTabs (trimStart line)) = expandTabs (trimStart line) := by
  rcases trimStart_cases line with blank | ⟨c, cs, whole, visible⟩
  · rw [blank]
    exact ⟨rfl, rfl⟩
  · rw [whole, expandTabs_cons (ne_tab_of_visible visible)]
    exact ⟨indentation_visible visible _, trimStart_visible c _ visible⟩

section
variable {line : List Char} (tabbed : Tabbed line)
include tabbed

theorem Tabbed.parts : Tabbed (line.takeWhile isBlank) ∧ Tabbed (trimStart line) ∧
    ink (line.takeWhile isBlank) = [] :=
  ⟨fun c mem => tabbed c ((List.takeWhile_prefix _).subset mem),
    fun c mem => tabbed c ((List.dropWhile_suffix _).subset mem),
    (ink_eq_nil_iff _).2 fun _ mem => List.mem_takeWhile_imp mem⟩

theorem Tabbed.visible_fillTabs (column : Nat) :
    indentation (fillTabs column (trimStart line)) = 0 ∧
      trimStart (fillTabs column (trimStart line)) = fillTabs column (trimStart line) := by
  have behind := tabbed.parts.2.1
  rcases trimStart_cases line with blank | ⟨c, cs, whole, visible⟩
  · rw [blank]
    exact ⟨rfl, rfl⟩
  · rw [whole] at behind ⊢
    rw [fillTabs_one (behind.cases.1.resolve_left (ne_tab_of_visible visible))]
    exact ⟨indentation_visible visible _, trimStart_visible c _ visible⟩

theorem Tabbed.fillTabs_indent : fillTabs 0 (line.takeWhile isBlank) =
    List.replicate (indentation (fillTabs 0 line)) ' ' := by
  obtain ⟨front, behind, blank⟩ := tabbed.parts
  have spaces := (front.spaced_fillTabs 0).eq_replicate (by rwa [ink_fillTabs])
  have whole := front.fillTabs_append 0 (trimStart line)
  rw [trimStart, List.takeWhile_append_dropWhile, ← trimStart, spaces] at whole
  rw [whole, indentation_append, (tabbed.visible_fillTabs _).1, Nat.add_zero]
  exact spaces

theorem Tabbed.fillTabs_eq : fillTabs 0 line = List.replicate (indentation (fillTabs 0 line)) ' ' ++
    fillTabs (indentation (fillTabs 0 line)) (trimStart line) := by
  have whole := tabbed.parts.1.fillTabs_append 0 (trimStart line)
  rw [trimStart, List.takeWhile_append_dropWhile, ← trimStart, tabbed.fillTabs_indent,
    List.length_replicate, Nat.zero_add] at whole
  exact whole

theorem Tabbed.expandTabs_indent : expandTabs (line.takeWhile isBlank) =
    List.replicate (indentation (expandTabs line)) ' ' := by
  obtain ⟨front, behind, blank⟩ := tabbed.parts
  have spaces := front.spaced_expandTabs.eq_replicate (by rwa [ink_expandTabs])
  have whole := expandTabs_append (line.takeWhile isBlank) (trimStart line)
  rw [trimStart, List.takeWhile_append_dropWhile, ← trimStart, spaces] at whole
  rw [whole, indentation_append, (visible_expandTabs line).1, Nat.add_zero]
  exact spaces

theorem Tabbed.expandTabs_eq : expandTabs line =
    List.replicate (indentation (expandTabs line)) ' ' ++ expandTabs (trimStart line) := by
  have whole := expandTabs_append (line.takeWhile isBlank) (trimStart line)
  rwa [trimStart, List.takeWhile_append_dropWhile, ← trimStart, tabbed.expandTabs_indent] at whole

theorem Tabbed.indentation_le : indentation (fillTabs 0 line) ≤ indentation (expandTabs line) := by
  have le := tabbed.parts.1.length_fillTabs_le 0
  rwa [tabbed.fillTabs_indent, tabbed.expandTabs_indent, List.length_replicate,
    List.length_replicate] at le

theorem Tabbed.fits_iff : (∀ before after, line = before ++ '\t' :: after → ink before ≠ [] →
    ink after ≠ [] → 8 ∣ (fillTabs 0 before).length) ↔
      Fits (indentation (fillTabs 0 line)) (trimStart line) := by
  have width : (fillTabs 0 (line.takeWhile isBlank)).length = indentation (fillTabs 0 line) := by
    rw [tabbed.fillTabs_indent, List.length_replicate]
  have past (before : List Char) : (fillTabs 0 (line.takeWhile isBlank ++ before)).length =
      indentation (fillTabs 0 line) + (fillTabs (indentation (fillTabs 0 line)) before).length := by
    rw [tabbed.parts.1.fillTabs_append, List.length_append, Nat.zero_add, width]
  constructor
  · intro inner before after split shows
    rw [← past]
    refine inner _ after ?_ ?_ shows
    · rw [List.append_assoc, ← split, trimStart, List.takeWhile_append_dropWhile]
    · -- The first character behind the indentation is visible, so the tab is not that one.
      rcases trimStart_cases line with blank | ⟨c, cs, whole, visible⟩
      · rw [blank] at split
        simp at split
      · rw [whole] at split
        cases before with
        | nil => exact absurd (List.cons.inj split).1 (ne_tab_of_visible visible)
        | cons d before =>
          rw [← (List.cons.inj split).1, ink_append, ink_cons_visible visible]
          simp
  · intro fits before after split visible shows
    have indent : line.takeWhile isBlank = before.takeWhile isBlank := by
      rw [split, takeWhile_blank_append visible]
    have whole : line.takeWhile isBlank ++ trimStart before = before := by
      rw [indent, trimStart, List.takeWhile_append_dropWhile]
    rw [← whole, past]
    refine fits _ after ?_ shows
    rw [split, trimStart_append visible]

theorem Tabbed.cutAt_eq_iff (visible : ink line ≠ []) {width width' : Nat}
    (le : width ≤ indentation (fillTabs 0 line)) (le' : width' ≤ indentation (expandTabs line)) :
    cutAt width (fillTabs 0 line) = cutAt width' (expandTabs line) ↔
      indentation (fillTabs 0 line) - width = indentation (expandTabs line) - width' ∧
        Fits (indentation (fillTabs 0 line)) (trimStart line) := by
  have filled := tabbed.fillTabs_eq
  have expanded := tabbed.expandTabs_eq
  generalize indentation (fillTabs 0 line) = depth at filled le ⊢
  generalize indentation (expandTabs line) = depth' at expanded le' ⊢
  have shows : ink (fillTabs depth (trimStart line)) ≠ [] := by
    rwa [ink_fillTabs, trimStart, ink_dropWhile]
  have shows' : ink (expandTabs (trimStart line)) ≠ [] := by
    rwa [ink_expandTabs, trimStart, ink_dropWhile]
  rw [filled, expanded, cutAt_spaces le shows, cutAt_spaces le' shows', deeper_eq_iff,
    tabbed.parts.2.1.trimEnd_eq_iff]
  · rw [indentation_trimEnd shows, (tabbed.visible_fillTabs depth).1]
  · rw [indentation_trimEnd shows', (visible_expandTabs line).1]

theorem Tabbed.trim_eq_iff : trim (fillTabs 0 line) = trim (expandTabs line) ↔
    Fits (indentation (fillTabs 0 line)) (trimStart line) := by
  have filled := tabbed.fillTabs_eq
  have expanded := tabbed.expandTabs_eq
  generalize indentation (fillTabs 0 line) = depth at filled ⊢
  generalize indentation (expandTabs line) = depth' at expanded
  rw [filled, expanded, trim, trim, trimStart_deeper, trimStart_deeper,
    (tabbed.visible_fillTabs depth).2, (visible_expandTabs line).2, tabbed.parts.2.1.trimEnd_eq_iff]

end

theorem kept_iff_surplus {lines : List (List Char)} (tabbed : ∀ line ∈ lines, Tabbed line) :
    (∀ line ∈ lines, ink line ≠ [] →
      indentation (fillTabs 0 line) - margin (lines.map (fillTabs 0)) =
        indentation (expandTabs line) - margin (lines.map expandTabs)) ↔
      ∀ line ∈ lines, ∀ other ∈ lines, ink line ≠ [] → ink other ≠ [] → surplus line = surplus other := by
  have below {line : List Char} (held : line ∈ lines) (visible : ink line ≠ []) :
      margin (lines.map (fillTabs 0)) ≤ indentation (fillTabs 0 line) ∧
        margin (lines.map expandTabs) ≤ indentation (expandTabs line) ∧
        indentation (fillTabs 0 line) ≤ indentation (expandTabs line) :=
    ⟨margin_le_indentation (List.mem_map_of_mem held) (by rwa [ink_fillTabs]),
      margin_le_indentation (List.mem_map_of_mem held) (by rwa [ink_expandTabs]),
      (tabbed line held).indentation_le⟩
  constructor
  · intro kept line held other held' visible visible'
    have here := below held visible
    have there := below held' visible'
    have same := kept line held visible
    have same' := kept other held' visible'
    rw [surplus, surplus]
    omega
  · intro alike line held visible
    -- The line with the least indentation may be another one when tabs are expanded.
    obtain ⟨_, mapped, shows, least⟩ := (isMargin_margin (lines.map (fillTabs 0))).reached
      ⟨_, List.mem_map_of_mem held, by rwa [ink_fillTabs]⟩
    obtain ⟨other, held', rfl⟩ := List.mem_map.1 mapped
    obtain ⟨_, mapped, shows', least'⟩ := (isMargin_margin (lines.map expandTabs)).reached
      ⟨_, List.mem_map_of_mem held, by rwa [ink_expandTabs]⟩
    obtain ⟨other', held'', rfl⟩ := List.mem_map.1 mapped
    rw [ink_fillTabs] at shows
    rw [ink_expandTabs] at shows'
    have here := below held visible
    have there := below held' shows
    have there' := below held'' shows'
    have same := alike line held other held' visible shows
    have same' := alike line held other' held'' visible shows'
    rw [surplus, surplus] at same same'
    omega

theorem marginless_eq_iff {first : List Char} {rest : List (List Char)}
    (tabbed : ∀ line ∈ first :: rest, Tabbed line) :
    marginless ((first :: rest).map (fillTabs 0)) = marginless ((first :: rest).map expandTabs) ↔
      (∀ line ∈ first :: rest, Fits (indentation (fillTabs 0 line)) (trimStart line)) ∧
        ∀ line ∈ rest, ∀ other ∈ rest, ink line ≠ [] → ink other ≠ [] → surplus line = surplus other := by
  obtain ⟨starts, behind⟩ := List.forall_mem_cons.1 tabbed
  have each (line : List Char) (held : line ∈ rest) :
      cutAt (margin (rest.map (fillTabs 0))) (fillTabs 0 line) =
        cutAt (margin (rest.map expandTabs)) (expandTabs line) ↔
      Fits (indentation (fillTabs 0 line)) (trimStart line) ∧
        (ink line ≠ [] → indentation (fillTabs 0 line) - margin (rest.map (fillTabs 0)) =
          indentation (expandTabs line) - margin (rest.map expandTabs)) := by
    by_cases visible : ink line = []
    · rw [cutAt_of_blank (by rwa [ink_fillTabs]), cutAt_of_blank (by rwa [ink_expandTabs])]
      refine iff_of_true rfl ⟨?_, fun shows => absurd visible shows⟩
      rw [trimStart, List.dropWhile_eq_nil_iff.2 ((ink_eq_nil_iff line).1 visible)]
      exact fun before after split => by simp at split
    · rw [(behind line held).cutAt_eq_iff visible, and_comm, imp_iff_right visible]
      · exact margin_le_indentation (List.mem_map_of_mem held) (by rwa [ink_fillTabs])
      · exact margin_le_indentation (List.mem_map_of_mem held) (by rwa [ink_expandTabs])
  rw [← kept_iff_surplus behind, List.map_cons, List.map_cons, marginless, marginless, List.cons_eq_cons,
    starts.trim_eq_iff, List.map_map, List.map_map, List.map_inj_left, List.forall_mem_cons, and_assoc,
    and_congr_right_iff, ← forall₂_and]
  exact fun _ => forall₂_congr each

def Alike (line other : List Char) : Prop :=
  isBlankLine line = isBlankLine other ∧ (isBlankLine line = true → line = other)

theorem dropWhile_alike {lines others : List (List Char)} (alike : List.Forall₂ Alike lines others) :
    List.Forall₂ Alike (lines.dropWhile isBlankLine) (others.dropWhile isBlankLine) ∧
      (lines.dropWhile isBlankLine = others.dropWhile isBlankLine → lines = others) := by
  induction alike with
  | nil => exact ⟨.nil, id⟩
  | @cons line other lines others same alike ih =>
    obtain ⟨both, blanks⟩ := same
    by_cases blank : isBlankLine line = true
    · rw [List.dropWhile_cons_of_pos blank, List.dropWhile_cons_of_pos (both ▸ blank), blanks blank]
      exact ⟨ih.1, fun rest => congrArg _ (ih.2 rest)⟩
    · rw [List.dropWhile_cons_of_neg blank, List.dropWhile_cons_of_neg (both ▸ blank)]
      exact ⟨.cons ⟨both, blanks⟩ alike, id⟩

theorem dropBlankEnds_inj {lines others : List (List Char)} (alike : List.Forall₂ Alike lines others)
    (same : dropBlankEnds lines = dropBlankEnds others) : lines = others := by
  obtain ⟨above, whole⟩ := dropWhile_alike alike
  have below := (dropWhile_alike (List.forall₂_reverse_iff.2 above)).2 (List.reverse_injective same)
  exact whole (List.reverse_injective below)

theorem joined_ne_nil {lines : List (List Char)} (nonempty : dropBlankEnds lines ≠ [])
    (single : ∀ line ∈ lines, '\n' ∉ line) : joined '\n' (dropBlankEnds lines) ≠ [] := by
  intro empty
  have cut := pieces_joined '\n' _ nonempty fun line held => single line (mem_of_mem_dropBlankEnds held)
  rw [empty] at cut
  exact dropBlankEnds_head (congrArg List.head? cut.symm) rfl

theorem joined_inj {lines others : List (List Char)} (single : ∀ line ∈ lines, '\n' ∉ line)
    (single' : ∀ line ∈ others, '\n' ∉ line)
    (same : joined '\n' (dropBlankEnds lines) = joined '\n' (dropBlankEnds others)) :
    dropBlankEnds lines = dropBlankEnds others := by
  by_cases empty : dropBlankEnds lines = []
  · by_contra other
    rw [empty] at same
    exact joined_ne_nil (fun none' => other (empty.trans none'.symm)) single' same.symm
  · have other : dropBlankEnds others ≠ [] := by
      intro none'
      rw [none'] at same
      exact joined_ne_nil empty single same
    have cut := pieces_joined '\n' _ empty fun line held => single line (mem_of_mem_dropBlankEnds held)
    rw [same] at cut
    exact cut.symm.trans
      (pieces_joined '\n' _ other fun line held => single' line (mem_of_mem_dropBlankEnds held))

theorem alike_of_ink {line other : List Char} (same : ink line = ink other) (trimmed : trimEnd line = line)
    (trimmed' : trimEnd other = other) : Alike line other := by
  refine ⟨by rw [Bool.eq_iff_iff, isBlankLine_iff, isBlankLine_iff, same], fun blank => ?_⟩
  rw [isBlankLine_iff] at blank
  rw [← trimmed, ← trimmed', (trimEnd_eq_nil_iff line).2 blank, (trimEnd_eq_nil_iff other).2 (same ▸ blank)]

theorem marginless_alike (lines : List (List Char)) :
    List.Forall₂ Alike (marginless (lines.map (fillTabs 0))) (marginless (lines.map expandTabs)) := by
  cases lines with
  | nil => exact .nil
  | cons first rest =>
    rw [List.map_cons, List.map_cons, marginless, marginless, List.map_map, List.map_map]
    refine .cons (alike_of_ink ?_ (trimEnd_trim _) (trimEnd_trim _)) ?_
    · rw [ink_trim, ink_trim, ink_fillTabs, ink_expandTabs]
    rw [List.forall₂_map_left_iff, List.forall₂_map_right_iff, List.forall₂_same]
    intro line held
    refine alike_of_ink ?_ (trimEnd_trimEnd _) (trimEnd_trimEnd _)
    rw [Function.comp_apply, Function.comp_apply, ← cutMargin_eq_cutAt (List.mem_map_of_mem held),
      ← cutMargin_eq_cutAt (List.mem_map_of_mem held), ink_cutMargin, ink_cutMargin, ink_fillTabs,
      ink_expandTabs]

theorem marginless_single {lines : List (List Char)} (single : ∀ line ∈ lines, '\n' ∉ line) :
    ∀ line ∈ marginless lines, '\n' ∉ line := by
  intro line held mem
  obtain ⟨-, original, listed, inside⟩ := marginless_cases held
  exact single original listed (inside mem)

theorem shown_eq_iff (raw : List Char) :
    joined '\n' (dropBlankEnds (marginless ((pieces '\n' raw).map (fillTabs 0)))) =
        joined '\n' (dropBlankEnds (marginless ((pieces '\n' raw).map expandTabs))) ↔
      marginless ((pieces '\n' raw).map (fillTabs 0)) = marginless ((pieces '\n' raw).map expandTabs) := by
  have filled : ∀ line ∈ (pieces '\n' raw).map (fillTabs 0), '\n' ∉ line :=
    pieces_filled raw ▸ separator_not_mem_pieces '\n' (fillTabs 0 raw)
  have expanded : ∀ line ∈ (pieces '\n' raw).map expandTabs, '\n' ∉ line :=
    pieces_expandTabs raw ▸ separator_not_mem_pieces '\n' (expandTabs raw)
  constructor
  · intro same
    exact dropBlankEnds_inj (marginless_alike _)
      (joined_inj (marginless_single filled) (marginless_single expanded) same)
  · exact congrArg fun lines => joined '\n' (dropBlankEnds lines)

theorem TabbedText.tabbed {raw : List Char} (text : TabbedText raw) :
    ∀ line ∈ pieces '\n' raw, Tabbed line := by
  intro line held c mem blank
  rcases text c (mem_of_mem_pieces held mem) blank with space | tab | feed
  · exact .inl space
  · exact .inr tab
  · exact absurd (feed ▸ mem) (separator_not_mem_pieces '\n' raw line held)

theorem tabsFit_iff {raw first : List Char} {rest : List (List Char)} (split : pieces '\n' raw = first :: rest)
    (tabbed : ∀ line ∈ first :: rest, Tabbed line) : TabsFit raw ↔
      (∀ line ∈ first :: rest, Fits (indentation (fillTabs 0 line)) (trimStart line)) ∧
        ∀ line ∈ rest, ∀ other ∈ rest, ink line ≠ [] → ink other ≠ [] → surplus line = surplus other := by
  constructor
  · rintro ⟨inner, margins⟩
    rw [split] at inner margins
    exact ⟨fun line held => (tabbed line held).fits_iff.1 (inner line held), margins⟩
  · rintro ⟨fits, margins⟩
    constructor
    · rw [split]
      exact fun line held => (tabbed line held).fits_iff.2 (fits line held)
    · rwa [split]

theorem fillTabs_expandTabs (lines : List (List Char)) :
    (lines.map expandTabs).map (fillTabs 0) = lines.map expandTabs := by
  rw [List.map_map]
  exact List.map_congr_left fun line _ => fillTabs_of_not_mem (tab_not_mem_expandTabs line) 0

/-- Documentation strings are shown as the reference shows them just where their tabs fit, and always as
it shows them with eight spaces in place of each tab. -/
theorem cleanDocstring_eq_cleandoc_iff {raw : List Char} (text : TabbedText raw) :
    (cleanDocstring raw = bare (cleandoc raw) ↔ TabsFit raw) ∧
      cleanDocstring raw = bare (cleandoc (expandTabs raw)) := by
  have tabbed := text.tabbed
  constructor
  · rw [cleanDocstring, cleanLines_eq_marginless, bare_cleandoc tabbed, eq_comm, shown_eq_iff]
    obtain ⟨first, rest, split⟩ := List.exists_cons_of_ne_nil (pieces_ne_nil '\n' raw)
    rw [split] at tabbed ⊢
    rw [marginless_eq_iff tabbed, tabsFit_iff split tabbed]
  · have spaced : ∀ line ∈ pieces '\n' (expandTabs raw), Tabbed line := by
      rw [pieces_expandTabs]
      refine List.forall_mem_map.2 fun line held c mem blank => .inl ?_
      exact (tabbed line held).spaced_expandTabs c mem blank
    rw [cleanDocstring, cleanLines_eq_marginless, bare_cleandoc spaced, pieces_expandTabs,
      fillTabs_expandTabs]

/-- The word between the two tabs ends at a column that eight divides. -/
theorem cleanDocstring_eq_cleandoc_aligned :
    let raw := "Adds\n\n\telements\tall\n\t  of them.\n".toList
    TabbedText raw ∧ cleanDocstring raw = bare (cleandoc raw) ∧ TabsFit raw ∧
      cleanDocstring raw = bare (cleandoc (expandTabs raw)) := by
  intro raw
  have text : TabbedText raw := by decide
  have same : cleanDocstring raw = bare (cleandoc raw) := by decide
  obtain ⟨fits, expanded⟩ := cleanDocstring_eq_cleandoc_iff text
  exact ⟨text, same, fits.1 same, expanded⟩

/-- A tab behind a letter is seven columns wide. -/
theorem tab_behind_letter :
    let raw := "a\tb".toList
    TabbedText raw ∧ cleanDocstring raw = "a        b".toList ∧
      bare (cleandoc raw) = "a       b".toList := by
  decide

end SourceAtlas.Python
