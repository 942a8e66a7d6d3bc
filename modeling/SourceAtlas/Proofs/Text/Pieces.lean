import SourceAtlas.Text.Lines
set_option autoImplicit false

namespace SourceAtlas.Text

theorem mem_of_mem_pieces {separator : Char} {cs piece : List Char} {c : Char}
    (cut : piece ∈ pieces separator cs) (mem : c ∈ piece) : c ∈ cs := by
  induction cs generalizing piece with
  | nil =>
    rw [pieces, List.mem_singleton] at cut
    simp [cut] at mem
  | cons first cs ih =>
    rw [pieces] at cut
    split at cut
    · next empty => exact absurd empty (pieces_ne_nil separator cs)
    · next head rest split =>
      rw [split] at ih
      have behind : ∀ other ∈ rest, c ∈ other → c ∈ cs := fun other inRest =>
        ih (List.mem_cons_of_mem _ inRest)
      split at cut
      · rcases List.mem_cons.1 cut with rfl | cut
        · exact absurd mem List.not_mem_nil
        · exact List.mem_cons_of_mem _ (ih cut mem)
      · rcases List.mem_cons.1 cut with rfl | cut
        · rcases List.mem_cons.1 mem with rfl | mem
          · exact List.mem_cons_self ..
          · exact List.mem_cons_of_mem _ (ih (List.mem_cons_self ..) mem)
        · exact List.mem_cons_of_mem _ (behind _ cut mem)

theorem joined_eq_intercalate (separator : Char) (all : List (List Char)) :
    joined separator all = [separator].intercalate all := by
  induction all with
  | nil => rfl
  | cons piece rest ih =>
    cases rest with
    | nil => simp [joined]
    | cons next more => rw [joined, ih, List.intercalate_cons_cons, List.append_assoc]; rfl

theorem mem_joined {separator : Char} {all : List (List Char)} {c : Char}
    (mem : c ∈ joined separator all) : c = separator ∨ ∃ piece ∈ all, c ∈ piece := by
  induction all with
  | nil => exact absurd mem List.not_mem_nil
  | cons piece rest ih =>
    cases rest with
    | nil => exact .inr ⟨piece, List.mem_cons_self .., mem⟩
    | cons next more =>
      rcases List.mem_append.1 mem with here | behind
      · exact .inr ⟨piece, List.mem_cons_self .., here⟩
      rcases List.mem_cons.1 behind with same | behind
      · exact .inl same
      · exact (ih behind).imp_right fun ⟨other, listed, mem⟩ =>
          ⟨other, List.mem_cons_of_mem _ listed, mem⟩

theorem pieces_append (separator : Char) (first second : List Char) :
    pieces separator (first ++ separator :: second) =
      pieces separator first ++ pieces separator second := by
  induction first with
  | nil =>
    rw [List.nil_append, pieces.eq_2, pieces.eq_1]
    cases cut : pieces separator second with
    | nil => exact absurd cut (pieces_ne_nil separator second)
    | cons head rest => simp
  | cons c first ih =>
    rw [List.cons_append, pieces.eq_2, pieces.eq_2, ih]
    cases cut : pieces separator first with
    | nil => exact absurd cut (pieces_ne_nil separator first)
    | cons head rest =>
      simp only [List.cons_append]
      split <;> rfl

theorem pieces_of_not_mem (separator : Char) (piece : List Char) (clean : separator ∉ piece) :
    pieces separator piece = [piece] := by
  induction piece with
  | nil => rfl
  | cons c piece ih =>
    have apart : c ≠ separator := fun same => clean (same ▸ List.mem_cons_self ..)
    rw [pieces, ih fun mem => clean (List.mem_cons_of_mem _ mem)]
    exact if_neg apart

theorem pieces_prepend (separator : Char) {front cs first : List Char} {rest : List (List Char)}
    (clean : separator ∉ front) (cut : pieces separator cs = first :: rest) :
    pieces separator (front ++ cs) = (front ++ first) :: rest := by
  induction front with
  | nil => exact cut
  | cons c front ih =>
    rw [List.mem_cons, not_or] at clean
    rw [List.cons_append, pieces, ih clean.2]
    exact if_neg (Ne.symm clean.1)

theorem pieces_cons_cases {separator c : Char} {cs first : List Char} {rest : List (List Char)}
    (cut : pieces separator (c :: cs) = first :: rest) :
    (c = separator ∧ first = [] ∧ pieces separator cs = rest) ∨
      (c ≠ separator ∧ ∃ head, first = c :: head ∧ pieces separator cs = head :: rest) := by
  by_cases same : c = separator
  · subst same
    obtain ⟨front, behind⟩ := List.cons.inj ((pieces_append c [] cs).symm.trans cut)
    exact .inl ⟨rfl, front.symm, behind⟩
  · obtain ⟨head, more, behind⟩ := List.exists_cons_of_ne_nil (pieces_ne_nil separator cs)
    have clean : separator ∉ [c] := by simpa using Ne.symm same
    obtain ⟨rfl, rfl⟩ := List.cons.inj ((pieces_prepend separator clean behind).symm.trans cut)
    exact .inr ⟨same, head, rfl, behind⟩

theorem pieces_joined (separator : Char) (all : List (List Char)) (nonempty : all ≠ [])
    (clean : ∀ piece ∈ all, separator ∉ piece) : pieces separator (joined separator all) = all := by
  induction all with
  | nil => exact absurd rfl nonempty
  | cons piece rest ih =>
    have first := clean piece (List.mem_cons_self ..)
    cases rest with
    | nil => exact pieces_of_not_mem separator piece first
    | cons next more =>
      rw [joined, pieces_append, pieces_of_not_mem separator piece first,
        ih (List.cons_ne_nil _ _) fun other mem => clean other (List.mem_cons_of_mem _ mem)]
      rfl

theorem joined_concat {separator : Char} {all : List (List Char)} (nonempty : all ≠ [])
    (last : List Char) : joined separator (all ++ [last]) = joined separator all ++ separator :: last := by
  induction all with
  | nil => exact absurd rfl nonempty
  | cons piece rest ih =>
    cases rest with
    | nil => rfl
    | cons next more =>
      have behind := ih (List.cons_ne_nil _ _)
      rw [List.cons_append] at behind
      rw [List.cons_append, List.cons_append, joined, behind, joined, List.append_assoc, List.cons_append]

theorem dropReturn_isPrefix (line : List Char) : dropReturn line <+: line := by
  unfold dropReturn
  split
  · next rest reversed =>
    refine ⟨['\r'], ?_⟩
    rw [← List.reverse_cons, ← reversed, List.reverse_reverse]
  · exact List.prefix_rfl

theorem lines_closed (cs : List Char) : lines (cs ++ ['\n']) = (pieces '\n' cs).map dropReturn := by
  simp only [lines, pieces_append, pieces, List.reverse_append, List.reverse_singleton,
    List.singleton_append, if_true, List.reverse_reverse]

end SourceAtlas.Text
