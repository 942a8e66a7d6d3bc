import Mathlib.Data.List.Induction
import Mathlib.Data.List.TakeWhile
import SourceAtlas.Proofs.Text.Ink
import SourceAtlas.Python.Literal
set_option autoImplicit false

namespace SourceAtlas.Python

open SourceAtlas.Text

/-- No backslash of the text begins an escape. -/
def Verbatim (cs : List Char) : Prop :=
  ∀ before after, cs = before ++ '\\' :: after → escape? after = none

theorem Verbatim.tail {c : Char} {cs : List Char} (verbatim : Verbatim (c :: cs)) : Verbatim cs :=
  fun before after same => verbatim (c :: before) after (by rw [same, List.cons_append])

theorem numericEscape_short {width : Nat} {cs meaning : List Char} {used : Nat}
    (found : numericEscape width cs = some (meaning, used)) : meaning.length = 1 ∧ 1 ≤ used := by
  rw [numericEscape] at found
  split at found
  · obtain ⟨c, -, same⟩ := Option.map_eq_some_iff.1 found
    obtain ⟨rfl, rfl⟩ := Prod.mk.inj same
    exact ⟨rfl, by omega⟩
  · cases found

theorem octalEscape_short {c : Char} {cs meaning : List Char} {used : Nat}
    (digit : (octalDigit? c).isSome = true)
    (found : octalEscape (c :: cs) = some (meaning, used)) : meaning.length = 1 ∧ 1 ≤ used := by
  rw [octalEscape] at found
  obtain ⟨d, -, same⟩ := Option.map_eq_some_iff.1 found
  obtain ⟨rfl, rfl⟩ := Prod.mk.inj same
  refine ⟨rfl, ?_⟩
  rw [List.take_succ_cons, List.takeWhile_cons, if_pos digit, List.length_cons]
  omega

theorem isBlank_of_octalDigit {c : Char} (digit : (octalDigit? c).isSome = true) :
    isBlank c = false := by
  have range : '0' ≤ c ∧ c ≤ '7' := by
    rw [octalDigit?] at digit
    split at digit
    · assumption
    · cases digit
  have low : 48 ≤ c.toNat := range.1
  have high : c.toNat ≤ 55 := range.2
  simp only [isBlank, Bool.or_eq_false_iff, Bool.and_eq_false_iff, decide_eq_false_iff_not,
    beq_eq_false_iff_ne]
  omega

/-- An escape stands for nothing or for one character, and takes a visible one if it does. -/
theorem escape?_short {c : Char} {cs meaning : List Char} {used : Nat}
    (found : escape? (c :: cs) = some (meaning, used)) :
    meaning = [] ∨ isBlank c = false ∧ meaning.length = 1 ∧ 1 ≤ used := by
  have one {m : Char} (visible : isBlank c = false) (same : some ([m], 1) = some (meaning, used)) :
      meaning = [] ∨ isBlank c = false ∧ meaning.length = 1 ∧ 1 ≤ used := by
    obtain ⟨rfl, rfl⟩ := Prod.mk.inj (Option.some.inj same)
    exact .inr ⟨visible, rfl, Nat.le_refl 1⟩
  simp only [escape?] at found
  split at found
  · exact .inl (Prod.mk.inj (Option.some.inj found)).1.symm
  iterate 10 exact one (by decide) found
  iterate 3 exact .inr ⟨by decide, numericEscape_short found⟩
  split at found
  · next digit => exact .inr ⟨isBlank_of_octalDigit digit, octalEscape_short digit found⟩
  · cases found

theorem ink_length_le (cs : List Char) : (ink cs).length ≤ cs.length :=
  List.length_filter_le ..

theorem ink_escape_le {cs meaning : List Char} {used : Nat}
    (found : escape? cs = some (meaning, used)) :
    (ink meaning).length ≤ (ink (cs.take used)).length := by
  cases cs with
  | nil => cases found
  | cons c cs =>
    rcases escape?_short found with rfl | ⟨visible, one, reads⟩
    · exact Nat.zero_le _
    · obtain ⟨used, rfl⟩ := Nat.exists_eq_add_of_le' reads
      have bound := ink_length_le meaning
      rw [List.take_succ_cons, ink_cons_visible visible, List.length_cons]
      omega

theorem ink_take_drop (used : Nat) (cs : List Char) :
    (ink cs).length = (ink (cs.take used)).length + (ink (cs.drop used)).length := by
  rw [← List.length_append, ← ink_append, List.take_append_drop]

theorem verbatim_cons {c : Char} {cs : List Char} (verbatim : Verbatim cs)
    (here : c = '\\' → escape? cs = none) : Verbatim (c :: cs) := by
  intro before after split
  cases before with
  | nil =>
    obtain ⟨rfl, rfl⟩ := List.cons.inj split
    exact here rfl
  | cons d before => exact verbatim before after (List.cons.inj split).2

theorem ink_cons_lt {c : Char} {first second : List Char}
    (less : (ink first).length < (ink second).length) :
    (ink (c :: first)).length < (ink (c :: second)).length := by
  cases blank : isBlank c with
  | true => rwa [ink_cons_blank blank, ink_cons_blank blank]
  | false =>
    rw [ink_cons_visible blank, ink_cons_visible blank, List.length_cons, List.length_cons]
    omega

/-- A text without escapes stands for itself, and any other one for a text that shows less. -/
theorem decodeEscapes_cases (cs : List Char) :
    (Verbatim cs ∧ decodeEscapes cs = cs) ∨
      (ink (decodeEscapes cs)).length < (ink cs).length := by
  induction h : cs.length using Nat.strongRecOn generalizing cs with
  | _ n ih =>
    cases cs with
    | nil => exact .inl ⟨fun before after same => by simp at same, rfl⟩
    | cons c cs =>
      have short : cs.length < n := by
        simp only [List.length_cons] at h
        omega
      have one (same : decodeEscapes (c :: cs) = c :: decodeEscapes cs)
          (here : c = '\\' → escape? cs = none) :
          (Verbatim (c :: cs) ∧ decodeEscapes (c :: cs) = c :: cs) ∨
            (ink (decodeEscapes (c :: cs))).length < (ink (c :: cs)).length := by
        rw [same]
        rcases ih cs.length short cs rfl with ⟨verbatim, rest⟩ | less
        · exact .inl ⟨verbatim_cons verbatim here, by rw [rest]⟩
        · exact .inr (ink_cons_lt less)
      by_cases backslash : c = '\\'
      swap
      · exact one (decodeEscapes_plain c cs backslash) fun same => absurd same backslash
      subst backslash
      cases found : escape? cs with
      | none => exact one (decodeEscapes_verbatim cs found) fun _ => found
      | some escape =>
        obtain ⟨meaning, used⟩ := escape
        have rest : (ink (decodeEscapes (cs.drop used))).length ≤ (ink (cs.drop used)).length := by
          rcases ih (cs.drop used).length (by rw [List.length_drop]; omega) (cs.drop used) rfl with
            ⟨-, same⟩ | less
          · exact Nat.le_of_eq (congrArg (fun text => (ink text).length) same)
          · exact Nat.le_of_lt less
        have whole := ink_take_drop used cs
        have shrinks := ink_escape_le found
        right
        rw [decodeEscapes_escape cs meaning used found, ink_append, List.length_append,
          ink_cons_visible (by decide), List.length_cons]
        omega

theorem ink_decodeEscapes_le (cs : List Char) :
    (ink (decodeEscapes cs)).length ≤ (ink cs).length := by
  rcases decodeEscapes_cases cs with ⟨-, same⟩ | less
  · exact Nat.le_of_eq (congrArg (fun text => (ink text).length) same)
  · exact Nat.le_of_lt less

theorem decodeEscapes_of_verbatim {cs : List Char} (verbatim : Verbatim cs) :
    decodeEscapes cs = cs := by
  induction cs with
  | nil => rfl
  | cons c cs ih =>
    by_cases backslash : c = '\\'
    · subst backslash
      rw [decodeEscapes_verbatim cs (verbatim [] cs rfl), ih verbatim.tail]
    · rw [decodeEscapes_plain c cs backslash, ih verbatim.tail]

theorem between_quotes {body quote : List Char} (long : 2 * quote.length ≤ body.length)
    (starts : quote <+: body) (ends : quote <:+ body) :
    body = quote ++ (body.drop quote.length).take (body.length - 2 * quote.length) ++ quote := by
  obtain ⟨behind, rfl⟩ := starts
  rw [List.length_append] at long
  obtain ⟨inner, rfl⟩ : quote <:+ behind :=
    List.suffix_of_suffix_length_le ends (List.suffix_append ..) (by omega)
  have count : (quote ++ (inner ++ quote)).length - 2 * quote.length = inner.length := by
    simp only [List.length_append]
    omega
  rw [count, List.drop_left, List.take_left, List.append_assoc]

theorem quoted_iff (quote body : List Char) :
    (2 * quote.length ≤ body.length && quote.isPrefixOf body && quote.isSuffixOf body) = true ↔
      ∃ middle, body = quote ++ middle ++ quote := by
  rw [Bool.and_eq_true, Bool.and_eq_true, decide_eq_true_eq, List.isPrefixOf_iff_prefix,
    List.isSuffixOf_iff_suffix]
  constructor
  · rintro ⟨⟨long, starts⟩, ends⟩
    exact ⟨_, between_quotes long starts ends⟩
  · rintro ⟨middle, rfl⟩
    refine ⟨⟨?_, middle ++ quote, (List.append_assoc ..).symm⟩, List.suffix_append ..⟩
    rw [List.length_append, List.length_append]
    omega

theorem enclosed_middle (quote middle : List Char) :
    ((quote ++ middle ++ quote).drop quote.length).take
      ((quote ++ middle ++ quote).length - 2 * quote.length) = middle := by
  rw [List.append_assoc, List.drop_left]
  refine List.take_left' ?_
  rw [List.length_append, List.length_append]
  omega

/-- A body in quotes loses quotes, the ones it has or longer ones that it begins and ends with. -/
theorem unquoted_quoted {body quote : List Char} {quotes : List (List Char)}
    (listed : quote ∈ quotes) (long : 2 * quote.length ≤ body.length) (starts : quote <+: body)
    (ends : quote <:+ body) : ∃ quote ∈ quotes, body = quote ++ unquoted body quotes ++ quote := by
  induction quotes with
  | nil => exact absurd listed List.not_mem_nil
  | cons first quotes ih =>
    rw [unquoted]
    split
    · next fits =>
      simp only [Bool.and_eq_true, decide_eq_true_eq] at fits
      exact ⟨first, List.mem_cons_self .., between_quotes fits.1.1
        (List.isPrefixOf_iff_prefix.1 fits.1.2) (List.isSuffixOf_iff_suffix.1 fits.2)⟩
    · next other =>
      rcases List.mem_cons.1 listed with rfl | listed
      · simp [long, starts, ends] at other
      · obtain ⟨quote, held, same⟩ := ih listed
        exact ⟨quote, List.mem_cons_of_mem _ held, same⟩

theorem unquoted_sublist (body : List Char) (quotes : List (List Char)) :
    (unquoted body quotes).Sublist body := by
  induction quotes with
  | nil => exact List.Sublist.refl _
  | cons quote quotes ih =>
    rw [unquoted]
    split
    · exact (List.take_sublist ..).trans (List.drop_sublist ..)
    · exact ih

structure IsLiteral (literal : List Char) : Prop where
  quoted : ∃ letters marks inner, ∃ quote ∈ ['"', '\x27', '\x60'],
    (∀ c ∈ letters, isLiteralPrefix c = true) ∧ (marks = [quote] ∨ marks = [quote, quote, quote]) ∧
      literal = letters ++ marks ++ inner ++ marks

theorem IsLiteral.visible {literal : List Char} (isLiteral : IsLiteral literal) :
    ink literal ≠ [] := by
  obtain ⟨letters, marks, inner, quote, listed, -, form, rfl⟩ := isLiteral.quoted
  have held : quote ∈ letters ++ marks ++ inner ++ marks := by
    rcases form with rfl | rfl
    · simp
    · simp
  have visible : ['"', '\x27', '\x60'].all (!isBlank ·) = true := by decide
  exact List.ne_nil_of_mem (List.mem_filter.2 ⟨held, List.all_eq_true.1 visible quote listed⟩)

theorem literalValue_le (literal : List Char) :
    (ink (literalValue literal)).length ≤ (ink (literalContents literal)).length := by
  rw [literalValue]
  split
  · exact Nat.le_refl _
  · exact ink_decodeEscapes_le _

theorem ink_sublist {first second : List Char} (sublist : first.Sublist second) :
    (ink first).length ≤ (ink second).length :=
  (sublist.filter _).length_le

theorem literalContents_le (literal : List Char) :
    (ink (literalContents literal)).length ≤ (ink literal).length :=
  ink_sublist ((unquoted_sublist _ _).trans (List.dropWhile_sublist _))

theorem quotes_visible : ∀ quote ∈ quotes, 1 ≤ (ink quote).length := by
  decide

theorem IsLiteral.contents {literal : List Char} (isLiteral : IsLiteral literal) :
    literal.getLast? = some '\x60' ∨
      (ink (literalContents literal)).length + 2 ≤ (ink literal).length := by
  obtain ⟨letters, marks, inner, quote, listed, prefixes, form, rfl⟩ := isLiteral.quoted
  obtain ⟨front, back, opens, closes⟩ : ∃ front back, marks = quote :: back ∧
      marks = front ++ [quote] := by
    rcases form with rfl | rfl
    · exact ⟨[], [], rfl, rfl⟩
    · exact ⟨[quote, quote], [quote, quote], rfl, rfl⟩
  by_cases grave : quote = '\x60'
  · left
    rw [closes, ← List.append_assoc, List.getLast?_concat, grave]
  right
  obtain ⟨plain, single⟩ : isLiteralPrefix quote = false ∧ [quote] ∈ quotes := by
    rcases List.mem_cons.1 listed with rfl | listed
    · decide
    rcases List.mem_cons.1 listed with rfl | listed
    · decide
    · exact absurd (List.mem_singleton.1 listed) grave
  have body : literalBody (letters ++ marks ++ inner ++ marks) = marks ++ inner ++ marks := by
    rw [literalBody, List.append_assoc, List.append_assoc, List.dropWhile_append_of_pos prefixes,
      ← List.append_assoc]
    conv => lhs; rw [opens]
    rw [List.cons_append, List.cons_append, List.dropWhile_cons_of_neg (by simp [plain]), opens]
    rfl
  obtain ⟨quote', listed', same⟩ := @unquoted_quoted (marks ++ inner ++ marks) _ _ single
    (by rw [opens]; simp; omega) ⟨back ++ inner ++ marks, by rw [opens]; simp⟩
    ⟨marks ++ inner ++ front, by rw [closes]; simp⟩
  have visible := quotes_visible quote' listed'
  have whole := congrArg (fun text => (ink text).length) same
  simp only [ink_append, List.length_append] at whole
  rw [literalContents, body]
  simp only [ink_append, List.length_append]
  omega

end SourceAtlas.Python
