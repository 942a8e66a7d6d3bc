import Mathlib.Algebra.GroupWithZero.Nat
import SourceAtlas.Proofs.Python.Docstring
import SourceAtlas.Proofs.Python.Literal
import SourceAtlas.Proofs.Text.Returns
set_option autoImplicit false

/-!
# Continued lines

A backslash at the end of a line takes the line feed behind it out of a literal, but no carriage
return. Where a documentation string has such a line it depends on the line ends of its text, and
nowhere else.
-/

namespace SourceAtlas.Python

open SourceAtlas.Text

/-- How a text is read from one with carriage returns: some line feeds have one before them, and at
some places, which are counted, a backslash with a line end is left that the text does not have. -/
inductive Returned : Nat → List Char → List Char → Prop
  | nil : Returned 0 [] []
  | cons {n : Nat} {cs cs' : List Char} (c : Char) (rest : Returned n cs cs') :
      Returned n (c :: cs) (c :: cs')
  | feed {n : Nat} {cs cs' : List Char} (rest : Returned n cs cs') :
      Returned n ('\n' :: cs) ('\r' :: '\n' :: cs')
  | left {n : Nat} {cs cs' : List Char} (rest : Returned n cs cs') :
      Returned (n + 1) cs ('\\' :: '\r' :: '\n' :: cs')

namespace Returned

theorem append {m n : Nat} {first first' second second' : List Char}
    (front : Returned m first first') (behind : Returned n second second') :
    Returned (m + n) (first ++ second) (first' ++ second') := by
  induction front with
  | nil => rwa [Nat.zero_add]
  | cons c _ ih => exact ih.cons c
  | feed _ ih => exact ih.feed
  | left _ ih =>
    rw [Nat.add_right_comm]
    exact ih.left

theorem same (cs : List Char) : Returned 0 cs cs := by
  induction cs with
  | nil => exact .nil
  | cons c cs ih => exact ih.cons c

theorem withReturns (cs : List Char) : Returned 0 cs (withReturns cs) := by
  induction cs with
  | nil => exact .nil
  | cons c cs ih =>
    by_cases line : c = '\n'
    · subst line
      exact ih.feed
    · rw [withReturns_cons line]
      exact ih.cons c

theorem ink_length {n : Nat} {cs cs' : List Char} (returned : Returned n cs cs') :
    (ink cs').length = (ink cs).length + n := by
  induction returned with
  | nil => rfl
  | cons c _ ih =>
    cases blank : isBlank c with
    | true => rwa [ink_cons_blank blank, ink_cons_blank blank]
    | false =>
      rw [ink_cons_visible blank, ink_cons_visible blank, List.length_cons, List.length_cons, ih]
      omega
  | feed _ ih =>
    rwa [ink_cons_blank (by decide), ink_cons_blank (by decide), ink_cons_blank (by decide)]
  | left _ ih =>
    rw [ink_cons_visible (by decide), ink_cons_blank (by decide), ink_cons_blank (by decide),
      List.length_cons, ih]
    rfl

theorem expandTabs {n : Nat} {cs cs' : List Char} (returned : Returned n cs cs') :
    Returned n (expandTabs cs) (expandTabs cs') := by
  induction returned with
  | nil => exact .nil
  | cons c _ ih =>
    by_cases tab : c = '\t'
    · subst tab
      have spaces := (same (List.replicate 8 ' ')).append ih
      rwa [Nat.zero_add] at spaces
    · rw [expandTabs_cons tab, expandTabs_cons tab]
      exact ih.cons c
  | feed _ ih => exact ih.feed
  | left _ ih => exact ih.left

theorem pieces {n : Nat} {cs cs' : List Char} (returned : Returned n cs cs') (bare : n = 0) :
    (Text.pieces '\n' cs').map trimEnd = (Text.pieces '\n' cs).map trimEnd := by
  induction returned with
  | nil => rfl
  | left => omega
  | @cons _ cs cs' c _ ih =>
    have rest := ih bare
    rw [Text.pieces, Text.pieces]
    rcases cut : Text.pieces '\n' cs with _ | ⟨first, more⟩
    · exact absurd cut (pieces_ne_nil '\n' cs)
    rcases cut' : Text.pieces '\n' cs' with _ | ⟨first', more'⟩
    · exact absurd cut' (pieces_ne_nil '\n' cs')
    rw [cut, cut', List.map_cons, List.map_cons] at rest
    obtain ⟨here, behind⟩ := List.cons.inj rest
    dsimp only
    split
    · rw [List.map_cons, List.map_cons, List.map_cons, List.map_cons, here, behind]
    · rw [List.map_cons, List.map_cons, trimEnd_cons_congr here, behind]
  | @feed _ cs cs' _ ih =>
    have cut := pieces_append '\n' ['\r'] cs'
    have cut' := pieces_append '\n' [] cs
    rw [List.nil_append] at cut'
    rw [cut', List.map_append, ← ih bare]
    exact (congrArg (List.map trimEnd) cut).trans List.map_append

end Returned

theorem cleanDocstring_returned {n : Nat} {cs cs' : List Char} (returned : Returned n cs cs') :
    cleanDocstring cs' = cleanDocstring cs ↔ n = 0 := by
  constructor
  · intro same
    have length := returned.ink_length
    rw [← ink_cleanDocstring cs', same, ink_cleanDocstring] at length
    omega
  · intro bare
    rw [cleanDocstring, cleanDocstring, cleanLines_eq_pieces, cleanLines_eq_pieces,
      returned.expandTabs.pieces bare]

def continuations : List Char → Nat
  | '\\' :: '\n' :: cs => continuations cs + 1
  | '\\' :: _ :: cs => continuations cs
  | _ :: cs => continuations cs
  | [] => 0

theorem continuations_plain {c : Char} (other : c ≠ '\\') (cs : List Char) :
    continuations (c :: cs) = continuations cs := by
  rw [continuations.eq_def]
  simp [other]

theorem continuations_escaped {c : Char} (other : c ≠ '\n') (cs : List Char) :
    continuations ('\\' :: c :: cs) = continuations cs := by
  rw [continuations.eq_def]
  simp

theorem continuations_drop {n : Nat} {cs : List Char} (plain : '\\' ∉ cs.take n) :
    continuations (cs.drop n) = continuations cs := by
  induction cs generalizing n with
  | nil => rw [List.drop_nil]
  | cons c cs ih =>
    cases n with
    | zero => rfl
    | succ n =>
      rw [List.take_succ_cons, List.mem_cons, not_or] at plain
      rw [List.drop_succ_cons, ih plain.2, continuations_plain (Ne.symm plain.1)]

theorem hexNumber?_digits {value number : Nat} {digits : List Char}
    (found : hexNumber? value digits = some number) : ∀ c ∈ digits, (hexDigit? c).isSome = true := by
  induction digits generalizing value with
  | nil => nofun
  | cons d digits ih =>
    obtain ⟨digit, here, found⟩ := Option.bind_eq_some_iff.1 found
    intro c mem
    rcases List.mem_cons.1 mem with rfl | mem
    · rw [here]
      rfl
    · exact ih found c mem

theorem signedHexNumber?_digits {number : Nat} {digits : List Char}
    (found : signedHexNumber? digits = some number) :
    ∀ c ∈ digits, (c == '+' || (hexDigit? c).isSome) = true := by
  rw [signedHexNumber?.eq_def] at found
  split at found
  · cases found
  · cases found
  · next cs found =>
    intro c mem
    rcases List.mem_cons.1 mem with rfl | mem
    · rfl
    · rw [hexNumber?_digits found c mem, Bool.or_true]
  · intro c mem
    rw [hexNumber?_digits found c mem, Bool.or_true]

def isOrdinary (c : Char) : Bool :=
  c != '\\' && c != '\n' && c != '\r'

theorem isOrdinary_of_holds (p : Char → Bool)
    (blind : p '\\' = false ∧ p '\n' = false ∧ p '\r' = false) {c : Char} (holds : p c = true) :
    isOrdinary c = true := by
  have apart {d : Char} (blind : p d = false) : c ≠ d := by
    rintro rfl
    rw [blind] at holds
    cases holds
  simp [isOrdinary, apart blind.1, apart blind.2.1, apart blind.2.2]

theorem numericEscape_digits {width : Nat} {cs meaning : List Char} {used : Nat}
    (found : numericEscape width cs = some (meaning, used)) :
    used = width + 1 ∧ ∀ c ∈ cs.take width, isOrdinary c = true := by
  rw [numericEscape] at found
  split at found
  · obtain ⟨c, scalar, same⟩ := Option.map_eq_some_iff.1 found
    obtain ⟨number, digits, -⟩ := Option.bind_eq_some_iff.1 scalar
    refine ⟨(Prod.mk.inj same).2.symm, fun d mem => ?_⟩
    exact isOrdinary_of_holds (fun c => c == '+' || (hexDigit? c).isSome) (by decide)
      (signedHexNumber?_digits digits d mem)
  · cases found

theorem numericEscape_eq_none {width : Nat} {cs : List Char} {c : Char} (mem : c ∈ cs.take width)
    (special : isOrdinary c = false) : numericEscape width cs = none := by
  rw [Option.eq_none_iff_forall_ne_some]
  intro found same
  rw [(numericEscape_digits same).2 c mem] at special
  cases special

theorem numericEscape_withReturns (width : Nat) (cs : List Char) :
    numericEscape width (withReturns cs) = numericEscape width cs := by
  by_cases ends : '\n' ∈ cs.take width
  · rw [numericEscape_eq_none ends (by decide),
      numericEscape_eq_none (mem_take_withReturns ends) (by decide)]
  · rw [numericEscape, numericEscape, take_withReturns ends]

theorem octalEscape_withReturns {c : Char} (feed : c ≠ '\n') (cs : List Char) :
    octalEscape (c :: withReturns cs) = octalEscape (c :: cs) := by
  have inline : Inline fun c => (octalDigit? c).isSome := by decide
  have digits := congrArg (List.take 3) (takeWhile_withReturns inline (c :: cs))
  rw [withReturns_cons feed, List.take_takeWhile, List.take_takeWhile] at digits
  rw [octalEscape, octalEscape, digits]

theorem escape?_withReturns {c : Char} (feed : c ≠ '\n') (cs : List Char) :
    escape? (c :: withReturns cs) = escape? (c :: cs) := by
  unfold escape?
  dsimp only
  split
  iterate 11 rfl
  iterate 3 exact numericEscape_withReturns _ cs
  rw [octalEscape_withReturns feed]

theorem octalEscape_digits {c : Char} (digit : (octalDigit? c).isSome = true) {cs meaning : List Char}
    {used : Nat} (found : octalEscape (c :: cs) = some (meaning, used)) :
    ∃ less, used = less + 1 ∧ ∀ d ∈ cs.take less, isOrdinary d = true := by
  obtain ⟨scalar, -, same⟩ := Option.map_eq_some_iff.1 found
  obtain ⟨-, rfl⟩ := Prod.mk.inj same
  rw [List.take_succ_cons, List.takeWhile_cons, if_pos digit, List.length_cons]
  refine ⟨_, rfl, fun d mem => ?_⟩
  have inside := (List.takeWhile_prefix fun c => (octalDigit? c).isSome).trans (List.take_prefix 2 cs)
  rw [← List.prefix_iff_eq_take.1 inside] at mem
  exact isOrdinary_of_holds _ (by decide) (List.mem_takeWhile_imp mem)

theorem escape?_digits {c : Char} (feed : c ≠ '\n') {cs meaning : List Char} {used : Nat}
    (found : escape? (c :: cs) = some (meaning, used)) :
    ∃ less, used = less + 1 ∧ ∀ d ∈ cs.take less, isOrdinary d = true := by
  have one {m : List Char} (same : some (m, 1) = some (meaning, used)) :
      ∃ less, used = less + 1 ∧ ∀ d ∈ cs.take less, isOrdinary d = true := by
    obtain ⟨rfl, rfl⟩ := Prod.mk.inj (Option.some.inj same)
    exact ⟨0, rfl, nofun⟩
  unfold escape? at found
  dsimp only at found
  split at found
  iterate 11 exact one found
  iterate 3 exact ⟨_, numericEscape_digits found⟩
  split at found
  · next digit => exact octalEscape_digits digit found
  · cases found

theorem decodeEscapes_returned {cs : List Char} (plain : '\r' ∉ cs) :
    Returned (continuations cs) (decodeEscapes cs) (decodeEscapes (withReturns cs)) := by
  induction h : cs.length using Nat.strongRecOn generalizing cs with
  | _ n ih =>
  have rest {behind : List Char} (inside : behind <:+ cs) (short : behind.length < n) :
      Returned (continuations behind) (decodeEscapes behind) (decodeEscapes (withReturns behind)) :=
    ih behind.length short (fun mem => plain (inside.subset mem)) rfl
  rcases cs with _ | ⟨c, cs⟩
  · exact .nil
  rw [List.length_cons] at h
  by_cases backslash : c = '\\'
  swap
  · rw [decodeEscapes_plain c cs backslash, continuations_plain backslash]
    have behind := rest (List.suffix_cons ..) (by omega)
    by_cases feed : c = '\n'
    · subst feed
      rw [withReturns_feed, decodeEscapes_plain _ _ (by decide), decodeEscapes_plain _ _ (by decide)]
      exact behind.feed
    · rw [withReturns_cons feed, decodeEscapes_plain c _ backslash]
      exact behind.cons c
  subst backslash
  rcases cs with _ | ⟨d, cs⟩
  · exact .same ['\\']
  rw [List.length_cons] at h
  rw [withReturns_cons (by decide)]
  have behind := rest (List.suffix_append [_, _] cs) (by omega)
  by_cases feed : d = '\n'
  · -- A carriage return takes the meaning from the backslash before it.
    subst feed
    rw [withReturns_feed, decodeEscapes_escape ('\n' :: cs) [] 1 rfl,
      decodeEscapes_verbatim ('\r' :: '\n' :: _) rfl, decodeEscapes_plain _ _ (by decide),
      decodeEscapes_plain _ _ (by decide)]
    exact behind.left
  rw [continuations_escaped feed, withReturns_cons feed]
  have same := escape?_withReturns feed cs
  cases found : escape? (d :: cs) with
  | none =>
    have slash : d ≠ '\\' := by
      rintro rfl
      cases found
    rw [decodeEscapes_verbatim _ found, decodeEscapes_verbatim _ (same.trans found),
      decodeEscapes_plain d _ slash, decodeEscapes_plain d _ slash]
    exact (behind.cons d).cons '\\'
  | some escape =>
    obtain ⟨meaning, used⟩ := escape
    obtain ⟨less, rfl, digits⟩ := escape?_digits feed found
    have slashes : '\\' ∉ cs.take less := fun mem => absurd (digits _ mem) (by decide)
    have ends : '\n' ∉ cs.take less := fun mem => absurd (digits _ mem) (by decide)
    have behind := rest ((List.drop_suffix less cs).trans (List.suffix_append ['\\', d] cs))
      (by rw [List.length_drop]; omega)
    rw [decodeEscapes_escape _ meaning _ found, decodeEscapes_escape _ meaning _ (same.trans found),
      List.drop_succ_cons, List.drop_succ_cons, drop_withReturns ends, ← continuations_drop slashes]
    have whole := (Returned.same meaning).append behind
    rwa [Nat.zero_add] at whole

theorem exists_enclosed_withReturns {quote : List Char} (single : OneLine quote) (body : List Char) :
    (∃ middle, withReturns body = quote ++ middle ++ quote) ↔
      ∃ middle, body = quote ++ middle ++ quote := by
  constructor
  · rintro ⟨middle, whole⟩
    obtain ⟨rest, rfl⟩ := (prefix_withReturns_iff single).1 ⟨middle ++ quote, by rw [whole, List.append_assoc]⟩
    rw [withReturns_append, withReturns_of_not_mem single.1, List.append_assoc] at whole
    obtain ⟨inner, rfl⟩ := (suffix_withReturns_iff single).1 ⟨middle, (List.append_cancel_left whole).symm⟩
    exact ⟨inner, (List.append_assoc ..).symm⟩
  · rintro ⟨middle, rfl⟩
    refine ⟨withReturns middle, ?_⟩
    rw [withReturns_append, withReturns_append, withReturns_of_not_mem single.1]

theorem unquoted_withReturns {all : List (List Char)} (single : ∀ quote ∈ all, OneLine quote)
    (body : List Char) : unquoted (withReturns body) all = withReturns (unquoted body all) := by
  induction all with
  | nil => rfl
  | cons quote all ih =>
    have here := single quote (List.mem_cons_self ..)
    rw [unquoted, unquoted]
    by_cases enclosed : ∃ middle, body = quote ++ middle ++ quote
    · rw [if_pos ((quoted_iff ..).2 enclosed),
        if_pos ((quoted_iff ..).2 ((exists_enclosed_withReturns here body).2 enclosed))]
      obtain ⟨middle, rfl⟩ := enclosed
      rw [enclosed_middle, withReturns_append, withReturns_append, withReturns_of_not_mem here.1,
        enclosed_middle]
    · rw [if_neg ((quoted_iff ..).not.2 enclosed),
        if_neg ((quoted_iff ..).not.2 ((exists_enclosed_withReturns here body).not.2 enclosed))]
      exact ih fun quote listed => single quote (List.mem_cons_of_mem _ listed)

theorem literalContents_withReturns (literal : List Char) :
    literalContents (withReturns literal) = withReturns (literalContents literal) := by
  have inline : Inline isLiteralPrefix := by decide
  rw [literalContents, literalBody, dropWhile_withReturns inline, unquoted_withReturns (by decide)]
  rfl

theorem isRawLiteral_withReturns (literal : List Char) :
    isRawLiteral (withReturns literal) = isRawLiteral literal := by
  have inline : Inline isLiteralPrefix := by decide
  rw [isRawLiteral, isRawLiteral, takeWhile_withReturns inline]

def joins (literal : List Char) : Nat :=
  if isRawLiteral literal then 0 else continuations (literalContents literal)

theorem literalContents_sublist (literal : List Char) : (literalContents literal).Sublist literal :=
  (unquoted_sublist _ _).trans (List.dropWhile_sublist _)

theorem literalValue_returned {literal : List Char} (plain : '\r' ∉ literal) :
    Returned (joins literal) (literalValue literal) (literalValue (withReturns literal)) := by
  rw [joins, literalValue, literalValue, isRawLiteral_withReturns, literalContents_withReturns]
  split
  · exact .withReturns _
  · exact decodeEscapes_returned fun mem => plain ((literalContents_sublist literal).subset mem)

theorem docstringPart?_withReturns (literal : List Char) :
    docstringPart? (withReturns literal) =
      (docstringPart? literal).map fun _ => literalValue (withReturns literal) := by
  have letters := any_takeWhile_withReturns
    (p := fun c => c != '"' && c != '\x27') (q := fun c => c == 'b' || c == 'B' || c == 'f' || c == 'F')
    (by decide) (by decide) literal
  simp only [docstringPart?, letters]
  split <;> rfl

theorem docstringParts_returned {literals : List String} {parts : List (List Char)}
    (plain : ∀ literal ∈ literals, '\r' ∉ literal.toList)
    (read : (literals.mapM fun literal => docstringPart? literal.toList) = some parts) :
    ∃ parts', ((literals.map Text.returned).mapM fun literal => docstringPart? literal.toList) =
        some parts' ∧
      Returned (literals.map fun literal => joins literal.toList).sum parts.flatten parts'.flatten := by
  induction literals generalizing parts with
  | nil =>
    cases read
    exact ⟨[], rfl, .nil⟩
  | cons literal literals ih =>
    simp only [List.mapM_cons, Option.bind_eq_bind, Option.bind_eq_some_iff] at read
    obtain ⟨part, first, more, rest, same⟩ := read
    obtain rfl : part :: more = parts := Option.some.inj same
    obtain ⟨more', rest', behind⟩ := ih (fun other listed => plain other (List.mem_cons_of_mem _ listed)) rest
    have value : part = literalValue literal.toList := by
      rw [docstringPart?] at first
      split at first
      · cases first
      · exact (Option.some.inj first).symm
    have first' := docstringPart?_withReturns literal.toList
    rw [first, Option.map_some] at first'
    refine ⟨literalValue (withReturns literal.toList) :: more', ?_, ?_⟩
    · rw [List.map_cons, List.mapM_cons, toList_returned, first', rest']
      rfl
    · rw [List.map_cons, List.sum_cons, List.flatten_cons, List.flatten_cons, value]
      exact (literalValue_returned (plain literal (List.mem_cons_self ..))).append behind

theorem isSome_mapM {α β : Type} (read : α → Option β) (as : List α) :
    (as.mapM read).isSome = as.all fun a => (read a).isSome := by
  induction as with
  | nil => rfl
  | cons a as ih =>
    rw [List.mapM_cons, List.all_cons, ← ih]
    cases read a with
    | none => rfl
    | some b => cases as.mapM read <;> rfl

theorem isSome_docstring?_returned (literals : List String) :
    (docstring? (literals.map Text.returned)).isSome = (docstring? literals).isSome := by
  have each : ((fun literal : String => (docstringPart? literal.toList).isSome) ∘ Text.returned) =
      fun literal => (docstringPart? literal.toList).isSome := by
    funext literal
    rw [Function.comp_apply, toList_returned, docstringPart?_withReturns, Option.isSome_map]
  rw [docstring?, docstring?, Option.isSome_map, Option.isSome_map, isSome_mapM, isSome_mapM,
    List.all_map, each]

theorem docstring?_returned {literals : List String} {doc doc' : String}
    (plain : ∀ literal ∈ literals, '\r' ∉ literal.toList) (read : docstring? literals = some doc)
    (read' : docstring? (literals.map Text.returned) = some doc') :
    doc' = doc ↔ ∀ literal ∈ literals, joins literal.toList = 0 := by
  obtain ⟨parts, mapped, rfl⟩ := Option.map_eq_some_iff.1 read
  obtain ⟨parts', mapped', returned⟩ := docstringParts_returned plain mapped
  rw [docstring?, mapped', Option.map_some] at read'
  obtain rfl := Option.some.inj read'
  rw [String.ofList_inj, cleanDocstring_returned returned, List.sum_eq_zero_iff_forall_eq_nat]
  exact List.forall_mem_map

end SourceAtlas.Python
