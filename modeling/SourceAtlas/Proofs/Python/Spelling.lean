import Mathlib.Data.Nat.Digits.Defs
import Mathlib.Tactic.IntervalCases
import Mathlib.Tactic.Ring
import SourceAtlas.Proofs.Python.Literal
set_option autoImplicit false

namespace SourceAtlas.Python

open SourceAtlas.Text

structure HexDigit where
  value : Fin 16
  capital : Bool

def HexDigit.written (digit : HexDigit) : Char :=
  if digit.capital then (Nat.digitChar digit.value).toUpper else Nat.digitChar digit.value

def number (digits : List HexDigit) : Nat :=
  Nat.ofDigits 16 (digits.map fun digit => digit.value.val).reverse

theorem number_cons (digit : HexDigit) (digits : List HexDigit) :
    number (digit :: digits) = 16 ^ digits.length * digit.value + number digits := by
  rw [number, number, List.map_cons, List.reverse_cons, Nat.ofDigits_append, Nat.ofDigits_singleton,
    List.length_reverse, List.length_map, Nat.add_comm]

theorem hexDigit?_written (digit : HexDigit) : hexDigit? digit.written = some digit.value.val := by
  obtain ⟨value, capital⟩ := digit
  revert value capital
  decide

theorem exists_written {c : Char} {value : Nat} (read : hexDigit? c = some value) :
    ∃ digit : HexDigit, digit.written = c ∧ digit.value.val = value := by
  have low : c.toNat < 103 := by
    simp only [hexDigit?] at read
    split at read
    · next range => exact Nat.lt_of_le_of_lt range.2 (by decide)
    split at read
    · next range => exact Nat.lt_of_le_of_lt range.2 (by decide)
    split at read
    · next range => exact Nat.lt_of_le_of_lt range.2 (by decide)
    · cases read
  have table : ∀ code < 103, ∀ value ∈ hexDigit? (Char.ofNat code), ∃ place : Fin 16, ∃ capital,
      HexDigit.written ⟨place, capital⟩ = Char.ofNat code ∧ place.val = value := by
    decide +kernel
  obtain ⟨place, capital, same⟩ := table c.toNat low value (by rwa [Char.ofNat_toNat])
  exact ⟨⟨place, capital⟩, by rwa [Char.ofNat_toNat] at same⟩

theorem written_ne (digit : HexDigit) : digit.written ≠ '+' ∧ digit.written ≠ '\\' := by
  have read := hexDigit?_written digit
  constructor
  · intro same
    rw [same] at read
    cases read
  · intro same
    rw [same] at read
    cases read

theorem hexNumber?_written (value : Nat) (digits : List HexDigit) :
    hexNumber? value (digits.map HexDigit.written) =
      some (16 ^ digits.length * value + number digits) := by
  induction digits generalizing value with
  | nil => simp [hexNumber?, number]
  | cons digit digits ih =>
    rw [List.map_cons, hexNumber?, hexDigit?_written, Option.bind_some, ih, number_cons,
      List.length_cons]
    congr 1
    ring

theorem exists_digits {value n : Nat} {cs : List Char} (read : hexNumber? value cs = some n) :
    ∃ digits : List HexDigit, digits.map HexDigit.written = cs := by
  induction cs generalizing value with
  | nil => exact ⟨[], rfl⟩
  | cons c cs ih =>
    obtain ⟨_, here, behind⟩ := Option.bind_eq_some_iff.1 read
    obtain ⟨digit, rfl, -⟩ := exists_written here
    obtain ⟨digits, rfl⟩ := ih behind
    exact ⟨digit :: digits, rfl⟩

theorem signedHexNumber?_unsigned {cs : List Char} (full : cs ≠ []) (unsigned : cs.head? ≠ some '+') :
    signedHexNumber? cs = hexNumber? 0 cs := by
  unfold signedHexNumber?
  split
  · exact absurd rfl full
  · exact absurd rfl unsigned
  · exact absurd rfl unsigned
  · rfl

theorem signedHexNumber?_signed {cs : List Char} (full : cs ≠ []) :
    signedHexNumber? ('+' :: cs) = hexNumber? 0 cs := by
  cases cs with
  | nil => exact absurd rfl full
  | cons c cs => rfl

/-- The letters of numeric escapes, each with the number of its digits. -/
def numericLetters : List (Char × Nat) := [('x', 2), ('u', 4), ('U', 8)]

/-- A text that begins with so many hexadecimal digits, which name a character, and goes on behind. -/
def Names (width : Nat) (cs : List Char) (meant : Char) (behind : List Char) : Prop :=
  ∃ digits : List HexDigit, digits.length = width ∧ (number digits).isValidChar ∧
    Char.ofNat (number digits) = meant ∧ digits.map HexDigit.written ++ behind = cs

theorem scalar?_valid {n : Nat} (valid : n.isValidChar) : scalar? n = some (Char.ofNat n) := by
  rw [scalar?, dif_pos valid, Char.ofNat, dif_pos valid]

section
variable {width : Nat} {cs behind : List Char} {meant : Char} (names : Names width cs meant behind)
include names

theorem Names.split : (cs.take width).length = width ∧ cs.drop width = behind := by
  obtain ⟨digits, full, -, -, rfl⟩ := names
  have cut : (digits.map HexDigit.written).length = width := by rw [List.length_map, full]
  rw [List.take_left' cut, List.drop_left' cut]
  exact ⟨cut, rfl⟩

theorem Names.read : (hexNumber? 0 (cs.take width)).bind scalar? = some meant := by
  obtain ⟨digits, full, valid, rfl, rfl⟩ := names
  have cut : (digits.map HexDigit.written).length = width := by rw [List.length_map, full]
  rw [List.take_left' cut, hexNumber?_written, Nat.mul_zero, Nat.zero_add]
  exact scalar?_valid valid

theorem Names.plain {c : Char} (mem : c ∈ cs.take width) : c ≠ '+' ∧ c ≠ '\\' := by
  obtain ⟨digits, full, -, -, rfl⟩ := names
  rw [List.take_left' (by rw [List.length_map, full])] at mem
  obtain ⟨digit, -, rfl⟩ := List.mem_map.1 mem
  exact written_ne digit

theorem Names.unsigned : (cs.take width).head? ≠ some '+' := by
  intro same
  exact (names.plain (List.mem_of_head? same)).1 rfl

theorem Names.numericEscape (wide : 0 < width) :
    Python.numericEscape width cs = some ([meant], width + 1) := by
  have full := names.split.1
  rw [Python.numericEscape, if_pos full,
    signedHexNumber?_unsigned (List.ne_nil_of_length_pos (by omega)) names.unsigned, names.read,
    Option.map_some]

theorem Names.numericEscape_signed (wide : 0 < width) :
    Python.numericEscape (width + 1) ('+' :: cs) = some ([meant], width + 2) := by
  have full := names.split.1
  rw [Python.numericEscape, List.take_succ_cons, List.length_cons, full, if_pos rfl,
    signedHexNumber?_signed (List.ne_nil_of_length_pos (by omega)), names.read, Option.map_some]

end

theorem names_of_read {n : Nat} {cs : List Char} (read : hexNumber? 0 cs = some n)
    (valid : n.isValidChar) (behind : List Char) :
    Names cs.length (cs ++ behind) (Char.ofNat n) behind := by
  obtain ⟨digits, rfl⟩ := exists_digits read
  rw [hexNumber?_written, Nat.mul_zero, Nat.zero_add] at read
  obtain rfl := Option.some.inj read
  exact ⟨digits, List.length_map _ |>.symm, valid, rfl, rfl⟩

theorem names_of_numericEscape {width : Nat} (wide : 1 < width) {cs : List Char}
    {escape : List Char × Nat} (found : numericEscape width cs = some escape) :
    (∃ meant behind, Names width cs meant behind) ∨
      ∃ more meant behind, cs = '+' :: more ∧ Names (width - 1) more meant behind := by
  rw [numericEscape] at found
  split at found
  swap
  · cases found
  next full =>
  obtain ⟨c, scalar, -⟩ := Option.map_eq_some_iff.1 found
  obtain ⟨n, read, scalar⟩ := Option.bind_eq_some_iff.1 scalar
  have valid : n.isValidChar := by
    by_contra invalid
    rw [scalar?, dif_neg invalid] at scalar
    cases scalar
  have whole := List.take_append_drop width cs
  cases cut : cs.take width with
  | nil =>
    rw [cut, List.length_nil] at full
    omega
  | cons first digits =>
    rw [cut] at read whole full
    rw [List.length_cons] at full
    by_cases sign : first = '+'
    · subst sign
      rw [signedHexNumber?_signed (List.ne_nil_of_length_pos (by omega))] at read
      have names := names_of_read read valid (cs.drop width)
      rw [show digits.length = width - 1 by omega] at names
      exact .inr ⟨_, _, _, whole.symm, names⟩
    · rw [signedHexNumber?_unsigned (List.cons_ne_nil _ _) fun same => sign (Option.some.inj same)] at read
      have names := names_of_read read valid (cs.drop width)
      rw [List.length_cons, full, whole] at names
      exact .inl ⟨_, _, names⟩

theorem decodeEscapes_append_plain {front : List Char} (plain : '\\' ∉ front) (cs : List Char) :
    decodeEscapes (front ++ cs) = front ++ decodeEscapes cs := by
  induction front with
  | nil => rfl
  | cons c front ih =>
    rw [List.mem_cons, not_or] at plain
    rw [List.cons_append, decodeEscapes_plain c _ (Ne.symm plain.1), ih plain.2, List.cons_append]

theorem escape?_numeric {letter : Char} {width : Nat} (listed : (letter, width) ∈ numericLetters)
    (cs : List Char) : escape? (letter :: cs) = numericEscape width cs := by
  simp only [numericLetters, List.mem_cons, Prod.mk.injEq, List.not_mem_nil, or_false] at listed
  rcases listed with ⟨rfl, rfl⟩ | ⟨rfl, rfl⟩ | ⟨rfl, rfl⟩
  · rfl
  · rfl
  · rfl

theorem one_lt_width {letter : Char} {width : Nat} (listed : (letter, width) ∈ numericLetters) :
    1 < width := by
  have wide : ∀ entry ∈ numericLetters, 1 < entry.2 := by decide
  exact wide _ listed

theorem letter_ne {letter : Char} {width : Nat} (listed : (letter, width) ∈ numericLetters) :
    letter ≠ '\\' := by
  have apart : ∀ entry ∈ numericLetters, entry.1 ≠ '\\' := by decide
  exact apart _ listed

section
variable {letter : Char} {width : Nat}

theorem Names.decodeEscapes (listed : (letter, width) ∈ numericLetters) {rest behind : List Char}
    {meant : Char} (names : Names width rest meant behind) :
    Python.decodeEscapes ('\\' :: letter :: rest) = meant :: Python.decodeEscapes behind := by
  have wide := one_lt_width listed
  have found := (escape?_numeric listed rest).trans (names.numericEscape (by omega))
  rw [decodeEscapes_escape _ _ _ found, List.drop_succ_cons, names.split.2]
  rfl

theorem Names.decodeEscapes_signed (listed : (letter, width) ∈ numericLetters)
    {more behind : List Char} {meant : Char} (names : Names (width - 1) more meant behind) :
    Python.decodeEscapes ('\\' :: letter :: '+' :: more) = meant :: Python.decodeEscapes behind := by
  have wide := one_lt_width listed
  have found := names.numericEscape_signed (by omega)
  rw [Nat.sub_add_cancel (by omega), ← escape?_numeric listed] at found
  rw [decodeEscapes_escape _ _ _ found, List.drop_succ_cons, List.drop_succ_cons, names.split.2]
  rfl

theorem Names.signed_ne {more behind : List Char} {meant : Char}
    (names : Names (width - 1) more meant behind) :
    meant :: Python.decodeEscapes behind ≠ '\\' :: letter :: Python.decodeEscapes ('+' :: more) := by
  have kept := decodeEscapes_append_plain (fun mem => (names.plain mem).2 rfl) (more.drop (width - 1))
  rw [List.take_append_drop, names.split.2] at kept
  rw [decodeEscapes_plain _ _ (by decide), kept]
  intro same
  have length := congrArg List.length same
  simp only [List.length_cons, List.length_append] at length
  omega

theorem decodeEscapes_unnamed (listed : (letter, width) ∈ numericLetters) {rest : List Char}
    (unnamed : ¬ ∃ meant behind, Names width rest meant behind)
    (unsigned : ¬ ∃ more meant behind, rest = '+' :: more ∧ Names (width - 1) more meant behind) :
    decodeEscapes ('\\' :: letter :: rest) = '\\' :: letter :: decodeEscapes rest := by
  have unread : escape? (letter :: rest) = none := by
    rw [escape?_numeric listed, Option.eq_none_iff_forall_ne_some]
    intro escape found
    rcases names_of_numericEscape (one_lt_width listed) found with names | names
    · exact unnamed names
    · exact unsigned names
  rw [decodeEscapes_verbatim _ unread, decodeEscapes_plain _ _ (letter_ne listed)]

/-- A backslash with a letter and as many hexadecimal digits as it asks for stands for the character
that they name. With anything else behind them both stay, unless it is a plus sign and one digit less. -/
theorem decodeEscapes_numeric (listed : (letter, width) ∈ numericLetters) (rest : List Char) :
    (∀ meant behind, Names width rest meant behind →
      decodeEscapes ('\\' :: letter :: rest) = meant :: decodeEscapes behind) ∧
    ((¬ ∃ meant behind, Names width rest meant behind) →
      (decodeEscapes ('\\' :: letter :: rest) = '\\' :: letter :: decodeEscapes rest ↔
        ¬ ∃ more meant behind, rest = '+' :: more ∧ Names (width - 1) more meant behind)) ∧
    ∀ more meant behind, rest = '+' :: more → Names (width - 1) more meant behind →
      decodeEscapes ('\\' :: letter :: rest) = meant :: decodeEscapes behind := by
  refine ⟨fun _ _ names => names.decodeEscapes listed, fun unnamed => ⟨?_, ?_⟩, ?_⟩
  · rintro kept ⟨more, meant, behind, rfl, names⟩
    exact names.signed_ne ((names.decodeEscapes_signed listed).symm.trans kept)
  · exact decodeEscapes_unnamed listed unnamed
  · rintro more meant behind rfl names
    exact names.decodeEscapes_signed listed

end

theorem decodeEscapes_numeric_short :
    ('u', 4) ∈ numericLetters ∧ Names 4 "00e9s".toList 'é' ['s'] ∧
      (decodeEscapes "\\u00e9s".toList = "és".toList) := by
  have listed : ('u', 4) ∈ numericLetters := by decide
  have names : Names 4 "00e9s".toList 'é' ['s'] :=
    ⟨[⟨0, false⟩, ⟨0, false⟩, ⟨14, false⟩, ⟨9, false⟩], rfl, by decide, by decide, by decide⟩
  exact ⟨listed, names, ((decodeEscapes_numeric listed _).1 _ _ names)⟩

/-- A plus sign is no digit, and yet it is read as a part of a number. -/
theorem plus_for_digit :
    (¬ ∃ meant behind, Names 2 "+1".toList meant behind) ∧
      decodeEscapes "\\x+1".toList = ['\x01'] ∧
      '\\' :: 'x' :: decodeEscapes "+1".toList = "\\x+1".toList := by
  refine ⟨?_, by decide, by decide⟩
  rintro ⟨meant, behind, names⟩
  exact names.unsigned rfl

def shortEscapes : List (Char × Char) :=
  [('\\', '\\'), ('\x27', '\x27'), ('"', '"'), ('a', '\x07'), ('b', '\x08'), ('f', '\x0c'),
    ('n', '\n'), ('r', '\r'), ('t', '\t'), ('v', '\x0b')]

/-- A part of a literal as it was meant: a character for itself, an escape of one character, a line
that goes on, three octal digits, or a letter with the hexadecimal digits of a character. -/
inductive Part
  | plain (c : Char) (apart : c ≠ '\\')
  | short (written meant : Char) (listed : (written, meant) ∈ shortEscapes)
  | continued
  | octal (first second third : Fin 8)
  | numeric (letter : Char) (digits : List HexDigit)
      (listed : (letter, digits.length) ∈ numericLetters) (valid : (number digits).isValidChar)

namespace Part

def spelled : Part → List Char
  | plain c _ => [c]
  | short written _ _ => ['\\', written]
  | continued => ['\\', '\n']
  | octal first second third =>
    ['\\', Nat.digitChar first, Nat.digitChar second, Nat.digitChar third]
  | numeric letter digits _ _ => '\\' :: letter :: digits.map HexDigit.written

def meant : Part → List Char
  | plain c _ => [c]
  | short _ meant _ => [meant]
  | continued => []
  | octal first second third => [Char.ofNat (64 * first + 8 * second + third)]
  | numeric _ digits _ _ => [Char.ofNat (number digits)]

theorem octalDigit?_digitChar (digit : Fin 8) :
    octalDigit? (Nat.digitChar digit) = some digit.val := by
  revert digit
  decide

theorem escape?_octal (first second third : Fin 8) (cs : List Char) :
    escape? (Nat.digitChar first :: Nat.digitChar second :: Nat.digitChar third :: cs) =
      some ([Char.ofNat (64 * first + 8 * second + third)], 3) := by
  have digits : octalEscape (Nat.digitChar first :: Nat.digitChar second :: Nat.digitChar third :: cs) =
      some ([Char.ofNat (64 * first + 8 * second + third)], 3) := by
    have valid : (64 * first.val + 8 * second.val + third.val).isValidChar := .inl (by omega)
    simp only [octalEscape, List.take_succ_cons, List.take_zero, List.takeWhile_cons,
      octalDigit?_digitChar, Option.isSome_some, if_true, List.takeWhile_nil, List.foldl_cons,
      List.foldl_nil, Option.getD_some, List.length_cons, List.length_nil]
    rw [show 8 * (8 * (8 * 0 + first.val) + second.val) + third.val = 64 * first + 8 * second + third
      by omega, scalar?_valid valid]
    rfl
  rw [← digits]
  obtain ⟨first, below⟩ := first
  interval_cases first <;> rfl

theorem decodeEscapes_spelled (part : Part) (rest : List Char) :
    decodeEscapes (part.spelled ++ rest) = part.meant ++ decodeEscapes rest := by
  cases part with
  | plain c apart => exact decodeEscapes_plain c rest apart
  | short written meant listed =>
    have decodes : ∀ entry ∈ shortEscapes, ∀ cs, escape? (entry.1 :: cs) = some ([entry.2], 1) := by
      simp only [shortEscapes, List.forall_mem_cons]
      refine ⟨fun _ => rfl, fun _ => rfl, fun _ => rfl, fun _ => rfl, fun _ => rfl, fun _ => rfl,
        fun _ => rfl, fun _ => rfl, fun _ => rfl, fun _ => rfl, nofun⟩
    exact decodeEscapes_escape _ _ _ (decodes _ listed rest)
  | continued => exact decodeEscapes_escape ('\n' :: rest) [] 1 rfl
  | octal first second third => exact decodeEscapes_escape _ _ _ (escape?_octal first second third rest)
  | numeric letter digits listed valid =>
    exact Names.decodeEscapes listed ⟨digits, rfl, valid, rfl, rfl⟩

end Part

theorem decodeEscapes_parts (parts : List Part) :
    decodeEscapes (parts.flatMap Part.spelled) = parts.flatMap Part.meant := by
  induction parts with
  | nil => rfl
  | cons part parts ih =>
    rw [List.flatMap_cons, List.flatMap_cons, part.decodeEscapes_spelled, ih]

/-- A literal taken apart: letters, quotes, and what stands between the quotes. -/
structure Literal where
  letters : List Char
  mark : Char
  triple : Bool
  contents : List Char
  prefixes : ∀ c ∈ letters, c ∈ ['r', 'R', 'u', 'U', 'b', 'B', 'f', 'F']
  isMark : mark = '"' ∨ mark = '\x27'
  /-- Three marks in a row would be another quote. -/
  apart : triple = false → contents.head? ≠ some mark

namespace Literal
variable (literal : Literal)

def quote : List Char :=
  if literal.triple then [literal.mark, literal.mark, literal.mark] else [literal.mark]

def text : List Char :=
  literal.letters ++ literal.quote ++ literal.contents ++ literal.quote

theorem quote_cons : ∃ marks, literal.quote = literal.mark :: marks := by
  rw [quote]
  split
  · exact ⟨_, rfl⟩
  · exact ⟨[], rfl⟩

theorem letters_isPrefix : ∀ c ∈ literal.letters, isLiteralPrefix c = true := by
  have arePrefixes : ∀ c ∈ ['r', 'R', 'u', 'U', 'b', 'B', 'f', 'F'], isLiteralPrefix c = true :=
    List.all_eq_true.1 rfl
  exact fun c mem => arePrefixes c (literal.prefixes c mem)

theorem mark_notPrefix : isLiteralPrefix literal.mark = false := by
  rcases literal.isMark with same | same
  · rw [same]
    rfl
  · rw [same]
    rfl

theorem literalBody_text :
    literalBody literal.text = literal.quote ++ literal.contents ++ literal.quote := by
  obtain ⟨marks, opens⟩ := literal.quote_cons
  rw [literalBody, text, List.append_assoc, List.append_assoc,
    List.dropWhile_append_of_pos literal.letters_isPrefix, ← List.append_assoc]
  conv => lhs; rw [opens]
  rw [List.cons_append, List.cons_append, List.dropWhile_cons_of_neg (by simp [literal.mark_notPrefix]),
    opens]
  rfl

theorem isRawLiteral_text :
    isRawLiteral literal.text = true ↔ 'r' ∈ literal.letters ∨ 'R' ∈ literal.letters := by
  obtain ⟨marks, opens⟩ := literal.quote_cons
  have letters : literal.text.takeWhile isLiteralPrefix = literal.letters := by
    rw [text, List.append_assoc, List.append_assoc, opens,
      List.takeWhile_append_of_pos literal.letters_isPrefix, List.cons_append,
      List.takeWhile_cons_of_neg (by simp [literal.mark_notPrefix]), List.append_nil]
  simp [isRawLiteral, letters, and_or_left, exists_or]

end Literal

theorem unquoted_here (quote contents : List Char) (others : List (List Char)) :
    unquoted (quote ++ contents ++ quote) (quote :: others) = contents := by
  rw [unquoted, if_pos ((quoted_iff ..).2 ⟨contents, rfl⟩), enclosed_middle]

theorem unquoted_other {quote body : List Char} (other : ¬ quote <+: body) (others : List (List Char)) :
    unquoted body (quote :: others) = unquoted body others := by
  rw [unquoted, if_neg]
  rw [quoted_iff]
  rintro ⟨middle, rfl⟩
  exact other ⟨middle ++ quote, (List.append_assoc ..).symm⟩

section
variable {mark : Char} (isMark : mark = '"' ∨ mark = '\x27')
include isMark

theorem unquoted_three (contents : List Char) :
    unquoted ([mark, mark, mark] ++ contents ++ [mark, mark, mark]) quotes = contents := by
  rcases isMark with rfl | rfl
  · exact unquoted_here ..
  · rw [quotes, unquoted_other (by simp)]
    exact unquoted_here ..

theorem unquoted_one {contents : List Char} (apart : contents.head? ≠ some mark) :
    unquoted ([mark] ++ contents ++ [mark]) quotes = contents := by
  have three : ¬ [mark, mark, mark] <+: [mark] ++ contents ++ [mark] := by
    cases contents with
    | nil => simp
    | cons c contents =>
      intro starts
      obtain ⟨-, starts⟩ := List.cons_prefix_cons.1 starts
      obtain ⟨same, -⟩ := List.cons_prefix_cons.1 starts
      exact apart (congrArg some same.symm)
  rcases isMark with rfl | rfl
  · rw [quotes, unquoted_other three, unquoted_other (by simp)]
    exact unquoted_here ..
  · rw [quotes, unquoted_other (by simp), unquoted_other three, unquoted_other (by simp)]
    exact unquoted_here ..

end

theorem literalContents_text (literal : Literal) : literalContents literal.text = literal.contents := by
  rw [literalContents, literal.literalBody_text, Literal.quote]
  split
  · exact unquoted_three literal.isMark literal.contents
  · next single => exact unquoted_one literal.isMark (literal.apart (Bool.eq_false_iff.2 single))

/-- Decoding gives back what was spelled, and a literal has what stands between its quotes. -/
theorem literal_meant (parts : List Part) (literal : Literal) :
    decodeEscapes (parts.flatMap Part.spelled) = parts.flatMap Part.meant ∧
      literalContents literal.text = literal.contents ∧
      literalValue literal.text =
        if 'r' ∈ literal.letters ∨ 'R' ∈ literal.letters then literal.contents
        else decodeEscapes literal.contents := by
  refine ⟨decodeEscapes_parts parts, literalContents_text literal, ?_⟩
  rw [literalValue, literalContents_text]
  exact if_congr literal.isRawLiteral_text rfl rfl

example :
    let parts : List Part := [.short 'n' '\n' (by decide), .octal 1 0 1, .continued,
      .plain 'b' (by decide), .numeric 'x' [⟨14, false⟩, ⟨9, false⟩] (by decide) (by decide)]
    let contents := parts.flatMap Part.spelled
    let literal : Literal := ⟨['u'], '"', true, contents, by simp, .inl rfl, nofun⟩
    let raw : Literal := ⟨['R'], '\x27', false, contents, by simp, .inr rfl, fun _ => by decide⟩
    literal.text = "u\"\"\"\\n\\101\\\nb\\xe9\"\"\"".toList ∧
      literalValue literal.text = "\nAbé".toList ∧ literalValue raw.text = contents := by
  decide +kernel

end SourceAtlas.Python
