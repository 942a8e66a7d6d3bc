import SourceAtlas.Text.Identifier
import SourceAtlas.Python.Literal
import SourceAtlas.Python.Reader.Token
set_option autoImplicit false

/-!
# From characters to logical lines

One pass over the characters of a source text. Line feeds end a logical line outside brackets;
a backslash before a line end joins lines; a lone carriage return is layout. The column of a line
counts a space as 1 and a tab as 8, and starts again after a form feed or carriage return.

Inside a formatted literal the pass goes between literal text and replacement fields; the open
brackets, literals and fields are a stack of `Frame`s. A text with a bracket or literal that is not
closed, or a character that no token has, has no lines at all.
-/

namespace SourceAtlas.Python.Reader

open SourceAtlas.Text

structure Quoting where
  quote : Char
  triple : Bool
  raw : Bool
deriving DecidableEq, Repr

inductive Frame
  | bracket (close : Char)
  | format (quoting : Quoting)
  | field
  | spec
deriving DecidableEq, Repr

inductive Piece
  | lineStart (indent : Nat)
  | lexeme (lexeme : Lexeme)
deriving DecidableEq, Repr

def isLayout (c : Char) : Bool :=
  c == ' ' || c == '\t' || c == '\r' || c == '\x0c' || c == '\ufeff' || c == '\u200b' ||
    c == '\u2060'

def skipComment : List Char → List Char
  | [] => []
  | c :: cs => if c = '\n' ∨ c = '\x00' then c :: cs else skipComment cs

/-- Reads what precedes the first token of a logical line: the column at which the token starts, and
the text from it on. Blank lines and lines with a comment only have no column. -/
def lineStart (indent : Nat) (comment : Bool) : List Char → Nat × List Char
  | [] => (0, [])
  | c :: cs =>
    if c = '\n' then lineStart 0 false cs
    else if c = '\x00' then (indent, c :: cs)
    else if comment then lineStart indent true cs
    else if c = ' ' then lineStart (indent + 1) false cs
    else if c = '\t' then lineStart (indent + 8) false cs
    else if c = '\r' ∨ c = '\x0c' then lineStart 0 false cs
    else if c = '#' then lineStart indent true cs
    else if c = '\\' then
      match cs with
      | [] => (0, [])
      | '\n' :: rest => lineStart indent false rest
      | '\r' :: '\n' :: rest => lineStart indent false rest
      | _ => (indent, c :: cs)
    else (indent, c :: cs)

/-- The sets of letters that may stand before the quotes, in lower case. -/
def literalPrefixes : List String :=
  ["", "r", "u", "b", "f", "br", "rb", "fr", "rf"]

/-- The start of a string literal: its letters and quotes, and the text behind them. -/
def opening? (cs : List Char) : Option (List Char × Quoting × List Char) :=
  let letters := cs.takeWhile isLiteralPrefix
  if literalPrefixes.contains (String.ofList (letters.map Char.toLower)) then
    let raw := letters.any fun c => c == 'r' || c == 'R'
    match cs.drop letters.length with
    | [] => none
    | q :: rest =>
      if q = '"' ∨ q = '\x27' then
        match rest with
        | second :: third :: more =>
          if second = q ∧ third = q then some (letters ++ [q, q, q], ⟨q, true, raw⟩, more)
          else some (letters ++ [q], ⟨q, false, raw⟩, rest)
        | _ => some (letters ++ [q], ⟨q, false, raw⟩, rest)
      else if q = '\x60' then some (letters ++ [q], ⟨q, false, raw⟩, rest)
      else none
  else none

def isFormatted (start : List Char) : Bool :=
  (start.takeWhile isLiteralPrefix).any fun c => c == 'f' || c == 'F'

def escapeLength? : List Char → Option Nat
  | [] => none
  | c :: cs =>
    let digits (width : Nat) : Option Nat :=
      let found := (cs.take width).takeWhile fun d => (hexDigit? d).isSome
      if found.length = width then some (width + 1) else none
    match c with
    | 'x' => digits 2
    | 'u' => digits 4
    | 'U' => digits 8
    | 'N' =>
      match cs with
      | '{' :: name =>
        let behind := name.dropWhile fun d => d != '}'
        if behind.isEmpty ∨ behind.length = name.length then none
        else some (3 + (name.length - behind.length))
      | _ => none
    | '\r' => if cs.head? = some '\n' then some 2 else none
    | _ =>
      if c.isDigit then some ((c :: cs).take 3 |>.takeWhile Char.isDigit).length
      else if "\n\x27\"abfrntv\\".toList.contains c then some 1
      else none

/-- How many characters behind a backslash a raw literal takes along. -/
def rawLength (quote : Char) (cs : List Char) : Nat :=
  let (taken, rest) :=
    match cs with
    | c :: rest => if c = quote ∨ c = '\\' then (1, rest) else (0, cs)
    | [] => (0, [])
  match rest with
  | '\r' :: '\n' :: _ => taken + 2
  | '\r' :: _ => taken + 1
  | '\n' :: _ => taken + 1
  | _ => taken

/-- The rest of a literal that is not formatted, quotes included, and the text behind it. The first
characters may be taken along unseen; a line feed may stand in a literal in single quotes only where
no content has been read since the quote or the last escape. -/
def closeText (quoting : Quoting) : Nat → Bool → List Char → Option (List Char × List Char)
  | _, _, [] => none
  | taken + 1, _, c :: cs =>
    if c = '\x00' then none
    else (closeText quoting taken true cs).map fun (body, rest) => (c :: body, rest)
  | 0, fresh, c :: cs =>
    let onward (taken : Nat) (fresh : Bool) : Option (List Char × List Char) :=
      (closeText quoting taken fresh cs).map fun (body, rest) => (c :: body, rest)
    if c = '\x00' then none
    else if c = quoting.quote ∧ quoting.triple = false then some ([c], cs)
    else if c = quoting.quote ∧ cs.take 2 = [c, c] then some ([c, c, c], cs.drop 2)
    else if c = '\n' ∧ quoting.triple = false ∧ fresh = false then none
    else if c = '\\' ∧ quoting.quote ≠ '\x60' then
      if quoting.raw then onward (rawLength quoting.quote cs) fresh
      else onward ((escapeLength? cs).getD 0) true
    else onward 0 false

inductive FormatStop
  | close
  | fieldOpen
  | fieldClose
deriving DecidableEq, Repr

/-- Skips literal text of a formatted literal, or of a format specification if `spec`, to where it
ends. Inside a character name `named` is true, and braces are part of it. -/
def skipFormat (quoting : Quoting) (spec : Bool) (named : Bool) :
    List Char → Option (FormatStop × List Char)
  | [] => none
  | c :: cs =>
    if c = '\x00' then none
    else if c = '\n' ∧ quoting.triple = false then none
    else if c = quoting.quote ∧ (quoting.triple = false ∨ cs.take 2 = [c, c]) then
      if spec then none else some (.close, if quoting.triple then cs.drop 2 else cs)
    else if named then skipFormat quoting spec (c ≠ '}') cs
    else if c = '{' then
      match cs with
      | '{' :: rest => if spec then some (.fieldOpen, cs) else skipFormat quoting spec false rest
      | _ => some (.fieldOpen, cs)
    else if c = '}' then
      if spec then some (.fieldClose, cs)
      else
        match cs with
        | '}' :: rest => skipFormat quoting spec false rest
        | _ => none
    else if c = '\\' then
      match cs with
      | [] => none
      | 'N' :: '{' :: rest =>
        if quoting.raw then some (.fieldOpen, rest) else skipFormat quoting spec true rest
      | '\r' :: '\n' :: rest => skipFormat quoting spec false rest
      | d :: rest =>
        if d = '{' ∨ d = '}' ∨ d = '\x00' then skipFormat quoting spec false (d :: rest)
        else skipFormat quoting spec false rest
    else skipFormat quoting spec false cs

/-- The text behind the digits it starts with, where one low line may stand before a digit. -/
def skipDigits (isDigit : Char → Bool) : List Char → List Char
  | [] => []
  | c :: cs =>
    if isDigit c then skipDigits isDigit cs
    else if c = '_' then
      match cs with
      | [] => [c]
      | d :: rest => if isDigit d then skipDigits isDigit rest else c :: d :: rest
    else c :: cs

def numberFollowers : List String :=
  ["and", "else", "for", "if", "in", "is", "not", "or"]

/-- A number may end here: before what continues no word, or before one of a few keywords. -/
def endsNumber (cs : List Char) : Bool :=
  match cs with
  | [] => true
  | c :: _ => !isIdentifierContinue c || numberFollowers.any fun w => w.toList.isPrefixOf cs

def isHexDigit (c : Char) : Bool :=
  (hexDigit? c).isSome

def radixDigits? (c : Char) : Option (Char → Bool) :=
  if c = 'x' ∨ c = 'X' then some isHexDigit
  else if c = 'o' ∨ c = 'O' then some fun d => '0' ≤ d && d ≤ '7'
  else if c = 'b' ∨ c = 'B' then some fun d => d == '0' || d == '1'
  else none

def skipFraction (cs : List Char) : List Char :=
  match cs with
  | '.' :: d :: rest => if d.isDigit then skipDigits Char.isDigit rest else d :: rest
  | '.' :: [] => []
  | _ => cs

def skipExponent (cs : List Char) : List Char :=
  match cs with
  | e :: rest =>
    if e = 'e' ∨ e = 'E' then
      match rest with
      | sign :: d :: more =>
        if sign.isDigit then skipDigits Char.isDigit (d :: more)
        else if (sign = '+' ∨ sign = '-') ∧ d.isDigit then skipDigits Char.isDigit more
        else cs
      | [d] => if d.isDigit then [] else cs
      | [] => cs
    else cs
  | [] => []

/-- The text behind the letter that ends a number, if one does: an imaginary unit, or behind a whole
number the letter of a long one. -/
def skipNumberLetter (whole : Bool) (cs : List Char) : List Char :=
  match cs with
  | c :: rest => if c = 'j' ∨ c = 'J' ∨ whole ∧ (c = 'l' ∨ c = 'L') then rest else cs
  | [] => []

def number? (cs : List Char) : Option (List Char) :=
  let digits := skipDigits Char.isDigit cs
  let behind := skipExponent (skipFraction digits)
  let decimal := skipNumberLetter (behind.length = digits.length) behind
  let rest? :=
    match cs with
    | '0' :: radix :: digits =>
      match radixDigits? radix with
      | some isDigit =>
        let rest := skipDigits isDigit digits
        if rest.length < digits.length then some (skipNumberLetter true rest) else none
      | none => some decimal
    | _ => some decimal
  rest?.bind fun rest => if endsNumber rest then some rest else none

def marks : List String :=
  ["**=", "//=", ">>=", "<<=", "...", "!=", "->", ":=", "**", "//", "<<", ">>", "<=", ">=", "==",
    "<>", "+=", "-=", "*=", "/=", "%=", "&=", "|=", "^=", "@=", "+", "-", "*", "/", "%", "&", "|",
    "^", "~", "<", ">", "=", ".", ",", ":", ";", "@"]

def mark? (cs : List Char) : Option String :=
  marks.find? fun m => m.toList.isPrefixOf cs

def closing? (c : Char) : Option Char :=
  if c = '(' then some ')' else if c = '[' then some ']' else if c = '{' then some '}' else none

def isClosing (c : Char) : Bool :=
  c == ')' || c == ']' || c == '}'

def quotingOf : List Frame → Option Quoting
  | [] => none
  | .format quoting :: _ => some quoting
  | _ :: frames => quotingOf frames

/-- A token behind the layout read so far, which is given last character first. -/
def Piece.ofToken (gap : List Char) (token : Token) : Piece :=
  .lexeme ⟨String.ofList gap.reverse, token⟩

/-- Whether a text begins with the name of a conversion, which is one letter. -/
def startsConversion : List Char → Bool
  | c :: rest => 'a' ≤ c && c ≤ 'z' && !rest.head?.any isIdentifierContinue
  | [] => false

/-- A token that the pass takes, with what is open and what is left behind it. -/
structure Advance where
  token : Token
  frames : List Frame
  rest : List Char
deriving DecidableEq, Repr

/-- The end of literal text in a formatted literal, which the literal or a field ends. -/
def formatToken? (quoting : Quoting) (outer : List Frame) (cs : List Char) : Option Advance :=
  match skipFormat quoting false false cs with
  | some (.close, rest) => some ⟨.formatClose, outer, rest⟩
  | some (.fieldOpen, rest) => some ⟨.mark "\x7b", .field :: .format quoting :: outer, rest⟩
  | _ => none

def specToken? (outer : List Frame) (cs : List Char) : Option Advance :=
  match (quotingOf outer).bind fun quoting => skipFormat quoting true false cs with
  | some (.fieldOpen, rest) => some ⟨.mark "\x7b", .field :: .spec :: outer, rest⟩
  | some (.fieldClose, rest) => some ⟨.mark "\x7d", outer.drop 1, rest⟩
  | _ => none

def literalToken? (frames : List Frame) (start : List Char) (quoting : Quoting) (cs : List Char) :
    Option Advance :=
  if isFormatted start then some ⟨.formatOpen, .format quoting :: frames, cs⟩
  else
    (closeText quoting 0 true cs).map fun (body, rest) =>
      ⟨.text (String.ofList (start ++ body)), frames, rest⟩

/-- A mark that begins with a character. Brackets and fields end with the mark that closes them. -/
def markToken? (frames : List Frame) (c : Char) (rest : List Char) : Option Advance :=
  if isClosing c then
    match frames with
    | .bracket close :: outer =>
      if c = close then some ⟨.mark (String.singleton c), outer, rest⟩ else none
    | .field :: outer => if c = '}' then some ⟨.mark "\x7d", outer, rest⟩ else none
    | _ => none
  else
    match closing? c with
    | some close => some ⟨.mark (String.singleton c), .bracket close :: frames, rest⟩
    | none =>
      if c = ':' ∧ frames.head? = some .field then some ⟨.mark ":", .spec :: frames, rest⟩
      else
        match mark? (c :: rest) with
        | some symbol => some ⟨.mark symbol, frames, (c :: rest).drop symbol.length⟩
        | none =>
          if c = '!' ∧ frames.head? = some .field ∧ startsConversion rest then
            some ⟨.mark "!", frames, rest⟩
          else none

def token? (frames : List Frame) (c : Char) (rest : List Char) : Option Advance :=
  match opening? (c :: rest) with
  | some (start, quoting, behind) => literalToken? frames start quoting behind
  | none =>
    if isIdentifierStart c then
      some ⟨.word (String.ofList ((c :: rest).takeWhile isIdentifierContinue)), frames,
        (c :: rest).dropWhile isIdentifierContinue⟩
    else if c.isDigit || (c == '.' && (rest.head?.any Char.isDigit)) then
      (number? (c :: rest)).map fun behind => ⟨.number, frames, behind⟩
    else markToken? frames c rest

def scan : Nat → List Frame → List Char → List Char → Option (List Piece)
  | 0, _, _, _ => none
  | fuel + 1, frames, gap, cs =>
    let take (found : Option Advance) : Option (List Piece) :=
      found.bind fun advance =>
        (scan fuel advance.frames [] advance.rest).map (Piece.ofToken gap advance.token :: ·)
    match frames with
    | .format quoting :: outer => take (formatToken? quoting outer cs)
    | .spec :: outer => take (specToken? outer cs)
    | _ =>
      match cs with
      | [] => if frames.isEmpty then some [] else none
      | c :: rest =>
        if c = '\n' then
          if frames.isEmpty then
            let (indent, rest) := lineStart 0 false rest
            (scan fuel [] [] rest).map (.lineStart indent :: ·)
          else scan fuel frames (c :: gap) rest
        else if isLayout c then scan fuel frames (c :: gap) rest
        else if c = '#' then scan fuel frames gap (skipComment rest)
        else if c = '\\' then
          match rest with
          | [] => scan fuel frames (c :: gap) []
          | '\n' :: rest => scan fuel frames ('\n' :: c :: gap) rest
          | '\r' :: '\n' :: rest => scan fuel frames ('\n' :: '\r' :: c :: gap) rest
          | _ => none
        else take (token? frames c rest)

/-- The logical lines that pieces form; a line without tokens is none. -/
def linesOf (indent : Nat) (lexemes : List Lexeme) : List Piece → List Line
  | [] => if lexemes.isEmpty then [] else [⟨indent, lexemes.reverse⟩]
  | .lexeme l :: pieces => linesOf indent (l :: lexemes) pieces
  | .lineStart next :: pieces =>
    if lexemes.isEmpty then linesOf next [] pieces
    else ⟨indent, lexemes.reverse⟩ :: linesOf next [] pieces

def dropByteOrderMark (cs : List Char) : List Char :=
  match cs with
  | '\ufeff' :: rest => rest
  | _ => cs

def logicalLines? (text : List Char) : Option (List Line) :=
  let (indent, rest) := lineStart 0 false (dropByteOrderMark text)
  (scan (rest.length + 1) [] [] rest).map (linesOf indent [])

end SourceAtlas.Python.Reader
