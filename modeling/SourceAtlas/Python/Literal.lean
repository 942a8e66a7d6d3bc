import SourceAtlas.Text.Lines
set_option autoImplicit false

namespace SourceAtlas.Python

def hexDigit? (c : Char) : Option Nat :=
  if '0' ≤ c ∧ c ≤ '9' then some (c.toNat - '0'.toNat)
  else if 'a' ≤ c ∧ c ≤ 'f' then some (c.toNat - 'a'.toNat + 10)
  else if 'A' ≤ c ∧ c ≤ 'F' then some (c.toNat - 'A'.toNat + 10)
  else none

def octalDigit? (c : Char) : Option Nat :=
  if '0' ≤ c ∧ c ≤ '7' then some (c.toNat - '0'.toNat) else none

/-- The number that hexadecimal digits spell after `value`; nothing if one is no digit. -/
def hexNumber? (value : Nat) : List Char → Option Nat
  | [] => some value
  | c :: cs => (hexDigit? c).bind fun d => hexNumber? (16 * value + d) cs

/-- A number in hexadecimal digits, of which a plus sign may stand in front. -/
def signedHexNumber? : List Char → Option Nat
  | [] => none
  | '+' :: [] => none
  | '+' :: cs => hexNumber? 0 cs
  | cs => hexNumber? 0 cs

/-- The character of a code point, for the code points that are Unicode scalar values. -/
def scalar? (n : Nat) : Option Char :=
  if h : n.isValidChar then some (Char.ofNatAux n h) else none

/-- The digits of an escape that takes exactly `width` characters. -/
def numericEscape (width : Nat) (cs : List Char) : Option (List Char × Nat) :=
  let digits := cs.take width
  if digits.length = width then
    ((signedHexNumber? digits).bind scalar?).map fun c => ([c], width + 1)
  else none

def octalEscape (cs : List Char) : Option (List Char × Nat) :=
  let digits := (cs.take 3).takeWhile fun c => (octalDigit? c).isSome
  let value := digits.foldl (fun n c => 8 * n + (octalDigit? c).getD 0) 0
  (scalar? value).map fun c => ([c], digits.length)

/-- The meaning of what follows a backslash and how many characters it takes. -/
def escape? : List Char → Option (List Char × Nat)
  | [] => none
  | c :: cs =>
    match c with
    | '\n' => some ([], 1)
    | '\\' => some (['\\'], 1)
    | '\x27' => some (['\x27'], 1)
    | '"' => some (['"'], 1)
    | 'a' => some (['\x07'], 1)
    | 'b' => some (['\x08'], 1)
    | 'f' => some (['\x0c'], 1)
    | 'n' => some (['\n'], 1)
    | 'r' => some (['\r'], 1)
    | 't' => some (['\t'], 1)
    | 'v' => some (['\x0b'], 1)
    | 'x' => numericEscape 2 cs
    | 'u' => numericEscape 4 cs
    | 'U' => numericEscape 8 cs
    | _ => if (octalDigit? c).isSome then octalEscape (c :: cs) else none

/-- Decodes escapes, with the next `skip` characters already read. -/
def decodeFrom : Nat → List Char → List Char
  | _, [] => []
  | skip + 1, _ :: cs => decodeFrom skip cs
  | 0, c :: cs =>
    if c = '\\' then
      match escape? cs with
      | some (meaning, used) => meaning ++ decodeFrom used cs
      | none => c :: decodeFrom 0 cs
    else c :: decodeFrom 0 cs

def decodeEscapes (cs : List Char) : List Char :=
  decodeFrom 0 cs

theorem decodeFrom_eq_drop (skip : Nat) (cs : List Char) :
    decodeFrom skip cs = decodeEscapes (cs.drop skip) := by
  induction cs generalizing skip with
  | nil => simp [decodeFrom, decodeEscapes]
  | cons c cs ih =>
    cases skip with
    | zero => rfl
    | succ skip => simpa [decodeFrom] using ih skip

theorem decodeEscapes_plain (c : Char) (cs : List Char) (h : c ≠ '\\') :
    decodeEscapes (c :: cs) = c :: decodeEscapes cs := by
  simp [decodeEscapes, decodeFrom, h]

theorem decodeEscapes_escape (cs meaning : List Char) (used : Nat)
    (h : escape? cs = some (meaning, used)) :
    decodeEscapes ('\\' :: cs) = meaning ++ decodeEscapes (cs.drop used) := by
  rw [← decodeFrom_eq_drop]
  simp [decodeEscapes, decodeFrom, h]

theorem decodeEscapes_verbatim (cs : List Char) (h : escape? cs = none) :
    decodeEscapes ('\\' :: cs) = '\\' :: decodeEscapes cs := by
  simp [decodeEscapes, decodeFrom, h]

def isLiteralPrefix (c : Char) : Bool :=
  c == 'r' || c == 'R' || c == 'u' || c == 'U' || c == 'b' || c == 'B' || c == 'f' || c == 'F'

/-- The quotes that a literal may have, in the order in which they are looked for. -/
def quotes : List (List Char) :=
  [['"', '"', '"'], ['\x27', '\x27', '\x27'], ['"'], ['\x27']]

def literalBody (cs : List Char) : List Char :=
  cs.dropWhile isLiteralPrefix

/-- What stands between the quotes of a body; a body without quotes is itself the contents. -/
def unquoted (body : List Char) : List (List Char) → List Char
  | [] => body
  | quote :: rest =>
    if 2 * quote.length ≤ body.length && quote.isPrefixOf body && quote.isSuffixOf body then
      (body.drop quote.length).take (body.length - 2 * quote.length)
    else unquoted body rest

def literalContents (cs : List Char) : List Char :=
  unquoted (literalBody cs) quotes

def isRawLiteral (cs : List Char) : Bool :=
  (cs.takeWhile isLiteralPrefix).any fun c => c == 'r' || c == 'R'

def literalValue (cs : List Char) : List Char :=
  if isRawLiteral cs then literalContents cs else decodeEscapes (literalContents cs)

end SourceAtlas.Python
