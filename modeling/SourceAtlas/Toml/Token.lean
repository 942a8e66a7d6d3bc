set_option autoImplicit false

namespace SourceAtlas.Toml

def isBlank (c : Char) : Bool :=
  c = ' ' || c = '\t'

def skipBlank (cs : List Char) : List Char :=
  cs.dropWhile isBlank

def lineEnd? : List Char → Option (List Char)
  | '\n' :: rest => some rest
  | '\r' :: '\n' :: rest => some rest
  | _ => none

/-- Whether a character may stand in a comment or a string in single quotes. -/
def isVisible (c : Char) : Bool :=
  c = '\t' || (0x20 ≤ c.toNat && c.toNat ≤ 0x7E) || 0x80 ≤ c.toNat

def skipComment : List Char → List Char
  | '#' :: rest => rest.dropWhile isVisible
  | cs => cs

def finishLine (cs : List Char) : Option (List Char) :=
  match skipComment (skipBlank cs) with
  | [] => some []
  | rest => lineEnd? rest

/-- The rest behind blanks, line ends and comments, of which there are no more lines than the first
list has characters. A comment has to end in a line end. -/
def skipLines : List Char → List Char → Option (List Char)
  | [], cs => some cs
  | _ :: fuel, cs =>
    match skipBlank cs with
    | '#' :: rest => do skipLines fuel (← lineEnd? (rest.dropWhile isVisible))
    | '\n' :: rest => skipLines fuel rest
    | '\r' :: rest => do skipLines fuel (← lineEnd? ('\r' :: rest))
    | rest => some rest

def skipSpace (cs : List Char) : Option (List Char) :=
  skipLines cs cs

def hexValue? (c : Char) : Option Nat :=
  if c.isDigit then some (c.toNat - '0'.toNat)
  else if 'a' ≤ c ∧ c ≤ 'f' then some (c.toNat - 'a'.toNat + 10)
  else if 'A' ≤ c ∧ c ≤ 'F' then some (c.toNat - 'A'.toNat + 10)
  else none

def hexNumber? (digits : List Char) : Option Nat :=
  digits.foldlM (fun n c => (hexValue? c).map fun d => n * 16 + d) 0

def readScalar (count : Nat) (cs : List Char) : Option (Char × List Char) := do
  let digits := cs.take count
  if digits.length < count then none
  else
    let n ← hexNumber? digits
    if n.isValidChar then some (Char.ofNat n, cs.drop count) else none

def readEscape : List Char → Option (Char × List Char)
  | 'b' :: rest => some ('\x08', rest)
  | 'f' :: rest => some ('\x0c', rest)
  | 'n' :: rest => some ('\n', rest)
  | 'r' :: rest => some ('\r', rest)
  | 't' :: rest => some ('\t', rest)
  | '\\' :: rest => some ('\\', rest)
  | '"' :: rest => some ('"', rest)
  | 'u' :: rest => readScalar 4 rest
  | 'U' :: rest => readScalar 8 rest
  | _ => none

/-- The characters of a string in double quotes up to its end. There are no more of them than the
first list has. -/
def readBasic : List Char → List Char → Option (List Char × List Char)
  | [], _ => none
  | _, [] => none
  | _ :: fuel, c :: rest =>
    if c = '"' then some ([], rest)
    else if c = '\\' then do
      let (c, rest) ← readEscape rest
      let (cs, rest) ← readBasic fuel rest
      return (c :: cs, rest)
    else if isVisible c then do
      let (cs, rest) ← readBasic fuel rest
      return (c :: cs, rest)
    else none

def readLiteral : List Char → Option (List Char × List Char)
  | [] => none
  | c :: rest =>
    if c = '\x27' then some ([], rest)
    else if isVisible c then do
      let (cs, rest) ← readLiteral rest
      return (c :: cs, rest)
    else none

/-- The quotes at the end of a string over several lines: three of them end it, and up to two more
before those belong to it. -/
def closeLong (quote : Char) (cs : List Char) : Option (List Char × List Char) :=
  let count := (cs.takeWhile fun c => c = quote).length
  if count < 3 then none
  else
    let kept := min (count - 3) 2
    some (List.replicate kept quote, cs.drop (kept + 3))

/-- The rest behind blanks and line ends, of which there are no more lines than the first list has
characters. -/
def skipBlankLines : List Char → List Char → List Char
  | [], cs => cs
  | _ :: fuel, cs =>
    match lineEnd? (skipBlank cs) with
    | some rest => skipBlankLines fuel rest
    | none => skipBlank cs

/-- The rest behind a backslash at the end of a line, the line end and all blanks and line ends after
it. -/
def skipFold (cs : List Char) : Option (List Char) := do
  let rest ← lineEnd? (skipBlank cs)
  return skipBlankLines rest rest

/-- The characters of a string over several lines up to its end; with escapes if the quote is the
double one. There are no more of them than the first list has. -/
def readLong (quote : Char) : List Char → List Char → Option (List Char × List Char)
  | [], _ => none
  | _, [] => none
  | _ :: fuel, c :: rest =>
    if c = quote then
      match closeLong quote (c :: rest) with
      | some found => some found
      | none => do
        let (cs, rest) ← readLong quote fuel rest
        return (c :: cs, rest)
    else if c = '\\' ∧ quote = '"' then
      match skipFold rest with
      | some rest => readLong quote fuel rest
      | none => do
        let (c, rest) ← readEscape rest
        let (cs, rest) ← readLong quote fuel rest
        return (c :: cs, rest)
    else
      match lineEnd? (c :: rest) with
      | some rest => do
        let (cs, rest) ← readLong quote fuel rest
        return ('\n' :: cs, rest)
      | none =>
        if isVisible c then do
          let (cs, rest) ← readLong quote fuel rest
          return (c :: cs, rest)
        else none

/-- A string over several lines whose opening quotes have been read. A line end right behind them
does not belong to it. -/
def openLong (quote : Char) (cs : List Char) : Option (List Char × List Char) :=
  let body := (lineEnd? cs).getD cs
  readLong quote body body

def readString (cs : List Char) : Option (String × List Char) := do
  let (value, rest) ← match cs with
    | '"' :: '"' :: '"' :: rest => openLong '"' rest
    | '\x27' :: '\x27' :: '\x27' :: rest => openLong '\x27' rest
    | '"' :: rest => readBasic rest rest
    | '\x27' :: rest => readLiteral rest
    | _ => none
  return (String.ofList value, rest)

def isBare (c : Char) : Bool :=
  c.isAlphanum || c = '-' || c = '_'

def readSimpleKey (cs : List Char) : Option (String × List Char) :=
  match cs with
  | '"' :: rest => do
    let (value, rest) ← readBasic rest rest
    return (String.ofList value, rest)
  | '\x27' :: rest => do
    let (value, rest) ← readLiteral rest
    return (String.ofList value, rest)
  | _ =>
    let bare := cs.takeWhile isBare
    if bare.isEmpty then none else some (String.ofList bare, cs.dropWhile isBare)

/-- The parts of a key and the blanks around them. There are no more of them than the first list has
characters. -/
def readKeyParts : List Char → List Char → Option (List String × List Char)
  | [], _ => none
  | _ :: fuel, cs => do
    let (part, rest) ← readSimpleKey (skipBlank cs)
    match skipBlank rest with
    | '.' :: rest =>
      let (parts, rest) ← readKeyParts fuel rest
      return (part :: parts, rest)
    | rest => return ([part], rest)

def keyLimit : Nat := 79

def readKey (cs : List Char) : Option ((List String × String) × List Char) := do
  let (parts, rest) ← readKeyParts cs cs
  if keyLimit < parts.length then none
  else
    let last ← parts.getLast?
    return ((parts.dropLast, last), rest)

end SourceAtlas.Toml
