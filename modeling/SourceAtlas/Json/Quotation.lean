import SourceAtlas.Json.Fault
set_option autoImplicit false

namespace SourceAtlas.Json

def hexValue? (c : Char) : Option Nat :=
  if c.isDigit then some (c.toNat - '0'.toNat)
  else if 'a' ≤ c ∧ c ≤ 'f' then some (c.toNat - 'a'.toNat + 10)
  else if 'A' ≤ c ∧ c ≤ 'F' then some (c.toNat - 'A'.toNat + 10)
  else none

def fourDigits? (a b c d : Char) : Option Nat := do
  let a ← hexValue? a
  let b ← hexValue? b
  let c ← hexValue? c
  let d ← hexValue? d
  return ((a * 16 + b) * 16 + c) * 16 + d

def readUnit (cs : List Char) : Except Fault (Nat × List Char) :=
  match cs with
  | a :: b :: c :: d :: rest =>
    match fourDigits? a b c d with
    | some unit => .ok (unit, rest)
    | none => .error ⟨.invalidEscape, cs, 4⟩
  | _ => if byteCount cs < 4 then stopAt .endInString [] else .error ⟨.invalidEscape, cs, 4⟩

def readLowUnit (cs : List Char) : Except Fault (Nat × List Char) :=
  match cs with
  | [] => stopAt .endInString []
  | '\\' :: 'u' :: rest => do
    let (unit, rest) ← readUnit rest
    if 0xDC00 ≤ unit ∧ unit ≤ 0xDFFF then .ok (unit, rest) else stopAt .loneSurrogate rest
  | ['\\'] => stopAt .endInString []
  | '\\' :: rest => stopOn .endInEscape rest
  | _ => stopOn .endInEscape cs

def readUnits (cs : List Char) : Except Fault (Char × List Char) := do
  let (unit, rest) ← readUnit cs
  if 0xDC00 ≤ unit ∧ unit ≤ 0xDFFF then stopAt .loneSurrogate rest
  else if 0xD800 ≤ unit ∧ unit ≤ 0xDBFF then
    let (low, rest) ← readLowUnit rest
    .ok (Char.ofNat ((unit - 0xD800) * 0x400 + (low - 0xDC00) + 0x10000), rest)
  else .ok (Char.ofNat unit, rest)

/-- The character that one character behind a backslash stands for. -/
def escaped? : Char → Option Char
  | '"' => some '"'
  | '\\' => some '\\'
  | '/' => some '/'
  | 'b' => some '\x08'
  | 'f' => some '\x0c'
  | 'n' => some '\n'
  | 'r' => some '\r'
  | 't' => some '\t'
  | _ => none

def readEscape (cs : List Char) : Except Fault (Char × List Char) :=
  match cs with
  | [] => stopAt .endInString []
  | 'u' :: rest => readUnits rest
  | c :: rest =>
    match escaped? c with
    | some d => .ok (d, rest)
    | none => stopOn .invalidEscape cs

/-- The characters up to the closing quote, which is read too. There are no more of them than the
first list has. -/
def readQuoted : List Char → List Char → Except Fault (List Char × List Char)
  | [], _ => stopAt .endInString []
  | _, [] => stopAt .endInString []
  | _ :: fuel, c :: rest =>
    if c = '"' then .ok ([], rest)
    else if c = '\\' then do
      let (c, rest) ← readEscape rest
      let (cs, rest) ← readQuoted fuel rest
      .ok (c :: cs, rest)
    else if c.toNat < 0x20 then stopOn .controlCharacter (c :: rest)
    else do
      let (cs, rest) ← readQuoted fuel rest
      .ok (c :: cs, rest)

def readString (cs : List Char) : Except Fault (String × List Char) := do
  let (value, rest) ← readQuoted cs cs
  .ok (String.ofList value, rest)

def skipEscape (cs : List Char) : Except Fault (List Char) :=
  match cs with
  | [] => stopAt .endInString []
  | 'u' :: rest => do
    let (_, rest) ← readUnit rest
    .ok rest
  | c :: rest => if (escaped? c).isSome then .ok rest else stopOn .invalidEscape cs

/-- The rest behind the closing quote, whatever characters the escapes mean. There are no more of them
before it than the first list has. -/
def skipQuoted : List Char → List Char → Except Fault (List Char)
  | [], _ => stopAt .endInString []
  | _, [] => stopAt .endInString []
  | _ :: fuel, c :: rest =>
    if c = '"' then .ok rest
    else if c = '\\' then do
      let rest ← skipEscape rest
      skipQuoted fuel rest
    else if c.toNat < 0x20 then stopAt .controlCharacter (c :: rest)
    else skipQuoted fuel rest

def skipString (cs : List Char) : Except Fault (List Char) :=
  skipQuoted cs cs

end SourceAtlas.Json
