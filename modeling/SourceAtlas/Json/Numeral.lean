import SourceAtlas.Json.Fault
set_option autoImplicit false

namespace SourceAtlas.Json

open Number

def significandLimit : Nat := Nat.pow 2 64 - 1

def exponentLimit : Nat := Nat.pow 2 31 - 1

def digitValue (c : Char) : Nat :=
  c.toNat - '0'.toNat

def startsDigit : List Char → Bool
  | c :: _ => c.isDigit
  | [] => false

/-- Digits put behind a significand as long as a limit allows: the significand, how many digits were
taken, and the rest. -/
def takeDigits (limit : Nat) : Nat → List Char → Nat × Nat × List Char
  | significand, [] => (significand, 0, [])
  | significand, c :: cs =>
    if c.isDigit ∧ significand * 10 + digitValue c ≤ limit then
      let (longer, count, rest) := takeDigits limit (significand * 10 + digitValue c) cs
      (longer, count + 1, rest)
    else (significand, 0, c :: cs)

def powerOfTen (n : Nat) : Binary64 :=
  Binary64.ofNat (Nat.pow 10 n)

def divided : Nat → Binary64 → Nat → Binary64
  | 0, x, _ => x
  | fuel + 1, x, n =>
    if n ≤ 308 then (x.div? (powerOfTen n)).getD Binary64.zero
    else if x.units = 0 then x
    else divided fuel ((x.div? (powerOfTen 308)).getD Binary64.zero) (n - 308)

def scaled? (significand : Nat) (exponent : Int) : Option Binary64 :=
  let x := Binary64.ofNat significand
  if exponent < 0 then some (divided (exponent.natAbs / 308 + 1) x exponent.natAbs)
  else if exponent ≤ 308 then x.mul? (powerOfTen exponent.toNat)
  else if x.units = 0 then some x
  else none

def signed (negative : Bool) (x : Binary64) : Binary64 :=
  if negative then x.neg else x

def readScaled (negative : Bool) (significand : Nat) (exponent : Int) (cs : List Char) :
    Except Fault (JsonNumber × List Char) :=
  match scaled? significand exponent with
  | some x => .ok (.real (signed negative x), cs)
  | none => stopAt .numberOutOfRange cs

def takeSign : List Char → Bool × List Char
  | '+' :: rest => (false, rest)
  | '-' :: rest => (true, rest)
  | cs => (false, cs)

/-- An exponent behind its letter, added to the one that the digits have. -/
def readExponent (negative : Bool) (significand : Nat) (exponent : Int) (cs : List Char) :
    Except Fault (JsonNumber × List Char) :=
  let (down, digits) := takeSign cs
  match digits with
  | [] => stopAt .endInValue []
  | c :: rest =>
    if c.isDigit then
      let (size, _, rest) := takeDigits exponentLimit (digitValue c) rest
      if startsDigit rest then
        if significand ≠ 0 ∧ !down then stopAt .numberOutOfRange (rest.drop 1)
        else .ok (.real (signed negative Binary64.zero), rest.dropWhile Char.isDigit)
      else readScaled negative significand (if down then exponent - size else exponent + size) rest
    else stopOn .invalidNumber digits

def readScale (negative : Bool) (significand : Nat) (exponent : Int) (cs : List Char) :
    Except Fault (JsonNumber × List Char) :=
  match cs with
  | 'e' :: rest | 'E' :: rest => readExponent negative significand exponent rest
  | _ => readScaled negative significand exponent cs

def readFraction (negative : Bool) (significand : Nat) (exponent : Int) (cs : List Char) :
    Except Fault (JsonNumber × List Char) :=
  if startsDigit cs then
    let (longer, count, rest) := takeDigits significandLimit significand cs
    readScale negative longer (exponent - count) (rest.dropWhile Char.isDigit)
  else match cs with
    | [] => stopOn .endInValue []
    | _ => stopOn .invalidNumber cs

/-- An integer of 64 bits, signed or not; other integers and the negative zero are real. -/
def ofSignificand (negative : Bool) (significand : Nat) : JsonNumber :=
  if !negative then .integer significand
  else if significand = 0 ∨ Nat.pow 2 63 < significand then
    .real (signed true (Binary64.ofNat significand))
  else .integer (-(significand : Int))

def readMagnitude (negative : Bool) (cs : List Char) : Except Fault (JsonNumber × List Char) :=
  match cs with
  | [] => stopAt .endInValue []
  | c :: rest =>
    if c = '0' ∧ startsDigit rest then stopOn .invalidNumber rest
    else if c.isDigit then
      let (significand, _, rest) := takeDigits significandLimit 0 cs
      let more := rest.takeWhile Char.isDigit
      match rest.dropWhile Char.isDigit with
      | '.' :: rest => readFraction negative significand more.length rest
      | rest =>
        if more = [] ∧ rest.head? ≠ some 'e' ∧ rest.head? ≠ some 'E' then
          .ok (ofSignificand negative significand, rest)
        else readScale negative significand more.length rest
    else stopOn .invalidNumber cs

def readNumber (cs : List Char) : Except Fault (JsonNumber × List Char) :=
  match cs with
  | '-' :: rest => readMagnitude true rest
  | _ => readMagnitude false cs

def skipExponent (cs : List Char) : Except Fault (List Char) :=
  let digits := (takeSign cs).2
  if startsDigit digits then .ok (digits.dropWhile Char.isDigit) else stopOn .invalidNumber digits

def skipNumber (cs : List Char) : Except Fault (List Char) :=
  let cs := if cs.head? = some '-' then cs.drop 1 else cs
  match cs with
  | [] => stopAt .invalidNumber []
  | c :: rest =>
    if c = '0' ∧ startsDigit rest then stopOn .invalidNumber rest
    else if c.isDigit then
      match rest.dropWhile Char.isDigit with
      | '.' :: rest =>
        if startsDigit rest then
          match rest.dropWhile Char.isDigit with
          | 'e' :: rest | 'E' :: rest => skipExponent rest
          | rest => .ok rest
        else stopOn .invalidNumber rest
      | 'e' :: rest | 'E' :: rest => skipExponent rest
      | rest => .ok rest
    else stopOn .invalidNumber cs

end SourceAtlas.Json
