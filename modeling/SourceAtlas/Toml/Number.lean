import SourceAtlas.Number.Binary64
set_option autoImplicit false

namespace SourceAtlas.Toml

/-- Digits with single underscores between them: the digits and the rest. -/
def moreDigits (isDigit : Char → Bool) : List Char → Option (List Char × List Char)
  | '_' :: c :: rest =>
    if isDigit c then do
      let (digits, rest) ← moreDigits isDigit rest
      return (c :: digits, rest)
    else none
  | ['_'] => none
  | c :: rest =>
    if isDigit c then do
      let (digits, rest) ← moreDigits isDigit rest
      return (c :: digits, rest)
    else some ([], c :: rest)
  | [] => some ([], [])

def readDigits (isDigit : Char → Bool) : List Char → Option (List Char × List Char)
  | c :: rest =>
    if isDigit c then do
      let (digits, rest) ← moreDigits isDigit rest
      return (c :: digits, rest)
    else none
  | [] => none

def readWhole : List Char → Option (List Char × List Char)
  | '0' :: rest => some (['0'], rest)
  | cs => readDigits Char.isDigit cs

def takeSign : List Char → Bool × List Char
  | '+' :: rest => (false, rest)
  | '-' :: rest => (true, rest)
  | cs => (false, cs)

def digitsValue (base : Nat) (digits : List Char) : Nat :=
  let value (c : Char) : Nat :=
    if c.isDigit then c.toNat - '0'.toNat
    else if 'a' ≤ c then c.toNat - 'a'.toNat + 10
    else c.toNat - 'A'.toNat + 10
  digits.foldl (fun n c => n * base + value c) 0

def isHexDigit (c : Char) : Bool :=
  c.isDigit || ('a' ≤ c && c ≤ 'f') || ('A' ≤ c && c ≤ 'F')

def isOctalDigit (c : Char) : Bool :=
  '0' ≤ c && c ≤ '7'

def isBinaryDigit (c : Char) : Bool :=
  c = '0' || c = '1'

/-- Whether a power of ten times the number of digits is beyond every double-precision number. -/
def isBeyondRange (digits : List Char) (exponent : Int) : Bool :=
  let digits := digits.dropWhile fun c => c = '0'
  let lead : Int := exponent + digits.length
  if digits.isEmpty ∨ lead < 300 then false
  else if 320 < lead then true
  else
    let n := digitsValue 10 digits
    (Number.Binary64.ofUnits? false
      (n * Nat.pow 10 exponent.toNat * Number.Binary64.one) (Nat.pow 10 (-exponent).toNat)).isNone

/-- The rest behind a point and digits, if there are any, and the digits. -/
def readFraction : List Char → Option (List Char × List Char)
  | '.' :: rest => readDigits Char.isDigit rest
  | cs => some ([], cs)

def readExponent : List Char → Option (Int × List Char)
  | c :: rest =>
    if c = 'e' ∨ c = 'E' then do
      let (negative, digits) := takeSign rest
      let (digits, rest) ← readDigits Char.isDigit digits
      let size : Int := digitsValue 10 digits
      return (if negative then -size else size, rest)
    else some (0, c :: rest)
  | [] => some (0, [])

def skipDecimal (cs : List Char) : Option (List Char) := do
  let (negative, cs) := takeSign cs
  match cs with
  | 'i' :: 'n' :: 'f' :: rest => return rest
  | 'n' :: 'a' :: 'n' :: rest => return rest
  | _ =>
    let (whole, behindWhole) ← readWhole cs
    let (fraction, behindFraction) ← readFraction behindWhole
    let (exponent, rest) ← readExponent behindFraction
    if rest.length = behindWhole.length then
      let size := digitsValue 10 whole
      if size < Nat.pow 2 63 ∨ (negative ∧ size = Nat.pow 2 63) then return rest else none
    else if !negative && isBeyondRange (whole ++ fraction) (exponent - fraction.length) then none
    else return rest

/-- The rest behind an integer in another base than ten, whose prefix has been read. -/
def skipBased (base : Nat) (isDigit : Char → Bool) (cs : List Char) : Option (List Char) := do
  let (digits, rest) ← readDigits isDigit cs
  if digitsValue base digits < Nat.pow 2 63 then return rest else none

def skipNumber (cs : List Char) : Option (List Char) :=
  match cs with
  | '0' :: 'x' :: rest => skipBased 16 isHexDigit rest
  | '0' :: 'o' :: rest => skipBased 8 isOctalDigit rest
  | '0' :: 'b' :: rest => skipBased 2 isBinaryDigit rest
  | _ => skipDecimal cs

def readFixed (count : Nat) (cs : List Char) : Option (Nat × List Char) :=
  let digits := cs.take count
  if digits.length = count ∧ digits.all Char.isDigit then
    some (digitsValue 10 digits, cs.drop count)
  else none

def readTwo (low high : Nat) (cs : List Char) : Option (Nat × List Char) := do
  let (n, rest) ← readFixed 2 cs
  if low ≤ n ∧ n ≤ high then return (n, rest) else none

def skipChar (c : Char) : List Char → Option (List Char)
  | d :: rest => if c = d then some rest else none
  | [] => none

def daysIn (year month : Nat) : Nat :=
  if month = 2 then
    if year % 4 = 0 ∧ (year % 100 ≠ 0 ∨ year % 400 = 0) then 29 else 28
  else if month = 4 ∨ month = 6 ∨ month = 9 ∨ month = 11 then 30
  else 31

def skipDay (cs : List Char) : Option (List Char) := do
  let (year, rest) ← readFixed 4 cs
  let (month, rest) ← readTwo 1 12 (← skipChar '-' rest)
  let (day, rest) ← readTwo 1 31 (← skipChar '-' rest)
  if day ≤ daysIn year month then return rest else none

def skipSecondFraction : List Char → Option (List Char)
  | '.' :: c :: rest => if c.isDigit then some (rest.dropWhile Char.isDigit) else none
  | ['.'] => none
  | cs => some cs

def skipTime (cs : List Char) : Option (List Char) := do
  let (_, rest) ← readTwo 0 23 cs
  let (_, rest) ← readTwo 0 59 (← skipChar ':' rest)
  let (_, rest) ← readTwo 0 60 (← skipChar ':' rest)
  skipSecondFraction rest

/-- The rest behind the distance to universal time, if it is given. -/
def skipOffset (cs : List Char) : Option (List Char) :=
  match cs with
  | 'Z' :: rest => some rest
  | 'z' :: rest => some rest
  | '+' :: rest | '-' :: rest => do
    let (_, rest) ← readTwo 0 23 rest
    let (_, rest) ← readTwo 0 59 (← skipChar ':' rest)
    return rest
  | _ => some cs

def isDayEnd (c : Char) : Bool :=
  c = 'T' || c = 't' || c = ' '

def skipDate (cs : List Char) : Option (List Char) :=
  match skipDay cs with
  | some (c :: rest) =>
    if isDayEnd c then
      match skipTime rest with
      | some rest => skipOffset rest
      | none => some (c :: rest)
    else some (c :: rest)
  | some [] => some []
  | none => skipTime cs

end SourceAtlas.Toml
