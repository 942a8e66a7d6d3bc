import SourceAtlas.Json.Numeral
import SourceAtlas.Json.Quotation
set_option autoImplicit false

/-!
# Reading values

Readers for one kind of value each, for lists and objects of anything, and for any value at all. A
list or an object may only be opened within 127 others; a value that is merely skipped may nest as
deep as it likes.
-/

namespace SourceAtlas.Json

variable {α σ : Type}

def isGap (c : Char) : Bool :=
  c = ' ' || c = '\n' || c = '\t' || c = '\r'

def skipGap (cs : List Char) : List Char :=
  cs.dropWhile isGap

def readWord : List Char → List Char → Except Fault (List Char)
  | [], cs => .ok cs
  | _ :: _, [] => stopAt .endInValue []
  | letter :: letters, c :: cs =>
    if c = letter then readWord letters cs else stopOn .expectedWord (c :: cs)

def readNull (cs : List Char) : Except Fault (List Char) :=
  readWord ['u', 'l', 'l'] cs

def readTrue (cs : List Char) : Except Fault (List Char) :=
  readWord ['r', 'u', 'e'] cs

def readFalse (cs : List Char) : Except Fault (List Char) :=
  readWord ['a', 'l', 's', 'e'] cs

def readScalar (cs : List Char) : Except Fault (Json × List Char) :=
  match cs with
  | [] => stopOn .endInValue []
  | 'n' :: rest => do
    let rest ← readNull rest
    .ok (.null, rest)
  | 't' :: rest => do
    let rest ← readTrue rest
    .ok (.bool true, rest)
  | 'f' :: rest => do
    let rest ← readFalse rest
    .ok (.bool false, rest)
  | '"' :: rest => do
    let (value, rest) ← readString rest
    .ok (.string value, rest)
  | c :: _ =>
    if c = '-' ∨ c.isDigit then do
      let (value, rest) ← readNumber cs
      .ok (.number value, rest)
    else stopOn .expectedValue cs

/-- Stops at a value of another kind than expected, behind the value if it is no list or object. -/
def refuse (expected : String) (cs : List Char) : Except Fault α :=
  match cs with
  | '[' :: _ => stopAt (.wrongKind (.array []) expected) cs
  | '{' :: _ => stopAt (.wrongKind (.object []) expected) cs
  | _ => do
    let (found, rest) ← readScalar cs
    stopAt (.wrongKind found expected) rest

def readTextAs (expected : String) (cs : List Char) : Except Fault (String × List Char) :=
  match skipGap cs with
  | '"' :: rest => readString rest
  | rest => refuse expected rest

def readText (cs : List Char) : Except Fault (String × List Char) :=
  readTextAs "a string" cs

def readReal (cs : List Char) : Except Fault (Number.Binary64 × List Char) :=
  match skipGap cs with
  | [] => stopOn .endInValue []
  | c :: rest =>
    if c = '-' ∨ c.isDigit then do
      match ← readNumber (c :: rest) with
      | (.integer value, rest) => .ok (Number.Binary64.ofInt value, rest)
      | (.real value, rest) => .ok (value.plain, rest)
    else refuse "f64" (c :: rest)

def readOptional (item : List Char → Except Fault (α × List Char)) (cs : List Char) :
    Except Fault (Option α × List Char) :=
  match skipGap cs with
  | 'n' :: rest => do
    let rest ← readNull rest
    .ok (none, rest)
  | rest => do
    let (value, rest) ← item rest
    .ok (some value, rest)

def closeList (cs : List Char) : Except Fault (List Char) :=
  match skipGap cs with
  | [] => stopAt .endInList []
  | ']' :: rest => .ok rest
  | ',' :: rest =>
    match skipGap rest with
    | ']' :: rest => stopOn .trailingComma (']' :: rest)
    | rest => stopOn .trailingCharacters rest
  | rest => stopOn .trailingCharacters rest

def nextItem (first : Bool) (cs : List Char) : Except Fault (Bool × List Char) :=
  match skipGap cs with
  | [] => stopAt .endInList []
  | ']' :: rest => .ok (false, ']' :: rest)
  | c :: rest =>
    if first then .ok (true, c :: rest)
    else if c = ',' then
      match skipGap rest with
      | [] => stopAt .endInValue []
      | ']' :: rest => stopOn .trailingComma (']' :: rest)
      | rest => .ok (true, rest)
    else stopOn .expectedListEnd (c :: rest)

/-- The items of an open list up to its end, of which there are fewer than the first list has
characters. -/
def readItems (item : List Char → Except Fault (α × List Char)) :
    List Char → Bool → List Char → Except Fault (List α × List Char)
  | [], _, _ => stopAt .endInList []
  | _ :: fuel, first, cs => do
    let (more, rest) ← nextItem first cs
    if more then
      let (value, rest) ← item rest
      let (values, rest) ← readItems item fuel false rest
      .ok (value :: values, rest)
    else
      let rest ← closeList rest
      .ok ([], rest)

def readList (item : List Char → Except Fault (α × List Char)) (cs : List Char) :
    Except Fault (List α × List Char) :=
  match skipGap cs with
  | '[' :: rest => readItems item ('[' :: rest) true rest
  | rest => refuse "a sequence" rest

def readColon (cs : List Char) : Except Fault (List Char) :=
  match skipGap cs with
  | [] => stopAt .endInObject []
  | ':' :: rest => .ok rest
  | rest => stopOn .expectedColon rest

def readMember (item : List Char → Except Fault (α × List Char)) (cs : List Char) :
    Except Fault (α × List Char) := do
  item (← readColon cs)

/-- The key of the next member of an object, if it has another one; else the end of the object. -/
def nextKey (first : Bool) (cs : List Char) : Except Fault (Option String × List Char) :=
  let key (cs : List Char) : Except Fault (Option String × List Char) :=
    match cs with
    | [] => stopAt .endInValue []
    | '"' :: rest => do
      let (key, rest) ← readString rest
      .ok (some key, rest)
    | '}' :: rest => stopOn .trailingComma ('}' :: rest)
    | rest => stopOn .keyNotString rest
  match skipGap cs with
  | [] => stopAt .endInObject []
  | '}' :: rest => .ok (none, rest)
  | c :: rest =>
    if first then key (c :: rest)
    else if c = ',' then key (skipGap rest)
    else stopOn .expectedObjectEnd (c :: rest)

/-- The members of an open object up to its end, gathered one by one: `member` takes a key and the
text behind it. There are fewer of them than the first list has characters. -/
def readMembers (member : σ → String → List Char → Except Fault (σ × List Char)) :
    List Char → Bool → σ → List Char → Except Fault (σ × List Char)
  | [], _, _, _ => stopAt .endInObject []
  | _ :: fuel, first, gathered, cs => do
    match ← nextKey first cs with
    | (none, rest) => .ok (gathered, rest)
    | (some key, rest) =>
      let (gathered, rest) ← member gathered key rest
      readMembers member fuel false gathered rest

/-- Stops behind a key that the object has already; the place is that of the object's end if it
follows at once. -/
def refuseRepeated (key : String) (cs : List Char) : Except Fault α :=
  match skipGap cs with
  | '}' :: rest => stopAt (.repeatedKey key) rest
  | rest => stopAt (.repeatedKey key) rest

/-- One more member of an object with any keys, of which later ones prevail. -/
def addMember (item : List Char → Except Fault (Json × List Char)) (members : Members)
    (key : String) (cs : List Char) : Except Fault (Members × List Char) := do
  let (value, rest) ← readMember item cs
  .ok (members.set key value, rest)

/-- Any value; `depth` lists and objects may be open within one another. -/
def readValue : Nat → List Char → Except Fault (Json × List Char)
  | depth, cs =>
    match skipGap cs with
    | '[' :: rest =>
      match depth with
      | 0 => stopOn .tooDeep ('[' :: rest)
      | depth + 1 => do
        let (items, rest) ← readItems (readValue depth) ('[' :: rest) true rest
        .ok (.array items, rest)
    | '{' :: rest =>
      match depth with
      | 0 => stopOn .tooDeep ('{' :: rest)
      | depth + 1 => do
        let (members, rest) ←
          readMembers (addMember (readValue depth)) ('{' :: rest) true [] rest
        .ok (.object members, rest)
    | rest => readScalar rest

def depthLimit : Nat := 127

def readEnd (cs : List Char) : Except Fault Unit :=
  match skipGap cs with
  | [] => .ok ()
  | rest => stopOn .trailingCharacters rest

end SourceAtlas.Json
