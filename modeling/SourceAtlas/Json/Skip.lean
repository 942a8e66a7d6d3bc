import SourceAtlas.Json.Reader
set_option autoImplicit false

namespace SourceAtlas.Json

inductive Bracket
  | list
  | object

inductive Due
  | value
  | firstEntry
  | laterEntry
deriving DecidableEq

def Bracket.unclosed : Bracket → Cause
  | .list => .endInList
  | .object => .endInObject

def Bracket.unended : Bracket → Cause
  | .list => .expectedListEnd
  | .object => .expectedObjectEnd

def Bracket.closing : Bracket → Char
  | .list => ']'
  | .object => '}'

def skipScalar (cs : List Char) : Except Fault (List Char) :=
  match cs with
  | [] => stopOn .endInValue []
  | 'n' :: rest => readNull rest
  | 't' :: rest => readTrue rest
  | 'f' :: rest => readFalse rest
  | '"' :: rest => skipString rest
  | c :: _ => if c = '-' ∨ c.isDigit then skipNumber cs else stopOn .expectedValue cs

/-- The rest behind the key of an entry, of which a list has none. -/
def skipKey (bracket : Bracket) (cs : List Char) : Except Fault (List Char) :=
  match bracket with
  | .list => .ok cs
  | .object =>
    match skipGap cs with
    | [] => stopAt .endInObject []
    | '"' :: rest => do readColon (← skipString rest)
    | rest => stopOn .keyNotString rest

structure Progress where
  opened : List Bracket
  due : Due
  rest : List Char

def skipStart (opened : List Bracket) (cs : List Char) : Except Fault Progress :=
  match skipGap cs with
  | '[' :: rest => .ok ⟨.list :: opened, .firstEntry, rest⟩
  | '{' :: rest => .ok ⟨.object :: opened, .firstEntry, rest⟩
  | rest => do .ok ⟨opened, .laterEntry, ← skipScalar rest⟩

def skipStep (bracket : Bracket) (outer : List Bracket) (due : Due) (cs : List Char) :
    Except Fault Progress :=
  match skipGap cs with
  | [] => stopAt (if due = .value then .endInValue else bracket.unclosed) []
  | c :: rest => do
    if due = .value then skipStart (bracket :: outer) (c :: rest)
    else if c = bracket.closing then .ok ⟨outer, .laterEntry, rest⟩
    else if due = .firstEntry then skipStart (bracket :: outer) (← skipKey bracket (c :: rest))
    else if c = ',' then .ok ⟨bracket :: outer, .value, ← skipKey bracket rest⟩
    else stopOn bracket.unended (c :: rest)

/-- The rest behind all open brackets. There are no more steps than the first list has characters. -/
def skipWithin : List Char → Progress → Except Fault (List Char)
  | _, ⟨[], _, rest⟩ => .ok rest
  | [], _ => stopAt .endInValue []
  | _ :: fuel, ⟨bracket :: outer, due, rest⟩ => do
    skipWithin fuel (← skipStep bracket outer due rest)

def skipValue (cs : List Char) : Except Fault (List Char) := do
  skipWithin cs (← skipStart [] cs)

end SourceAtlas.Json
