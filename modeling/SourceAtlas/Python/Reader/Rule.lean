import SourceAtlas.Python.Reader.Token
set_option autoImplicit false

/-!
# Rules

A rule reads one construct at the start of a list of tokens and leaves the rest. What it tells about
the construct is its `Shape`: the places where the grammar allows only some expressions, such as the
left of an assignment, ask for it.
-/

namespace SourceAtlas.Python.Reader.Grammar

/-- What an expression may be used as, besides being an expression. -/
structure Shape where
  /-- It may be assigned to. -/
  target : Bool
  /-- It may be the one target of an annotated or augmented assignment. -/
  single : Bool
  /-- It may be deleted. -/
  deletable : Bool
  /-- It is a starred item. -/
  starred : Bool
deriving DecidableEq, Repr

def Shape.place : Shape := ⟨true, true, true, false⟩

def Shape.value : Shape := ⟨false, false, false, false⟩

def Shape.star (s : Shape) : Shape := ⟨s.target && !s.starred, false, false, true⟩

def Shape.sequence (items : List Shape) : Shape :=
  ⟨items.all Shape.target, false, items.all Shape.deletable, false⟩

def Shape.enclosed (s : Shape) : Shape := ⟨s.target && !s.starred, s.single, s.deletable, false⟩

/-- Reads a construct at the start of the tokens and leaves the rest. -/
abbrev Rule := List Token → Option (Shape × List Token)

def mark? (symbol : String) : List Token → Option (List Token)
  | .mark s :: rest => if s = symbol then some rest else none
  | _ => none

def oneOf? (symbols : List String) : List Token → Option (List Token)
  | .mark s :: rest => if symbols.contains s then some rest else none
  | _ => none

def word? (name : String) : List Token → Option (List Token)
  | .word w :: rest => if w = name then some rest else none
  | _ => none

def name? : List Token → Option (List Token)
  | .word w :: rest => if isKeyword w then none else some rest
  | _ => none

def leadingWords : List String := ["None", "True", "False", "not", "lambda", "await"]

def leadingMarks : List String := ["(", "[", "\x7b", "+", "-", "~", "...", "*", "**"]

def begins : List Token → Bool
  | .word w :: _ => !isKeyword w || leadingWords.contains w
  | .number :: _ | .text _ :: _ | .formatOpen :: _ => true
  | .mark s :: _ => leadingMarks.contains s
  | _ => false

/-- An operator and an operand behind it, as often as they come; says whether any came. -/
def chain (operand : Rule) (operator : List Token → Option (List Token)) :
    Nat → List Token → Option (Bool × List Token)
  | 0, ts => some (false, ts)
  | fuel + 1, ts =>
    match operator ts with
    | none => some (false, ts)
    | some rest => do
      let (_, rest) ← operand rest
      let (_, rest) ← chain operand operator fuel rest
      some (true, rest)

def operation (operand : Rule) (operator : List Token → Option (List Token)) : Rule := fun ts => do
  let (shape, rest) ← operand ts
  let (more, rest) ← chain operand operator rest.length rest
  some (if more then .value else shape, rest)

/-- Items with commas between them, of which one may end the list. An item is expected as long as
`starts` holds. Gives the shapes of the items and whether there was a comma. -/
def commaList (starts : List Token → Bool) (item : Rule) :
    Nat → List Token → Option (List Shape × Bool × List Token)
  | 0, ts => some ([], false, ts)
  | fuel + 1, ts =>
    if starts ts then do
      let (shape, rest) ← item ts
      match mark? "," rest with
      | none => some ([shape], false, rest)
      | some rest => do
        let (shapes, _, rest) ← commaList starts item fuel rest
        some (shape :: shapes, true, rest)
    else some ([], false, ts)

def commaTail (starts : List Token → Bool) (item : Rule) (ts : List Token) :
    Option (List Shape × Bool × List Token) :=
  match mark? "," ts with
  | none => some ([], false, ts)
  | some rest => do
    let (shapes, _, rest) ← commaList starts item (rest.length + 1) rest
    some (shapes, true, rest)

def commaItems (starts : List Token → Bool) (item : Rule) (ts : List Token) :
    Option (List Shape × Bool × List Token) := do
  let (first, rest) ← item ts
  let (shapes, comma, rest) ← commaTail starts item rest
  some (first :: shapes, comma, rest)

def complete (rule : Rule) (ts : List Token) : Bool :=
  match rule ts with
  | some (_, []) => true
  | _ => false

end SourceAtlas.Python.Reader.Grammar
