import SourceAtlas.Python.Reader.Expression
set_option autoImplicit false

namespace SourceAtlas.Python.Reader.Grammar

def signedNumber (ts : List Token) : Option (List Token) := do
  let rest := (mark? "-" ts).getD ts
  match rest with
  | .number :: rest =>
    match oneOf? ["+", "-"] rest with
    | some (.number :: rest) => some rest
    | some _ => none
    | none => some rest
  | _ => none

def dottedTail : Nat → List Token → Option (List Token)
  | 0, ts => some ts
  | fuel + 1, ts =>
    match mark? "." ts with
    | none => some ts
    | some rest => (name? rest).bind (dottedTail fuel)

def patternArgument (p : Rule) : Rule := fun ts =>
  match ts with
  | .word w :: .mark "=" :: rest => if isKeyword w then none else p rest
  | _ => p ts

def beginsPattern : List Token → Bool
  | .word w :: _ => !isKeyword w || w == "None" || w == "True" || w == "False"
  | .number :: _ | .text _ :: _ | .formatOpen :: _ => true
  | .mark s :: _ => ["-", "(", "[", "\x7b", "*", "**"].contains s
  | _ => false

def starredPattern (p : Rule) : Rule := fun ts =>
  match mark? "*" ts with
  | some rest => (name? rest).map fun rest => (Shape.value.star, rest)
  | none => p ts

/-- A literal, or a name with attributes, as the key of a mapping pattern or a whole pattern. -/
def literalPattern (e : Rule) (ts : List Token) : Option (List Token) :=
  match ts with
  | .text _ :: _ | .formatOpen :: _ => strings e ts.length ts
  | .word w :: rest =>
    if w = "None" ∨ w = "True" ∨ w = "False" then some rest
    else if isKeyword w then none
    else dottedTail rest.length rest
  | _ => signedNumber ts

def patternEntry (e p : Rule) : Rule := fun ts =>
  match mark? "**" ts with
  | some rest => (name? rest).map fun rest => (.value, rest)
  | none => do
    let rest ← literalPattern e ts
    let rest ← mark? ":" rest
    p rest

def closedPattern (e p : Rule) : Rule := fun ts => do
  let finish (close : String) (rest : List Token) : Option (Shape × List Token) :=
    (mark? close rest).map fun rest => (.value, rest)
  match ts with
  | .mark "(" :: rest =>
    let (shapes, comma, rest) ← commaList beginsPattern (starredPattern p) (rest.length + 1) rest
    if !comma && shapes.any Shape.starred then none else finish ")" rest
  | .mark "[" :: rest =>
    let (_, _, rest) ← commaList beginsPattern (starredPattern p) (rest.length + 1) rest
    finish "]" rest
  | .mark "\x7b" :: rest =>
    let (_, _, rest) ← commaList beginsPattern (patternEntry e p) (rest.length + 1) rest
    finish "\x7d" rest
  | _ =>
    let rest ← literalPattern e ts
    match ts, mark? "(" rest with
    | .word _ :: _, some rest =>
      let (_, _, rest) ← commaList beginsPattern (patternArgument p) (rest.length + 1) rest
      finish ")" rest
    | _, _ => some (.value, rest)

/-- Patterns with bars between them, perhaps with a name for what they match. -/
def patternOver (e p : Rule) : Rule := fun ts => do
  let (_, rest) ← operation (closedPattern e p) (mark? "|") ts
  match word? "as" rest with
  | none => some (.value, rest)
  | some rest => (name? rest).map fun rest => (.value, rest)

def pattern (e : Rule) : Nat → Rule
  | 0 => fun _ => none
  | depth + 1 => patternOver e (pattern e depth)

/-- The patterns of a `case` clause: one, or a sequence without brackets. -/
def openPatterns (e : Rule) (ts : List Token) : Option (List Token) := do
  let (shapes, comma, rest) ← commaItems beginsPattern (starredPattern (pattern e ts.length)) ts
  if !comma && shapes.any Shape.starred then none else some rest

end SourceAtlas.Python.Reader.Grammar
