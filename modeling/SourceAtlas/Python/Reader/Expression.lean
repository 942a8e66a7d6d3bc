import SourceAtlas.Python.Reader.Rule
set_option autoImplicit false

namespace SourceAtlas.Python.Reader.Grammar

def arithmeticOperators : List String :=
  ["+", "-", "*", "/", "//", "%", "@", "**", "<<", ">>", "&", "|", "^"]

def comparisonMarks : List String := ["<", ">", "==", ">=", "<=", "!=", "<>"]

def comparison? (ts : List Token) : Option (List Token) :=
  match ts with
  | .word "not" :: rest => word? "in" rest
  | .word "is" :: .word "not" :: rest => some rest
  | .word "is" :: rest => some rest
  | .word "in" :: rest => some rest
  | _ => oneOf? comparisonMarks ts

def junction? (ts : List Token) : Option (List Token) :=
  match ts with
  | .word "and" :: rest => some rest
  | .word "or" :: rest => some rest
  | _ => none

def named (e : Rule) : Rule := fun ts =>
  match ts with
  | .word w :: .mark ":=" :: rest =>
    if isKeyword w then none else (e rest).map fun (_, rest) => (.value, rest)
  | _ => e ts

/-- One parameter: a name with an optional annotation and default, a starred name, or one of the
separators. -/
def parameter (annotated : Bool) (e : Rule) : Rule := fun ts => do
  let annotation (starred : Bool) (rest : List Token) : Option (List Token) :=
    match mark? ":" rest with
    | some rest =>
      if annotated then
        match mark? "*" rest with
        | some rest => if starred then (e rest).map Prod.snd else none
        | none => (e rest).map Prod.snd
      else some (.mark ":" :: rest)
    | none => some rest
  match ts with
  | .mark "/" :: rest => some (.value, rest)
  | .mark "**" :: rest =>
    let rest ← name? rest
    let rest ← annotation false rest
    some (.value, rest)
  | .mark "*" :: rest =>
    match name? rest with
    | none => some (.value, rest)
    | some rest =>
      let rest ← annotation true rest
      some (.value, rest)
  | _ =>
    let rest ← name? ts
    let rest ← annotation false rest
    match mark? "=" rest with
    | some rest => (e rest).map fun (_, rest) => (.value, rest)
    | none => some (.value, rest)

def beginsParameter : List Token → Bool
  | .word w :: _ => !isKeyword w
  | .mark s :: _ => s == "*" || s == "**" || s == "/"
  | _ => false

def parameters (annotated : Bool) (e : Rule) (ts : List Token) : Option (List Token) :=
  (commaList beginsParameter (parameter annotated e) (ts.length + 1) ts).map fun (_, _, rest) => rest

/-- The fields of a formatted literal or of a format specification. -/
def fields (e : Rule) : Nat → List Token → Option (List Token)
  | 0, ts => some ts
  | fuel + 1, ts =>
    match mark? "\x7b" ts with
    | none => some ts
    | some rest => do
      let rest ←
        match rest with
        | .word "yield" :: .word "from" :: rest => (e rest).map Prod.snd
        | .word "yield" :: rest =>
          (commaList begins (fun ts =>
            match mark? "*" ts with
            | some rest => e rest
            | none => e ts) (rest.length + 1) rest).map fun (_, _, rest) => rest
        | _ =>
          (commaItems begins (fun ts =>
            match mark? "*" ts with
            | some rest => e rest
            | none => e ts) rest).map fun (_, _, rest) => rest
      let rest := (mark? "=" rest).getD rest
      let rest ←
        match mark? "!" rest with
        | some rest => name? rest
        | none => some rest
      let rest ←
        match mark? ":" rest with
        | some rest => fields e fuel rest
        | none => some rest
      let rest ← mark? "\x7d" rest
      fields e fuel rest

def strings (e : Rule) : Nat → List Token → Option (List Token)
  | 0, ts => some ts
  | fuel + 1, ts =>
    match ts with
    | .text _ :: rest => strings e fuel rest
    | .formatOpen :: rest => do
      match ← fields e rest.length rest with
      | .formatClose :: rest => strings e fuel rest
      | _ => none
    | _ => some ts

def subscript (e : Rule) : Rule := fun ts => do
  let part (rest : List Token) : Option (List Token) :=
    if begins rest then (e rest).map Prod.snd else some rest
  let rest ←
    match ts with
    | .mark ":" :: _ => some ts
    | .mark "*" :: rest => (e rest).map Prod.snd
    | _ => (named e ts).map Prod.snd
  match mark? ":" rest with
  | none => some (.value, rest)
  | some rest =>
    let rest ← part rest
    match mark? ":" rest with
    | none => some (.value, rest)
    | some rest => (part rest).map fun rest => (.value, rest)

def beginsSubscript (ts : List Token) : Bool :=
  begins ts || (mark? ":" ts).isSome

/-- An argument of a call. Unpacked and keyword arguments count as starred: no comprehension may
follow them. -/
def argument (e : Rule) : Rule := fun ts =>
  let starred (rest : List Token) : Option (Shape × List Token) :=
    (e rest).map fun (shape, rest) => (shape.star, rest)
  match ts with
  | .mark "*" :: rest => starred rest
  | .mark "**" :: rest => starred rest
  | .word w :: .mark "=" :: rest => if isKeyword w then none else starred rest
  | _ => named e ts

def startsComprehension (ts : List Token) : Bool :=
  match ts with
  | .word "for" :: _ => true
  | .word "async" :: .word "for" :: _ => true
  | _ => false

/-- The arguments of a call up to the closing parenthesis. A comprehension stands alone. -/
def arguments (e : Rule) (comprehension : List Token → Option (List Token)) (ts : List Token) :
    Option (List Token) := do
  if begins ts then
    let (first, rest) ← argument e ts
    if startsComprehension rest then
      let rest ← comprehension rest
      if first.starred then none else mark? ")" rest
    else
      let (_, _, rest) ← commaTail begins (argument e) rest
      mark? ")" rest
  else mark? ")" ts

def trailers (e : Rule) (comprehension : List Token → Option (List Token)) :
    Nat → Shape → List Token → Option (Shape × List Token)
  | 0, shape, ts => some (shape, ts)
  | fuel + 1, shape, ts =>
    match ts with
    | .mark "." :: rest => do
      let rest ← name? rest
      trailers e comprehension fuel .place rest
    | .mark "(" :: rest => do
      let rest ← arguments e comprehension rest
      trailers e comprehension fuel .value rest
    | .mark "[" :: rest => do
      let (_, _, rest) ← commaItems beginsSubscript (subscript e) rest
      let rest ← mark? "]" rest
      trailers e comprehension fuel .place rest
    | _ => some (shape, ts)

structure Inner where
  /-- An item of a display: starred or named. -/
  item : Rule
  /-- A whole `yield`. -/
  yielding : Rule
  /-- The `for` and `if` parts of a comprehension. -/
  comprehension : List Token → Option (List Token)

def parenthesized (inner : Inner) (ts : List Token) : Option (Shape × List Token) :=
  match ts with
  | .mark ")" :: rest => some (.sequence [], rest)
  | .word "yield" :: _ => do
    let (_, rest) ← inner.yielding ts
    let rest ← mark? ")" rest
    some (.value, rest)
  | _ => do
    let (first, rest) ← inner.item ts
    if startsComprehension rest then
      let rest ← inner.comprehension rest
      let rest ← mark? ")" rest
      if first.starred then none else some (.value, rest)
    else
      let (shapes, comma, rest) ← commaTail begins inner.item rest
      let rest ← mark? ")" rest
      if comma then some (.sequence (first :: shapes), rest)
      else if first.starred then none
      else some (first.enclosed, rest)

def bracketed (inner : Inner) (ts : List Token) : Option (Shape × List Token) :=
  match ts with
  | .mark "]" :: rest => some (.sequence [], rest)
  | _ => do
    let (first, rest) ← inner.item ts
    if startsComprehension rest then
      let rest ← inner.comprehension rest
      let rest ← mark? "]" rest
      if first.starred then none else some (.value, rest)
    else
      let (shapes, _, rest) ← commaTail begins inner.item rest
      let rest ← mark? "]" rest
      some (.sequence (first :: shapes), rest)

def entry (e : Rule) : Rule := fun ts =>
  match ts with
  | .mark "**" :: rest => e rest
  | _ => do
    let (_, rest) ← e ts
    let rest ← mark? ":" rest
    e rest

/-- What stands in braces behind a first entry, and the closing one. -/
def dictionaryTail (e : Rule) (ts : List Token) : Option (Shape × List Token) := do
  let (_, _, rest) ← commaTail begins (entry e) ts
  let rest ← mark? "\x7d" rest
  some (.value, rest)

/-- What stands in braces, and the closing one: a dictionary if an entry comes first, else a set. -/
def braced (e : Rule) (inner : Inner) (ts : List Token) : Option (Shape × List Token) :=
  match ts with
  | .mark "\x7d" :: rest => some (.value, rest)
  | .mark "**" :: rest => (e rest).bind fun (_, rest) => dictionaryTail e rest
  | _ => do
    let comprehended (rest : List Token) : Option (Shape × List Token) := do
      let rest ← inner.comprehension rest
      let rest ← mark? "\x7d" rest
      some (.value, rest)
    let (first, rest) ← inner.item ts
    match mark? ":" rest with
    | some rest =>
      let (_, rest) ← e rest
      if first.starred then none
      else if startsComprehension rest then comprehended rest
      else dictionaryTail e rest
    | none =>
      if startsComprehension rest then
        if first.starred then none else comprehended rest
      else
        let (_, _, rest) ← commaTail begins inner.item rest
        let rest ← mark? "\x7d" rest
        some (.value, rest)

def atom (e : Rule) (inner : Inner) : Rule := fun ts =>
  match ts with
  | .word w :: rest =>
    if w = "None" ∨ w = "True" ∨ w = "False" then some (.value, rest)
    else if isKeyword w then none
    else some (.place, rest)
  | .number :: rest => some (.value, rest)
  | .text _ :: _ | .formatOpen :: _ => (strings e ts.length ts).map fun rest => (.value, rest)
  | .mark "..." :: rest => some (.value, rest)
  | .mark "(" :: rest => parenthesized inner rest
  | .mark "[" :: rest => bracketed inner rest
  | .mark "\x7b" :: rest => braced e inner rest
  | _ => none

def primary (e : Rule) (inner : Inner) : Rule := fun ts => do
  let (shape, rest) ← atom e inner ts
  trailers e inner.comprehension rest.length shape rest

def skipSigns : List Token → List Token
  | .mark s :: rest => if s = "+" ∨ s = "-" ∨ s = "~" then skipSigns rest else .mark s :: rest
  | ts => ts

def operand (e : Rule) (inner : Inner) : Rule := fun ts => do
  let rest := skipSigns ts
  let awaited := (word? "await" rest).getD rest
  let (shape, after) ← primary e inner awaited
  some (if awaited.length = ts.length then shape else .value, after)

def arithmetic (e : Rule) (inner : Inner) : Rule :=
  operation (operand e inner) (oneOf? arithmeticOperators)

def comparison (e : Rule) (inner : Inner) : Rule :=
  operation (arithmetic e inner) comparison?

def skipNots : List Token → List Token
  | .word w :: rest => if w = "not" then skipNots rest else .word w :: rest
  | ts => ts

def inversion (e : Rule) (inner : Inner) : Rule := fun ts => do
  let rest := skipNots ts
  let (shape, after) ← comparison e inner rest
  some (if rest.length = ts.length then shape else .value, after)

def disjunction (e : Rule) (inner : Inner) : Rule :=
  operation (inversion e inner) junction?

def conditional (e : Rule) (inner : Inner) : Rule := fun ts => do
  let (shape, rest) ← disjunction e inner ts
  match word? "if" rest with
  | none => some (shape, rest)
  | some rest =>
    let (_, rest) ← disjunction e inner rest
    let rest ← word? "else" rest
    let (_, rest) ← e rest
    some (.value, rest)

def lambda (e : Rule) (ts : List Token) : Option (Shape × List Token) := do
  let rest ← parameters false e ts
  let rest ← mark? ":" rest
  let (_, rest) ← e rest
  some (.value, rest)

/-- An expression, given the rules for what is inside its brackets. -/
def expressionOver (e : Rule) (inner : Inner) : Rule := fun ts =>
  match word? "lambda" ts with
  | some rest => lambda e rest
  | none => conditional e inner ts

def starredOr (sum plain : Rule) : Rule := fun ts =>
  match mark? "*" ts with
  | some rest => (sum rest).map fun (shape, rest) => (shape.star, rest)
  | none => plain ts

def targetItem (e : Rule) (inner : Inner) : Rule :=
  starredOr (primary e inner) (primary e inner)

def targets (e : Rule) (inner : Inner) (ts : List Token) : Option (List Token) := do
  let (shapes, _, rest) ← commaItems begins (targetItem e inner) ts
  if shapes.all Shape.target then some rest else none

def conditions (condition : Rule) : Nat → List Token → Option (List Token)
  | 0, ts => some ts
  | fuel + 1, ts =>
    match word? "if" ts with
    | none => some ts
    | some rest => do
      let (_, rest) ← condition rest
      conditions condition fuel rest

def comprehensionOver (e : Rule) (inner : Inner) : Nat → List Token → Option (List Token)
  | 0, ts => some ts
  | fuel + 1, ts =>
    if startsComprehension ts then do
      let rest := (word? "async" ts).getD ts
      let rest ← word? "for" rest
      let rest ← targets e inner rest
      let rest ← word? "in" rest
      let (_, rest) ← disjunction e inner rest
      let rest ← conditions (disjunction e inner) rest.length rest
      comprehensionOver e inner fuel rest
    else some ts

def expressionsOver (sum e : Rule) (ts : List Token) : Option (Shape × List Token) := do
  let (shapes, comma, rest) ← commaItems begins (starredOr sum e) ts
  match shapes, comma with
  | [shape], false => some (shape, rest)
  | _, _ => some (.sequence shapes, rest)

def yieldOver (sum e : Rule) : Rule := fun ts => do
  let rest ← word? "yield" ts
  match word? "from" rest with
  | some rest => (e rest).map fun (_, rest) => (.value, rest)
  | none =>
    if begins rest then (expressionsOver sum e rest).map fun (_, rest) => (.value, rest)
    else some (.value, rest)

/-- The rules one level deeper, and the expression rule on top of them. -/
def levels : Nat → Rule × Inner
  | 0 => (fun _ => none, ⟨fun _ => none, fun _ => none, fun _ => none⟩)
  | depth + 1 =>
    let (e, inner) := levels depth
    let sum := arithmetic e inner
    let here := expressionOver e inner
    (here,
      { item := starredOr sum (named here)
        yielding := yieldOver sum here
        comprehension := fun ts => comprehensionOver e inner ts.length ts })

end SourceAtlas.Python.Reader.Grammar
