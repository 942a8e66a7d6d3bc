import SourceAtlas.Python.Reader.Pattern
set_option autoImplicit false

namespace SourceAtlas.Python.Reader.Grammar

/-- The rules for a piece of a line: as many levels as the piece has tokens. -/
structure Rules where
  expression : Rule
  /-- Expressions and starred items with commas between them. -/
  expressions : Rule
  /-- What may stand right of an assignment. -/
  assigned : Rule
  /-- An expression that may bind a name. -/
  named : Rule
  /-- A starred or named item. -/
  item : Rule
  /-- An item of a target list. -/
  target : Rule
  /-- A target list. -/
  targets : List Token → Option (List Token)
  /-- The arguments of a call, with the closing parenthesis. -/
  arguments : List Token → Option (List Token)

def rulesFor (ts : List Token) : Rules :=
  let (e, inner) := levels ts.length
  let sum := arithmetic e inner
  let expression := expressionOver e inner
  let expressions := expressionsOver sum expression
  let yielding := yieldOver sum expression
  { expression
    expressions
    assigned := fun ts => if (word? "yield" ts).isSome then yielding ts else expressions ts
    named := Grammar.named expression
    item := starredOr sum (Grammar.named expression)
    target := targetItem e inner
    targets := targets e inner
    arguments := Grammar.arguments expression inner.comprehension }

/-- The tokens behind a word. Where nothing but a name can stand, every word is one. -/
def anyWord? : List Token → Option (List Token)
  | .word _ :: rest => some rest
  | _ => none

def moduleTail : List Token → List Token
  | .mark s :: .word w :: rest => if s = "." then moduleTail rest else .mark s :: .word w :: rest
  | ts => ts

def moduleName (ts : List Token) : Option (List Token) :=
  (anyWord? ts).map moduleTail

def aliased (name : List Token → Option (List Token)) : Rule := fun ts => do
  let rest ← name ts
  match word? "as" rest with
  | none => some (.value, rest)
  | some rest => (anyWord? rest).map fun rest => (.value, rest)

def startsName (ts : List Token) : Bool := (anyWord? ts).isSome

/-- Names with commas between them, of which one may end the list. -/
def importedNames (name : List Token → Option (List Token)) (ts : List Token) :
    Option (List Token) :=
  (commaItems startsName (aliased name) ts).map fun (_, _, rest) => rest

def skipPoints : List Token → List Token
  | .mark s :: rest => if s = "." ∨ s = "..." then skipPoints rest else .mark s :: rest
  | ts => ts

/-- What stands behind `from`. The module of future features exports its names one by one. -/
def isFromImport (ts : List Token) : Bool :=
  let behind := skipPoints ts
  let relative := behind.length < ts.length
  let future := !relative && behind.head? == some (.word "__future__")
  let rest? :=
    if relative ∧ (word? "import" behind).isSome then some behind
    else
      match moduleName behind with
      | some rest => if future ∧ rest.length + 1 ≠ ts.length then none else some rest
      | none => none
  match rest?.bind (word? "import") with
  | none => false
  | some [.mark "*"] => !future
  | some (.mark "(" :: rest) => ((importedNames anyWord? rest).bind (mark? ")")) == some []
  | some rest => importedNames anyWord? rest == some []

def augmentedMarks : List String :=
  ["+=", "-=", "*=", "/=", "//=", "%=", "@=", "&=", "|=", "^=", ">>=", "<<=", "**="]

/-- What stands behind the first `=` of an assignment: targets with `=` between them, then the value
assigned. -/
def isAssigned (rules : Rules) : Nat → List Token → Bool
  | 0, _ => false
  | fuel + 1, ts =>
    match rules.assigned ts with
    | none => false
    | some (_, []) => true
    | some (shape, rest) =>
      match mark? "=" rest with
      | some rest => shape.target && isAssigned rules fuel rest
      | none => false

def isExpressionStatement (rules : Rules) (ts : List Token) : Bool :=
  match rules.expressions ts with
  | none => false
  | some (shape, rest) =>
    match rest with
    | [] => true
    | .mark "=" :: rest => shape.target && isAssigned rules rest.length rest
    | .mark ":" :: rest =>
      shape.single &&
        match rules.expression rest with
        | some (_, []) => true
        | some (_, .mark "=" :: rest) => complete rules.assigned rest
        | _ => false
    | _ =>
      match oneOf? augmentedMarks rest with
      | some rest => shape.single && complete rules.assigned rest
      | none => false

/-- Expressions with commas between them, of which one may end the list. -/
def expressionList (rules : Rules) : Rule := fun ts =>
  (commaItems begins rules.expression ts).map fun (shapes, _, rest) => (.sequence shapes, rest)

def isPrinted (rules : Rules) (ts : List Token) : Bool :=
  complete (expressionList rules) ((mark? ">>" ts).getD ts)

def isExecuted (rules : Rules) (ts : List Token) : Bool :=
  let rest? :=
    match ts with
    | .text _ :: rest => some rest
    | _ => name? ts
  match rest? with
  | none => false
  | some [] => true
  | some rest =>
    match word? "in" rest with
    | some rest => complete (expressionList rules) rest
    | none => false

def isRaised (rules : Rules) (ts : List Token) : Bool :=
  ts.isEmpty ||
    match expressionList rules ts with
    | some (_, []) => true
    | some (_, .word "from" :: rest) => complete rules.expression rest
    | _ => false

def isAsserted (rules : Rules) (ts : List Token) : Bool :=
  match rules.expression ts with
  | some (_, []) => true
  | some (_, .mark "," :: rest) => complete rules.expression rest
  | _ => false

def isDeleted (rules : Rules) (ts : List Token) : Bool :=
  match commaItems begins rules.expression ts with
  | some (shapes, _, []) => shapes.all Shape.deletable
  | _ => false

def isNameList : List Token → Bool
  | [.word w] => !isKeyword w
  | .word w :: .mark "," :: rest => !isKeyword w && isNameList rest
  | _ => false

def typeParameter (e : Rule) : Rule := fun ts =>
  match ts with
  | .mark "*" :: rest => (name? rest).map fun rest => (.value, rest)
  | .mark "**" :: rest => (name? rest).map fun rest => (.value, rest)
  | _ => do
    let rest ← name? ts
    match mark? ":" rest with
    | some rest => (e rest).map fun (_, rest) => (.value, rest)
    | none => some (.value, rest)

def typeParameters (rules : Rules) (ts : List Token) : Option (List Token) :=
  match mark? "[" ts with
  | none => some ts
  | some rest => do
    let (_, _, rest) ← commaItems beginsParameter (typeParameter rules.expression) rest
    mark? "]" rest

def isTypeAlias (rules : Rules) (ts : List Token) : Bool :=
  match ((name? ts).bind (typeParameters rules)).bind (mark? "=") with
  | some rest => complete rules.expression rest
  | none => false

def isSimpleStatement (ts : List Token) : Bool :=
  let rules := rulesFor ts
  match ts with
  | .word "import" :: rest => importedNames moduleName rest == some []
  | .word "from" :: rest => isFromImport rest
  | .word "pass" :: rest => rest.isEmpty
  | .word "break" :: rest => rest.isEmpty
  | .word "continue" :: rest => rest.isEmpty
  | .word "return" :: rest => rest.isEmpty || complete rules.expressions rest
  | .word "raise" :: rest => isRaised rules rest
  | .word "assert" :: rest => isAsserted rules rest
  | .word "del" :: rest => isDeleted rules rest
  | .word "global" :: rest => isNameList rest
  | .word "nonlocal" :: rest => isNameList rest
  | .word "yield" :: _ => complete rules.assigned ts
  | .word "print" :: rest => isExpressionStatement rules ts || isPrinted rules rest
  | .word "exec" :: rest => isExpressionStatement rules ts || isExecuted rules rest
  | .word "type" :: rest =>
    if (name? rest).isSome then isTypeAlias rules rest else isExpressionStatement rules ts
  | _ => isExpressionStatement rules ts

/-- What a header begins: a statement with a block, or a clause of one. -/
inductive Head
  | function (name : String)
  | classOf (name : String)
  | branch
  | loop
  | attempt
  | context
  | choice
  | elseBranch
  | otherwise
  | handler
  | groupHandler
  | cleanup
  | alternative
deriving DecidableEq, Repr

def Head.isClause : Head → Bool
  | .elseBranch | .otherwise | .handler | .groupHandler | .cleanup => true
  | _ => false

/-- The clauses that end a statement: an optional `else`, then an optional `finally`. -/
def endsWithClauses : List Head → Bool
  | [] => true
  | [.otherwise] => true
  | [.cleanup] => true
  | [.otherwise, .cleanup] => true
  | _ => false

def Head.allows (head : Head) (clauses : List Head) : Bool :=
  match head with
  | .branch =>
    let rest := clauses.dropWhile (· == .elseBranch)
    rest == [] || rest == [.otherwise]
  | .loop => clauses == [] || clauses == [.otherwise]
  | .attempt =>
    let rest := clauses.dropWhile (· == .handler)
    let groups := clauses.dropWhile (· == .groupHandler)
    if rest.length < clauses.length then endsWithClauses rest
    else if groups.length < clauses.length then endsWithClauses groups
    else clauses == [.cleanup]
  | _ => clauses == []

def contextItem (rules : Rules) : Rule := fun ts => do
  let (_, rest) ← rules.expression ts
  match word? "as" rest with
  | none => some (.value, rest)
  | some rest =>
    let (shape, rest) ← rules.target rest
    if shape.target then some (.value, rest) else none

def isContext (rules : Rules) (ts : List Token) : Bool :=
  let plain :=
    match commaList begins (contextItem rules) (ts.length + 1) ts with
    | some (shapes, comma, []) => !shapes.isEmpty && (!comma || ts.getLast? != some (.mark ","))
    | _ => false
  let enclosed :=
    match ts with
    | .mark "(" :: rest =>
      match commaItems begins (contextItem rules) rest with
      | some (_, _, [.mark ")"]) => true
      | _ => false
    | _ => false
  plain || enclosed

def isHandled (rules : Rules) (ts : List Token) : Bool :=
  match rules.expression ts with
  | some (_, []) => true
  | some (_, .word "as" :: rest) => complete rules.expression rest
  | some (_, .mark "," :: rest) => complete rules.expression rest
  | _ => false

def isSignature (rules : Rules) (ts : List Token) : Bool :=
  let rest? := do
    let rest ← typeParameters rules ts
    let rest ← mark? "(" rest
    let rest ← parameters true rules.expression rest
    mark? ")" rest
  match rest? with
  | some [] => true
  | some (.mark "->" :: rest) => complete rules.expression rest
  | _ => false

def hasBases (rules : Rules) (ts : List Token) : Bool :=
  match typeParameters rules ts with
  | some [] => true
  | some (.mark "(" :: rest) => rules.arguments rest == some []
  | _ => false

def isLoopOver (rules : Rules) (ts : List Token) : Bool :=
  match (rules.targets ts).bind (word? "in") with
  | some rest => complete rules.expressions rest
  | none => false

/-- What stands behind `match`: items with commas between them, and no item alone is starred. -/
def isSubject (rules : Rules) (ts : List Token) : Bool :=
  match commaItems begins rules.item ts with
  | some (shapes, comma, []) => comma || !shapes.any Shape.starred
  | _ => false

def isCase (rules : Rules) (ts : List Token) : Bool :=
  match openPatterns rules.expression ts with
  | some [] => true
  | some (.word "if" :: rest) => complete rules.named rest
  | _ => false

def head? (ts : List Token) : Option Head :=
  let rules := rulesFor ts
  let when (head : Head) (holds : Bool) : Option Head := if holds then some head else none
  let plain : List Token :=
    match ts with
    | .word "async" :: .word w :: rest =>
      if w = "def" ∨ w = "for" ∨ w = "with" then .word w :: rest else ts
    | _ => ts
  match plain with
  | .word "def" :: .word name :: rest =>
    when (.function name) (!isKeyword name && isSignature rules rest)
  | .word "class" :: .word name :: rest =>
    when (.classOf name) (!isKeyword name && hasBases rules rest)
  | .word "if" :: rest => when .branch (complete rules.named rest)
  | .word "elif" :: rest => when .elseBranch (complete rules.named rest)
  | .word "while" :: rest => when .loop (complete rules.named rest)
  | .word "for" :: rest => when .loop (isLoopOver rules rest)
  | .word "with" :: rest => when .context (isContext rules rest)
  | .word "try" :: rest => when .attempt rest.isEmpty
  | .word "else" :: rest => when .otherwise rest.isEmpty
  | .word "finally" :: rest => when .cleanup rest.isEmpty
  | .word "except" :: .mark "*" :: rest => when .groupHandler (isHandled rules rest)
  | .word "except" :: rest => when .handler (rest.isEmpty || isHandled rules rest)
  | .word "match" :: rest => when .choice (isSubject rules rest)
  | .word "case" :: rest => when .alternative (isCase rules rest)
  | _ => none

def isDecorator (ts : List Token) : Bool :=
  complete (rulesFor ts).named ts

end SourceAtlas.Python.Reader.Grammar
