import SourceAtlas.Python.Node
import SourceAtlas.Python.Reader.Scan
import SourceAtlas.Python.Reader.Statement
set_option autoImplicit false

/-!
# Trees of source texts

The parser that the program is run with. A tree has the nodes that the facts of a text are read off;
what expressions are made of is left out, and so are the places of nodes. A text that the grammar does
not accept has a single node, an error.

Indentation is read leniently: a block opens only behind a colon that ends a line, a deeper line
elsewhere stays in its block, a line that is less indented than its block closes it, and a block may
be empty.
-/

namespace SourceAtlas.Python.Reader

def nodeOf (kind : Kind) (field : Option Field) (text : String) (children : List Node) : Node :=
  .mk ⟨kind, field, true, false, ⟨0, 0⟩, text⟩ children

def other (name : String) (children : List Node) : Node :=
  nodeOf (.other name) none "" children

def identifier (name : String) : Node :=
  nodeOf (.other "identifier") (some .name) name []

def blockOf (suite : List Node) : Node :=
  nodeOf .block (some (.other "body")) "" suite

def clauseOf (suite : List Node) : Node :=
  other "clause" [blockOf suite]

def decorate : List Node → List Node
  | [] => []
  | statement :: rest =>
    let decorator := other "decorator" []
    if statement.kind == .decoratedDefinition then
      nodeOf .decoratedDefinition none "" (decorator :: statement.children) :: rest
    else nodeOf .decoratedDefinition none "" [decorator, statement] :: rest

inductive Stanza
  | mk (lexemes : List Lexeme) (body : List Stanza)

def Stanza.lexemes : Stanza → List Lexeme
  | .mk lexemes _ => lexemes

def Stanza.body : Stanza → List Stanza
  | .mk _ body => body

def Stanza.tokens (s : Stanza) : List Token :=
  s.lexemes.map Lexeme.token

def stanzas : Nat → Nat → List Line → List Stanza × List Line
  | 0, _, lines => ([], lines)
  | _, _, [] => ([], [])
  | fuel + 1, column, line :: lines =>
    if line.indent < column then ([], line :: lines)
    else
      let (body, rest) :=
        match lines with
        | [] => ([], [])
        | next :: _ =>
          if line.opensBlock ∧ column < next.indent then stanzas fuel next.indent lines
          else ([], lines)
      let (more, rest) := stanzas fuel column rest
      (.mk line.lexemes body :: more, rest)

def depthAfter (depth : Nat) : Token → Nat
  | .mark s =>
    if s = "(" ∨ s = "[" ∨ s = "\x7b" then depth + 1
    else if s = ")" ∨ s = "]" ∨ s = "\x7d" then depth - 1
    else depth
  | _ => depth

def semicolonPieces (depth : Nat) : List Lexeme → List (List Lexeme)
  | [] => [[]]
  | l :: ls =>
    let rest := semicolonPieces (depthAfter depth l.token) ls
    if depth = 0 ∧ l.token = .mark ";" then [] :: rest
    else
      match rest with
      | [] => [[l]]
      | piece :: pieces => (l :: piece) :: pieces

/-- The line in front of and behind the colon that ends its header: outside brackets, and not the
colon of a `lambda`. -/
def splitHeader (depth lambdas : Nat) : List Lexeme → Option (List Lexeme × List Lexeme)
  | [] => none
  | l :: ls =>
    let onward (lambdas : Nat) :=
      (splitHeader (depthAfter depth l.token) lambdas ls).map fun (header, tail) =>
        (l :: header, tail)
    if depth = 0 ∧ l.token = .word "lambda" then onward (lambdas + 1)
    else if depth = 0 ∧ l.token = .mark ":" then
      if lambdas = 0 then some ([], ls) else onward (lambdas - 1)
    else onward lambdas

/-- The tokens at the start of a piece of a line that belong to a dotted name. -/
def nameLexemes : List Lexeme → List Lexeme
  | word :: point :: name :: rest =>
    if point.token = .mark "." then word :: point :: nameLexemes (name :: rest) else [word]
  | word :: _ => [word]
  | [] => []

/-- What tokens span: their characters and the layout between them. -/
def spanned : List Lexeme → String
  | [] => ""
  | l :: ls => l.token.spelling ++ String.join (ls.map fun l => l.gap ++ l.token.spelling)

def dottedName (field : Field) (lexemes : List Lexeme) : Node :=
  nodeOf .dottedName (some field) (spanned (nameLexemes lexemes)) []

/-- A name in the list of an import, of which the tokens are given. -/
def importedName? (lexemes : List Lexeme) : Option Node :=
  let name := nameLexemes lexemes
  if name.isEmpty then none
  else if name.length < lexemes.length then
    some (nodeOf .aliasedImport (some .name) (spanned lexemes) [dottedName .name lexemes])
  else some (dottedName .name lexemes)

def plainImport (lexemes : List Lexeme) : Node :=
  let pieces := (lexemes.splitBy fun l _ => l.token != .mark ",").map fun piece =>
    piece.filter fun l => l.token != .mark ","
  nodeOf .importStatement none "" (pieces.filterMap importedName?)

/-- A `from` import, of which the tokens behind the word are given. -/
def fromImport (lexemes : List Lexeme) : Node :=
  let behind := lexemes.dropWhile fun l => l.token == .mark "." || l.token == .mark "..."
  let name := dottedName .moduleName behind
  if behind.length < lexemes.length then
    let named := (behind.head?.map Lexeme.token) != some (.word "import")
    let module := nodeOf .relativeImport (some .moduleName) "" (if named then [name] else [])
    nodeOf .importFromStatement none "" [module]
  else if name.text = "__future__" then nodeOf .futureImportStatement none "" []
  else nodeOf .importFromStatement none "" [name]

/-- The literals of a statement that consists of nothing else, a comma behind them apart. -/
def onlyLiterals? (tokens : List Token) : Option (List String) :=
  match tokens with
  | [.mark ","] => some []
  | [] => some []
  | .text literal :: rest => (onlyLiterals? rest).map (literal :: ·)
  | _ => none

def literalStatement (literals : List String) : Node :=
  let parts := literals.map fun literal => nodeOf .string none literal []
  let expression :=
    match parts with
    | [part] => part
    | parts => nodeOf .concatenatedString none "" parts
  nodeOf .expressionStatement none "" [expression]

def simpleStatement (lexemes : List Lexeme) : Node :=
  match lexemes with
  | [] => other "statement" []
  | l :: rest =>
    if l.token = .word "import" then plainImport rest
    else if l.token = .word "from" then fromImport rest
    else
      match l.token, onlyLiterals? (lexemes.map Lexeme.token) with
      | .text _, some literals => literalStatement literals
      | _, _ => other "statement" []

/-- The statements of a line without a block. A semicolon may end the line. -/
def simpleStatements? (lexemes : List Lexeme) : Option (List Node) :=
  let pieces := semicolonPieces 0 lexemes
  let pieces :=
    match pieces.reverse with
    | [] :: first :: rest => (first :: rest).reverse
    | _ => pieces
  pieces.mapM fun piece =>
    if Grammar.isSimpleStatement (piece.map fun l => l.token.shape) then
      some (simpleStatement piece)
    else none

def headWords : List String :=
  ["class", "def", "elif", "else", "except", "finally", "for", "if", "try", "while", "with"]

def asyncWords : List Token := [.word "def", .word "for", .word "with"]

/-- The header of a line and the line behind its colon, if the line begins a statement with a block
or a clause. A line that begins with `match` or `case` does so if nothing else fits. -/
def headOf? (lexemes : List Lexeme) : Option (Option Grammar.Head × List Lexeme) :=
  match lexemes with
  | ⟨_, .word w⟩ :: rest =>
    let split := splitHeader 0 0 lexemes
    let head := split.bind fun (header, _) =>
      Grammar.head? (header.map fun l => l.token.shape)
    let tail := (split.map Prod.snd).getD []
    if headWords.contains w then some (head, tail)
    else if w = "async" ∧ rest.head?.any (fun l => asyncWords.contains l.token) then some (head, tail)
    else if w = "match" then
      if head.isSome ∧ tail.isEmpty then some (head, tail) else none
    else if w = "case" then head.map fun head => (some head, tail)
    else none
  | _ => none

/-- The statement that a header begins, with the statements of its suite and the clauses behind it. -/
def Grammar.Head.statement (head : Grammar.Head) (suite clauses : List Node) : Node :=
  match head with
  | .function name => nodeOf .functionDefinition none "" [identifier name, blockOf suite]
  | .classOf name => nodeOf .classDefinition none "" [identifier name, blockOf suite]
  | _ => other "statement" (blockOf suite :: clauses)

def isDecoratorLine (s : Stanza) : Bool :=
  match s.lexemes with
  | ⟨_, .mark "@"⟩ :: rest =>
    s.body.isEmpty && Grammar.isDecorator (rest.map fun l => l.token.shape)
  | _ => false

def isDecoratable (s : Stanza) : Bool :=
  match s.tokens with
  | .mark "@" :: _ => true
  | .word "def" :: _ => true
  | .word "class" :: _ => true
  | .word "async" :: .word "def" :: _ => true
  | _ => false

def clauseHead? (s : Stanza) : Option (Grammar.Head × List Lexeme × List Stanza) :=
  match headOf? s.lexemes with
  | some (some head, tail) => if head.isClause then some (head, tail, s.body) else none
  | _ => none

def statements? : Nat → List Stanza → Option (List Node)
  | 0, _ => none
  | _, [] => some []
  | fuel + 1, s :: rest =>
    let suite (tail : List Lexeme) (body : List Stanza) : Option (List Node) :=
      if tail.isEmpty then statements? fuel body
      else if body.isEmpty then simpleStatements? tail
      else none
    if isDecoratorLine s then
      if rest.head?.any isDecoratable then (statements? fuel rest).map decorate else none
    else
      match headOf? s.lexemes with
      | none =>
        if s.body.isEmpty then do
          let here ← simpleStatements? s.lexemes
          let more ← statements? fuel rest
          some (here ++ more)
        else none
      | some (none, _) => none
      | some (some .choice, _) => do
        let cases ← s.body.mapM fun s =>
          match headOf? s.lexemes with
          | some (some .alternative, tail) => (suite tail s.body).map clauseOf
          | _ => none
        let more ← statements? fuel rest
        some (Grammar.Head.statement .choice cases [] :: more)
      | some (some head, tail) => do
        let body ← suite tail s.body
        let clauses := (rest.takeWhile fun s => (clauseHead? s).isSome).filterMap clauseHead?
        let below ← clauses.mapM fun (_, tail, body) => (suite tail body).map clauseOf
        if head.isClause ∨ head = .alternative then none
        else if head.allows (clauses.map Prod.fst) then
          let more ← statements? fuel (rest.drop clauses.length)
          some (head.statement body below :: more)
        else none

def tree (text : String) : Node :=
  let statements : Option (List Node) := do
    let lines ← logicalLines? text.toList
    statements? (2 * lines.length + 2) (stanzas (lines.length + 1) 0 lines).1
  match statements with
  | some statements => nodeOf (.other "module") none text statements
  | none => nodeOf .error none text []

instance : Parser := ⟨fun text => some (tree text)⟩

end SourceAtlas.Python.Reader
