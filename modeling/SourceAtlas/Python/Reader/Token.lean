set_option autoImplicit false

namespace SourceAtlas.Python.Reader

/-- A token. A formatted literal is an opening, its fields in braces, and a closing. -/
inductive Token
  | word (name : String)
  | number
  | text (literal : String)
  | formatOpen
  | formatClose
  | mark (symbol : String)
deriving DecidableEq, Repr

structure Lexeme where
  gap : String
  token : Token
deriving DecidableEq, Repr

structure Line where
  indent : Nat
  lexemes : List Lexeme
deriving DecidableEq, Repr

def keywords : List String :=
  ["False", "None", "True", "and", "as", "assert", "await", "break", "class", "continue",
    "def", "del", "elif", "else", "except", "finally", "for", "from", "global", "if", "import",
    "in", "is", "lambda", "nonlocal", "not", "or", "pass", "raise", "return", "try", "while",
    "with", "yield"]

def isKeyword (name : String) : Bool :=
  keywords.contains name

def Token.shape : Token → Token
  | .text _ => .text ""
  | token => token

/-- The characters of a token that is a word, a mark or a string literal. -/
def Token.spelling : Token → String
  | .word name => name
  | .text literal => literal
  | .mark symbol => symbol
  | _ => ""

def Line.tokens (line : Line) : List Token :=
  line.lexemes.map Lexeme.token

def Line.opensBlock (line : Line) : Bool :=
  line.tokens.getLast? == some (.mark ":")

end SourceAtlas.Python.Reader
