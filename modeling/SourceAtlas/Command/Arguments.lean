set_option autoImplicit false

namespace SourceAtlas

inductive OptionKind
  /-- Nothing. -/
  | switch
  /-- A path, which is not empty. -/
  | path
  /-- A text; the option may stand once. -/
  | text
  /-- A text; the option may stand any number of times. -/
  | texts
deriving DecidableEq, Repr

structure OptionSpec where
  name : String
  letter : Option Char
  kind : OptionKind
deriving Repr

inductive Interruption
  | mistake
  /-- Help has been asked for before any mistake. -/
  | help
deriving DecidableEq, Repr

/-- The words of a command line by their roles: the options in order with their values, of which
switches have empty ones, and the other words. -/
structure Words where
  options : List (OptionSpec × String) := []
  operands : List String := []

namespace Words

def values (words : Words) (name : String) : List String :=
  (words.options.filter fun item => item.1.name == name).map Prod.snd

def value? (words : Words) (name : String) : Option String :=
  (words.values name).head?

def helpOption : OptionSpec := ⟨"help", some 'h', .switch⟩

def addOption (words : Words) (spec : OptionSpec) (value : String) : Except Interruption Words :=
  if spec.name = helpOption.name then .error .help
  else if spec.kind ≠ .texts ∧ !(words.values spec.name).isEmpty then .error .mistake
  else if spec.kind = .path ∧ value = "" then .error .mistake
  else .ok { words with options := words.options ++ [(spec, value)] }

/-- Puts a word that is no option behind words, of which there may be a number. It is a path. -/
def addOperand (room : Nat) (words : Words) (word : String) : Except Interruption Words :=
  if words.operands.length < room ∧ word ≠ "" then
    .ok { words with operands := words.operands ++ [word] }
  else .error .mistake

def isOption (word : String) : Bool :=
  match word.toList with
  | '-' :: _ :: _ => true
  | _ => false

/-- Reads an option by its name, with the value in the same word, if it has one there. An option that
is still without its value comes with the words. -/
def readLong (specs : List OptionSpec) (words : Words) (cs : List Char) :
    Except Interruption (Words × Option OptionSpec) :=
  match specs.find? fun spec => spec.name == String.ofList (cs.takeWhile fun c => c != '=') with
  | none => .error .mistake
  | some spec =>
    match cs.dropWhile fun c => c != '=' with
    | [] =>
      if spec.kind = .switch then (words.addOption spec "").map fun words => (words, none)
      else .ok (words, some spec)
    | _equals :: value =>
      if spec.kind = .switch then .error .mistake
      else (words.addOption spec (String.ofList value)).map fun words => (words, none)

/-- Reads options by their letters: any number of switches and at most one other option at the end. -/
def readLetters (specs : List OptionSpec) (words : Words) :
    List Char → Except Interruption (Words × Option OptionSpec)
  | [] => .ok (words, none)
  | c :: cs =>
    match specs.find? fun spec => spec.letter == some c with
    | none => .error .mistake
    | some spec =>
      if spec.kind = .switch then do readLetters specs (← words.addOption spec "") cs
      else
        match cs with
        | [] => .ok (words, some spec)
        | '=' :: value =>
          (words.addOption spec (String.ofList value)).map fun words => (words, none)
        | value => (words.addOption spec (String.ofList value)).map fun words => (words, none)

def readOptions (specs : List OptionSpec) (words : Words) (word : String) :
    Except Interruption (Words × Option OptionSpec) :=
  match word.toList with
  | '-' :: '-' :: cs => readLong specs words cs
  | '-' :: cs => readLetters specs words cs
  | _ => .error .mistake

/-- Reads the words behind others, of which a number may be operands, up to the first mistake. -/
def read (specs : List OptionSpec) (room : Nat) (words : Words) :
    List String → Except Interruption Words
  | [] => .ok words
  | [word] =>
    if word = "--" then .ok words
    else if isOption word then do
      match ← readOptions specs words word with
      | (words, none) => .ok words
      | (_, some _) => .error .mistake
    else words.addOperand room word
  | word :: next :: rest =>
    if word = "--" then (next :: rest).foldlM (addOperand room) words
    else if isOption word then do
      match ← readOptions specs words word with
      | (words, none) => read specs room words (next :: rest)
      | (words, some spec) =>
        if isOption next then .error .mistake
        else do read specs room (← words.addOption spec next) rest
    else do read specs room (← words.addOperand room word) (next :: rest)

end Words

end SourceAtlas
