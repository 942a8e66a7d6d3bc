import SourceAtlas.Command.Arguments
import SourceAtlas.Settings.Basic
set_option autoImplicit false

namespace SourceAtlas

inductive Command
  /-- To survey a directory and write its diagram. -/
  | reverse (root : String) (wishes : Wishes) (config : Option String) (verbose : Bool)
  /-- To make what a diagram calls for below a root. -/
  | sync (canvas root : String) (config : Option String) (verbose : Bool)
  /-- To list what a diagram calls for. -/
  | intents (canvas : String)
  | version
  | help
deriving DecidableEq, Repr

namespace Command

def outputOption : OptionSpec := ⟨"output", some 'o', .path⟩

def styleOption : OptionSpec := ⟨"style", none, .text⟩

def excludeOption : OptionSpec := ⟨"exclude", none, .texts⟩

def configOption : OptionSpec := ⟨"config", some 'c', .path⟩

def rootOption : OptionSpec := ⟨"root", some 'r', .path⟩

def verboseOption : OptionSpec := ⟨"verbose", some 'v', .switch⟩

/-- The command that the words behind its name ask for, where some options may stand and a number of
operands. -/
def readCommand (specs : List OptionSpec) (room : Nat) (args : List String)
    (command : Words → Option Command) : Option Command :=
  match Words.read (Words.helpOption :: specs) room {} args with
  | .error .mistake => none
  | .error .help => some help
  | .ok words => command words

def hasSwitch (words : Words) (spec : OptionSpec) : Bool :=
  !(words.values spec.name).isEmpty

def readReverse (args : List String) : Option Command :=
  readCommand [outputOption, styleOption, excludeOption, configOption, verboseOption] 1 args
    fun words => do
      let wishes : Wishes := ⟨words.value? outputOption.name, words.values excludeOption.name,
        words.value? styleOption.name⟩
      return reverse (← words.operands.head?) wishes (words.value? configOption.name)
        (hasSwitch words verboseOption)

def readSync (args : List String) : Option Command :=
  readCommand [rootOption, configOption, verboseOption] 1 args fun words => do
    return sync (← words.operands.head?) ((words.value? rootOption.name).getD ".")
      (words.value? configOption.name) (hasSwitch words verboseOption)

def readIntents (args : List String) : Option Command :=
  readCommand [] 1 args fun words => words.operands.head?.map intents

def readVersion (args : List String) : Option Command :=
  readCommand [] 0 args fun _ => some version

def topics : List String := ["reverse", "sync", "intents", "version", "help"]

def readHelp (args : List String) : Option Command :=
  match args with
  | [] => some help
  | [topic] => if topics.contains topic then some help else none
  | ["help", topic] => if topics.contains topic then some help else none
  | _ => none

def ofArguments? (args : List String) : Option Command :=
  match args with
  | [] => none
  | "reverse" :: args => readReverse args
  | "sync" :: args => readSync args
  | "intents" :: args => readIntents args
  | "version" :: args => readVersion args
  | "help" :: args => readHelp args
  | "--version" :: _ => some version
  | "--help" :: _ => some help
  | word :: _ =>
    match word.toList with
    | '-' :: 'V' :: _ => some version
    | '-' :: 'h' :: _ => some help
    | _ => none

end Command

end SourceAtlas
