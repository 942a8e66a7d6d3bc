import SourceAtlas.Toml.Number
import SourceAtlas.Toml.Token
import SourceAtlas.Toml.Value
set_option autoImplicit false

namespace SourceAtlas.Toml

variable {α : Type}

def skipWord (word : String) (cs : List Char) : Option (List Char) :=
  if word.toList.isPrefixOf cs then some (cs.drop word.length) else none

def readPlain (cs : List Char) : Option (Toml × List Char) :=
  match cs with
  | [] => none
  | c :: _ =>
    if c = '"' ∨ c = '\x27' then do
      let (value, rest) ← readString cs
      return (.string value, rest)
    else if c = 't' then (skipWord "true" cs).map fun rest => (.bool true, rest)
    else if c = 'f' then (skipWord "false" cs).map fun rest => (.bool false, rest)
    else
      match skipDate cs with
      | some rest => some (.date, rest)
      | none => (skipNumber cs).map fun rest => (.number, rest)

/-- The items of an array up to its end, of which there are fewer than the first list has
characters. -/
def readItems (item : List Char → Option (Toml × List Char)) :
    List Char → List Char → Option (List Toml × List Char)
  | [], _ => none
  | _ :: fuel, cs => do
    match ← skipSpace cs with
    | ']' :: rest => return ([], rest)
    | rest =>
      let (value, rest) ← item rest
      match ← skipSpace rest with
      | ']' :: rest => return ([value], rest)
      | ',' :: rest =>
        let (values, rest) ← readItems item fuel rest
        return (value :: values, rest)
      | _ => none

def readPair (item : List Char → Option (Toml × List Char)) (cs : List Char) :
    Option ((List String × String × Toml) × List Char) := do
  let ((keys, key), rest) ← readKey cs
  let (value, rest) ← item (skipBlank (← skipChar '=' rest))
  return ((keys, key, value), rest)

/-- The members of an inline table from its first one up to its end. There are fewer of them than the
first list has characters. -/
def readInline (item : List Char → Option (Toml × List Char)) :
    List Char → Open → List Char → Option (Open × List Char)
  | [], _, _ => none
  | _ :: fuel, current, cs => do
    let ((keys, key, value), rest) ← readPair item cs
    let current ← insert keys key value current
    match skipBlank rest with
    | '}' :: rest => return (current, rest)
    | ',' :: rest => readInline item fuel current rest
    | _ => none

/-- Any value; `depth` arrays and inline tables may be open within one another. -/
def readValue : Nat → List Char → Option (Toml × List Char)
  | depth, cs =>
    match cs with
    | '[' :: rest =>
      match depth with
      | 0 => none
      | depth + 1 => do
        let (items, rest) ← readItems (readValue depth) ('[' :: rest) rest
        return (.array items, rest)
    | '{' :: rest =>
      match depth with
      | 0 => none
      | depth + 1 =>
        match skipBlank rest with
        | '}' :: rest => some (.table .inline [], rest)
        | rest => do
          let (built, rest) ← readInline (readValue depth) rest ⟨.inline, []⟩ rest
          return (.table .inline built.members, rest)
    | _ => readPlain cs

/-- How many arrays and inline tables may be open within one another. -/
def depthLimit : Nat := 79

/-- A document so far: its tables, and the keys that lead to the table of the last header. -/
structure Draft where
  document : Open
  header : List String

/-- The document with one more member of the table of the last header. -/
def Draft.addPair (draft : Draft) (keys : List String) (key : String) (value : Toml) :
    Option Draft := do
  let document ← descend .header (insert keys key value) draft.header draft.document
  return { draft with document := document }

/-- One line that is not empty, in a draft, and the rest behind it. -/
def Draft.readLine (draft : Draft) (cs : List Char) : Option (Draft × List Char) := do
  match cs with
  | '[' :: '[' :: rest =>
    let ((keys, key), rest) ← readKey rest
    let rest ← finishLine (← skipChar ']' (← skipChar ']' rest))
    return (⟨← openNextTable keys key draft.document, keys ++ [key]⟩, rest)
  | '[' :: rest =>
    let ((keys, key), rest) ← readKey rest
    let rest ← finishLine (← skipChar ']' rest)
    return (⟨← openTable keys key draft.document, keys ++ [key]⟩, rest)
  | _ =>
    let ((keys, key, value), rest) ← readPair (readValue depthLimit) cs
    let rest ← finishLine rest
    return (← draft.addPair keys key value, rest)

/-- The lines of a document, of which there are no more than the first list has characters. -/
def readLines : List Char → Draft → List Char → Option Draft
  | _, draft, [] => some draft
  | [], _, _ => none
  | _ :: fuel, draft, cs =>
    match skipBlank cs with
    | [] => some draft
    | '#' :: rest => do readLines fuel draft (← finishLine ('#' :: rest))
    | '\n' :: rest => readLines fuel draft rest
    | '\r' :: rest => do readLines fuel draft (← lineEnd? ('\r' :: rest))
    | rest => do
      let (draft, rest) ← draft.readLine rest
      readLines fuel draft rest

/-- The members of the document that a text is. A mark of the byte order before it does not count. -/
def read (text : String) : Option (List (String × Toml)) := do
  let cs := match text.toList with
    | '\ufeff' :: rest => rest
    | cs => cs
  let draft ← readLines cs ⟨⟨.header, []⟩, []⟩ cs
  return draft.document.members

end SourceAtlas.Toml
