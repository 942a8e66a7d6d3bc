import SourceAtlas.Json.Value
set_option autoImplicit false

namespace SourceAtlas.Json

def lowerHex (n : Nat) : Char :=
  if n < 10 then Char.ofNat (n + '0'.toNat) else Char.ofNat (n - 10 + 'a'.toNat)

def writeChar (c : Char) : List Char :=
  match c with
  | '"' => ['\\', '"']
  | '\\' => ['\\', '\\']
  | '\x08' => ['\\', 'b']
  | '\t' => ['\\', 't']
  | '\n' => ['\\', 'n']
  | '\x0c' => ['\\', 'f']
  | '\r' => ['\\', 'r']
  | _ =>
    if c.toNat < 0x20 then
      ['\\', 'u', '0', '0', lowerHex (c.toNat / 16), lowerHex (c.toNat % 16)]
    else [c]

def writeString (text : String) : List Char :=
  '"' :: text.toList.flatMap writeChar ++ ['"']

def indent (level : Nat) : List Char :=
  List.replicate (2 * level) ' '

mutual

def writeValue (level : Nat) : Json → List Char
  | .null => ['n', 'u', 'l', 'l']
  | .bool true => ['t', 'r', 'u', 'e']
  | .bool false => ['f', 'a', 'l', 's', 'e']
  | .number value => value.write.toList
  | .string value => writeString value
  | .array [] => ['[', ']']
  | .array (item :: items) =>
    '[' :: '\n' :: indent (level + 1) ++ writeValue (level + 1) item ++
      writeItems (level + 1) items ++ '\n' :: indent level ++ [']']
  | .object [] => ['{', '}']
  | .object ((key, value) :: members) =>
    '{' :: '\n' :: indent (level + 1) ++ writeString key ++ ':' :: ' ' ::
      writeValue (level + 1) value ++
      writeMembers (level + 1) members ++ '\n' :: indent level ++ ['}']

def writeItems (level : Nat) : List Json → List Char
  | [] => []
  | item :: items =>
    ',' :: '\n' :: indent level ++ writeValue level item ++ writeItems level items

def writeMembers (level : Nat) : List (String × Json) → List Char
  | [] => []
  | (key, value) :: members =>
    ',' :: '\n' :: indent level ++ writeString key ++ ':' :: ' ' :: writeValue level value ++
      writeMembers level members

end

def write (value : Json) : String :=
  String.ofList (writeValue 0 value)

end SourceAtlas.Json
