import SourceAtlas.Files.Access
import SourceAtlas.Settings.Basic
import SourceAtlas.Toml.Reader
set_option autoImplicit false

/-!
# Settings in a file

A file of settings is a TOML document with the tables `scan` and `diagram`; what it leaves out has
its standard value, and what it does not need to have is ignored. A group of settings may also be
written as an array of its values in order, and a date stands for a group that sets nothing.
-/

namespace SourceAtlas

namespace Toml

def text? : Toml → Option String
  | .string value => some value
  | _ => none

def texts? : Toml → Option (List String)
  | .array items => items.mapM text?
  | .tables [] => some []
  | _ => none

/-- Whether a value is an array or a table without anything in it. -/
def isVoid : Toml → Bool
  | .array items => items.isEmpty
  | .table _ members => members.isEmpty
  | .tables items => items.isEmpty
  | _ => false

/-- The style that a value names: by its name, or by a table whose only key is the name and whose
value is empty. -/
def style? : Toml → Option Style
  | .string name => Style.ofName? name
  | .table _ [(name, value)] => if value.isVoid then Style.ofName? name else none
  | _ => none

/-- The values of a group of settings by their keys. The first array item is that of the first
key. -/
def group? (keys : List String) : Toml → Option (List (String × Toml))
  | .table _ members => some members
  | .array items => some (keys.zip items)
  | .tables items => some (keys.zip (items.reverse.map (Toml.table .header)))
  | .date => some []
  | _ => none

/-- The value that a key has or else a standard one; nothing if the value is not understood. -/
def read? {α : Type} (members : List (String × Toml)) (key : String) (item : Toml → Option α)
    (standard : α) : Option α :=
  match get? key members with
  | none => some standard
  | some value => item value

end Toml

namespace Settings

open Toml (read? text? texts? style? group?)

def ofToml? (document : List (String × Toml)) : Option Settings := do
  let scan ← read? document "scan" (group? ["exclude_dirs", "extension", "entry_file"]) []
  let diagram ← read? document "diagram" (group? ["style", "output"]) []
  return {
    excluded := ← read? scan "exclude_dirs" texts? standard.excluded
    extension := ← read? scan "extension" text? standard.extension
    entryFile := ← read? scan "entry_file" text? standard.entryFile
    style := ← read? diagram "style" style? standard.style
    output := ← read? diagram "output" text? standard.output }

def read (text : String) : Except Failure Settings := do
  match (Toml.read text).bind ofToml? with
  | none => .error .settingsText
  | some settings =>
    settings.validate
    .ok settings

def load (tree : FileTree) (path : String) : Except Failure Settings :=
  match tree.readText path with
  | .ok text => read text
  | .error error => .error (.file error)

/-- The settings in the file at a path, or the standard ones if they cannot be had. -/
def loadOrStandard (tree : FileTree) (path : String) : Settings :=
  match load tree path with
  | .ok settings => settings
  | .error _ => standard

end Settings

end SourceAtlas
