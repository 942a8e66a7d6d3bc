import SourceAtlas.Failure
import SourceAtlas.Survey.Style
set_option autoImplicit false

namespace SourceAtlas

structure Settings where
  /-- Names of directories that are left out at any depth. -/
  excluded : List String
  /-- The extension of source files without its dot. -/
  extension : String
  /-- The name of files that belong to the entry layer in any case. -/
  entryFile : String
  style : Style
  /-- Where the diagram is written. -/
  output : String
deriving DecidableEq, Repr

structure Wishes where
  output : Option String
  excluded : List String
  style : Option String
deriving DecidableEq, Repr

namespace Settings

def standard : Settings where
  excluded := [".git", ".venv", "venv", "__pycache__", ".pytest_cache", "dist", "build"]
  extension := "py"
  entryFile := "app.py"
  style := .layered
  output := "architecture.canvas"

def exclusionFault? (name : String) : Option SettingsFault :=
  if name = "" then some .emptyExclusion
  else if name.toList.contains '/' || name.toList.contains '\\' then some (.exclusionPath name)
  else none

def fault? (settings : Settings) : Option SettingsFault :=
  if settings.extension = "" then some .emptyExtension
  else if settings.extension.toList.head? = some '.' then some .dottedExtension
  else match settings.excluded.findSome? exclusionFault? with
    | some fault => some fault
    | none => if settings.entryFile = "" then some .emptyEntryFile else none

def validate (settings : Settings) : Except Failure Unit :=
  match settings.fault? with
  | some fault => .error (.settings fault)
  | none => .ok ()

def exclude (settings : Settings) (name : String) : Settings :=
  if settings.excluded.contains name then settings
  else { settings with excluded := settings.excluded ++ [name] }

def merge (settings : Settings) (wishes : Wishes) : Except Failure Unit × Settings :=
  let settings := { settings with output := wishes.output.getD settings.output }
  let settings := wishes.excluded.foldl exclude settings
  match wishes.style with
  | none => (settings.validate, settings)
  | some name =>
    match Style.ofUserName? name with
    | none => (.error (.settings (.unknownStyle name)), settings)
    | some style =>
      let settings := { settings with style := style }
      (settings.validate, settings)

end Settings

end SourceAtlas
