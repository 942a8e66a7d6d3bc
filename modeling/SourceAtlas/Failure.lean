import SourceAtlas.Files.Error
set_option autoImplicit false

namespace SourceAtlas

inductive SettingsFault
  | emptyExtension
  | dottedExtension
  | emptyExclusion
  | exclusionPath (text : String)
  | emptyEntryFile
  | unknownStyle (name : String)
deriving DecidableEq, Repr

def SettingsFault.message : SettingsFault → String
  | emptyExtension => "extension must not be empty"
  | dottedExtension => "extension must be given without a leading dot"
  | emptyExclusion => "exclude_dirs entries must not be empty"
  | exclusionPath text => "exclude_dirs takes directory names, not paths: " ++ text
  | emptyEntryFile => "entry_file must not be empty"
  | unknownStyle name => "unknown style: " ++ name

/-- What is wrong with a source text, and the path that it was read from. -/
structure SyntaxFault where
  path : String
  message : String := "invalid syntax"
deriving DecidableEq, Repr

instance : Coe String SyntaxFault := ⟨fun path => { path }⟩

inductive Failure
  | file (error : FileError)
  /-- The text of the settings is not understood. -/
  | settingsText
  | settings (fault : SettingsFault)
  | pathNotFound (path : String)
  | unreadable (path : String) (error : FileError)
  | unparseable (fault : SyntaxFault)
  | malformedDiagram (path complaint : String)
deriving DecidableEq, Repr

namespace Failure

def message : Failure → String
  | file error => "IO error: " ++ error.message
  | settingsText => "Failed to parse config file:"
  | settings fault => "Config validation error: " ++ fault.message
  | pathNotFound path => "Path not found: " ++ path
  | unreadable path error => "Cannot read " ++ path ++ ": " ++ error.message
  | unparseable fault => "Syntax error in " ++ fault.path ++ ": " ++ fault.message
  | malformedDiagram path complaint => "Malformed diagram " ++ path ++ ": " ++ complaint

/-- Whether it concerns one source file only, so that a survey goes on without it. -/
def isRecoverable : Failure → Bool
  | unreadable _ _ => true
  | unparseable _ => true
  | _ => false

end Failure

end SourceAtlas
