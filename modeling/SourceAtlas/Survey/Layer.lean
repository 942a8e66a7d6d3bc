import SourceAtlas.Text.Search
set_option autoImplicit false

namespace SourceAtlas

inductive Layer
  | entry
  | core
  | service
  | infra
  | other
deriving DecidableEq, Repr

namespace Layer

def all : List Layer := [entry, core, service, infra, other]

def name : Layer → String
  | entry => "entry"
  | core => "core"
  | service => "service"
  | infra => "infra"
  | other => "other"

def tag : Layer → String
  | entry => "[ENTRY]"
  | core => "[CORE]"
  | service => "[SERVICE]"
  | infra => "[INFRA]"
  | other => "[OTHER]"

def color : Layer → String
  | entry => "1"
  | core => "3"
  | service => "3"
  | infra => "2"
  | other => "5"

def classify (filename relPath entryFile : String) : Layer :=
  let about (words : List String) : Bool := words.any (Text.contains relPath)
  if Text.contains filename "main" || filename == entryFile then entry
  else if about ["core", "engine"] then core
  else if about ["service", "logic"] then service
  else if about ["utils", "infra", "client"] then infra
  else other

theorem mem_all (layer : Layer) : layer ∈ all := by
  cases layer <;> simp [all]

end Layer

def filenameColor (filename : String) : String :=
  if Text.contains filename "main" then "1"
  else if Text.contains filename "engine" || Text.contains filename "mgr" then "3"
  else "2"

end SourceAtlas
