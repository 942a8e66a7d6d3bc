set_option autoImplicit false

/-!
# TOML values and how tables grow

A document builds its tables bit by bit, and how a table came about decides what may still be added
to it. Numbers and dates are only known to be such: nothing that reads a document needs them.
-/

namespace SourceAtlas

inductive Toml.Origin
  /-- Between braces; it is complete. -/
  | inline
  /-- By a header of its own. -/
  | header
  /-- By the header of a table inside it. -/
  | implied
  /-- By a dotted key. -/
  | dotted
deriving DecidableEq, Repr

inductive Toml
  | string (value : String)
  | number
  | bool (value : Bool)
  | date
  | array (items : List Toml)
  | table (origin : Toml.Origin) (members : List (String × Toml))
  /-- Tables with one header in double brackets each; the members of the last one stand first. -/
  | tables (items : List (List (String × Toml)))

namespace Toml

structure Open where
  origin : Origin
  members : List (String × Toml)

def get? (key : String) (members : List (String × Toml)) : Option Toml :=
  (members.find? fun m => m.1 == key).map Prod.snd

def set (key : String) (value : Toml) (members : List (String × Toml)) : List (String × Toml) :=
  (key, value) :: members.filter fun m => m.1 != key

def Origin.openToHeaders : Origin → Bool
  | inline => false
  | _ => true

def Origin.openToKeys : Origin → Bool
  | implied => true
  | dotted => true
  | _ => false

inductive Way
  | header
  | key
deriving DecidableEq

def Way.passes (way : Way) (origin : Origin) : Bool :=
  match way with
  | header => origin.openToHeaders
  | key => origin.openToKeys

def Way.creates : Way → Origin
  | header => .implied
  | key => .dotted

/-- Changes the table that a way leads to; tables that are not there are made. -/
def descend (way : Way) (change : Open → Option Open) :
    List String → Open → Option Open
  | [], current => change current
  | key :: keys, current =>
    match get? key current.members with
    | none => do
      let child ← descend way change keys ⟨way.creates, []⟩
      return { current with members := set key (.table child.origin child.members) current.members }
    | some (.table origin members) =>
      if way.passes origin then do
        let child ← descend way change keys ⟨origin, members⟩
        return { current with members := set key (.table child.origin child.members) current.members }
      else none
    | some (.tables (last :: others)) => do
      let child ← descend way change keys ⟨.header, last⟩
      return { current with members := set key (.tables (child.members :: others)) current.members }
    | some _ => none

/-- A table with one more member. A dotted key may only add to tables that dotted keys have made. -/
def insert (keys : List String) (key : String) (value : Toml) (current : Open) : Option Open :=
  descend .key (fun current =>
    if decide (current.origin = .dotted) = keys.isEmpty then none
    else if (get? key current.members).isSome then none
    else some { current with members := set key value current.members }) keys current

def openTable (keys : List String) (key : String) (document : Open) : Option Open :=
  descend .header (fun current =>
    match get? key current.members with
    | none => some { current with members := set key (.table .header []) current.members }
    | some (.table .implied members) =>
      some { current with members := set key (.table .header members) current.members }
    | some _ => none) keys document

/-- The document with one more of the tables with a header in double brackets. -/
def openNextTable (keys : List String) (key : String) (document : Open) : Option Open :=
  descend .header (fun current =>
    match get? key current.members with
    | none => some { current with members := set key (.tables [[]]) current.members }
    | some (.tables items) =>
      some { current with members := set key (.tables ([] :: items)) current.members }
    | some _ => none) keys document

end Toml

end SourceAtlas
