import SourceAtlas.Files.Path
import SourceAtlas.Files.Tree
set_option autoImplicit false

/-!
# Where a path leads

A path is followed name by name from the root or from the directory where relative paths begin. A
link on the way puts its target in its place; at most 40 links are followed. What the last name may
be depends on what the path is looked up for.
-/

namespace SourceAtlas

inductive Purpose
  /-- To look at what stands there. -/
  | view
  /-- To look at what stands there, even if it is a link. -/
  | inspect
  /-- To write a file, which may be new. -/
  | write
  /-- To make a directory. -/
  | make
deriving DecidableEq, Repr

def Purpose.follows (purpose : Purpose) (slash : Bool) : Bool :=
  match purpose with
  | view => true
  | inspect => slash
  | write => true
  | make => false

/-- What a path leads to: an entry, or a name that a directory does not have yet. -/
inductive Spot
  | taken (location : Location) (entry : Entry)
  | vacant (location : Location)
deriving DecidableEq

namespace FileTree

def linkLimit : Nat := 40

def pathLimit : Nat := 4096

/-- What the last name leads to. A slash behind it asks for a directory. -/
def arrive (slash : Bool) (purpose : Purpose) (location : Location) (found : Option Entry) :
    Except FileError Spot :=
  match found with
  | none => .ok (.vacant location)
  | some (.file contents) =>
    if slash ∧ purpose ≠ .make then .error .notDirectory
    else .ok (.taken location (.file contents))
  | some entry => .ok (.taken location entry)

/-- Follows names from a directory; `jump` goes on from a link with the names of its target. -/
def stride (tree : FileTree) (purpose : Purpose)
    (jump : Bool → Location → List String → Except FileError Spot) (slash : Bool) :
    Location → List String → Except FileError Spot
  | location, [] => .ok (.taken location .directory)
  | location, "." :: names => stride tree purpose jump slash location names
  | location, ".." :: names => stride tree purpose jump slash location.dropLast names
  | location, name :: names =>
    let next := location ++ [name]
    if names = [] ∧ slash ∧ purpose = .write then .error .isDirectory
    else if nameLimit < name.utf8ByteSize then .error .nameTooLong
    else match tree.entry? next with
      | some .directory => stride tree purpose jump slash next names
      | some (.link target) =>
        if names = [] ∧ !purpose.follows slash then .ok (.taken next (.link target))
        else if target = "" then .error .notFound
        else
          let start := if Path.isAbsolute target then [] else location
          jump (slash || (names.isEmpty && Path.endsInSlash target)) start
            (Path.names target ++ names)
      | found =>
        if names = [] then arrive slash purpose next found
        else if found.isSome then .error .notDirectory
        else .error .notFound

def walk (tree : FileTree) (purpose : Purpose) :
    Nat → Bool → Location → List String → Except FileError Spot
  | 0 => stride tree purpose fun _ _ _ => .error .tooManyLinks
  | links + 1 => stride tree purpose (walk tree purpose links)

def locate (tree : FileTree) (purpose : Purpose) (path : String) : Except FileError Spot :=
  if path.toList.contains '\x00' then .error .nulInPath
  else if path = "" then .error .notFound
  else if pathLimit ≤ path.utf8ByteSize then .error .nameTooLong
  else
    let start := if Path.isAbsolute path then [] else tree.here
    tree.walk purpose linkLimit (Path.endsInSlash path) start (Path.names path)

end FileTree

end SourceAtlas
