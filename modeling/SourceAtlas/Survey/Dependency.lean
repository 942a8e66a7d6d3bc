import SourceAtlas.Diagram.Basic
import SourceAtlas.Survey.Layer
set_option autoImplicit false

namespace SourceAtlas

structure Target where
  modulePath : String
  nodeId : String
  layer : Layer
deriving DecidableEq, Repr

def resolvesTo (imported modulePath : String) : Bool :=
  match Text.after? modulePath.toList imported.toList with
  | some [] => true
  | some (c :: _) => c == '.'
  | none => false

def resolve (targets : List Target) (imported : String) : List Target :=
  targets.filter fun target => resolvesTo imported target.modulePath

inductive Strength
  | coreCall
  | secondary
  | normal
deriving DecidableEq, Repr

namespace Strength

def between (source target : Layer) : Strength :=
  if (source = .entry ∨ source = .core) ∧ (target = .core ∨ target = .service) then coreCall
  else if target = .other then secondary
  else normal

def label : Strength → Option String
  | coreCall => some "core-call"
  | secondary => some "secondary"
  | normal => none

def color : Strength → String
  | coreCall => "1"
  | secondary => "5"
  | normal => "0"

def apply (strength : Strength) (edge : Edge) : Edge :=
  let colored := edge.withColor strength.color
  match strength.label with
  | some label => colored.withLabel label
  | none => colored

end Strength

structure EdgeSet where
  edges : List Edge
  taken : List String

namespace EdgeSet

def empty : EdgeSet := ⟨[], []⟩

/-- The set with one more edge, if it is no loop and its id is free, and whether it is. -/
def insert (set : EdgeSet) (edge : Edge) : Bool × EdgeSet :=
  if edge.isLoop then (false, set)
  else if set.taken.contains edge.id then (false, set)
  else (true, ⟨set.edges ++ [edge], edge.id :: set.taken⟩)

def size (set : EdgeSet) : Nat :=
  set.edges.length

def isEmpty (set : EdgeSet) : Bool :=
  set.edges.isEmpty

end EdgeSet

end SourceAtlas
