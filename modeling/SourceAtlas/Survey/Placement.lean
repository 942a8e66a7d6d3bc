import SourceAtlas.Survey.Layer
set_option autoImplicit false

namespace SourceAtlas

structure Placement where
  index : Nat
  x : Int
  y : Int
deriving DecidableEq, Repr

namespace Placement

def stepX : Nat := 450

def stepY : Nat := 400

def gridColumns : Nat := 4

def inCell (index column row : Nat) : Placement :=
  ⟨index, (stepX * column : Nat), (stepY * row : Nat)⟩

def members (layers : List Layer) (layer : Layer) : List Nat :=
  (layers.zipIdx.filter fun item => item.1 == layer).map Prod.snd

def rows (layers : List Layer) : List (List Nat) :=
  (Layer.all.map (members layers)).filter fun row => !row.isEmpty

def placeRow (row : List Nat) (number : Nat) : List Placement :=
  row.zipIdx.map fun (index, column) => inCell index column number

def layered (layers : List Layer) : List Placement :=
  (rows layers).zipIdx.flatMap fun (row, number) => placeRow row number

def grid (count : Nat) : List Placement :=
  (List.range count).map fun index => inCell index (index % gridColumns) (index / gridColumns)

end Placement

end SourceAtlas
