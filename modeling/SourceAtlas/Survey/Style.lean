set_option autoImplicit false

namespace SourceAtlas

inductive Style
  /-- A row for every layer, with tags, and edges that show their weight. -/
  | layered
  /-- A grid of files with plain edges. -/
  | grid
deriving DecidableEq, Repr

namespace Style

def name : Style → String
  | layered => "layered"
  | grid => "grid"

def title : Style → String
  | layered => "Layered"
  | grid => "Grid"

def ofName? (name : String) : Option Style :=
  if name = layered.name then some layered else if name = grid.name then some grid else none

/-- The style that a user calls by a name in any case. No letter beyond ASCII has one of the letters
of these names as its small form. -/
def ofUserName? (name : String) : Option Style :=
  match name.toLower with
  | "layered" => some layered
  | "layers" => some layered
  | "grid" => some grid
  | _ => none

end Style

end SourceAtlas
