import Mathlib.Algebra.Order.Field.Rat
import Mathlib.Data.Set.Prod
import Mathlib.Order.CompletePartialOrder
import Mathlib.Order.Interval.Set.Basic
import Mathlib.Tactic.Linarith
import SourceAtlas.Diagram.Writer
import SourceAtlas.Proofs.Number.Whole
import SourceAtlas.Proofs.Survey.Rows
import SourceAtlas.Proofs.Survey.Run
set_option autoImplicit false

/-!
# Nodes do not overlap

Places of different items differ by a whole column or by a whole row, and nodes are smaller than
these. As long as the files can be counted with 43 bits, all coordinates are whole numbers that a
node stores and that its text shows as they are.
-/

namespace SourceAtlas

namespace Number.Binary64

def toRat (x : Binary64) : ℚ :=
  (x.value : ℚ) / one

-- Powers of this size are not to be computed.
attribute [local irreducible] one limit

theorem toRat_of_whole? {x : Binary64} {i : Int} (whole : x.whole? = some i) : x.toRat = i := by
  have pos : (one : ℚ) ≠ 0 := by exact_mod_cast Nat.ne_of_gt one_pos
  rw [toRat, value_of_whole? whole, Int.cast_mul, Int.cast_natCast, mul_div_cancel_right₀ _ pos]

theorem whole?_ofNat {n : Nat} (small : n ≤ 2 ^ 53) : (ofNat n).whole? = some (n : Int) := by
  rw [ofNat_small small, whole?, if_pos ⟨Nat.mul_mod_left .., Nat.mul_le_mul_right one small⟩]
  simp [Nat.mul_div_cancel _ one_pos]

theorem whole?_ofInt {n : Nat} (small : n ≤ 2 ^ 53) : (ofInt n).whole? = some (n : Int) := by
  rw [ofInt, if_neg (by omega), Int.natAbs_natCast, whole?_ofNat small]

end Number.Binary64

namespace Node

open Number (Binary64)

def area (node : Node) : Set (ℚ × ℚ) :=
  Set.Icc node.x.toRat (node.x.toRat + node.width.toRat) ×ˢ
    Set.Icc node.y.toRat (node.y.toRat + node.height.toRat)

def measures (node : Node) : List (String × Binary64) :=
  [("x", node.x), ("y", node.y), ("width", node.width), ("height", node.height)]

theorem toJson_measures {node : Node} {key : String} {x : Binary64} {i : Int}
    (listed : (key, x) ∈ node.measures) (whole : x.whole? = some i) :
    ∃ members, node.toJson = .object members ∧ (key, .number (.integer i)) ∈ members := by
  refine ⟨_, rfl, ?_⟩
  have shown : Json.ofCoordinate x = .number (.integer i) := by rw [Json.ofCoordinate, whole]
  have written : (key, Json.ofCoordinate x) ∈
      node.measures.map fun item => (item.1, Json.ofCoordinate item.2) :=
    List.mem_map.2 ⟨_, listed, rfl⟩
  rw [shown] at written
  simp only [List.mem_append]
  exact .inl (.inl (.inr written))

end Node

namespace Placement

/-- Whether places differ by at least one column or one row. -/
def Apart (first second : Placement) : Prop :=
  (first.x + stepX ≤ second.x ∨ second.x + stepX ≤ first.x) ∨
    (first.y + stepY ≤ second.y ∨ second.y + stepY ≤ first.y)

theorem inCell_apart (first second : Nat) {column column' row row' : Nat}
    (differ : column ≠ column' ∨ row ≠ row') :
    Apart (inCell first column row) (inCell second column' row') := by
  simp only [Apart, inCell, stepX, stepY]
  omega

theorem layered_apart (layers : List Layer) : (layered layers).Pairwise Apart := by
  rw [layered, List.pairwise_flatMap]
  constructor
  · rintro ⟨row, number⟩ -
    change (placeRow row number).Pairwise Apart
    rw [placeRow, List.pairwise_map]
    apply (zipIdx_increasing row 0).imp
    intro first second before
    exact inCell_apart _ _ (.inl (by omega))
  · apply (zipIdx_increasing (rows layers) 0).imp
    rintro ⟨upper, number⟩ ⟨lower, number'⟩ before first memFirst second memSecond
    obtain ⟨⟨index, column⟩, -, rfl⟩ := List.mem_map.1 memFirst
    obtain ⟨⟨index', column'⟩, -, rfl⟩ := List.mem_map.1 memSecond
    exact inCell_apart _ _ (.inr (Nat.ne_of_lt before))

theorem grid_apart (count : Nat) : (grid count).Pairwise Apart := by
  rw [grid, List.pairwise_map]
  apply List.pairwise_lt_range.imp
  intro first second before
  apply inCell_apart
  simp only [gridColumns]
  omega

def Within (bound : Nat) (placement : Placement) : Prop :=
  ∃ column row, column ≤ bound ∧ row ≤ bound ∧ placement = inCell placement.index column row

theorem layered_within (layers : List Layer) :
    ∀ placement ∈ layered layers, placement.Within layers.length := by
  intro placement mem
  rw [layered_eq] at mem
  obtain ⟨item, -, rfl⟩ := List.mem_map.1 mem
  refine ⟨columnOf layers item, rowOf layers item.1, ?_, ?_, rfl⟩
  · calc columnOf layers item ≤ (layers.take item.2).length := List.count_le_length
      _ ≤ layers.length := List.length_take_le' _ _
  · calc rowOf layers item.1 ≤ layers.toFinset.card := Finset.card_filter_le _ _
      _ ≤ layers.length := List.toFinset_card_le layers

theorem grid_within (count : Nat) : ∀ placement ∈ grid count, placement.Within count := by
  intro placement mem
  obtain ⟨index, inside, rfl⟩ := List.mem_map.1 mem
  rw [List.mem_range] at inside
  refine ⟨index % gridColumns, index / gridColumns, ?_, ?_, rfl⟩
  · exact (Nat.mod_le ..).trans inside.le
  · exact (Nat.div_le_self ..).trans inside.le

/-- In a table of fewer than `2 ^ 43` rows and columns places are whole numbers of at most 53 bits. -/
theorem Within.whole {bound : Nat} {placement : Placement} (within : placement.Within bound)
    (few : bound < 2 ^ 43) :
    ∃ x y : Nat, x ≤ 2 ^ 53 ∧ y ≤ 2 ^ 53 ∧ placement.x = x ∧ placement.y = y := by
  obtain ⟨column, row, left, above, same⟩ := within
  refine ⟨stepX * column, stepY * row, ?_, ?_, ?_, ?_⟩
  · rw [stepX]
    omega
  · rw [stepY]
    omega
  · rw [same, inCell]
  · rw [same, inCell]

end Placement

namespace Survey

theorem places_apart (style : Style) (layers : List Layer) :
    (places style layers).Pairwise Placement.Apart := by
  cases style with
  | layered => exact Placement.layered_apart layers
  | grid => exact Placement.grid_apart layers.length

theorem places_within (style : Style) (layers : List Layer) :
    ∀ placement ∈ places style layers, placement.Within layers.length := by
  cases style with
  | layered => exact Placement.layered_within layers
  | grid => exact Placement.grid_within layers.length

open Number (Binary64)

structure StandsAt (node : Node) (placement : Placement) : Prop where
  x : node.x = Binary64.ofInt placement.x
  y : node.y = Binary64.ofInt placement.y
  width : node.width = Binary64.ofNat 350
  height : node.height = Binary64.ofNat 220

theorem nodeOf_standsAt (settings : Settings) (layer : SourceFile → Layer)
    (analysis : SourceFile → Analysis) (idOf : SourceFile → String) (placement : Placement)
    (file : SourceFile) : StandsAt (nodeOf settings layer analysis idOf placement file) placement := by
  constructor <;> simp only [nodeOf, Chart.nodeFor, Node.withColor, Node.ofText, Node.defaultWidth,
    Node.defaultHeight]

variable {node other : Node} {placement place : Placement}

theorem StandsAt.toRat (stands : StandsAt node placement) {bound : Nat} (few : bound < 2 ^ 43)
    (within : placement.Within bound) :
    node.x.toRat = placement.x ∧ node.y.toRat = placement.y := by
  obtain ⟨x, y, smallX, smallY, sameX, sameY⟩ := within.whole few
  rw [stands.x, stands.y, sameX, sameY]
  exact ⟨Binary64.toRat_of_whole? (Binary64.whole?_ofInt smallX),
    Binary64.toRat_of_whole? (Binary64.whole?_ofInt smallY)⟩

theorem StandsAt.area (stands : StandsAt node placement) {bound : Nat} (few : bound < 2 ^ 43)
    (within : placement.Within bound) : node.area =
      Set.Icc (placement.x : ℚ) (placement.x + (350 : Nat)) ×ˢ
        Set.Icc (placement.y : ℚ) (placement.y + (220 : Nat)) := by
  obtain ⟨x, y⟩ := stands.toRat few within
  have wide : node.width.toRat = (350 : Nat) := by
    rw [stands.width]
    exact Binary64.toRat_of_whole? (Binary64.whole?_ofNat (by decide))
  have high : node.height.toRat = (220 : Nat) := by
    rw [stands.height]
    exact Binary64.toRat_of_whole? (Binary64.whole?_ofNat (by decide))
  rw [Node.area, x, y, wide, high]

theorem disjoint_Icc {first second : Int} {size step : Nat} (small : size < step)
    (apart : first + step ≤ second ∨ second + step ≤ first) :
    Disjoint (Set.Icc (first : ℚ) (first + size)) (Set.Icc (second : ℚ) (second + size)) := by
  have less : (size : ℚ) < step := by exact_mod_cast small
  rw [Set.disjoint_left]
  rintro p ⟨low, high⟩ ⟨low', high'⟩
  rcases apart with before | behind
  · have gap : (first : ℚ) + step ≤ second := by exact_mod_cast before
    linarith
  · have gap : (second : ℚ) + step ≤ first := by exact_mod_cast behind
    linarith

theorem StandsAt.disjoint (stands : StandsAt node placement) (stands' : StandsAt other place)
    {bound : Nat} (few : bound < 2 ^ 43) (within : placement.Within bound)
    (within' : place.Within bound) (apart : placement.Apart place) :
    Disjoint node.area other.area := by
  rw [stands.area few within, stands'.area few within', Set.disjoint_prod]
  apply apart.imp
  · exact disjoint_Icc (by decide)
  · exact disjoint_Icc (by decide)

theorem StandsAt.written (stands : StandsAt node placement) {bound : Nat} (few : bound < 2 ^ 43)
    (within : placement.Within bound) : ∀ item ∈ node.measures, ∃ n : Nat, n ≤ 2 ^ 53 ∧
      item.2.toRat = n ∧ ∃ members, node.toJson = .object members ∧
        (item.1, .number (.integer n)) ∈ members := by
  obtain ⟨x, y, smallX, smallY, sameX, sameY⟩ := within.whole few
  have stored : ∀ item ∈ node.measures, ∃ n : Nat, n ≤ 2 ^ 53 ∧ item.2.whole? = some (n : Int) := by
    intro item listed
    simp only [Node.measures, List.mem_cons, List.not_mem_nil, or_false] at listed
    rcases listed with rfl | rfl | rfl | rfl
    · exact ⟨x, smallX, by rw [stands.x, sameX, Binary64.whole?_ofInt smallX]⟩
    · exact ⟨y, smallY, by rw [stands.y, sameY, Binary64.whole?_ofInt smallY]⟩
    · exact ⟨350, by decide, by rw [stands.width, Binary64.whole?_ofNat (by decide)]⟩
    · exact ⟨220, by decide, by rw [stands.height, Binary64.whole?_ofNat (by decide)]⟩
  intro item listed
  obtain ⟨n, small, whole⟩ := stored item listed
  refine ⟨n, small, ?_, Node.toJson_measures listed whole⟩
  rw [Binary64.toRat_of_whole? whole, Int.cast_natCast]

theorem ofSubjects_nodes_map [Python.Parser] {tree : FileTree} (settings : Settings) {root : String}
    (directory : tree.isDirectory root = true) : ∃ make : Placement → Node,
      (∀ placement, StandsAt (make placement) placement) ∧
      (ofSubjects settings (subjects tree settings root)).diagram.nodes =
        (placements settings.style (subjects tree settings root)).map make := by
  have single := FileTree.sourceFiles_nodup directory settings
  obtain ⟨idOf, drawing⟩ := draw_drawn settings settings.layerOf single
  let files := tree.sourceFiles settings root
  let make (placement : Placement) : Node :=
    nodeOf settings settings.layerOf tree.analysis idOf placement
      (files[placement.index]?.getD ⟨"", "", ""⟩)
  refine ⟨make, fun placement => nodeOf_standsAt .., ?_⟩
  rw [subjects_eq, ofSubjects_nodes (drawing tree.analysis), ← List.filterMap_eq_map]
  apply List.filterMap_congr
  intro placement mem
  have inside : placement.index < files.length := by
    have listed := (mem_order settings.style _ _).1 (List.mem_map_of_mem mem)
    rwa [subjectsOf, List.length_map] at listed
  have here : files[placement.index]? = some files[placement.index] :=
    List.getElem?_eq_getElem inside
  simp only [make, Function.comp_apply]
  rw [here]
  rfl

/-- Nodes that cover different parts of the plane and stand just where they are placed. All their
measures are whole numbers of at most 53 bits and written as integers. -/
structure IsSpread (diagram : Diagram) (placed : List Placement) : Prop where
  apart : diagram.nodes.Pairwise fun first second => Disjoint first.area second.area
  stand : (diagram.nodes.map fun node => (node.x.toRat, node.y.toRat)) =
    placed.map fun placement => ((placement.x : ℚ), (placement.y : ℚ))
  whole : ∀ node ∈ diagram.nodes, ∀ item ∈ node.measures, ∃ n : Nat, n ≤ 2 ^ 53 ∧
    item.2.toRat = n ∧ ∃ members, node.toJson = .object members ∧
      (item.1, .number (.integer n)) ∈ members

/-- A survey of fewer than `2 ^ 43` files has nodes that do not overlap and whole numbers for their
places and sizes. -/
theorem run_isSpread [Python.Parser] (tree : FileTree) (settings : Settings) (root : String)
    (valid : settings.validate = .ok ()) (directory : tree.isDirectory root = true)
    (few : (tree.sourceFiles settings root).length < 2 ^ 43) :
    ∃ survey, run tree settings root = .ok survey ∧
      IsSpread survey.diagram (placements settings.style (subjects tree settings root)) := by
  obtain ⟨make, stands, nodes⟩ := ofSubjects_nodes_map settings directory
  have within : ∀ placement ∈ placements settings.style (subjects tree settings root),
      placement.Within (tree.sourceFiles settings root).length := by
    rw [subjects_eq, placements_subjectsOf]
    have cells := places_within settings.style ((tree.sourceFiles settings root).map settings.layerOf)
    rwa [List.length_map] at cells
  have apart : (placements settings.style (subjects tree settings root)).Pairwise Placement.Apart := by
    rw [placements_eq_places]
    exact places_apart _ _
  refine ⟨_, run_ok valid directory, ?_, ?_, ?_⟩
  · rw [nodes, List.pairwise_map]
    apply apart.imp_of_mem
    intro first second memFirst memSecond gap
    exact (stands first).disjoint (stands second) few (within first memFirst) (within second memSecond)
      gap
  · rw [nodes, List.map_map]
    apply List.map_congr_left
    intro placement mem
    obtain ⟨x, y⟩ := (stands placement).toRat few (within placement mem)
    simp only [Function.comp_apply, x, y]
  · rw [nodes]
    intro node drawn
    obtain ⟨placement, mem, rfl⟩ := List.mem_map.1 drawn
    exact (stands placement).written few (within placement mem)

/-- Two files in one layer and one in another, with a layer between them that no file has. -/
theorem run_isSpread_rows :
    let tree := (((FileTree.empty.add ["p"] .directory).add ["p", "main.py"]
      (.file "import a".toUTF8)).add ["p", "a.py"] (.file "".toUTF8)).add ["p", "b.py"]
      (.file "def".toUTF8)
    (Settings.standard.validate = .ok () ∧ tree.isDirectory "p" = true ∧
      (tree.sourceFiles Settings.standard "p").length < 2 ^ 43) ∧
    ∃ survey, run tree Settings.standard "p" = .ok survey ∧ IsSpread survey.diagram
      (placements .layered (subjects tree Settings.standard "p")) := by
  intro tree
  have valid : Settings.standard.validate = .ok () := by decide +kernel
  have directory : tree.isDirectory "p" = true := by decide +kernel
  have few : (tree.sourceFiles Settings.standard "p").length < 2 ^ 43 := by decide +kernel
  exact ⟨⟨valid, directory, few⟩, run_isSpread tree _ _ valid directory few⟩

end Survey

end SourceAtlas
