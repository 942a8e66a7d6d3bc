import Mathlib.Data.List.Nodup
import SourceAtlas.Survey.Report
set_option autoImplicit false

namespace SourceAtlas

namespace Placement

theorem mem_members (layers : List Layer) (layer : Layer) (index : Nat) :
    index ∈ members layers layer ↔ layers[index]? = some layer := by
  simp only [members, List.mem_map, List.mem_filter, Prod.exists, beq_iff_eq,
    List.mk_mem_zipIdx_iff_getElem?]
  constructor
  · rintro ⟨found, _, ⟨stands, rfl⟩, rfl⟩
    exact stands
  · intro stands
    exact ⟨layer, index, ⟨stands, rfl⟩, rfl⟩

theorem nodup_members (layers : List Layer) (layer : Layer) : (members layers layer).Nodup := by
  have indices : ((layers.zipIdx).map Prod.snd).Nodup := by
    rw [List.zipIdx_map_snd]
    exact List.nodup_range' ..
  exact List.Nodup.sublist ((List.filter_sublist ..).map _) indices

theorem map_index_placeRow (row : List Nat) (number : Nat) :
    (placeRow row number).map Placement.index = row := by
  simp [placeRow, inCell, Function.comp_def]

theorem flatMap_zipIdx_fst {α β : Type} (f : α → List β) (items : List α) (first : Nat) :
    ((items.zipIdx first).flatMap fun item => f item.1) = items.flatMap f := by
  induction items generalizing first with
  | nil => rfl
  | cons item items ih => simp [ih]

theorem map_index_layered (layers : List Layer) :
    (layered layers).map Placement.index = Layer.all.flatMap (members layers) := by
  rw [layered, List.map_flatMap]
  simp only [map_index_placeRow]
  rw [flatMap_zipIdx_fst (fun row => row), rows]
  induction Layer.all with
  | nil => rfl
  | cons layer rest ih =>
    rw [List.map_cons, List.flatMap_cons]
    cases h : members layers layer with
    | nil => simpa using ih
    | cons index others => simpa using ih

theorem nodup_layered (layers : List Layer) : ((layered layers).map Placement.index).Nodup := by
  rw [map_index_layered, List.nodup_flatMap]
  refine ⟨fun layer _ => nodup_members layers layer, ?_⟩
  have distinct : Layer.all.Nodup := by decide
  refine distinct.imp fun {first second} apart => ?_
  intro index inFirst inSecond
  rw [mem_members] at inFirst inSecond
  exact apart (Option.some.inj (inFirst.symm.trans inSecond))

theorem mem_layered (layers : List Layer) (index : Nat) :
    index ∈ (layered layers).map Placement.index ↔ index < layers.length := by
  rw [map_index_layered, List.mem_flatMap]
  simp only [mem_members, Layer.mem_all, true_and]
  constructor
  · rintro ⟨layer, found⟩
    exact (List.getElem?_eq_some_iff.1 found).choose
  · intro bound
    exact ⟨layers[index], List.getElem?_eq_getElem bound⟩

theorem map_index_grid (count : Nat) : (grid count).map Placement.index = List.range count := by
  simp [grid, inCell, Function.comp_def]

end Placement

namespace Survey

def places (style : Style) (layers : List Layer) : List Placement :=
  match style with
  | .layered => Placement.layered layers
  | .grid => Placement.grid layers.length

theorem placements_eq_places (style : Style) (subjects : List Subject) :
    placements style subjects = places style (subjects.map Subject.layer) := by
  cases style with
  | layered => rfl
  | grid => rw [placements, places, List.length_map]

theorem nodup_places (style : Style) (layers : List Layer) :
    ((places style layers).map Placement.index).Nodup := by
  cases style with
  | layered => exact Placement.nodup_layered _
  | grid =>
    rw [places, Placement.map_index_grid]
    exact List.nodup_range

theorem mem_places (style : Style) (layers : List Layer) (index : Nat) :
    index ∈ (places style layers).map Placement.index ↔ index < layers.length := by
  cases style with
  | layered => exact Placement.mem_layered _ _
  | grid => rw [places, Placement.map_index_grid, List.mem_range]

/-- The indices of subjects in the order in which they are drawn. -/
def order (style : Style) (subjects : List Subject) : List Nat :=
  (placements style subjects).map Placement.index

theorem nodup_order (style : Style) (subjects : List Subject) : (order style subjects).Nodup := by
  rw [order, placements_eq_places]
  exact nodup_places _ _

theorem mem_order (style : Style) (subjects : List Subject) (index : Nat) :
    index ∈ order style subjects ↔ index < subjects.length := by
  rw [order, placements_eq_places, mem_places, List.length_map]

theorem order_perm (style : Style) (subjects : List Subject) :
    (order style subjects).Perm (List.range subjects.length) := by
  refine (List.perm_ext_iff_of_nodup (nodup_order style subjects) List.nodup_range).2 fun index => ?_
  rw [mem_order, List.mem_range]

end Survey

end SourceAtlas
