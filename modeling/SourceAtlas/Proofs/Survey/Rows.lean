import Mathlib.Data.Finset.Card
import SourceAtlas.Proofs.Survey.Order
set_option autoImplicit false

namespace SourceAtlas

namespace Layer

def rank (layer : Layer) : Nat :=
  all.idxOf layer

theorem all_ranked : all.Pairwise fun upper lower => upper.rank < lower.rank := by
  decide

theorem nodup_upper {upper lower : List Layer} {layer : Layer}
    (split : upper ++ layer :: lower = all) : upper.Nodup ∧ layer ∉ upper := by
  have once : (upper ++ layer :: lower).Nodup := by
    rw [split]
    decide
  obtain ⟨apart, -, differ⟩ := List.nodup_append.1 once
  exact ⟨apart, fun mem => differ layer mem layer (List.mem_cons_self ..) rfl⟩

theorem mem_upper_iff {upper lower : List Layer} {layer : Layer}
    (split : upper ++ layer :: lower = all) (higher : Layer) :
    higher ∈ upper ↔ higher.rank < layer.rank := by
  have here : layer.rank = upper.length := by
    rw [rank, ← split, List.idxOf_append_of_notMem (nodup_upper split).2, List.idxOf_cons_self,
      Nat.add_zero]
  have before : all.take upper.length = upper := by rw [← split, List.take_left]
  rw [here, rank, ← List.mem_take_iff_idxOf_lt (mem_all higher), before]

end Layer

namespace Placement

def itemsOf (layers : List Layer) (layer : Layer) : List (Layer × Nat) :=
  layers.zipIdx.filter fun item => item.1 == layer

def columnOf (layers : List Layer) (item : Layer × Nat) : Nat :=
  (layers.take item.2).count item.1

def rowOf (layers : List Layer) (layer : Layer) : Nat :=
  (layers.toFinset.filter fun higher => higher.rank < layer.rank).card

theorem layer_of_mem_itemsOf {layers : List Layer} {layer : Layer} {item : Layer × Nat}
    (mem : item ∈ itemsOf layers layer) : item.1 = layer := by
  simpa using (List.mem_filter.1 mem).2

theorem itemsOf_concat (layers : List Layer) (last layer : Layer) :
    itemsOf (layers ++ [last]) layer =
      itemsOf layers layer ++ if last = layer then [(last, layers.length)] else [] := by
  rw [itemsOf, List.zipIdx_append, List.filter_append, ← itemsOf, List.zipIdx_singleton]
  by_cases same : last = layer <;> simp [same]

theorem length_itemsOf (layers : List Layer) (layer : Layer) :
    (itemsOf layers layer).length = layers.count layer := by
  induction layers using List.reverseRecOn with
  | nil => rfl
  | append_singleton layers last ih =>
    rw [itemsOf_concat, List.length_append, ih, List.count_append, List.count_singleton]
    by_cases same : last = layer <;> simp [same]

theorem zipIdx_itemsOf (layers : List Layer) (layer : Layer) :
    (itemsOf layers layer).zipIdx =
      (itemsOf layers layer).map fun item => (item, columnOf layers item) := by
  induction layers using List.reverseRecOn with
  | nil => rfl
  | append_singleton layers last ih =>
    -- Only what stands before an item counts, so the last one changes no column but its own.
    have earlier : ∀ item ∈ itemsOf layers layer,
        columnOf (layers ++ [last]) item = columnOf layers item := by
      intro item mem
      have bound := List.snd_lt_of_mem_zipIdx (List.mem_filter.1 mem).1
      rw [columnOf, columnOf, List.take_append_of_le_length (by omega)]
    have old : ((itemsOf layers layer).map fun item => (item, columnOf (layers ++ [last]) item)) =
        (itemsOf layers layer).zipIdx := by
      rw [ih]
      exact List.map_congr_left fun item mem => by rw [earlier item mem]
    rw [itemsOf_concat, List.zipIdx_append, List.map_append, old]
    by_cases same : last = layer
    · have new : columnOf (layers ++ [layer]) (layer, layers.length) = layers.count layer := by
        rw [columnOf, List.take_left]
      simp [same, new, length_itemsOf]
    · simp [same]

theorem placeRow_members (layers : List Layer) (layer : Layer) (number : Nat) :
    placeRow (members layers layer) number = (itemsOf layers layer).map fun item =>
      inCell item.2 (columnOf layers item) number := by
  have row : members layers layer = (itemsOf layers layer).map Prod.snd := rfl
  rw [placeRow, row, List.zipIdx_map, zipIdx_itemsOf, List.map_map, List.map_map]
  rfl

theorem members_eq_nil_iff (layers : List Layer) (layer : Layer) :
    members layers layer = [] ↔ layer ∉ layers := by
  rw [List.eq_nil_iff_forall_not_mem, List.mem_iff_getElem?]
  simp only [mem_members, not_exists]

theorem rowOf_split (layers : List Layer) {upper lower : List Layer} {layer : Layer}
    (split : upper ++ layer :: lower = Layer.all) :
    rowOf layers layer = upper.countP fun higher => layers.contains higher := by
  have same : (layers.toFinset.filter fun higher => higher.rank < layer.rank) =
      (upper.filter fun higher => layers.contains higher).toFinset := by
    ext higher
    simp [← Layer.mem_upper_iff split, and_comm]
  rw [rowOf, same, List.toFinset_card_of_nodup ((Layer.nodup_upper split).1.filter _),
    List.countP_eq_length_filter]

theorem flatMap_placeRow (layers upper : List Layer) {lower : List Layer}
    (split : upper ++ lower = Layer.all) :
    ((((lower.map (members layers)).filter fun row => !row.isEmpty).zipIdx
        (upper.countP fun higher => layers.contains higher)).flatMap
          fun row => placeRow row.1 row.2) =
      lower.flatMap fun layer => placeRow (members layers layer) (rowOf layers layer) := by
  -- The layer moves to those above it, and takes up a number just if an item has it.
  induction lower generalizing upper with
  | nil => rfl
  | cons layer lower ih =>
    have below := ih (upper ++ [layer]) (by simpa using split)
    rw [List.countP_append, List.countP_singleton] at below
    rw [List.map_cons, List.flatMap_cons, rowOf_split layers split]
    by_cases present : layer ∈ layers
    · have nonempty : members layers layer ≠ [] := by simpa [members_eq_nil_iff] using present
      rw [List.filter_cons_of_pos (by simpa using nonempty), List.zipIdx_cons, List.flatMap_cons]
      simpa [present] using below
    · have empty := (members_eq_nil_iff layers layer).2 present
      rw [empty, List.filter_cons_of_neg (by simp)]
      simpa [present, placeRow] using below

/-- Whether an item comes before another one: its layer is above, or both have one layer and its index
is smaller. -/
def Precedes (first second : Layer × Nat) : Prop :=
  first.1.rank < second.1.rank ∨ first.1 = second.1 ∧ first.2 < second.2

def sorted (layers : List Layer) : List (Layer × Nat) :=
  Layer.all.flatMap (itemsOf layers)

theorem zipIdx_increasing {α : Type} (items : List α) (first : Nat) :
    (items.zipIdx first).Pairwise fun a b => a.2 < b.2 := by
  have indices : ((items.zipIdx first).map Prod.snd).Pairwise (· < ·) := by
    rw [List.zipIdx_map_snd]
    exact List.pairwise_lt_range' 1
  exact List.pairwise_map.1 indices

theorem sorted_precedes (layers : List Layer) : (sorted layers).Pairwise Precedes := by
  rw [sorted, List.pairwise_flatMap]
  constructor
  · intro layer _
    apply ((zipIdx_increasing layers 0).filter _).imp_of_mem
    intro first second memFirst memSecond before
    exact .inr ⟨(layer_of_mem_itemsOf memFirst).trans (layer_of_mem_itemsOf memSecond).symm, before⟩
  · apply Layer.all_ranked.imp
    intro upper lower above first memFirst second memSecond
    rw [← layer_of_mem_itemsOf memFirst, ← layer_of_mem_itemsOf memSecond] at above
    exact .inl above

theorem sorted_perm (layers : List Layer) : (sorted layers).Perm layers.zipIdx := by
  have apart : (sorted layers).Nodup := (sorted_precedes layers).imp fun {first second} before same => by
    rw [same, Precedes] at before
    omega
  have apart' : layers.zipIdx.Nodup := (zipIdx_increasing layers 0).imp fun {first second} before same => by
    rw [same] at before
    omega
  apply (List.perm_ext_iff_of_nodup apart apart').2
  intro item
  simp [sorted, itemsOf, Layer.mem_all]

theorem layered_eq (layers : List Layer) :
    layered layers = (sorted layers).map fun item =>
      inCell item.2 (columnOf layers item) (rowOf layers item.1) := by
  have placed : layered layers =
      Layer.all.flatMap fun layer => placeRow (members layers layer) (rowOf layers layer) :=
    flatMap_placeRow layers [] rfl
  rw [placed, sorted, List.map_flatMap]
  congr 1
  funext layer
  rw [placeRow_members]
  apply List.map_congr_left
  intro item mem
  rw [layer_of_mem_itemsOf mem]

/-- Placing in layers takes every item once, by the ranks of the layers and within a layer by the
indices. An item stands as many columns to the right as there are items of its layer before it, and
as many rows down as there are layers above its own that any item has. -/
theorem layered_stable (layers : List Layer) : ∃ items : List (Layer × Nat),
    items.Perm layers.zipIdx ∧ items.Pairwise Precedes ∧
      layered layers = items.map fun item =>
        ⟨item.2, 450 * (layers.take item.2).count item.1,
          400 * (layers.toFinset.filter fun higher => higher.rank < item.1.rank).card⟩ := by
  refine ⟨sorted layers, sorted_perm layers, sorted_precedes layers, ?_⟩
  rw [layered_eq]
  apply List.map_congr_left
  intro item _
  rw [inCell, Int.natCast_mul, Int.natCast_mul]
  rfl

example : layered [.other, .entry, .other, .service] =
    [⟨1, 0, 0⟩, ⟨3, 0, 400⟩, ⟨0, 0, 800⟩, ⟨2, 450, 800⟩] := by
  decide

end Placement

end SourceAtlas
