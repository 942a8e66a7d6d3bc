import SourceAtlas.Diagram.File
import SourceAtlas.Proofs.Diagram.ReadBack
import SourceAtlas.Proofs.Files.Content
import SourceAtlas.Survey.Chart
set_option autoImplicit false

namespace SourceAtlas

open Json

namespace Chart

inductive Step
  | file (file : SourceFile) (layer : Layer) (responsibility : String) (x y : Int64)
  | dependency (source target : Target)

def take (chart : Chart) : Step → Chart
  | .file file layer responsibility x y =>
    (chart.addFile file layer responsibility x.toInt y.toInt).2
  | .dependency source target => (chart.addDependency source target).2

def run (style : Style) (steps : List Step) : Chart :=
  steps.foldl take (empty style)

theorem nodeFor_sound (style : Style) (id : String) (file : SourceFile) (layer : Layer)
    (responsibility : String) (x y : Int64) :
    (nodeFor style id file layer responsibility x.toInt y.toInt).Sound := by
  have plain : ∀ i : Int64, (Number.Binary64.ofInt i.toInt).plain =
      Number.Binary64.ofInt i.toInt := fun i => by
    have low := Int64.le_toInt i
    have high := Int64.toInt_lt i
    exact Number.Binary64.ofInt_plain (by omega)
  refine ⟨?_, Extras.nil Node.keys⟩
  simp only [Node.geometry, nodeFor, Node.withColor, Node.ofText, List.forall_mem_cons]
  exact ⟨plain x, plain y, Node.plain_defaultWidth, Node.plain_defaultHeight, by simp⟩

theorem edgeFor_extra (style : Style) (source target : Target) :
    (edgeFor style source target).extra = [] := by
  unfold edgeFor
  split
  · unfold Strength.apply
    split <;> rfl
  · rfl

theorem insert_edges_subset (set : EdgeSet) (edge : Edge) :
    ∀ e ∈ (set.insert edge).2.edges, e ∈ set.edges ∨ e = edge := by
  intro e mem
  unfold EdgeSet.insert at mem
  split at mem
  · exact .inl mem
  split at mem
  · exact .inl mem
  · simpa using mem

theorem take_sound {chart : Chart} (sound : chart.diagram.Sound) (step : Step) :
    (chart.take step).diagram.Sound := by
  cases step with
  | file file layer responsibility x y =>
    refine ⟨fun node mem => ?_, sound.edges⟩
    rcases List.mem_append.1 mem with old | new
    · exact sound.nodes node old
    · obtain rfl := List.mem_singleton.1 new
      exact nodeFor_sound ..
  | dependency source target =>
    refine ⟨sound.nodes, fun edge mem => ?_⟩
    rcases insert_edges_subset _ _ edge mem with old | rfl
    · exact sound.edges edge old
    · have extras := Extras.nil Edge.keys
      rwa [← edgeFor_extra chart.style source target] at extras

theorem run_sound (style : Style) (steps : List Step) : (run style steps).diagram.Sound := by
  have keeps : ∀ chart : Chart, chart.diagram.Sound → (steps.foldl take chart).diagram.Sound := by
    induction steps with
    | nil => exact fun chart sound => sound
    | cons step steps ih => exact fun chart sound => ih _ (take_sound sound step)
  exact keeps (empty style) ⟨by simp [diagram, empty], by simp [diagram, empty, EdgeSet.empty]⟩

end Chart

namespace Diagram

/-- Whether a diagram was read from a text or drawn with a chart. -/
inductive Obtained (diagram : Diagram) : Prop
  | read (text : String) (read : Diagram.read text = .ok diagram)
  | drawn (style : Style) (steps : List Chart.Step)
    (drawn : (Chart.run style steps).diagram = diagram)

theorem Obtained.sound {diagram : Diagram} (obtained : diagram.Obtained) : diagram.Sound := by
  cases obtained with
  | read text read => exact sound_of_read read
  | drawn style steps drawn => exact drawn ▸ Chart.run_sound style steps

theorem save_ok {tree after : FileTree} {path : String} {diagram : Diagram}
    (saved : save tree path diagram = (none, after)) :
    ∃ housed : FileTree, housed.writeText path diagram.write = .ok after := by
  unfold save at saved
  split at saved
  · cases saved
  next housed made =>
  cases written : housed.writeText path diagram.write with
  | error e =>
    simp only [written] at saved
    cases saved
  | ok made =>
    simp only [written] at saved
    obtain ⟨-, rfl⟩ := Prod.mk.inj saved
    exact ⟨housed, written⟩

/-- A diagram whose geometry is whole comes back from its text and from its file. Of the real numbers
among the members that mean nothing here it is assumed that they are read as they were written; of
integers it need not be. -/
theorem load_save {diagram : Diagram} (obtained : diagram.Obtained)
    (whole : diagram.WholeGeometry) (back : RealsReadBack diagram.extraNumbers) :
    Diagram.read diagram.write = .ok diagram ∧
      ∀ (tree after : FileTree) (path : String),
        save tree path diagram = (none, after) → load after path = .ok diagram := by
  have read := read_written obtained.sound whole back
  refine ⟨read, fun tree after path saved => ?_⟩
  obtain ⟨housed, written⟩ := save_ok saved
  rw [load, FileTree.readText_written written]
  simp only [ofText, read]

/-- A group without a text and an edge with one side, read from a text with the members out of
order. -/
theorem load_save_group :
    let text :=
      "\x7b\"edges\":[\x7b\"id\":\"e\",\"toSide\":\"left\",\"toNode\":\"ü\",\"fromNode\":\"ü\"\x7d]," ++
        "\"nodes\":[\x7b\"k\":[1],\"type\":\"group\",\"id\":\"ü\"\x7d]\x7d"
    let group : Node :=
      { Node.ofText "ü" "" 0 0 with
        kind := "group", extra := [("k", .array [.number (.integer 1)])] }
    let edge : Edge :=
      { Edge.link "ü" "ü" with id := "e", fromSide := none, toSide := some .left }
    let diagram : Diagram := ⟨[group], [edge]⟩
    let saved := save FileTree.empty "b" diagram
    Diagram.read text = .ok diagram ∧ diagram.WholeGeometry ∧
      RealsReadBack diagram.extraNumbers ∧ saved.1 = none ∧
      Diagram.read diagram.write = .ok diagram ∧ load saved.2 "b" = .ok diagram := by
  intro text group edge diagram saved
  have read : Diagram.read text = .ok diagram := ok_of_toOption (by decide +kernel)
  have whole : diagram.WholeGeometry := by
    unfold WholeGeometry
    decide +kernel
  have back : RealsReadBack diagram.extraNumbers := by
    have numbers : diagram.extraNumbers = [.integer 1] := rfl
    rw [numbers]
    intro x mem
    simp at mem
  have done : saved.1 = none := Option.isNone_iff_eq_none.1 (by decide +kernel)
  have same := load_save (.read text read) whole back
  exact ⟨read, whole, back, done, same.1, same.2 _ _ _ (Prod.ext done rfl)⟩

end Diagram

end SourceAtlas
