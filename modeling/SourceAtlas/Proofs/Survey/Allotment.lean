import SourceAtlas.Proofs.Diagram.Saved
import SourceAtlas.Proofs.Survey.EdgeSet
import SourceAtlas.Proofs.Survey.NodeId
set_option autoImplicit false

/-!
# Ids in a chart that grows

Whatever files and dependencies a chart takes, and in whatever order, it only appends. Every file gets
the id of its path or, if an earlier node has that, its numbered form with the least number that is
free; so no two nodes ever have the same id. The search for the number ends without a bound that is
set from outside.
-/

namespace SourceAtlas

/-- The search for an id, with no bound: an id that is taken gives way to the numbered form of the
base, and the number goes up by one. It relates an id at hand and the next number to the id with which
the search ends. -/
inductive Search (taken : List String) (base : String) : String → Nat → String → Prop
  | stop {id : String} {number : Nat} (free : id ∉ taken) : Search taken base id number id
  | next {id last : String} {number : Nat} (known : id ∈ taken)
    (rest : Search taken base (numbered base number) (number + 1) last) :
    Search taken base id number last

/-- The id that a base is given while others are taken: itself if it is free, and else its numbered
form with the least free number from two on. There are at least as many taken ids as that number has
predecessors. -/
inductive Allotted (taken : List String) (base : String) : String → Prop
  | plain (free : base ∉ taken) : Allotted taken base base
  | numbered {number : Nat} (known : base ∈ taken) (first : 2 ≤ number)
    (free : numbered base number ∉ taken)
    (least : ∀ n, 2 ≤ n → n < number → numbered base n ∈ taken) (few : number ≤ taken.length + 1) :
    Allotted taken base (numbered base number)

variable {taken : List String} {base id : String}

theorem freeId_allotted (taken : List String) (base : String) :
    Allotted taken base (freeId taken base) := by
  obtain ⟨free, same⟩ | ⟨known, number, first, same, free, least⟩ := freeId_spec taken base
  · rw [same]
    exact .plain free
  · rw [same]
    have passed := lt_length_of_taken known (number - 2) fun n low high => least n low (by omega)
    exact .numbered known first free least (by omega)

theorem Allotted.not_mem (allotted : Allotted taken base id) : id ∉ taken := by
  cases allotted with
  | plain free => exact free
  | numbered known first free least few => exact free

/-- From a number on, all of whose numbered forms up to a free one are taken, the search comes to that
one. -/
theorem search_numbered {first last : Nat} (order : first ≤ last)
    (free : numbered base last ∉ taken)
    (passed : ∀ n, first ≤ n → n < last → numbered base n ∈ taken) :
    Search taken base (numbered base first) (first + 1) (numbered base last) := by
  induction order using Nat.decreasingInduction with
  | self => exact .stop free
  | of_succ n below ih =>
    have known := passed n (Nat.le_refl n) below
    exact .next known (ih fun m low high => passed m (Nat.le_of_succ_le low) high)

theorem Allotted.search (allotted : Allotted taken base id) : Search taken base base 2 id := by
  cases allotted with
  | plain free => exact .stop free
  | numbered known first free least few => exact .next known (search_numbered first free least)

theorem Search.unique {other : String} {number : Nat} {current : String}
    (search : Search taken base current number id) (again : Search taken base current number other) :
    other = id := by
  induction search with
  | stop free =>
    cases again with
    | stop _ => rfl
    | next known _ => exact absurd known free
  | next known _ ih =>
    cases again with
    | stop free => exact absurd known free
    | next _ rest => exact ih rest

namespace Chart

/-- What a step does to a chart: a file adds one node at the end, with the id that is allotted to its
path, and is answered with it; a dependency adds no node and at most edges at the end. -/
def Extends (before : Chart) (step : Step) (after : Chart) : Prop :=
  match step with
  | .file file layer responsibility x y =>
    after.edges = before.edges ∧ ∃ node,
      after.nodes = before.nodes ++ [node] ∧
      (before.addFile file layer responsibility x.toInt y.toInt).1 = node ∧
      Allotted before.ids file.nodeId node.id ∧
      ∀ last, Search before.ids file.nodeId file.nodeId 2 last ↔ last = node.id
  | .dependency _ _ =>
    after.nodes = before.nodes ∧ before.edges.edges <+: after.edges.edges

theorem take_extends {chart : Chart} (inStep : chart.InStep) (step : Step) :
    chart.Extends step (chart.take step) := by
  cases step with
  | file file layer responsibility x y =>
    have allotted := freeId_allotted chart.ids file.nodeId
    rw [← inStep.freeId_eq] at allotted
    refine ⟨rfl, _, rfl, rfl, allotted, fun last => ⟨fun search => ?_, ?_⟩⟩
    · exact allotted.search.unique search
    · rintro rfl
      exact allotted.search
  | dependency source target =>
    refine ⟨rfl, ?_⟩
    have added := EdgeSet.insert_edges chart.edges (edgeFor chart.style source target)
    rw [take, addDependency_edges, added]
    split
    · exact List.prefix_append _ _
    · exact List.prefix_rfl

theorem InStep.take {chart : Chart} (inStep : chart.InStep) (step : Step) :
    (chart.take step).InStep := by
  cases step with
  | file file layer responsibility x y => exact inStep.addFile ..
  | dependency source target => exact inStep

theorem Extends.grows {before after : Chart} {step : Step} (done : before.Extends step after) :
    before.nodes <+: after.nodes ∧ before.edges.edges <+: after.edges.edges := by
  cases step with
  | file file layer responsibility x y =>
    obtain ⟨edges, node, nodes, -⟩ := done
    rw [nodes, edges]
    exact ⟨List.prefix_append _ _, List.prefix_rfl⟩
  | dependency source target =>
    rw [done.1]
    exact ⟨List.prefix_rfl, done.2⟩

theorem Extends.nodup {before after : Chart} {step : Step} (done : before.Extends step after)
    (distinct : before.ids.Nodup) : after.ids.Nodup := by
  cases step with
  | file file layer responsibility x y =>
    obtain ⟨-, node, nodes, -, allotted, -⟩ := done
    rw [ids, nodes, List.map_append, List.map_singleton, ← List.concat_eq_append]
    exact distinct.concat allotted.not_mem
  | dependency source target =>
    rw [ids, done.1]
    exact distinct

theorem run_concat (style : Style) (steps : List Step) (step : Step) :
    run style (steps ++ [step]) = (run style steps).take step := by
  rw [run, List.foldl_append]
  rfl

theorem run_inStep (style : Style) (steps : List Step) : (run style steps).InStep := by
  induction steps using List.reverseRecOn with
  | nil => exact empty_inStep style
  | append_singleton steps step ih =>
    rw [run_concat]
    exact ih.take step

theorem run_grows (style : Style) (earlier later : List Step) :
    (run style earlier).nodes <+: (run style (earlier ++ later)).nodes ∧
      (run style earlier).edges.edges <+: (run style (earlier ++ later)).edges.edges := by
  induction later using List.reverseRecOn with
  | nil =>
    rw [List.append_nil]
    exact ⟨List.prefix_rfl, List.prefix_rfl⟩
  | append_singleton later step ih =>
    have one := (take_extends (run_inStep style (earlier ++ later)) step).grows
    rw [← run_concat, List.append_assoc] at one
    exact ⟨ih.1.trans one.1, ih.2.trans one.2⟩

theorem run_nodup (style : Style) (steps : List Step) : (run style steps).ids.Nodup := by
  induction steps using List.reverseRecOn with
  | nil => exact .nil
  | append_singleton steps step ih =>
    rw [run_concat]
    exact (take_extends (run_inStep style steps) step).nodup ih

/-- In every run the taken ids are those of the nodes and different, each step extends the chart that
the steps before it have left, and what it has made is still there at the end. -/
theorem run_allots (style : Style) :
    (∀ steps, (run style steps).InStep ∧ (run style steps).ids.Nodup) ∧
    ∀ earlier step later,
      (run style earlier).Extends step (run style (earlier ++ [step])) ∧
      (run style (earlier ++ [step])).nodes <+: (run style (earlier ++ step :: later)).nodes ∧
      (run style (earlier ++ [step])).edges.edges <+:
        (run style (earlier ++ step :: later)).edges.edges := by
  refine ⟨fun steps => ⟨run_inStep style steps, run_nodup style steps⟩,
    fun earlier step later => ⟨?_, ?_⟩⟩
  · rw [run_concat]
    exact take_extends (run_inStep style earlier) step
  · have grows := run_grows style (earlier ++ [step]) later
    rwa [List.append_assoc, List.singleton_append] at grows

/-- The numbered form of one path can be the path of a later file. -/
example :
    let file (relPath : String) : Step := .file ⟨relPath, relPath, relPath⟩ .other "" 0 0
    (run .grid [file "a/b", file "a_b", file "a_b~2", file "a_b"]).ids =
      ["a_b", "a_b~2", "a_b~2~2", "a_b~3"] := by
  decide +kernel

end Chart

end SourceAtlas
