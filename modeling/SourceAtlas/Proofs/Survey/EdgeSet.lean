import Mathlib.Data.List.Induction
import SourceAtlas.Survey.Report
set_option autoImplicit false

/-!
# What an edge set keeps

Of edges that are put in one after the other an edge set keeps those that are no loops, the first one
for each id, in the order in which they came. The id of an edge is made of the ids of its ends, so a
chart keeps the dependencies that it is given as ordered pairs just when the ids of different pairs
differ; `a` to `b_c` and `a_b` to `c` have one id.
-/

namespace SourceAtlas

/-- Induction over a list of which each item in turn lets some of the items behind it through. -/
theorem sieve_induction {α : Type} (keep : α → α → Bool) {motive : List α → Prop} (nil : motive [])
    (cons : ∀ first rest, motive (rest.filter (keep first)) → motive (first :: rest))
    (items : List α) : motive items := by
  induction h : items.length using Nat.strongRecOn generalizing items with
  | _ n ih =>
    cases items with
    | nil => exact nil
    | cons first rest =>
      have short := List.length_filter_le (keep first) rest
      exact cons first rest (ih _ (by simp only [List.length_cons] at h; omega) _ rfl)

theorem eraseDupsBy_congr {α : Type} (r s : α → α → Bool) (items : List α)
    (agree : ∀ a ∈ items, ∀ b ∈ items, r a b = s a b) :
    items.eraseDupsBy r = items.eraseDupsBy s := by
  induction items using sieve_induction (fun first b => r b first = false) with
  | nil => rfl
  | cons first rest ih =>
    have same : (rest.filter fun b => r b first = false) = rest.filter fun b => s b first = false :=
      List.filter_congr fun b hb => by
        rw [agree b (List.mem_cons_of_mem _ hb) first (List.mem_cons_self ..)]
    have inner : ∀ a ∈ rest.filter fun b => r b first = false, a ∈ first :: rest :=
      fun a ha => List.mem_cons_of_mem _ (List.mem_filter.1 ha).1
    rw [List.eraseDupsBy_cons, List.eraseDupsBy_cons, ← same,
      ih fun a ha b hb => agree a (inner a ha) b (inner b hb)]

theorem eraseDupsBy_map {α β : Type} (f : α → β) (r : β → β → Bool) (items : List α) :
    (items.map f).eraseDupsBy r = (items.eraseDupsBy fun a b => r (f a) (f b)).map f := by
  induction items using sieve_induction (fun first b => r (f b) (f first) = false) with
  | nil => rfl
  | cons first rest ih =>
    rw [List.map_cons, List.eraseDupsBy_cons, List.eraseDupsBy_cons, List.map_cons, List.filter_map]
    exact congrArg (f first :: ·) ih

theorem mem_of_mem_eraseDupsBy {α : Type} {r : α → α → Bool} {items : List α} {item : α}
    (mem : item ∈ items.eraseDupsBy r) : item ∈ items := by
  induction items using sieve_induction (fun first b => r b first = false) with
  | nil => exact mem
  | cons first rest ih =>
    rw [List.eraseDupsBy_cons] at mem
    rcases List.mem_cons.1 mem with rfl | later
    · exact List.mem_cons_self ..
    · exact List.mem_cons_of_mem _ (List.mem_filter.1 (ih later)).1

theorem nodup_eraseDups {α : Type} [BEq α] [LawfulBEq α] (items : List α) :
    items.eraseDups.Nodup := by
  induction items using sieve_induction (fun first b : α => !b == first) with
  | nil => exact .nil
  | cons first rest ih =>
    rw [List.eraseDups_cons, List.nodup_cons]
    exact ⟨fun mem => by simpa using (List.mem_filter.1 (List.mem_eraseDups.1 mem)).2, ih⟩

namespace EdgeSet

def insertAll (set : EdgeSet) (edges : List Edge) : EdgeSet :=
  edges.foldl (fun set edge => (set.insert edge).2) set

theorem insert_answer (set : EdgeSet) (edge : Edge) :
    (set.insert edge).1 = true ↔ edge.isLoop = false ∧ edge.id ∉ set.taken := by
  unfold insert
  split
  · next loop => simp [loop]
  · split
    · next loop taken => simpa using fun _ => List.contains_iff_mem.1 taken
    · next loop taken => simpa [loop] using taken

theorem insert_edges (set : EdgeSet) (edge : Edge) :
    (set.insert edge).2.edges =
      if (set.insert edge).1 then set.edges ++ [edge] else set.edges := by
  unfold insert
  split
  · rfl
  · split <;> rfl

theorem insertAll_cons (set : EdgeSet) (edge : Edge) (edges : List Edge) :
    set.insertAll (edge :: edges) = (set.insert edge).2.insertAll edges := rfl

theorem insertAll_edges (set : EdgeSet) (edges : List Edge) :
    (set.insertAll edges).edges = set.edges ++
      (edges.filter fun edge => !edge.isLoop && !set.taken.contains edge.id).eraseDupsBy
        fun a b => a.id == b.id := by
  induction edges generalizing set with
  | nil => simp [insertAll]
  | cons edge edges ih =>
    rw [insertAll_cons, ih]
    unfold insert
    split
    · next loop => simp [loop]
    · next loop =>
      split
      · next taken => rw [List.filter_cons_of_neg (by simp [List.contains_iff_mem.1 taken])]
      · next free =>
        have rest : (edges.filter fun other =>
            !other.isLoop && !(edge.id :: set.taken).contains other.id) =
            (edges.filter fun other => !other.isLoop && !set.taken.contains other.id).filter
              fun other => (other.id == edge.id) = false := by
          rw [List.filter_filter]
          refine List.filter_congr fun other _ => ?_
          by_cases same : other.id = edge.id
          · simp [same]
          · simp [same]
        rw [List.filter_cons_of_pos (by simpa [loop] using free), List.eraseDupsBy_cons, ← rest,
          List.append_assoc]
        rfl

theorem mem_insertAll_taken (set : EdgeSet) (edges : List Edge) (id : String) :
    id ∈ (set.insertAll edges).taken ↔
      id ∈ set.taken ∨ ∃ edge ∈ edges, edge.isLoop = false ∧ edge.id = id := by
  induction edges generalizing set with
  | nil => simp [insertAll]
  | cons edge edges ih =>
    rw [insertAll_cons, ih]
    unfold insert
    split
    · next loop => simp [loop]
    · next loop =>
      split
      · next taken =>
        have known := List.contains_iff_mem.1 taken
        simp only [List.mem_cons, exists_eq_or_imp]
        constructor
        · rintro (old | new)
          · exact .inl old
          · exact .inr (.inr new)
        · rintro (old | ⟨_, rfl⟩ | new)
          · exact .inl old
          · exact .inl known
          · exact .inr new
      · next free =>
        have kept : edge.isLoop = false := by simpa using loop
        simp only [List.mem_cons, exists_eq_or_imp, kept, true_and]
        rw [eq_comm, or_assoc]
        exact or_left_comm

end EdgeSet

namespace Chart

@[simp] theorem edgeFor_id (style : Style) (source target : Target) :
    (edgeFor style source target).id = Edge.idBetween source.nodeId target.nodeId := by
  cases style
  · simp only [edgeFor, Strength.apply]
    split <;> rfl
  · rfl

@[simp] theorem edgeFor_fromNode (style : Style) (source target : Target) :
    (edgeFor style source target).fromNode = source.nodeId := by
  cases style
  · simp only [edgeFor, Strength.apply]
    split <;> rfl
  · rfl

@[simp] theorem edgeFor_toNode (style : Style) (source target : Target) :
    (edgeFor style source target).toNode = target.nodeId := by
  cases style
  · simp only [edgeFor, Strength.apply]
    split <;> rfl
  · rfl

@[simp] theorem edgeFor_isLoop (style : Style) (source target : Target) :
    (edgeFor style source target).isLoop = (source.nodeId == target.nodeId) := by
  simp [Edge.isLoop]

theorem addDependency_edges (chart : Chart) (source target : Target) :
    (chart.addDependency source target).2.edges =
      (chart.edges.insert (edgeFor chart.style source target)).2 := rfl

theorem addDependency_answer (chart : Chart) (source target : Target) :
    (chart.addDependency source target).1 =
      (chart.edges.insert (edgeFor chart.style source target)).1 := rfl

end Chart

namespace Survey

open Chart (edgeFor)

theorem connect_cons (chart : Chart) (dependency : Target × Target)
    (dependencies : List (Target × Target)) :
    connect chart (dependency :: dependencies) =
      connect (chart.addDependency dependency.1 dependency.2).2 dependencies := rfl

theorem connect_append (chart : Chart) (first second : List (Target × Target)) :
    connect chart (first ++ second) = connect (connect chart first) second :=
  List.foldl_append ..

theorem connect_style (chart : Chart) (dependencies : List (Target × Target)) :
    (connect chart dependencies).style = chart.style := by
  induction dependencies generalizing chart with
  | nil => rfl
  | cons dependency dependencies ih => exact ih _

theorem connect_nodes (chart : Chart) (dependencies : List (Target × Target)) :
    (connect chart dependencies).nodes = chart.nodes := by
  induction dependencies generalizing chart with
  | nil => rfl
  | cons dependency dependencies ih => exact ih _

theorem connect_edges (chart : Chart) (dependencies : List (Target × Target)) :
    (connect chart dependencies).edges =
      chart.edges.insertAll (dependencies.map fun pair => edgeFor chart.style pair.1 pair.2) := by
  induction dependencies generalizing chart with
  | nil => rfl
  | cons dependency dependencies ih =>
    rw [connect_cons, ih, List.map_cons, EdgeSet.insertAll_cons]
    rfl

def ends (dependency : Target × Target) : String × String :=
  (dependency.1.nodeId, dependency.2.nodeId)

/-- Whether a dependency leads from a node to another one. -/
def Proper (dependency : Target × Target) : Prop :=
  dependency.1.nodeId ≠ dependency.2.nodeId

def edgeId (dependency : Target × Target) : String :=
  Edge.idBetween dependency.1.nodeId dependency.2.nodeId

/-- The chart that dependencies leave, beginning without nodes and edges. -/
def charted (style : Style) (dependencies : List (Target × Target)) : Chart :=
  connect (Chart.empty style) dependencies

/-- Whether a dependency is taken in after others. -/
def accepted (style : Style) (earlier : List (Target × Target)) (call : Target × Target) : Bool :=
  ((charted style earlier).addDependency call.1 call.2).1

/-- Dependencies of which no two join different pairs under one id. -/
def Unambiguous (calls : List (Target × Target)) : Prop :=
  ∀ a ∈ calls, ∀ b ∈ calls, Proper a → Proper b → edgeId a = edgeId b → ends a = ends b

/-- What it is to keep dependencies as ordered pairs: each is taken in exactly if it is no loop and
no earlier one joins the same pair, and in the end the pairs are there in their order. -/
structure KeepsPairs (style : Style) (calls : List (Target × Target)) : Prop where
  answers : ∀ earlier call later, calls = earlier ++ call :: later →
    (accepted style earlier call = true ↔ Proper call ∧ ∀ other ∈ earlier, ends other ≠ ends call)
  pairs : ((charted style calls).diagram.edges.map fun edge => (edge.fromNode, edge.toNode)) =
    ((calls.map ends).filter fun pair => pair.1 != pair.2).eraseDups

theorem charted_taken (style : Style) (calls : List (Target × Target)) (id : String) :
    id ∈ (charted style calls).edges.taken ↔ ∃ call ∈ calls, Proper call ∧ edgeId call = id := by
  rw [charted, connect_edges, EdgeSet.mem_insertAll_taken]
  constructor
  · rintro (impossible | ⟨edge, mem, proper, rfl⟩)
    · exact absurd impossible List.not_mem_nil
    · obtain ⟨call, listed, rfl⟩ := List.mem_map.1 mem
      exact ⟨call, listed, by simpa [Proper] using proper, (Chart.edgeFor_id ..).symm⟩
  · rintro ⟨call, mem, proper, rfl⟩
    exact .inr ⟨_, List.mem_map_of_mem mem, by simpa [Proper] using proper, Chart.edgeFor_id ..⟩

theorem accepted_iff (style : Style) (earlier : List (Target × Target)) (call : Target × Target) :
    accepted style earlier call = true ↔
      Proper call ∧ ∀ other ∈ earlier, Proper other → edgeId other ≠ edgeId call := by
  rw [accepted, Chart.addDependency_answer, EdgeSet.insert_answer, Chart.edgeFor_id]
  rw [← edgeId, charted_taken]
  simp [Proper]

theorem charted_concat_edges (style : Style) (earlier : List (Target × Target))
    (call : Target × Target) :
    (charted style (earlier ++ [call])).diagram.edges =
      if accepted style earlier call then
        (charted style earlier).diagram.edges ++ [edgeFor style call.1 call.2]
      else (charted style earlier).diagram.edges := by
  have kept : (charted style earlier).style = style := connect_style ..
  have step : charted style (earlier ++ [call]) =
      ((charted style earlier).addDependency call.1 call.2).2 := connect_append ..
  rw [step]
  simp only [Chart.diagram, Chart.addDependency_edges, EdgeSet.insert_edges, kept, accepted,
    Chart.addDependency_answer]

/-- The edges of a chart that had none: no loops, and of those that share an id the first one. -/
theorem connect_diagram_edges (chart : Chart) (fresh : chart.edges = EdgeSet.empty)
    (calls : List (Target × Target)) :
    (connect chart calls).diagram.edges =
      ((calls.map fun call => edgeFor chart.style call.1 call.2).filter fun edge =>
        !edge.isLoop).eraseDupsBy fun a b => a.id == b.id := by
  rw [Chart.diagram, connect_edges, fresh, EdgeSet.insertAll_edges]
  simp [EdgeSet.empty]

theorem charted_edges (style : Style) (calls : List (Target × Target)) :
    (charted style calls).diagram.edges =
      ((calls.map fun call => edgeFor style call.1 call.2).filter fun edge =>
        !edge.isLoop).eraseDupsBy fun a b => a.id == b.id :=
  connect_diagram_edges (Chart.empty style) rfl calls

theorem edgeId_of_ends {a b : Target × Target} (same : ends a = ends b) : edgeId a = edgeId b := by
  obtain ⟨source, target⟩ := Prod.mk.inj same
  rw [edgeId, edgeId, source, target]

theorem proper_of_ends {a b : Target × Target} (same : ends a = ends b) (proper : Proper b) :
    Proper a := by
  obtain ⟨source, target⟩ := Prod.mk.inj same
  rw [Proper, source, target]
  exact proper

theorem unambiguous_concat (style : Style) (calls : List (Target × Target)) (call : Target × Target)
    (before : Unambiguous calls)
    (answer : accepted style calls call = true ↔
      Proper call ∧ ∀ other ∈ calls, ends other ≠ ends call)
    (other : Target × Target) (mem : other ∈ calls) (proper : Proper other) (last : Proper call)
    (same : edgeId other = edgeId call) : ends other = ends call := by
  by_contra apart
  have refused : ¬ accepted style calls call = true := fun taken =>
    ((accepted_iff style calls call).1 taken).2 other mem proper same
  have known : ∃ twin ∈ calls, ends twin = ends call := by
    by_contra none
    exact refused (answer.2 ⟨last, fun twin hm he => none ⟨twin, hm, he⟩⟩)
  obtain ⟨twin, hm, he⟩ := known
  have ids : edgeId other = edgeId twin := same.trans (edgeId_of_ends he).symm
  exact apart ((before other mem twin hm proper (proper_of_ends he last) ids).trans he)

theorem unambiguous_of_answers (style : Style) (calls : List (Target × Target))
    (answers : ∀ earlier call later, calls = earlier ++ call :: later →
      (accepted style earlier call = true ↔
        Proper call ∧ ∀ other ∈ earlier, ends other ≠ ends call)) : Unambiguous calls := by
  induction calls using List.reverseRecOn with
  | nil => exact fun a ha => absurd ha List.not_mem_nil
  | append_singleton calls call ih =>
    have before := ih fun earlier first later split =>
      answers earlier first (later ++ [call]) (by rw [split, List.append_assoc]; rfl)
    have step := unambiguous_concat style calls call before (answers calls call [] rfl)
    intro a ha b hb pa pb same
    rcases List.mem_append.1 ha with oldA | newA <;> rcases List.mem_append.1 hb with oldB | newB
    · exact before a oldA b oldB pa pb same
    · rw [List.mem_singleton.1 newB] at pb same ⊢
      exact step a oldA pa pb same
    · rw [List.mem_singleton.1 newA] at pa same ⊢
      exact (step b oldB pb pa same.symm).symm
    · rw [List.mem_singleton.1 newA, List.mem_singleton.1 newB]

theorem answers_of_unambiguous (style : Style) (calls : List (Target × Target))
    (clear : Unambiguous calls) (earlier : List (Target × Target)) (call : Target × Target)
    (later : List (Target × Target)) (split : calls = earlier ++ call :: later) :
    accepted style earlier call = true ↔
      Proper call ∧ ∀ other ∈ earlier, ends other ≠ ends call := by
  rw [accepted_iff]
  refine and_congr_right fun proper => ?_
  constructor
  · intro fresh other mem same
    exact fresh other mem (proper_of_ends same proper) (edgeId_of_ends same)
  · intro fresh other mem properOther same
    have inOther : other ∈ calls := by rw [split]; exact List.mem_append_left _ mem
    have inCall : call ∈ calls := by rw [split]; simp
    exact fresh other mem (clear other inOther call inCall properOther proper same)

theorem pairs_of_unambiguous (style : Style) (calls : List (Target × Target))
    (clear : Unambiguous calls) :
    ((charted style calls).diagram.edges.map fun edge => (edge.fromNode, edge.toNode)) =
      ((calls.map ends).filter fun pair => pair.1 != pair.2).eraseDups := by
  have agree : ∀ a ∈ calls.filter fun call => (ends call).1 != (ends call).2,
      ∀ b ∈ calls.filter fun call => (ends call).1 != (ends call).2,
      (edgeId a == edgeId b) = (ends a == ends b) := by
    intro a ha b hb
    obtain ⟨ha, pa⟩ := List.mem_filter.1 ha
    obtain ⟨hb, pb⟩ := List.mem_filter.1 hb
    rw [Bool.eq_iff_iff, beq_iff_eq, beq_iff_eq]
    exact ⟨clear a ha b hb (by simpa [Proper, ends] using pa)
      (by simpa [Proper, ends] using pb), edgeId_of_ends⟩
  rw [charted_edges, List.filter_map, eraseDupsBy_map, List.map_map, List.eraseDups,
    List.filter_map, eraseDupsBy_map]
  simp only [Function.comp_def, Chart.edgeFor_isLoop, Chart.edgeFor_id, Chart.edgeFor_fromNode,
    Chart.edgeFor_toNode]
  exact congrArg (List.map ends) (eraseDupsBy_congr _ _ _ agree)

theorem keepsPairs_iff (style : Style) (calls : List (Target × Target)) :
    KeepsPairs style calls ↔ Unambiguous calls :=
  ⟨fun keeps => unambiguous_of_answers style calls keeps.answers,
    fun clear => ⟨answers_of_unambiguous style calls clear, pairs_of_unambiguous style calls clear⟩⟩

/-- Every dependency is answered by the ids of the ones before it, an edge is added just when the
answer is yes, and pairs are kept exactly where no two different ones share an id. -/
theorem dependencies_kept (style : Style) (calls : List (Target × Target)) :
    (∀ earlier call later, calls = earlier ++ call :: later →
      (accepted style earlier call = true ↔
        Proper call ∧ ∀ other ∈ earlier, Proper other → edgeId other ≠ edgeId call) ∧
      (charted style (earlier ++ [call])).diagram.edges =
        if accepted style earlier call then
          (charted style earlier).diagram.edges ++ [edgeFor style call.1 call.2]
        else (charted style earlier).diagram.edges) ∧
    (KeepsPairs style calls ↔ Unambiguous calls) :=
  ⟨fun earlier call _ _ => ⟨accepted_iff style earlier call, charted_concat_edges style earlier call⟩,
    keepsPairs_iff style calls⟩

/-- Two dependencies between four nodes of which only the first one gets its edge. -/
theorem underscores_confuse_pairs :
    let call (source target : String) : Target × Target :=
      (⟨source, source, .other⟩, ⟨target, target, .other⟩)
    ¬ KeepsPairs .grid [call "a" "b_c", call "a_b" "c"] := by
  intro call keeps
  have clear := (keepsPairs_iff _ _).1 keeps
  have same := clear (call "a" "b_c") (by simp) (call "a_b" "c") (by simp) (by simp [Proper, call])
    (by simp [Proper, call]) (by decide)
  simp [ends, call] at same

end Survey

end SourceAtlas
