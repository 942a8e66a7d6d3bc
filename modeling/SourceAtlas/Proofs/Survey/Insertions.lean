import SourceAtlas.Proofs.Survey.EdgeSet
set_option autoImplicit false

namespace SourceAtlas.EdgeSet

def comesFirst (earlier : List Edge) (edge : Edge) : Bool :=
  !edge.isLoop && earlier.all fun other => other.isLoop || other.id != edge.id

def firsts (edges : List Edge) : List Edge :=
  (edges.zipIdx.filter fun entry => comesFirst (edges.take entry.2) entry.1).map Prod.fst

/-- The ids that are taken are those of the edges, and no two edges share one. -/
structure InStep (set : EdgeSet) : Prop where
  mem_taken_iff : ∀ id, id ∈ set.taken ↔ ∃ edge ∈ set.edges, edge.id = id
  taken_nodup : set.taken.Nodup
  ids_nodup : (set.edges.map Edge.id).Nodup

theorem comesFirst_iff (earlier : List Edge) (edge : Edge) :
    comesFirst earlier edge = true ↔
      edge.isLoop = false ∧ ∀ other ∈ earlier, other.isLoop = false → other.id ≠ edge.id := by
  simp [comesFirst, Bool.or_eq_true, or_iff_not_imp_left]

theorem firsts_concat (earlier : List Edge) (edge : Edge) :
    firsts (earlier ++ [edge]) =
      if comesFirst earlier edge then firsts earlier ++ [edge] else firsts earlier := by
  -- The edges before an earlier place are the same with and without the last edge.
  have before : (earlier.zipIdx.filter fun entry =>
      comesFirst ((earlier ++ [edge]).take entry.2) entry.1) =
      earlier.zipIdx.filter fun entry => comesFirst (earlier.take entry.2) entry.1 := by
    refine List.filter_congr fun entry listed => ?_
    have inside := List.snd_lt_of_mem_zipIdx listed
    rw [Nat.add_zero] at inside
    rw [List.take_append_of_le_length (Nat.le_of_lt inside)]
  rw [firsts, List.zipIdx_append, List.filter_append, List.map_append, before, ← firsts]
  by_cases first : comesFirst earlier edge = true <;> simp [first]

section Insertion

variable {set : EdgeSet} {edge : Edge}

theorem insert_loop (loop : edge.isLoop = true) : set.insert edge = (false, set) :=
  if_pos loop

theorem insert_refused (refused : (set.insert edge).1 = false) : (set.insert edge).2 = set := by
  unfold insert at refused ⊢
  split
  · rfl
  · next proper =>
    split
    · rfl
    · next free =>
      rw [if_neg proper, if_neg free] at refused
      cases refused

theorem insert_accepted (accepted : (set.insert edge).1 = true) :
    (set.insert edge).2 = ⟨set.edges ++ [edge], edge.id :: set.taken⟩ := by
  obtain ⟨proper, free⟩ := (insert_answer set edge).1 accepted
  have absent : ¬ set.taken.contains edge.id = true := fun held => free (List.contains_iff_mem.1 held)
  rw [insert, if_neg (Bool.eq_false_iff.1 proper), if_neg absent]

theorem insert_appends_iff : (set.insert edge).1 = true ↔
    (set.insert edge).2.edges = set.edges ++ [edge] := by
  cases answer : (set.insert edge).1 with
  | true => simp [insert_accepted answer]
  | false => simp [insert_refused answer]

theorem InStep.insert (inStep : set.InStep) (edge : Edge) : (set.insert edge).2.InStep := by
  cases answer : (set.insert edge).1 with
  | false => rwa [insert_refused answer]
  | true =>
    have fresh := ((insert_answer set edge).1 answer).2
    rw [insert_accepted answer]
    refine ⟨fun id => ?_, List.nodup_cons.2 ⟨fresh, inStep.taken_nodup⟩, ?_⟩
    · rw [List.mem_cons, inStep.mem_taken_iff]
      simp [or_and_right, exists_or, or_comm, eq_comm]
    · have apart : edge.id ∉ set.edges.map Edge.id := fun held =>
        fresh ((inStep.mem_taken_iff edge.id).2 (List.mem_map.1 held))
      rw [List.map_append, List.map_singleton, List.nodup_append]
      refine ⟨inStep.ids_nodup, List.pairwise_singleton .., fun id listed other here => ?_⟩
      rw [List.mem_singleton.1 here]
      exact fun same => apart (same ▸ listed)

end Insertion

theorem inStep_empty : empty.InStep :=
  ⟨fun _ => by simp [empty], List.nodup_nil, List.nodup_nil⟩

theorem InStep.insertAll {set : EdgeSet} (inStep : set.InStep) (edges : List Edge) :
    (set.insertAll edges).InStep := by
  induction edges generalizing set with
  | nil => exact inStep
  | cons edge edges ih => exact ih (inStep.insert edge)

theorem insertAll_concat (set : EdgeSet) (edges : List Edge) (edge : Edge) :
    set.insertAll (edges ++ [edge]) = ((set.insertAll edges).insert edge).2 :=
  List.foldl_append ..

theorem insertAll_without_loops (set : EdgeSet) (edges : List Edge) :
    set.insertAll (edges.filter fun edge => !edge.isLoop) = set.insertAll edges := by
  induction edges generalizing set with
  | nil => rfl
  | cons edge edges ih =>
    by_cases loop : edge.isLoop = true
    · rw [List.filter_cons_of_neg (by simp [loop]), ih, insertAll_cons, insert_loop loop]
    · rw [List.filter_cons_of_pos (by simp [loop]), insertAll_cons, ih, insertAll_cons]

theorem insert_answer_first (earlier : List Edge) (edge : Edge) :
    ((empty.insertAll earlier).insert edge).1 = comesFirst earlier edge := by
  rw [Bool.eq_iff_iff, insert_answer, comesFirst_iff, mem_insertAll_taken]
  simp [empty]

theorem insertAll_edges_eq_firsts (edges : List Edge) : (empty.insertAll edges).edges = firsts edges := by
  induction edges using List.reverseRecOn with
  | nil => rfl
  | append_singleton earlier edge ih =>
    rw [insertAll_concat, insert_edges, insert_answer_first, firsts_concat, ih]

/-- After any insertions the ids that are taken are those of the edges, and the edges are those that
came first with their ids, as they came. One more edge is answered with yes just when it is appended,
which is when it comes first; answered with no it leaves the set as it was, and loops that came before
change nothing. -/
theorem insertAll_inStep (edges : List Edge) :
    let set := empty.insertAll edges
    set.InStep ∧ set.edges = firsts edges ∧
      set.size = set.edges.length ∧ (set.isEmpty = true ↔ set.edges = []) ∧
      (∀ edge,
        (set.insert edge).2 = empty.insertAll (edges ++ [edge]) ∧
        ((set.insert edge).1 = true ↔ (set.insert edge).2.edges = set.edges ++ [edge]) ∧
        ((set.insert edge).1 = true ↔ comesFirst edges edge = true) ∧
        ((set.insert edge).1 = false → (set.insert edge).2 = set)) ∧
      set = empty.insertAll (edges.filter fun edge => !edge.isLoop) := by
  intro set
  refine ⟨inStep_empty.insertAll edges, insertAll_edges_eq_firsts edges, rfl, List.isEmpty_iff, ?_,
    (insertAll_without_loops empty edges).symm⟩
  intro edge
  refine ⟨(insertAll_concat empty edges edge).symm, insert_appends_iff, ?_, insert_refused⟩
  rw [insert_answer_first]

/-- A loop under the id of a later edge does not keep that edge out; the first of two edges with one
id is the one that stays, with its label. -/
example :
    let edge (source target label : String) : Edge :=
      { Edge.link source target with id := "e", label := some label }
    ((empty.insertAll [edge "a" "a" "1", edge "a" "b" "2", edge "c" "d" "3"]).edges.map Edge.label) =
      [some "2"] := by
  decide

end SourceAtlas.EdgeSet
