import Mathlib.Data.List.Induction
import SourceAtlas.Files.Walk
import SourceAtlas.Proofs.Files.Growth
set_option autoImplicit false

/-!
# Walks

The entries below a directory are what a walk visits that goes from directory to directory: the
entries of each one by name, and behind a directory what is in it. A walk can leave directories out
by their names; then it does not get to what is in them.
-/

namespace SourceAtlas.FileTree

theorem below?_append (base : Location) {names : Location} (nonempty : names ≠ []) :
    below? base (base ++ names) = .some names := by
  have apart : base ≠ base ++ names := fun same => nonempty (List.self_eq_append_right.1 same)
  simp [below?, apart]

theorem below?_eq_some {base location names : Location} (found : below? base location = some names) :
    location = base ++ names ∧ names ≠ [] := by
  rw [below?] at found
  split at found
  · next below =>
    obtain ⟨rest, rfl⟩ := List.isPrefixOf_iff_prefix.1 below.1
    obtain rfl : rest = names := by simpa using found
    exact ⟨rfl, fun empty => below.2 (by simp [empty])⟩
  · cases found

theorem mem_entriesBelow_iff (tree : FileTree) (base names : Location) (entry : Entry) :
    (names, entry) ∈ tree.entriesBelow base ↔
      names ≠ [] ∧ tree.entry? (base ++ names) = some entry := by
  rw [entriesBelow, List.mem_filterMap]
  constructor
  · rintro ⟨⟨location, found⟩, held, same⟩
    obtain ⟨_, below, here⟩ := Option.map_eq_some_iff.1 same
    obtain ⟨rfl, rfl⟩ := Prod.mk.inj here
    obtain ⟨rfl, visible⟩ := below?_eq_some below
    exact ⟨visible, (entry?_eq_some_iff tree _ _).2 (.inr held)⟩
  · rintro ⟨visible, found⟩
    rcases (entry?_eq_some_iff tree _ _).1 found with ⟨root, -⟩ | held
    · exact absurd (List.append_eq_nil_iff.1 root).2 visible
    · exact ⟨_, held, by simp only [below?_append base visible, Option.map_some]⟩

theorem append_lt_append_iff (base first second : Location) :
    base ++ first < base ++ second ↔ first < second := by
  induction base with
  | nil => rfl
  | cons name base ih =>
    rw [List.cons_append, List.cons_append, List.cons_lt_cons_iff, ih]
    exact ⟨fun less => less.resolve_left (List.lt_irrefl _) |>.2, fun less => .inr ⟨rfl, less⟩⟩

theorem entriesBelow_ordered (tree : FileTree) (base : Location) :
    (tree.entriesBelow base).Pairwise fun a b => a.1 < b.1 := by
  rw [entriesBelow, List.pairwise_filterMap]
  refine tree.ordered.imp fun {first second} before => ?_
  intro a ha b hb
  obtain ⟨_, belowA, rfl⟩ := Option.map_eq_some_iff.1 ha
  obtain ⟨_, belowB, rfl⟩ := Option.map_eq_some_iff.1 hb
  rw [(below?_eq_some belowA).1, (below?_eq_some belowB).1] at before
  exact (append_lt_append_iff base _ _).1 before

theorem entry?_above {tree : FileTree} {location rest : Location} {entry : Entry}
    (found : tree.entry? (location ++ rest) = some entry) (onward : rest ≠ []) :
    tree.entry? location = some .directory := by
  induction rest using List.reverseRecOn generalizing entry with
  | nil => exact absurd rfl onward
  | append_singleton rest name ih =>
    have above := entry?_dropLast found
    rw [← List.append_assoc, List.dropLast_concat] at above
    by_cases last : rest = []
    · rwa [last, List.append_nil] at above
    · exact ih above last

theorem entriesUnder_eq {tree : FileTree} {root : String} {base : Location}
    (directory : tree.view? root = some (base, .directory)) :
    tree.entriesUnder root =
      (tree.entriesBelow base).filter fun found => opens root found.1.dropLast := by
  rw [entriesUnder, directory]

theorem mem_entriesUnder_iff {tree : FileTree} {root : String} {base : Location}
    (directory : tree.view? root = some (base, .directory)) (names : Location) (entry : Entry) :
    (names, entry) ∈ tree.entriesUnder root ↔
      names ≠ [] ∧ tree.entry? (base ++ names) = some entry ∧ opens root names.dropLast = true := by
  rw [entriesUnder_eq directory, List.mem_filter, mem_entriesBelow_iff, and_assoc]

theorem exists_view?_of_mem {tree : FileTree} {root : String} {found : Location × Entry}
    (mem : found ∈ tree.entriesUnder root) :
    ∃ base, tree.view? root = some (base, .directory) := by
  rw [entriesUnder] at mem
  split at mem
  · next base seen => exact ⟨base, seen⟩
  · cases mem

theorem entriesUnder_ordered (tree : FileTree) (root : String) :
    (tree.entriesUnder root).Pairwise fun a b => a.1 < b.1 := by
  rw [entriesUnder]
  split
  · exact (entriesBelow_ordered tree _).filter _
  · exact .nil

theorem mem_entriesUnder {tree : FileTree} {root : String} {names : Location} {entry : Entry}
    (mem : (names, entry) ∈ tree.entriesUnder root) :
    names ≠ [] ∧ ∀ name ∈ names, isProperName name = true := by
  obtain ⟨base, directory⟩ := exists_view?_of_mem mem
  obtain ⟨visible, found, -⟩ := (mem_entriesUnder_iff directory ..).1 mem
  exact ⟨visible, fun name inNames =>
    List.all_eq_true.1 (entry?_isProperName found) name (List.mem_append_right _ inNames)⟩

def single? : Location × Entry → Option (String × Entry)
  | ([name], entry) => some (name, entry)
  | _ => none

def children (tree : FileTree) (location : Location) : List (String × Entry) :=
  (tree.entriesBelow location).filterMap single?

def visitChild (enters : String → Bool) (inside : List (Location × Entry)) :
    String × Entry → List (Location × Entry)
  | (name, .directory) =>
    if enters name then
      ([name], .directory) :: inside.map fun (names, entry) => (name :: names, entry)
    else []
  | (name, entry) => [([name], entry)]

/-- Visits the entries of a directory in the order of their names, and behind each directory what is
in it. Directories with names that are not entered are left out, and those that cannot be opened
have nothing behind them. The fuel bounds the depth. -/
def visit (tree : FileTree) (enters : String → Bool) :
    Nat → (Location → Bool) → Location → List (Location × Entry)
  | 0, _, _ => []
  | depth + 1, opened, location =>
    if opened [] then
      (tree.children location).flatMap fun child =>
        let inside := visit tree enters depth (fun names => opened (child.1 :: names))
          (location ++ [child.1])
        visitChild enters inside child
    else []

def isVisited (enters : String → Bool) : Location → Entry → Bool
  | [], _ => true
  | [name], entry => entry != .directory || enters name
  | name :: names, entry => enters name && isVisited enters names entry

theorem single?_eq_some {e : Location × Entry} {name : String} {entry : Entry} :
    single? e = some (name, entry) ↔ e = ([name], entry) := by
  constructor
  · intro found
    unfold single? at found
    split at found
    · obtain ⟨rfl, rfl⟩ := Prod.mk.inj (Option.some.inj found)
      rfl
    · cases found
  · rintro rfl
    rfl

theorem mem_children (tree : FileTree) (location : Location) (name : String) (entry : Entry) :
    (name, entry) ∈ tree.children location ↔ tree.entry? (location ++ [name]) = some entry := by
  simp [children, single?_eq_some, mem_entriesBelow_iff]

theorem children_ordered (tree : FileTree) (location : Location) :
    (tree.children location).Pairwise fun a b => a.1 < b.1 := by
  rw [children, List.pairwise_filterMap]
  refine (entriesBelow_ordered tree location).imp fun {first second} before => ?_
  rintro ⟨name, entry⟩ here ⟨name', entry'⟩ here'
  rw [single?_eq_some.1 here, single?_eq_some.1 here'] at before
  simpa [List.cons_lt_cons_iff] using before

theorem mem_visitChild (enters : String → Bool) (inside : List (Location × Entry))
    (name : String) (child : Entry) (names : Location) (entry : Entry) :
    (names, entry) ∈ visitChild enters inside (name, child) ↔ ∃ rest, names = name :: rest ∧
      ((rest = [] ∧ child = entry ∧ (entry = .directory → enters name = true)) ∨
        (child = .directory ∧ enters name = true ∧ (rest, entry) ∈ inside)) := by
  by_cases directory : child = .directory
  swap
  · rw [visitChild.eq_2 _ _ _ _ directory, List.mem_singleton, Prod.mk.injEq]
    constructor
    · rintro ⟨rfl, rfl⟩
      exact ⟨[], rfl, .inl ⟨rfl, rfl, fun same => absurd same directory⟩⟩
    · rintro ⟨rest, rfl, ⟨rfl, rfl, -⟩ | ⟨same, -⟩⟩
      · exact ⟨rfl, rfl⟩
      · exact absurd same directory
  subst directory
  rw [visitChild]
  split
  · next enter =>
    simp only [List.mem_cons, List.mem_map, Prod.exists, Prod.mk.injEq]
    constructor
    · rintro (⟨rfl, rfl⟩ | ⟨rest, e, held, rfl, rfl⟩)
      · exact ⟨[], rfl, .inl ⟨rfl, rfl, fun _ => enter⟩⟩
      · exact ⟨rest, rfl, .inr ⟨trivial, enter, held⟩⟩
    · rintro ⟨rest, rfl, ⟨rfl, rfl, -⟩ | ⟨-, -, held⟩⟩
      · exact .inl ⟨rfl, rfl⟩
      · exact .inr ⟨rest, entry, held, rfl, rfl⟩
  · next closed =>
    refine ⟨fun never => absurd never List.not_mem_nil, ?_⟩
    rintro ⟨rest, -, ⟨-, rfl, enter⟩ | ⟨-, enter, -⟩⟩
    · exact absurd (enter rfl) closed
    · exact absurd enter closed

theorem visitChild_ordered (enters : String → Bool) {inside : List (Location × Entry)}
    (ordered : inside.Pairwise fun a b => a.1 < b.1) (inner : ∀ e ∈ inside, e.1 ≠ [])
    (child : String × Entry) :
    (visitChild enters inside child).Pairwise fun a b => a.1 < b.1 := by
  unfold visitChild
  split
  · next name =>
    split
    swap
    · exact .nil
    rw [List.pairwise_cons, List.pairwise_map]
    constructor
    · intro e mem
      obtain ⟨⟨names, entry⟩, held, rfl⟩ := List.mem_map.1 mem
      obtain ⟨first, rest, rfl⟩ := List.exists_cons_of_ne_nil (inner _ held)
      exact List.cons_lt_cons_iff.2 (.inr ⟨rfl, List.nil_lt_cons _ _⟩)
    · exact ordered.imp fun less => List.cons_lt_cons_iff.2 (.inr ⟨rfl, less⟩)
  · exact List.pairwise_singleton _ _

theorem mem_visit (tree : FileTree) (enters : String → Bool) (depth : Nat)
    (opened : Location → Bool) (base names : Location) (entry : Entry) :
    (names, entry) ∈ tree.visit enters depth opened base ↔ names ≠ [] ∧ names.length ≤ depth ∧
      tree.entry? (base ++ names) = some entry ∧ isVisited enters names entry = true ∧
      ∀ front, front <+: names.dropLast → opened front = true := by
  induction depth generalizing opened base names entry with
  | zero =>
    simp only [visit, List.not_mem_nil, Nat.le_zero, List.length_eq_zero_iff, false_iff]
    rintro ⟨visible, blank, -⟩
    exact visible blank
  | succ depth ih =>
    rw [visit]
    by_cases here : opened [] = true
    swap
    · rw [if_neg here]
      refine ⟨fun never => absurd never List.not_mem_nil, ?_⟩
      rintro ⟨-, -, -, -, way⟩
      exact absurd (way [] (List.nil_prefix ..)) here
    rw [if_pos here, List.mem_flatMap]
    constructor
    · rintro ⟨⟨name, child⟩, held, mem⟩
      obtain ⟨rest, rfl, reached⟩ := (mem_visitChild ..).1 mem
      rw [mem_children] at held
      refine ⟨List.cons_ne_nil _ _, ?_⟩
      rcases reached with ⟨rfl, rfl, enter⟩ | ⟨rfl, enter, inside⟩
      · refine ⟨by simp, held, ?_, fun front short => ?_⟩
        · by_cases directory : child = .directory
          · simp [isVisited, enter directory]
          · simp [isVisited, directory]
        · rwa [List.prefix_nil.1 short]
      · obtain ⟨visible, short, there, visited, way⟩ := (ih _ _ _ _).1 inside
        refine ⟨by simpa using short, by simpa using there, ?_, fun front early => ?_⟩
        · rw [isVisited.eq_3 _ _ _ _ visible, enter, visited]
          rfl
        · rw [List.dropLast_cons_of_ne_nil visible, List.prefix_cons_iff] at early
          rcases early with rfl | ⟨front, rfl, early⟩
          · exact here
          · exact way front early
    · rintro ⟨visible, short, found, visited, way⟩
      obtain ⟨name, rest, rfl⟩ := List.exists_cons_of_ne_nil visible
      by_cases last : rest = []
      · subst last
        refine ⟨(name, entry), (mem_children ..).2 found, (mem_visitChild ..).2 ⟨[], rfl, ?_⟩⟩
        exact .inl ⟨rfl, rfl, fun directory => by simpa [isVisited, directory] using visited⟩
      · rw [isVisited.eq_3 _ _ _ _ last, Bool.and_eq_true] at visited
        rw [List.append_cons] at found
        have above := entry?_above found last
        refine ⟨(name, .directory), (mem_children ..).2 above,
          (mem_visitChild ..).2 ⟨rest, rfl, .inr ⟨rfl, visited.1, (ih _ _ _ _).2 ?_⟩⟩⟩
        refine ⟨last, by simpa using short, found, visited.2, fun front early => ?_⟩
        refine way (name :: front) ?_
        rw [List.dropLast_cons_of_ne_nil last]
        exact List.cons_prefix_cons.2 ⟨rfl, early⟩

theorem visit_ordered (tree : FileTree) (enters : String → Bool) (depth : Nat)
    (opened : Location → Bool) (base : Location) :
    (tree.visit enters depth opened base).Pairwise fun a b => a.1 < b.1 := by
  induction depth generalizing opened base with
  | zero => exact .nil
  | succ depth ih =>
    rw [visit]
    split
    swap
    · exact .nil
    rw [List.pairwise_flatMap]
    constructor
    · intro child _
      refine visitChild_ordered enters (ih _ _) (fun e mem => ?_) child
      exact ((mem_visit tree enters depth _ _ e.1 e.2).1 mem).1
    · refine (children_ordered tree base).imp fun {first second} less => ?_
      rintro ⟨names, entry⟩ mem ⟨names', entry'⟩ mem'
      obtain ⟨rest, rfl, -⟩ := (mem_visitChild ..).1 mem
      obtain ⟨rest', rfl, -⟩ := (mem_visitChild ..).1 mem'
      exact List.cons_lt_cons_iff.2 (.inl less)

theorem exists_depth (tree : FileTree) : ∃ depth, ∀ e ∈ tree.entries, e.1.length ≤ depth :=
  ⟨(tree.entries.map fun e => e.1.length).max?.getD 0, fun _ mem =>
    List.le_max?_getD_of_mem (List.mem_map_of_mem mem)⟩

/-- A walk that is deep enough visits the entries below a directory in their order, those that are
left out, or in something that is left out or cannot be opened, excepted. -/
theorem visit_eq (tree : FileTree) (enters : String → Bool) (depth : Nat)
    (opened : Location → Bool) (base : Location) (deep : ∀ e ∈ tree.entries, e.1.length ≤ depth)
    (upwards : ∀ front below, (∀ name ∈ front ++ below, isProperName name = true) →
      opened (front ++ below) = true → opened front = true) :
    tree.visit enters depth opened base = ((tree.entriesBelow base).filter fun e =>
      opened e.1.dropLast).filter fun e => isVisited enters e.1 e.2 := by
  refine eq_of_locations (visit_ordered tree enters depth opened base)
    (((entriesBelow_ordered tree base).filter _).filter _) ?_
  rintro ⟨names, entry⟩
  rw [mem_visit, List.mem_filter, List.mem_filter, mem_entriesBelow_iff]
  constructor
  · rintro ⟨visible, -, found, visited, way⟩
    exact ⟨⟨⟨visible, found⟩, way _ List.prefix_rfl⟩, visited⟩
  · rintro ⟨⟨⟨visible, found⟩, whole⟩, visited⟩
    refine ⟨visible, ?_, found, visited, ?_⟩
    · rcases (entry?_eq_some_iff tree _ _).1 found with ⟨root, -⟩ | held
      · exact absurd (List.append_eq_nil_iff.1 root).2 visible
      · have bound := deep _ held
        rw [List.length_append] at bound
        omega
    · rintro front ⟨below, cut⟩
      rw [← cut] at whole
      refine upwards front below (fun name mem => ?_) whole
      have inside : name ∈ names := List.dropLast_subset _ (cut ▸ mem)
      exact List.all_eq_true.1 (entry?_isProperName found) name (List.mem_append_right _ inside)

end SourceAtlas.FileTree
