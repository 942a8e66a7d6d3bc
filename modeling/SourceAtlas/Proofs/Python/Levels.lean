import SourceAtlas.Proofs.Python.Grammar
import SourceAtlas.Python.Facts
set_option autoImplicit false

/-!
# The order of facts

A node of a tree is known by its place, the indices of children on the way from the top, and by its
level, the number of nodes that it is nested in. The walk with a queue comes to the nodes level by
level and from left to right within a level.
-/

namespace SourceAtlas.Python

def Kind.descent : Kind → Nat
  | .block => 0
  | .decoratedDefinition => 0
  | _ => 1

/-- A node that a tree has, with its nesting level and its place. -/
structure Occurrence where
  level : Nat
  place : List Nat
  node : Node

/-- A node that tells facts stands in a tree. Blocks and decorated definitions add nothing to its
level, every other node does, clauses too. -/
inductive Stands : Node → Occurrence → Prop
  | here {node : Node} (told : node.kind.isTold = true) : Stands node ⟨0, [], node⟩
  | inside {label : Label} {children : List Node} {index : Nat} {child : Node}
      {inner : Occurrence} (found : children[index]? = some child) (stands : Stands child inner) :
      Stands (.mk label children)
        ⟨label.kind.descent + inner.level, index :: inner.place, inner.node⟩

inductive Met : Node → Occurrence → Prop
  | here {node : Node} (told : node.kind.isTold = true) : Met node ⟨0, [], node⟩
  | inside {label : Label} {children : List Node} {index : Nat} {child : Node}
      {inner : Occurrence} (visible : label.kind ≠ .comment) (found : children[index]? = some child)
      (named : child.label.isNamed = true) (met : Met child inner) :
      Met (.mk label children)
        ⟨label.kind.descent + inner.level, index :: inner.place, inner.node⟩

/-- Lower levels come first, and places on one level go from left to right. -/
def Occurrence.Before (a b : Occurrence) : Prop :=
  a.level < b.level ∨ a.level = b.level ∧ a.place < b.place

theorem Stands.isIn {root : Node} {found : Occurrence} (stands : Stands root found) :
    found.node.IsIn root := by
  induction stands with
  | here => exact .root
  | inside found _ ih => exact .inside (List.mem_of_getElem? found) ih

theorem Stands.isTold {root : Node} {found : Occurrence} (stands : Stands root found) :
    found.node.kind.isTold = true := by
  induction stands with
  | here told => exact told
  | inside _ _ ih => exact ih

theorem Met.stands {root : Node} {found : Occurrence} (met : Met root found) : Stands root found := by
  induction met with
  | here told => exact .here told
  | inside _ found _ _ ih => exact .inside found ih

theorem not_stands_of_unnamed {root : Node} {found : Occurrence} (stands : Stands root found)
    (unnamed : root.label.isNamed = false) (fits : ∀ node : Node, node.IsIn root → node.Fits) :
    False := by
  induction stands with
  | here told =>
    rw [((fits _ .root).token unnamed).1] at told
    cases told
  | inside found _ ih =>
    have listed := List.mem_of_getElem? found
    refine ih (((fits _ .root).token unnamed).2 _ listed) fun node inside => fits node ?_
    exact .inside listed inside

theorem Stands.met {root : Node} {found : Occurrence} (stands : Stands root found)
    (fits : ∀ node : Node, node.IsIn root → node.Fits) : Met root found := by
  induction stands with
  | here told => exact .here told
  | @inside label children index child inner found stands ih =>
    have listed := List.mem_of_getElem? found
    have below : ∀ node : Node, node.IsIn child → node.Fits := fun node inside =>
      fits node (.inside listed inside)
    refine .inside (fun comment => ?_) found ?_ (ih below)
    · obtain rfl : children = [] := (fits _ .root).comment comment
      cases listed
    · cases named : child.label.isNamed with
      | true => rfl
      | false => exact (not_stands_of_unnamed stands named below).elim

theorem met_iff_stands {root : Node} (grammar : root.IsModule) (found : Occurrence) :
    Met root found ↔ Stands root found :=
  ⟨Met.stands, fun stands => stands.met grammar.fits⟩

abbrev Site := List Nat × Node

def Site.under (place : List Nat) (site : Site) : Site :=
  (place ++ site.1, site.2)

mutual

def Node.heads : Node → List Site
  | .mk label children =>
    match label.kind with
    | .block => headsFrom 0 children
    | .decoratedDefinition => headsFrom 0 children
    | .comment => []
    | _ => [([], .mk label children)]

def headsFrom : Nat → List Node → List Site
  | _, [] => []
  | index, child :: rest =>
    (if child.label.isNamed then child.heads.map (Site.under [index]) else []) ++
      headsFrom (index + 1) rest

end

def IsHead (node : Node) : Prop :=
  node.kind.descent = 1 ∧ node.kind ≠ .comment

theorem heads_cases (label : Label) (children : List Node) :
    (label.kind.descent = 0 ∧ label.kind ≠ .comment ∧ label.kind.isTold = false ∧
        (Node.mk label children).heads = headsFrom 0 children) ∨
      (label.kind = .comment ∧ (Node.mk label children).heads = []) ∨
      IsHead (.mk label children) ∧ (Node.mk label children).heads = [([], .mk label children)] := by
  rw [Node.heads, IsHead, Node.kind, Node.label]
  cases label.kind <;> simp [Kind.descent, Kind.isTold]

mutual

theorem heads_snd : (node : Node) → node.heads.map Prod.snd =
    match node.kind with
    | .block => node.nested
    | .decoratedDefinition => node.nested
    | .comment => []
    | _ => [node]
  | .mk label children => by
    rw [Node.heads, Node.kind, Node.label, Node.nested]
    cases label.kind with
    | block => exact headsFrom_snd 0 children
    | decoratedDefinition => exact headsFrom_snd 0 children
    | _ => rfl

theorem headsFrom_snd : (index : Nat) → (children : List Node) →
    (headsFrom index children).map Prod.snd = reached children
  | _, [] => rfl
  | index, child :: rest => by
    rw [headsFrom, List.map_append, headsFrom_snd (index + 1) rest, reached]
    refine congrArg (· ++ reached rest) ?_
    by_cases named : child.label.isNamed = true
    · rw [if_pos named, if_pos named, List.map_map]
      exact heads_snd child
    · rw [if_neg named, if_neg named]
      rfl

end

def LeftOf (p q : List Nat) : Prop :=
  ∃ way i j x y, p = way ++ i :: x ∧ q = way ++ j :: y ∧ i < j

theorem LeftOf.under {p q : List Nat} (left : LeftOf p q) (place : List Nat) :
    LeftOf (place ++ p) (place ++ q) := by
  obtain ⟨way, i, j, x, y, rfl, rfl, less⟩ := left
  exact ⟨place ++ way, i, j, x, y, by simp, by simp, less⟩

theorem LeftOf.extend {p q : List Nat} (left : LeftOf p q) (x y : List Nat) :
    LeftOf (p ++ x) (q ++ y) := by
  obtain ⟨way, i, j, x', y', rfl, rfl, less⟩ := left
  exact ⟨way, i, j, x' ++ x, y' ++ y, by simp, by simp, less⟩

theorem LeftOf.lt {p q : List Nat} (left : LeftOf p q) : p < q := by
  obtain ⟨way, i, j, x, y, rfl, rfl, less⟩ := left
  induction way with
  | nil => exact List.cons_lt_cons_iff.2 (.inl less)
  | cons first way ih => exact List.cons_lt_cons_iff.2 (.inr ⟨rfl, ih⟩)

theorem mem_headsFrom_cons {index : Nat} {child : Node} {rest : List Node} {site : Site} :
    site ∈ headsFrom index (child :: rest) ↔
      (child.label.isNamed = true ∧ ∃ inner ∈ child.heads, inner.under [index] = site) ∨
        site ∈ headsFrom (index + 1) rest := by
  rw [headsFrom, List.mem_append]
  by_cases named : child.label.isNamed = true
  · rw [if_pos named, List.mem_map]
    simp [named]
  · rw [if_neg named]
    simp [named]

theorem headsFrom_start {index : Nat} {children : List Node} {site : Site}
    (mem : site ∈ headsFrom index children) : ∃ i rest, site.1 = i :: rest ∧ index ≤ i := by
  induction children generalizing index with
  | nil => exact absurd mem List.not_mem_nil
  | cons child rest ih =>
    rcases mem_headsFrom_cons.1 mem with ⟨-, inner, -, rfl⟩ | later
    · exact ⟨index, inner.1, rfl, Nat.le_refl _⟩
    · obtain ⟨i, rest, same, bound⟩ := ih later
      exact ⟨i, rest, same, by omega⟩

mutual

theorem heads_apart : (node : Node) → node.heads.Pairwise fun a b => LeftOf a.1 b.1
  | .mk label children => by
    obtain ⟨-, -, -, same⟩ | ⟨-, same⟩ | ⟨-, same⟩ := heads_cases label children
    · exact same ▸ headsFrom_apart 0 children
    · exact same ▸ .nil
    · exact same ▸ List.pairwise_singleton _ _

theorem headsFrom_apart : (index : Nat) → (children : List Node) →
    (headsFrom index children).Pairwise fun a b => LeftOf a.1 b.1
  | _, [] => .nil
  | index, child :: rest => by
    rw [headsFrom, List.pairwise_append]
    refine ⟨?_, headsFrom_apart (index + 1) rest, ?_⟩
    · split
      · rw [List.pairwise_map]
        exact (heads_apart child).imp fun left => left.under [index]
      · exact .nil
    · intro a first b later
      split at first
      · obtain ⟨inner, -, rfl⟩ := List.mem_map.1 first
        obtain ⟨i, way, same, bound⟩ := headsFrom_start later
        exact ⟨[], index, i, inner.1, way, rfl, same, by omega⟩
      · cases first

end

def Occurrence.under (place : List Nat) (found : Occurrence) : Occurrence :=
  ⟨found.level, place ++ found.place, found.node⟩

def Occurrence.deeper (levels : Nat) (found : Occurrence) : Occurrence :=
  ⟨levels + found.level, found.place, found.node⟩

def MetIn (index : Nat) (children : List Node) (found : Occurrence) : Prop :=
  ∃ i child inner, children[i]? = some child ∧ child.label.isNamed = true ∧ Met child inner ∧
    found = inner.under [index + i]

theorem metIn_cons (index : Nat) (child : Node) (rest : List Node) (found : Occurrence) :
    MetIn index (child :: rest) found ↔
      (child.label.isNamed = true ∧ ∃ inner, Met child inner ∧ found = inner.under [index]) ∨
        MetIn (index + 1) rest found := by
  constructor
  · rintro ⟨i, other, inner, there, named, met, rfl⟩
    cases i with
    | zero =>
      obtain rfl : child = other := by simpa using there
      exact .inl ⟨named, inner, met, rfl⟩
    | succ i => exact .inr ⟨i, other, inner, by simpa using there, named, met, by congr 2; omega⟩
  · rintro (⟨named, inner, met, rfl⟩ | ⟨i, other, inner, there, named, met, rfl⟩)
    · exact ⟨0, child, inner, rfl, named, met, rfl⟩
    · exact ⟨i + 1, other, inner, by simpa using there, named, met, by congr 2; omega⟩

theorem met_mk_iff (label : Label) (children : List Node) (found : Occurrence) :
    Met (.mk label children) found ↔
      (label.kind.isTold = true ∧ found = ⟨0, [], .mk label children⟩) ∨
      (label.kind ≠ .comment ∧ ∃ inner, MetIn 0 children inner ∧
        found = inner.deeper label.kind.descent) := by
  constructor
  · intro met
    cases met with
    | here told => exact .inl ⟨told, rfl⟩
    | @inside _ _ index child inner visible there named met =>
      refine .inr ⟨visible, inner.under [index], ⟨index, child, inner, there, named, met, ?_⟩, rfl⟩
      rw [Nat.zero_add]
  · rintro (⟨told, rfl⟩ | ⟨visible, _, ⟨index, child, inner, there, named, met, rfl⟩, rfl⟩)
    · exact .here told
    · rw [Nat.zero_add]
      exact .inside visible there named met

def Below (sites : List Site) (found : Occurrence) : Prop :=
  ∃ site ∈ sites, ∃ inner, Met site.2 inner ∧ found = inner.under site.1

mutual

theorem met_iff_below : (node : Node) → (found : Occurrence) →
    (Met node found ↔ Below node.heads found)
  | .mk label children, found => by
    obtain ⟨level, visible, untold, same⟩ | ⟨comment, same⟩ | ⟨-, same⟩ := heads_cases label children
    · rw [same, ← metIn_iff_below 0 children found, met_mk_iff, level]
      constructor
      · rintro (⟨told, -⟩ | ⟨-, inner, met, rfl⟩)
        · rw [untold] at told
          cases told
        · simpa [Occurrence.deeper] using met
      · intro met
        exact .inr ⟨visible, found, met, by simp [Occurrence.deeper]⟩
    · rw [same, met_mk_iff, comment]
      constructor
      · rintro (⟨told, -⟩ | ⟨visible, -⟩)
        · cases told
        · exact absurd rfl visible
      · rintro ⟨site, mem, -⟩
        exact absurd mem List.not_mem_nil
    · rw [same]
      constructor
      · intro met
        exact ⟨_, List.mem_singleton_self _, found, met, rfl⟩
      · rintro ⟨site, mem, inner, met, rfl⟩
        obtain rfl := List.mem_singleton.1 mem
        exact met

theorem metIn_iff_below : (index : Nat) → (children : List Node) → (found : Occurrence) →
    (MetIn index children found ↔ Below (headsFrom index children) found)
  | _, [], found => by
    constructor
    · rintro ⟨i, child, inner, there, -⟩
      cases there
    · rintro ⟨site, mem, -⟩
      exact absurd mem List.not_mem_nil
  | index, child :: rest, found => by
    rw [metIn_cons, metIn_iff_below (index + 1) rest found]
    constructor
    · rintro (⟨named, inner, met, rfl⟩ | ⟨site, mem, below⟩)
      · obtain ⟨site, mem, deep, below, rfl⟩ := (met_iff_below child inner).1 met
        exact ⟨_, mem_headsFrom_cons.2 (.inl ⟨named, site, mem, rfl⟩), deep, below,
          by simp [Occurrence.under, Site.under]⟩
      · exact ⟨site, mem_headsFrom_cons.2 (.inr mem), below⟩
    · rintro ⟨site, mem, inner, met, rfl⟩
      rcases mem_headsFrom_cons.1 mem with ⟨named, head, held, rfl⟩ | later
      · exact .inl ⟨named, inner.under head.1,
          (met_iff_below child _).2 ⟨head, held, inner, met, rfl⟩,
          by simp [Occurrence.under, Site.under]⟩
      · exact .inr ⟨site, later, inner, met, rfl⟩

end

theorem sizes_append (first second : List Node) :
    sizes (first ++ second) = sizes first + sizes second := by
  induction first with
  | nil => simp [sizes]
  | cons node first ih => simp [sizes, ih, Nat.add_assoc]

mutual

theorem sizes_nested_lt : (node : Node) → sizes node.nested < node.size
  | .mk _ children => Nat.lt_succ_of_le (sizes_reached_le children)

theorem sizes_reached_le : (children : List Node) → sizes (reached children) ≤ sizes children
  | [] => Nat.le_refl _
  | child :: rest => by
    have inside := sizes_nested_lt child
    have behind := sizes_reached_le rest
    rw [reached, sizes_append, sizes]
    by_cases named : child.label.isNamed = true
    · rw [if_pos named]
      cases child.kind with
      | block => dsimp only; omega
      | decoratedDefinition => dsimp only; omega
      | _ => simp only [sizes]; omega
    · rw [if_neg named, sizes]
      omega

end

theorem sizes_flatMap_nested (queue : List Node) :
    sizes (queue.flatMap Node.nested) + queue.length ≤ sizes queue := by
  induction queue with
  | nil => exact Nat.le_refl _
  | cons node queue ih =>
    have inside := sizes_nested_lt node
    rw [List.flatMap_cons, sizes_append, sizes, List.length_cons]
    omega

theorem visited_append (queue behind : List Node) (fuel : Nat) (enough : queue.length ≤ fuel) :
    visited fuel (queue ++ behind) =
      queue ++ visited (fuel - queue.length) (behind ++ queue.flatMap Node.nested) := by
  induction queue generalizing behind fuel with
  | nil => simp
  | cons node queue ih =>
    obtain ⟨fuel, rfl⟩ : ∃ less, fuel = less + 1 := ⟨fuel - 1, by simp at enough; omega⟩
    rw [List.length_cons] at enough
    rw [List.cons_append, visited, List.append_assoc, ih (behind ++ node.nested) fuel (by omega)]
    simp [Nat.add_sub_add_right]

def Site.next (site : Site) : List Site :=
  (headsFrom 0 site.2.children).map (Site.under site.1)

theorem next_snd (site : Site) : site.next.map Prod.snd = site.2.nested := by
  obtain ⟨place, ⟨label, children⟩⟩ := site
  rw [Site.next, List.map_map]
  exact headsFrom_snd 0 children

def levelled : Nat → Nat → List Site → List (Nat × Site)
  | 0, _, _ => []
  | depth + 1, level, sites =>
    sites.map (fun site => (level, site)) ++
      levelled depth (level + 1) (sites.flatMap Site.next)

theorem flatMap_nested_snd (sites : List Site) :
    (sites.map Prod.snd).flatMap Node.nested = (sites.flatMap Site.next).map Prod.snd := by
  rw [List.flatMap_map, List.map_flatMap]
  exact List.flatMap_congr fun site _ => (next_snd site).symm

theorem visited_eq_levelled (depth fuel level : Nat) (sites : List Site)
    (enough : sizes (sites.map Prod.snd) ≤ fuel) (deep : sizes (sites.map Prod.snd) ≤ depth) :
    visited fuel (sites.map Prod.snd) = (levelled depth level sites).map fun e => e.2.2 := by
  induction depth generalizing fuel level sites with
  | zero =>
    have smaller := sizes_flatMap_nested (sites.map Prod.snd)
    rw [List.length_map] at smaller
    obtain rfl : sites = [] := List.eq_nil_of_length_eq_zero (by omega)
    cases fuel <;> rfl
  | succ depth ih =>
    have smaller := sizes_flatMap_nested (sites.map Prod.snd)
    have first := visited_append (sites.map Prod.snd) [] fuel (by omega)
    rw [List.append_nil, List.nil_append, flatMap_nested_snd, List.length_map] at first
    rw [flatMap_nested_snd, List.length_map] at smaller
    rw [first, levelled, List.map_append, List.map_map]
    refine congrArg₂ _ rfl ?_
    by_cases empty : sites = []
    · subst empty
      exact ih _ (level + 1) [] (Nat.zero_le _) (Nat.zero_le _)
    · have held := List.length_pos_iff.2 empty
      exact ih _ (level + 1) _ (by omega) (by omega)

mutual

theorem isHead_of_mem_heads : (node : Node) → ∀ site ∈ node.heads, IsHead site.2
  | .mk label children => by
    intro site mem
    obtain ⟨-, -, -, same⟩ | ⟨-, same⟩ | ⟨head, same⟩ := heads_cases label children
    · exact isHead_of_mem_headsFrom 0 children site (same ▸ mem)
    · exact absurd (same ▸ mem) List.not_mem_nil
    · obtain rfl := List.mem_singleton.1 (same ▸ mem)
      exact head

theorem isHead_of_mem_headsFrom : (index : Nat) → (children : List Node) →
    ∀ site ∈ headsFrom index children, IsHead site.2
  | _, [] => fun site mem => absurd mem List.not_mem_nil
  | index, child :: rest => by
    intro site mem
    rcases mem_headsFrom_cons.1 mem with ⟨-, inner, held, rfl⟩ | later
    · exact isHead_of_mem_heads child inner held
    · exact isHead_of_mem_headsFrom (index + 1) rest site later

end

def occurrence? : Nat × Site → Option Occurrence
  | (level, place, node) => if node.kind.isTold then some ⟨level, place, node⟩ else none

theorem occurrence?_eq_some (level : Nat) (site : Site) (found : Occurrence) :
    occurrence? (level, site) = some found ↔
      site.2.kind.isTold = true ∧ found = ⟨level, site.1, site.2⟩ := by
  rw [occurrence?]
  split
  · next told => simp [told, eq_comm]
  · next untold => simp [untold]

theorem met_head_iff {node : Node} (head : IsHead node) (found : Occurrence) :
    Met node found ↔ (node.kind.isTold = true ∧ found = ⟨0, [], node⟩) ∨
      ∃ site ∈ headsFrom 0 node.children, ∃ inner, Met site.2 inner ∧
        found = (inner.under site.1).deeper 1 := by
  obtain ⟨label, children⟩ := node
  obtain ⟨level, visible⟩ := head
  simp only [Node.kind, Node.label] at level visible
  rw [met_mk_iff, level]
  refine or_congr Iff.rfl ?_
  simp only [metIn_iff_below, Node.children]
  constructor
  · rintro ⟨-, _, ⟨site, mem, inner, met, rfl⟩, rfl⟩
    exact ⟨site, mem, inner, met, rfl⟩
  · rintro ⟨site, mem, inner, met, rfl⟩
    exact ⟨visible, _, ⟨site, mem, inner, met, rfl⟩, rfl⟩

theorem isHead_next {site : Site} : ∀ other ∈ site.next, IsHead other.2 := by
  intro other mem
  obtain ⟨inner, held, rfl⟩ := List.mem_map.1 mem
  exact isHead_of_mem_headsFrom 0 site.2.children inner held

theorem mem_levelled (depth level : Nat) (sites : List Site) (heads : ∀ site ∈ sites, IsHead site.2)
    (found : Occurrence) :
    found ∈ (levelled depth level sites).filterMap occurrence? ↔
      ∃ site ∈ sites, ∃ inner, Met site.2 inner ∧ inner.level < depth ∧
        found = (inner.under site.1).deeper level := by
  induction depth generalizing level sites with
  | zero => simp [levelled]
  | succ depth ih =>
    have next : ∀ site ∈ sites.flatMap Site.next, IsHead site.2 := by
      intro site mem
      obtain ⟨above, -, held⟩ := List.mem_flatMap.1 mem
      exact isHead_next site held
    rw [levelled, List.filterMap_append, List.mem_append, ih (level + 1) _ next]
    constructor
    · rintro (here | ⟨_, mem, inner, met, low, rfl⟩)
      · obtain ⟨_, mem, is⟩ := List.mem_filterMap.1 here
        obtain ⟨site, held, rfl⟩ := List.mem_map.1 mem
        obtain ⟨told, rfl⟩ := (occurrence?_eq_some level site found).1 is
        refine ⟨site, held, ⟨0, [], site.2⟩, .here told, Nat.succ_pos _, ?_⟩
        simp [Occurrence.deeper, Occurrence.under]
      · obtain ⟨site, held, inNext⟩ := List.mem_flatMap.1 mem
        obtain ⟨head, inHeads, rfl⟩ := List.mem_map.1 inNext
        refine ⟨site, held, (inner.under head.1).deeper 1, ?_, ?_, ?_⟩
        · exact (met_head_iff (heads site held) _).2 (.inr ⟨head, inHeads, inner, met, rfl⟩)
        · simp [Occurrence.deeper, Occurrence.under]; omega
        · simp [Occurrence.deeper, Occurrence.under, Site.under]; omega
    · rintro ⟨site, held, found, met, low, rfl⟩
      rcases (met_head_iff (heads site held) found).1 met with
        ⟨told, rfl⟩ | ⟨head, inHeads, inner, below, rfl⟩
      · refine .inl (List.mem_filterMap.2 ⟨_, List.mem_map_of_mem held, ?_⟩)
        exact (occurrence?_eq_some level site _).2
          ⟨told, by simp [Occurrence.deeper, Occurrence.under]⟩
      · refine .inr ⟨head.under site.1, List.mem_flatMap.2 ⟨site, held, List.mem_map_of_mem inHeads⟩,
          inner, below, ?_, ?_⟩
        · simp [Occurrence.deeper, Occurrence.under] at low; omega
        · simp [Occurrence.deeper, Occurrence.under, Site.under]; omega

theorem le_of_mem_levelled {depth level : Nat} {sites : List Site} {e : Nat × Site}
    (mem : e ∈ levelled depth level sites) : level ≤ e.1 := by
  induction depth generalizing level sites with
  | zero => exact absurd mem List.not_mem_nil
  | succ depth ih =>
    rcases List.mem_append.1 mem with here | later
    · obtain ⟨site, -, rfl⟩ := List.mem_map.1 here
      exact Nat.le_refl _
    · exact Nat.le_of_succ_le (ih later)

theorem next_apart {sites : List Site} (apart : sites.Pairwise fun a b => LeftOf a.1 b.1) :
    (sites.flatMap Site.next).Pairwise fun a b => LeftOf a.1 b.1 := by
  rw [List.pairwise_flatMap]
  constructor
  · intro site _
    rw [Site.next, List.pairwise_map]
    exact (headsFrom_apart 0 site.2.children).imp fun left => left.under site.1
  · refine apart.imp fun {a b} left => ?_
    intro x inA y inB
    obtain ⟨first, -, rfl⟩ := List.mem_map.1 inA
    obtain ⟨second, -, rfl⟩ := List.mem_map.1 inB
    exact left.extend first.1 second.1

theorem levelled_ordered (depth level : Nat) (sites : List Site)
    (apart : sites.Pairwise fun a b => LeftOf a.1 b.1) :
    (levelled depth level sites).Pairwise fun a b =>
      a.1 < b.1 ∨ a.1 = b.1 ∧ LeftOf a.2.1 b.2.1 := by
  induction depth generalizing level sites with
  | zero => exact .nil
  | succ depth ih =>
    rw [levelled, List.pairwise_append, List.pairwise_map]
    refine ⟨apart.imp fun left => .inr ⟨rfl, left⟩, ih _ _ (next_apart apart), ?_⟩
    intro a here b later
    obtain ⟨site, -, rfl⟩ := List.mem_map.1 here
    exact .inl (le_of_mem_levelled later)

theorem occurrences_ordered (depth level : Nat) (sites : List Site)
    (apart : sites.Pairwise fun a b => LeftOf a.1 b.1) :
    ((levelled depth level sites).filterMap occurrence?).Pairwise Occurrence.Before := by
  rw [List.pairwise_filterMap]
  refine (levelled_ordered depth level sites apart).imp ?_
  rintro ⟨levelA, a⟩ ⟨levelB, b⟩ before x isA y isB
  obtain ⟨-, rfl⟩ := (occurrence?_eq_some levelA a x).1 isA
  obtain ⟨-, rfl⟩ := (occurrence?_eq_some levelB b y).1 isB
  exact before.imp id fun level => ⟨level.1, level.2.lt⟩

theorem size_le_sizes {children : List Node} {index : Nat} {child : Node}
    (found : children[index]? = some child) : child.size ≤ sizes children := by
  induction children generalizing index with
  | nil => cases found
  | cons first rest ih =>
    rw [sizes]
    cases index with
    | zero =>
      obtain rfl : first = child := by simpa using found
      omega
    | succ index =>
      have behind := ih (by simpa using found)
      omega

theorem Kind.descent_le (kind : Kind) : kind.descent ≤ 1 := by
  cases kind <;> simp [Kind.descent]

theorem Node.size_pos (node : Node) : 0 < node.size := by
  cases node
  exact Nat.succ_pos _

theorem Met.level_lt {node : Node} {found : Occurrence} (met : Met node found) :
    found.level < node.size := by
  induction met with
  | @here node told => exact node.size_pos
  | @inside label children index child inner visible found named met ih =>
    have step := label.kind.descent_le
    have fits := size_le_sizes found
    simp only [Node.size]
    omega

def Node.occurrences (root : Node) : List Occurrence :=
  (levelled root.size 0 [([], root)]).filterMap occurrence?

theorem mem_occurrences_iff {root : Node} (head : IsHead root) (found : Occurrence) :
    found ∈ root.occurrences ↔ Met root found := by
  have heads : ∀ site ∈ ([([], root)] : List Site), IsHead site.2 :=
    List.forall_mem_singleton.2 head
  rw [Node.occurrences, mem_levelled _ _ _ heads]
  constructor
  · rintro ⟨site, mem, inner, met, -, rfl⟩
    obtain rfl := List.mem_singleton.1 mem
    simpa [Occurrence.deeper, Occurrence.under] using met
  · intro met
    exact ⟨_, List.mem_singleton_self _, found, met, met.level_lt,
      by simp [Occurrence.deeper, Occurrence.under]⟩

/-- What a list is made of that comes from the nodes of the walk comes from those that tell it. -/
theorem flatMap_visited {β : Type} (root : Node) (f : Node → List β)
    (silent : ∀ node : Node, node.kind.isTold = false → f node = []) :
    (visited root.size [root]).flatMap f = root.occurrences.flatMap fun o => f o.node := by
  have walk := visited_eq_levelled root.size root.size 0 [([], root)] (Nat.le_refl _) (Nat.le_refl _)
  have queue : ([([], root)] : List Site).map Prod.snd = [root] := rfl
  rw [queue] at walk
  rw [walk, Node.occurrences]
  generalize levelled root.size 0 [([], root)] = entries
  induction entries with
  | nil => rfl
  | cons e entries ih =>
    obtain ⟨level, place, node⟩ := e
    rw [List.map_cons, List.flatMap_cons, ih, List.filterMap_cons, occurrence?]
    cases told : node.kind.isTold with
    | true => rfl
    | false => rw [silent node told]; rfl

end SourceAtlas.Python
