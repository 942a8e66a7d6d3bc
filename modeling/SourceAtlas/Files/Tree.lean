import SourceAtlas.Files.Error
set_option autoImplicit false

/-!
# Trees of files

A tree lists its entries by their locations, which are the names on the way from the root, in
lexicographic order; so a directory stands before everything in it, and equal trees are equal lists.
Every entry lies in a directory of the tree. A tree also knows the directory where relative paths
begin.
-/

namespace SourceAtlas

abbrev Location := List String

inductive Entry
  | file (contents : ByteArray)
  | directory
  | link (target : String)

instance : DecidableEq Entry
  | .file a, .file b =>
    if same : a.data = b.data then isTrue (congrArg Entry.file (ByteArray.ext same))
    else isFalse fun h => same (congrArg ByteArray.data (Entry.file.inj h))
  | .directory, .directory => isTrue rfl
  | .link a, .link b =>
    if same : a = b then isTrue (congrArg Entry.link same)
    else isFalse fun h => same (Entry.link.inj h)
  | .file _, .directory => isFalse nofun
  | .file _, .link _ => isFalse nofun
  | .directory, .file _ => isFalse nofun
  | .directory, .link _ => isFalse nofun
  | .link _, .file _ => isFalse nofun
  | .link _, .directory => isFalse nofun

/-- Whether an entry can stand in a tree: the target of a link, like every path, has no NUL. -/
def Entry.isProper : Entry → Bool
  | .link target => !target.toList.contains '\x00'
  | _ => true

def nameLimit : Nat := 255

def isProperName (name : String) : Bool :=
  name != "" && name != "." && name != ".." && name.utf8ByteSize ≤ nameLimit &&
    name.toList.all fun c => c != '/' && c != '\x00'

@[ext]
structure FileTree where
  entries : List (Location × Entry)
  here : Location
  ordered : entries.Pairwise fun a b => a.1 < b.1
  proper : ∀ e ∈ entries, e.1 ≠ [] ∧ e.1.all isProperName = true ∧ e.2.isProper = true
  closed : ∀ e ∈ entries, e.1.dropLast = [] ∨ (e.1.dropLast, Entry.directory) ∈ entries
  settled : here = [] ∨ (here, Entry.directory) ∈ entries

namespace FileTree

def empty : FileTree where
  entries := []
  here := []
  ordered := .nil
  proper := by simp
  closed := by simp
  settled := .inl rfl

instance : Inhabited FileTree := ⟨empty⟩

instance : DecidableEq FileTree := fun a b =>
  if h : a.entries = b.entries ∧ a.here = b.here then isTrue (FileTree.ext h.1 h.2)
  else isFalse fun e => h ⟨e ▸ rfl, e ▸ rfl⟩

def find? (entries : List (Location × Entry)) (location : Location) : Option Entry :=
  (entries.find? fun e => e.1 == location).map Prod.snd

def entry? (tree : FileTree) (location : Location) : Option Entry :=
  if location = [] then some .directory else find? tree.entries location

def place (location : Location) (entry : Entry) :
    List (Location × Entry) → List (Location × Entry)
  | [] => [(location, entry)]
  | e :: rest =>
    if location < e.1 then (location, entry) :: e :: rest else e :: place location entry rest

theorem mem_place (location : Location) (entry : Entry) (entries : List (Location × Entry))
    (e : Location × Entry) :
    e ∈ place location entry entries ↔ e = (location, entry) ∨ e ∈ entries := by
  induction entries with
  | nil => simp [place]
  | cons head rest ih =>
    simp only [place]
    split
    · simp
    · simp only [List.mem_cons, ih]
      constructor
      · rintro (h | h | h) <;> simp [h]
      · rintro (h | h | h) <;> simp [h]

theorem lt_of_not_lt {a b : Location} (h : ¬a < b) (ne : a ≠ b) : b < a := by
  rcases (Std.Trichotomous.rel_or_eq_or_rel_swap : a < b ∨ a = b ∨ b < a) with lt | eq | gt
  · exact absurd lt h
  · exact absurd eq ne
  · exact gt

theorem place_ordered (location : Location) (entry : Entry) (entries : List (Location × Entry))
    (ordered : entries.Pairwise fun a b => a.1 < b.1)
    (absent : ∀ e ∈ entries, e.1 ≠ location) :
    (place location entry entries).Pairwise fun a b => a.1 < b.1 := by
  induction entries with
  | nil => simp [place]
  | cons head rest ih =>
    rw [List.pairwise_cons] at ordered
    simp only [place]
    split
    · next lt =>
      rw [List.pairwise_cons]
      refine ⟨fun e he => ?_, List.pairwise_cons.2 ordered⟩
      rcases List.mem_cons.1 he with rfl | he
      · exact lt
      · exact List.lt_trans lt (ordered.1 e he)
    · next nlt =>
      rw [List.pairwise_cons]
      refine ⟨fun e he => ?_, ih ordered.2 fun e he => absent e (List.mem_cons_of_mem _ he)⟩
      rcases (mem_place location entry rest e).1 he with rfl | he
      · exact lt_of_not_lt nlt (absent head (List.mem_cons_self ..)).symm
      · exact ordered.1 e he

/-- Whether an entry can be added at a location: it is proper and has a proper name, lies in a
directory, and nothing stands there. -/
def CanAdd (tree : FileTree) (location : Location) (entry : Entry) : Prop :=
  location ≠ [] ∧ location.all isProperName = true ∧ entry.isProper = true ∧
    (location.dropLast = [] ∨ (location.dropLast, Entry.directory) ∈ tree.entries) ∧
    ∀ e ∈ tree.entries, e.1 ≠ location

instance (tree : FileTree) (location : Location) (entry : Entry) :
    Decidable (tree.CanAdd location entry) :=
  inferInstanceAs (Decidable (_ ∧ _ ∧ _ ∧ _ ∧ _))

/-- The tree with an entry at a location, if one can be added there. -/
def add (tree : FileTree) (location : Location) (entry : Entry) : FileTree :=
  if h : tree.CanAdd location entry then
    { entries := place location entry tree.entries
      here := tree.here
      ordered := place_ordered location entry tree.entries tree.ordered h.2.2.2.2
      proper := fun e he => by
        rcases (mem_place location entry tree.entries e).1 he with rfl | he
        · exact ⟨h.1, h.2.1, h.2.2.1⟩
        · exact tree.proper e he
      closed := fun e he => by
        simp only [mem_place]
        rcases (mem_place location entry tree.entries e).1 he with rfl | he
        · exact h.2.2.2.1.imp id .inr
        · exact (tree.closed e he).imp id .inr
      settled := by
        simp only [mem_place]
        exact tree.settled.imp id .inr }
  else tree

/-- An entry whose contents are replaced if it is the file at a location. -/
def refilled (location : Location) (contents : ByteArray) (e : Location × Entry) :
    Location × Entry :=
  match e with
  | (l, .file old) => (l, .file (if l = location then contents else old))
  | e => e

theorem refilled_location (location : Location) (contents : ByteArray) (e : Location × Entry) :
    (refilled location contents e).1 = e.1 := by
  unfold refilled
  split <;> rfl

theorem refilled_isProper (location : Location) (contents : ByteArray) (e : Location × Entry) :
    (refilled location contents e).2.isProper = e.2.isProper := by
  unfold refilled
  split <;> rfl

theorem directory_mem_refilled (location l : Location) (contents : ByteArray)
    (entries : List (Location × Entry)) (h : (l, Entry.directory) ∈ entries) :
    (l, Entry.directory) ∈ entries.map (refilled location contents) :=
  List.mem_map.2 ⟨_, h, rfl⟩

def refill (tree : FileTree) (location : Location) (contents : ByteArray) : FileTree where
  entries := tree.entries.map (refilled location contents)
  here := tree.here
  ordered := by
    rw [List.pairwise_map]
    simpa only [refilled_location] using tree.ordered
  proper := fun e he => by
    obtain ⟨old, mem, rfl⟩ := List.mem_map.1 he
    rw [refilled_location, refilled_isProper]
    exact tree.proper old mem
  closed := fun e he => by
    obtain ⟨old, mem, rfl⟩ := List.mem_map.1 he
    rw [refilled_location]
    exact (tree.closed old mem).imp id (directory_mem_refilled _ _ _ _)
  settled := tree.settled.imp id (directory_mem_refilled _ _ _ _)

/-- The tree whose relative paths begin at a directory, if there is one. -/
def moveTo (tree : FileTree) (location : Location) : FileTree :=
  if h : location = [] ∨ (location, Entry.directory) ∈ tree.entries then
    { tree with here := location, settled := h }
  else tree

end FileTree

end SourceAtlas
