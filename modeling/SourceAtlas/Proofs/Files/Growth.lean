import SourceAtlas.Files.Tree
set_option autoImplicit false

namespace SourceAtlas.FileTree

theorem find?_cons (location : Location) (e : Location × Entry) (rest : List (Location × Entry)) :
    find? (e :: rest) location = if e.1 = location then some e.2 else find? rest location := by
  by_cases here : e.1 = location
  · simp [find?, here]
  · simp [find?, here]

theorem find?_eq_some_of_mem (location : Location) (entry : Entry)
    (entries : List (Location × Entry)) (ordered : entries.Pairwise fun a b => a.1 < b.1)
    (mem : (location, entry) ∈ entries) : find? entries location = some entry := by
  induction entries with
  | nil => exact absurd mem List.not_mem_nil
  | cons head rest ih =>
    rw [List.pairwise_cons] at ordered
    rw [find?_cons]
    rcases List.mem_cons.1 mem with rfl | inRest
    · simp
    · have later := ordered.1 _ inRest
      have apart : head.1 ≠ location := by
        intro same
        rw [same] at later
        exact List.lt_irrefl _ later
      rw [if_neg apart]
      exact ih ordered.2 inRest

theorem mem_of_find? (location : Location) (entry : Entry) (entries : List (Location × Entry))
    (found : find? entries location = some entry) : (location, entry) ∈ entries := by
  induction entries with
  | nil => simp [find?] at found
  | cons head rest ih =>
    rw [find?_cons] at found
    split at found
    · next here =>
      have same : head = (location, entry) := Prod.ext here (Option.some.inj found)
      exact same ▸ List.mem_cons_self ..
    · exact List.mem_cons_of_mem _ (ih found)

theorem find?_place (location : Location) (entry : Entry) (entries : List (Location × Entry))
    (absent : ∀ e ∈ entries, e.1 ≠ location) (other : Location) :
    find? (place location entry entries) other =
      if location = other then some entry else find? entries other := by
  induction entries with
  | nil => rw [place, find?_cons]
  | cons head rest ih =>
    have free := absent head (List.mem_cons_self ..)
    rw [place]
    split
    · rw [find?_cons]
    · rw [find?_cons, find?_cons, ih fun e he => absent e (List.mem_cons_of_mem _ he)]
      by_cases same : location = other
      · rw [if_pos same, if_pos same, if_neg (same ▸ free)]
      · rw [if_neg same, if_neg same]

theorem eq_of_ordered {α : Type} (less : α → α → Prop) (irrefl : ∀ a, ¬ less a a)
    (trans : ∀ a b c, less a b → less b c → less a c) {first second : List α}
    (ordered : first.Pairwise less) (ordered' : second.Pairwise less)
    (same : ∀ a, a ∈ first ↔ a ∈ second) : first = second := by
  have nodup {l : List α} (h : l.Pairwise less) : l.Nodup :=
    h.imp fun {a b} before => by
      rintro rfl
      exact irrefl a before
  have perm := (List.perm_ext_iff_of_nodup (nodup ordered) (nodup ordered')).2 same
  exact perm.eq_of_pairwise (fun a b _ _ before after => absurd (trans a b a before after) (irrefl a))
    ordered ordered'

theorem eq_of_locations {first second : List (Location × Entry)}
    (ordered : first.Pairwise fun a b => a.1 < b.1) (ordered' : second.Pairwise fun a b => a.1 < b.1)
    (same : ∀ e, e ∈ first ↔ e ∈ second) : first = second :=
  eq_of_ordered (fun a b => a.1 < b.1) (fun e => List.lt_irrefl e.1)
    (fun _ _ _ low high => List.lt_trans low high) ordered ordered' same

theorem entry?_def (tree : FileTree) (location : Location) :
    tree.entry? location =
      if location = [] then some .directory else find? tree.entries location := rfl

@[simp] theorem entry?_nil (tree : FileTree) : tree.entry? [] = some .directory := by
  simp [entry?_def]

theorem entry?_eq_some_iff (tree : FileTree) (location : Location) (entry : Entry) :
    tree.entry? location = some entry ↔
      (location = [] ∧ entry = .directory) ∨ (location, entry) ∈ tree.entries := by
  by_cases root : location = []
  · subst root
    have unlisted : ([], entry) ∉ tree.entries := fun mem => (tree.proper _ mem).1 rfl
    simp [unlisted, eq_comm]
  · rw [entry?_def, if_neg root]
    simp only [root, false_and, false_or]
    exact ⟨mem_of_find? _ _ _, find?_eq_some_of_mem _ _ _ tree.ordered⟩

theorem entry?_directory_iff (tree : FileTree) (location : Location) :
    tree.entry? location = some .directory ↔
      location = [] ∨ (location, Entry.directory) ∈ tree.entries := by
  simp [entry?_eq_some_iff]

theorem entry?_here (tree : FileTree) : tree.entry? tree.here = some .directory :=
  (entry?_directory_iff tree _).2 tree.settled

theorem entry?_dropLast {tree : FileTree} {location : Location} {entry : Entry}
    (found : tree.entry? location = some entry) :
    tree.entry? location.dropLast = some .directory := by
  rcases (entry?_eq_some_iff tree location entry).1 found with ⟨rfl, -⟩ | mem
  · simp
  · exact (entry?_directory_iff tree _).2 (tree.closed _ mem)

theorem entry?_none_iff (tree : FileTree) (location : Location) :
    tree.entry? location = none ↔ location ≠ [] ∧ ∀ e ∈ tree.entries, e.1 ≠ location := by
  constructor
  · intro absent
    refine ⟨fun root => by simp [root] at absent, fun e mem same => ?_⟩
    have found := (entry?_eq_some_iff tree location e.2).2 (.inr (same ▸ mem))
    exact absurd (absent.symm.trans found) (by simp)
  · rintro ⟨root, absent⟩
    cases found : tree.entry? location with
    | none => rfl
    | some entry =>
      rcases (entry?_eq_some_iff tree location entry).1 found with ⟨here, -⟩ | mem
      · exact absurd here root
      · exact absurd rfl (absent _ mem)

theorem isProper_of_link {tree : FileTree} {location : Location} {target : String}
    (found : tree.entry? location = some (.link target)) : '\x00' ∉ target.toList := by
  rcases (entry?_eq_some_iff tree location _).1 found with ⟨-, impossible⟩ | mem
  · cases impossible
  · simpa [Entry.isProper] using (tree.proper _ mem).2.2

theorem entry?_isProperName {tree : FileTree} {location : Location} {entry : Entry}
    (found : tree.entry? location = some entry) : location.all isProperName = true := by
  rcases (entry?_eq_some_iff tree location entry).1 found with ⟨rfl, -⟩ | mem
  · rfl
  · exact (tree.proper _ mem).2.1

theorem canAdd_iff (tree : FileTree) (location : Location) (entry : Entry) :
    tree.CanAdd location entry ↔ location.all isProperName = true ∧ entry.isProper = true ∧
      tree.entry? location.dropLast = some .directory ∧ tree.entry? location = none := by
  rw [entry?_directory_iff, entry?_none_iff, CanAdd]
  constructor
  · rintro ⟨root, names, proper, inside, absent⟩
    exact ⟨names, proper, inside, root, absent⟩
  · rintro ⟨names, proper, inside, root, absent⟩
    exact ⟨root, names, proper, inside, absent⟩

theorem add_of_canAdd {tree : FileTree} {location : Location} {entry : Entry}
    (can : tree.CanAdd location entry) :
    (tree.add location entry).entries = place location entry tree.entries ∧
      (tree.add location entry).here = tree.here := by
  rw [add, dif_pos can]
  exact ⟨rfl, rfl⟩

theorem entry?_add {tree : FileTree} {location : Location} {entry : Entry}
    (can : tree.CanAdd location entry) (other : Location) :
    entry? (tree.add location entry) other =
      if location = other then some entry else tree.entry? other := by
  rw [entry?_def, entry?_def, (add_of_canAdd can).1]
  by_cases root : other = []
  · have apart : location ≠ other := fun same => can.1 (same.trans root)
    rw [if_pos root, if_pos root, if_neg apart]
  · rw [if_neg root, if_neg root, find?_place _ _ _ can.2.2.2.2]

theorem add_of_not_canAdd {tree : FileTree} {location : Location} {entry : Entry}
    (can : ¬ tree.CanAdd location entry) : tree.add location entry = tree := by
  rw [add, dif_neg can]

instance : LE FileTree where
  le before after := after.here = before.here ∧
    ∀ location entry, before.entry? location = some entry → after.entry? location = some entry

theorem le_rfl (tree : FileTree) : tree ≤ tree :=
  ⟨rfl, fun _ _ found => found⟩

theorem le_trans {a b c : FileTree} (h₁ : a ≤ b) (h₂ : b ≤ c) : a ≤ c :=
  ⟨h₂.1.trans h₁.1, fun location entry found => h₂.2 _ _ (h₁.2 location entry found)⟩

theorem new_or_kept {before after : FileTree} (grown : before ≤ after) {location : Location}
    {entry : Entry} (stands : after.entry? location = some entry) :
    before.entry? location = none ∨ before.entry? location = some entry := by
  cases held : before.entry? location with
  | none => exact .inl rfl
  | some old => exact .inr ((grown.2 _ _ held).symm.trans stands)

theorem absent_of_le {before after : FileTree} (grown : before ≤ after) {location : Location}
    (absent : after.entry? location = none) : before.entry? location = none := by
  cases held : before.entry? location with
  | none => rfl
  | some old =>
    rw [grown.2 _ _ held] at absent
    cases absent

theorem le_antisymm {a b : FileTree} (h₁ : a ≤ b) (h₂ : b ≤ a) : a = b := by
  have inside {c d : FileTree} (h : c ≤ d) (e : Location × Entry) (mem : e ∈ c.entries) :
      e ∈ d.entries := by
    have found := h.2 _ _ ((entry?_eq_some_iff c e.1 e.2).2 (.inr mem))
    rcases (entry?_eq_some_iff d e.1 e.2).1 found with ⟨root, -⟩ | held
    · exact absurd root (c.proper e mem).1
    · exact held
  have same : a.entries = b.entries :=
    eq_of_locations a.ordered b.ordered fun e => ⟨inside h₁ e, inside h₂ e⟩
  exact FileTree.ext same h₂.1

theorem le_add (tree : FileTree) (location : Location) (entry : Entry) :
    tree ≤ tree.add location entry := by
  by_cases can : tree.CanAdd location entry
  · refine ⟨(add_of_canAdd can).2, fun other old found => ?_⟩
    rw [entry?_add can]
    split
    · next same =>
      subst same
      have absent := ((canAdd_iff tree location entry).1 can).2.2.2
      exact absurd (absent.symm.trans found) (by simp)
    · exact found
  · rw [add_of_not_canAdd can]
    exact le_rfl tree

end SourceAtlas.FileTree
