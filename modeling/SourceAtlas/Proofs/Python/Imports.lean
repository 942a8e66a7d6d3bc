import SourceAtlas.Proofs.Python.Collection
set_option autoImplicit false

namespace SourceAtlas.Python

open SourceAtlas.Text

/-- A dotted name that an import of a tree can record: it is the text of a node, or that of a future
import, which is no node of its own. -/
inductive IsImported (root : Node) (name : DottedName) : Prop
  | node {node : Node} (inside : node.IsIn root) (dotted : node.kind = .dottedName)
      (written : name.written = node.text.toList)
  | future (written : name.written = "__future__".toList)

theorem exists_imported {root node : Node} {spelling : String} (grammar : root.IsModule)
    (inside : node.IsIn root) (dotted : node.kind = .dottedName) (spelt : Spelt node spelling) :
    ∃ name : DottedName, name.recorded = spelling ∧ IsImported root name := by
  obtain ⟨name, written⟩ := (grammar.fits node inside).dotted dotted
  refine ⟨name, ?_, .node inside dotted written.symm⟩
  rw [DottedName.recorded, ← written, ← spelt, String.ofList_toList]

theorem exists_imported_of_mentions {root item : Node} {spelling : String} (grammar : root.IsModule)
    (inside : item.IsIn root) (mentions : Mentions item spelling) :
    ∃ name : DottedName, name.recorded = spelling ∧ IsImported root name := by
  cases mentions with
  | plain dotted spelt => exact exists_imported grammar inside dotted spelt
  | aliased _ found dotted spelt =>
    exact exists_imported grammar ((Node.isIn_of_childAt? found).trans inside) dotted spelt

theorem isIdentifier_future : IsIdentifier "__future__" :=
  ⟨'_', "_future__".toList, rfl, by decide +kernel, List.all_eq_true.1 (by decide +kernel)⟩

def Records (root : Node) (modules : List String) : Prop :=
  ∃ names : List DottedName, modules = names.map DottedName.recorded ∧
    ∀ name ∈ names, IsImported root name

section Tree

variable {root : Node}

theorem Records.nil : Records root [] :=
  ⟨[], rfl, nofun⟩

theorem Records.append {modules modules' : List String} (first : Records root modules)
    (second : Records root modules') : Records root (modules ++ modules') := by
  obtain ⟨names, rfl, each⟩ := first
  obtain ⟨names', rfl, each'⟩ := second
  exact ⟨names ++ names', by simp, List.forall_mem_append.2 ⟨each, each'⟩⟩

theorem Records.singleton {spelling : String}
    (found : ∃ name : DottedName, name.recorded = spelling ∧ IsImported root name) :
    Records root [spelling] := by
  obtain ⟨name, rfl, imported⟩ := found
  exact ⟨[name], rfl, List.forall_mem_singleton.2 imported⟩

theorem records_of_targets {node : Node} {modules : List String} (grammar : root.IsModule)
    (inside : node.IsIn root) (targets : Targets node modules) : Records root modules := by
  cases targets with
  | plain _ each =>
    have below : ∀ child ∈ node.childrenAt .name, child.IsIn root := fun child mem =>
      (Node.isIn_of_mem_childrenAt mem).trans inside
    generalize node.childrenAt .name = children at each below
    induction each with
    | nil => exact .nil
    | cons first _ ih =>
      have here := exists_imported_of_mentions grammar (below _ (List.mem_cons_self ..)) first
      exact (Records.singleton here).append
        (ih fun child mem => below child (List.mem_cons_of_mem _ mem))
  | absolute _ found dotted spelt =>
    have module := (Node.isIn_of_childAt? found).trans inside
    exact .singleton (exists_imported grammar module dotted spelt)
  | relative _ found _ first spelt =>
    have module := (Node.isIn_of_childAt? found).trans inside
    have listed := (List.mem_filter.1 (List.mem_of_find?_eq_some first)).1
    have dotted := List.find?_some first
    exact .singleton (exists_imported grammar ((Node.IsIn.inside listed .root).trans module)
      (by simpa using dotted) spelt)
  | package => exact .nil
  | future => exact .singleton ⟨.ofIdentifier "__future__" isIdentifier_future, rfl, .future rfl⟩

theorem records_imports (grammar : root.IsModule) : Records root root.facts.imports := by
  have within (o : Occurrence) (mem : o ∈ root.occurrences) : o.node.IsIn root :=
    ((mem_occurrences_iff (isHead_of_isModule grammar) o).1 mem).stands.isIn
  rw [facts_eq]
  generalize root.occurrences = found at within
  induction found with
  | nil => exact .nil
  | cons o found ih =>
    have inside := within o (List.mem_cons_self ..)
    have here : Records root o.node.modules := by
      cases isImport : o.node.kind.isImport with
      | true => exact records_of_targets grammar inside (targets_modules grammar inside isImport)
      | false => exact modules_eq_nil isImport ▸ .nil
    exact here.append (ih fun other mem => within other (List.mem_cons_of_mem _ mem))

end Tree

/-- The imports of an accepted text are dotted names of its tree, recorded without blanks. A recorded
name is a module name just when all the layout in it is blank, and in the same case it refers to the
same modules as the name without any layout. -/
theorem imports_of_layout [Parser] (text : String) (root : Node)
    (parsed : Parser.tree? (withoutMark text) = some root) (sound : root.hasError = false)
    (grammar : root.IsModule) :
    ∃ facts, understand text = .ok facts ∧ ∃ names : List DottedName,
      facts.imports = names.map DottedName.recorded ∧
      (∀ name ∈ names, IsImported root name ∧ name.recorded ≠ "" ∧
        (∀ c ∈ name.recorded.toList, isBlank c = false) ∧
        (IsModuleName name.recorded ↔ name.IsPlain) ∧
        ∀ other : DottedName, other.parts = name.parts → other.IsPlain →
          ((∀ targets, resolve targets name.recorded = resolve targets other.recorded) ↔
            name.IsPlain)) ∧
      ((∀ module ∈ facts.imports, IsModuleName module) ↔ ∀ name ∈ names, name.IsPlain) := by
  obtain ⟨names, recorded, each⟩ := records_imports grammar
  refine ⟨root.facts, ?_, names, recorded, fun name mem => ⟨each name mem, name.recorded_ne_empty,
    name.recorded_visible, name.isModuleName_recorded_iff, fun other same plain => ?_⟩, ?_⟩
  · rw [understand, parsed]
    exact if_neg (by simp [sound])
  · have meant : other.recorded = name.meant := by
      rw [other.isPlain_iff.1 plain, DottedName.meant, DottedName.meant, same]
    rw [meant]
    exact name.resolve_recorded_iff
  · rw [recorded, List.forall_mem_map]
    exact forall₂_congr fun name _ => name.isModuleName_recorded_iff

def importing (written : String) : Node :=
  .named (.other "module") none ⟨0, 0⟩ ("import " ++ written ++ "\n") [.imported ⟨0, 0⟩ written]

theorem importing_isModule {written : String} (name : DottedName)
    (same : written.toList = name.written) : (importing written).IsModule :=
  ⟨rfl, Node.forall_fits rfl rfl nofun nofun
    (List.forall_mem_singleton.2 (Node.fits_imported ⟨0, 0⟩ name same))⟩

def DottedName.ofGaps {before behind : List Char} (front : IsGap before) (back : IsGap behind) :
    DottedName where
  parts := ["a", "b"]
  written := "a".toList ++ before ++ '.' :: (behind ++ "b".toList)
  identifiers := List.forall_mem_cons.2 ⟨⟨'a', [], rfl, by decide +kernel, nofun⟩,
    List.forall_mem_singleton.2 ⟨'b', [], rfl, by decide +kernel, nofun⟩⟩
  spells := .next "a" front back (.one "b")

theorem imports_of_layout_spaced :
    (importing "a . b").hasError = false ∧ (importing "a . b").IsModule ∧
      ∃ facts, @understand ⟨fun _ => some (importing "a . b")⟩ "import a . b\n" = .ok facts ∧
        ∃ names : List DottedName, facts.imports = names.map DottedName.recorded ∧
          ((∀ module ∈ facts.imports, IsModuleName module) ↔ ∀ name ∈ names, name.IsPlain) := by
  let _ : Parser := ⟨fun _ => some (importing "a . b")⟩
  have sound : (importing "a . b").hasError = false := by decide +kernel
  have grammar : (importing "a . b").IsModule :=
    importing_isModule (.ofGaps (.blank rfl .nil) (.blank rfl .nil)) rfl
  obtain ⟨facts, understood, names, recorded, -, exactly⟩ :=
    imports_of_layout "import a . b\n" (importing "a . b") rfl sound grammar
  exact ⟨sound, grammar, facts, understood, names, recorded, exactly⟩

/-- A backslash at a line end is left in the name, which then refers to nothing. -/
theorem backslash_recorded :
    (importing "a.\\\nb").hasError = false ∧ (importing "a.\\\nb").IsModule ∧
      (importing "a.\\\nb").facts = { imports := ["a.\\b"] } ∧ ¬ IsModuleName "a.\\b" ∧
      (importing "a.b").facts = { imports := ["a.b"] } ∧
      resolve [⟨"a.b", "file_a_b", .other⟩] "a.\\b" = [] ∧
      resolve [⟨"a.b", "file_a_b", .other⟩] "a.b" = [⟨"a.b", "file_a_b", .other⟩] := by
  refine ⟨by decide +kernel, ?_, by decide +kernel, fun isName => ?_, by decide +kernel,
    by decide +kernel, by decide +kernel⟩
  · exact importing_isModule (.ofGaps .nil (.continued (.inl rfl) .nil)) rfl
  · exact absurd (isName.visible '\\' (by decide)).2 (by decide)

end SourceAtlas.Python
