import SourceAtlas.Proofs.Python.Levels
import Mathlib.Data.List.Forall2
set_option autoImplicit false

namespace SourceAtlas.Python

def Node.modules (node : Node) : List String :=
  match node.kind with
  | .importStatement => plainImports node
  | .importFromStatement => (fromModule? node).toList
  | .futureImportStatement => ["__future__"]
  | _ => []

def Node.defined (kind : Kind) (node : Node) : List String :=
  if node.kind = kind then (definitionName? node).toList else []

theorem collect_eq (facts : Facts) (node : Node) : facts.collect node =
    { facts with
      imports := facts.imports ++ node.modules
      classes := facts.classes ++ node.defined .classDefinition
      functions := facts.functions ++ node.defined .functionDefinition } := by
  rw [Facts.collect, Node.modules, Node.defined, Node.defined]
  cases node.kind <;> simp

theorem foldl_collect (nodes : List Node) (facts : Facts) : nodes.foldl Facts.collect facts =
    { facts with
      imports := facts.imports ++ nodes.flatMap Node.modules
      classes := facts.classes ++ nodes.flatMap (Node.defined .classDefinition)
      functions := facts.functions ++ nodes.flatMap (Node.defined .functionDefinition) } := by
  induction nodes generalizing facts with
  | nil => simp
  | cons node nodes ih => rw [List.foldl_cons, ih, collect_eq]; simp

theorem facts_eq (root : Node) : root.facts =
    { imports := root.occurrences.flatMap fun o => o.node.modules
      docstring := root.documentation?.bind docstring?
      classes := root.occurrences.flatMap fun o => o.node.defined .classDefinition
      functions := root.occurrences.flatMap fun o => o.node.defined .functionDefinition } := by
  rw [Node.facts, foldl_collect, flatMap_visited, flatMap_visited, flatMap_visited]
  · simp
  all_goals
    intro node untold
    simp only [Node.modules, Node.defined]
    cases kind : node.kind <;> simp_all [Kind.isTold]

def Spelt (node : Node) (name : String) : Prop :=
  name.toList = Text.ink node.text.toList

/-- What an item of an import statement names: itself, or what stands before the alias. -/
inductive Mentions : Node → String → Prop
  | plain {item : Node} {name : String} (dotted : item.kind = .dottedName) (spelt : Spelt item name) :
      Mentions item name
  | aliased {item target : Node} {name : String} (renamed : item.kind = .aliasedImport)
      (found : item.childAt? .name = some target) (dotted : target.kind = .dottedName)
      (spelt : Spelt target name) : Mentions item name

inductive Targets : Node → List String → Prop
  | plain {node : Node} {names : List String} (kind : node.kind = .importStatement)
      (each : List.Forall₂ Mentions (node.childrenAt .name) names) : Targets node names
  | absolute {node module : Node} {name : String} (kind : node.kind = .importFromStatement)
      (found : node.childAt? .moduleName = some module) (dotted : module.kind = .dottedName)
      (spelt : Spelt module name) : Targets node [name]
  | relative {node module target : Node} {name : String} (kind : node.kind = .importFromStatement)
      (found : node.childAt? .moduleName = some module) (dots : module.kind = .relativeImport)
      (first : module.namedChildren.find? (fun child => child.kind == .dottedName) = some target)
      (spelt : Spelt target name) : Targets node [name]
  | package {node module : Node} (kind : node.kind = .importFromStatement)
      (found : node.childAt? .moduleName = some module) (dots : module.kind = .relativeImport)
      (bare : ∀ child ∈ module.namedChildren, child.kind ≠ .dottedName) : Targets node []
  | future {node : Node} (kind : node.kind = .futureImportStatement) : Targets node ["__future__"]

def Declares (node : Node) (name : String) : Prop :=
  IsIdentifier name ∧ ∃ child, node.childAt? .name = some child ∧ child.text = name

theorem dottedText?_eq {node : Node} (fits : node.Fits) (dotted : node.kind = .dottedName) :
    ∃ name, dottedText? node = some name ∧ Spelt node name := by
  obtain ⟨name, written⟩ := fits.dotted dotted
  have shown : (Text.ink node.text.toList).isEmpty = false := by
    rw [written, List.isEmpty_eq_false_iff]
    exact name.spells.ink_ne_nil name.identifiers
  refine ⟨name.recorded, ?_, ?_⟩
  · rw [dottedText?, ← Text.ink, shown, if_neg Bool.false_ne_true, written, DottedName.recorded]
  · rw [Spelt, written, DottedName.recorded, String.toList_ofList]

theorem mentions_plainImports {root node : Node} (grammar : root.IsModule) (inside : node.IsIn root)
    (kind : node.kind = .importStatement) :
    List.Forall₂ Mentions (node.childrenAt .name) (plainImports node) := by
  have items := (grammar.fits node inside).plain kind
  have below : ∀ child ∈ node.childrenAt .name, child.IsIn root := fun child mem =>
    (Node.isIn_of_mem_childrenAt mem).trans inside
  rw [plainImports]
  generalize node.childrenAt .name = children at items below
  induction children with
  | nil => exact .nil
  | cons child children ih =>
    have later := ih (fun other mem => items other (List.mem_cons_of_mem _ mem))
      fun other mem => below other (List.mem_cons_of_mem _ mem)
    have here := below child (List.mem_cons_self ..)
    rcases items child (List.mem_cons_self ..) with dotted | ⟨renamed, target, found, dotted⟩
    · obtain ⟨name, told, spelt⟩ := dottedText?_eq (grammar.fits child here) dotted
      rw [List.filterMap_cons, dotted]
      simp only [Option.bind_some, told]
      exact .cons (.plain dotted spelt) later
    · have inChild := (Node.isIn_of_childAt? found).trans here
      obtain ⟨name, told, spelt⟩ := dottedText?_eq (grammar.fits target inChild) dotted
      rw [List.filterMap_cons, renamed]
      simp only [found, Option.bind_some, told]
      exact .cons (.aliased renamed found dotted spelt) later

/-- Whether a node is an import statement of any kind. -/
def Kind.isImport : Kind → Bool
  | .importStatement | .importFromStatement | .futureImportStatement => true
  | _ => false

theorem modules_eq_nil {node : Node} (other : node.kind.isImport = false) : node.modules = [] := by
  rw [Node.modules]
  cases kind : node.kind <;> first | rfl | (rw [kind] at other; cases other)

theorem targets_modules {root node : Node} (grammar : root.IsModule) (inside : node.IsIn root)
    (isImport : node.kind.isImport = true) : Targets node node.modules := by
  have kinds : node.kind = .importStatement ∨ node.kind = .importFromStatement ∨
      node.kind = .futureImportStatement := by
    cases kind : node.kind <;> simp_all [Kind.isImport]
  rw [Node.modules]
  rcases kinds with plain | source | future
  · rw [plain]
    exact .plain plain (mentions_plainImports grammar inside plain)
  · rw [source]
    obtain ⟨module, found, dotted | dots⟩ := (grammar.fits node inside).source source
    · have below := (Node.isIn_of_childAt? found).trans inside
      obtain ⟨name, told, spelt⟩ := dottedText?_eq (grammar.fits module below) dotted
      have same : fromModule? node = some name := by
        rw [fromModule?, found, Option.bind_some, dotted]
        exact told
      simp only [same, Option.toList_some]
      exact .absolute source found dotted spelt
    · have same : fromModule? node =
          (module.namedChildren.find? fun child => child.kind == .dottedName).bind dottedText? := by
        rw [fromModule?, found, Option.bind_some, dots]
      cases first : module.namedChildren.find? fun child => child.kind == .dottedName with
      | none =>
        rw [first] at same
        simp only [same, Option.bind_none, Option.toList_none]
        refine .package source found dots fun child mem dotted => ?_
        have other := List.find?_eq_none.1 first child mem
        simp [dotted] at other
      | some target =>
        have dotted : target.kind = .dottedName := by simpa using List.find?_some first
        have listed := (List.mem_filter.1 (List.mem_of_find?_eq_some first)).1
        have below : target.IsIn root :=
          (Node.IsIn.inside listed .root).trans ((Node.isIn_of_childAt? found).trans inside)
        obtain ⟨name, told, spelt⟩ := dottedText?_eq (grammar.fits target below) dotted
        rw [first, Option.bind_some, told] at same
        simp only [same, Option.toList_some]
        exact .relative source found dots first spelt
  · rw [future]
    exact .future future

theorem flatMap_filter_of_silent {α β : Type} (p : α → Bool) (f : α → List β) (items : List α)
    (silent : ∀ a, p a = false → f a = []) : (items.filter p).flatMap f = items.flatMap f := by
  induction items with
  | nil => rfl
  | cons a items ih =>
    cases here : p a with
    | true => rw [List.filter_cons_of_pos here, List.flatMap_cons, List.flatMap_cons, ih]
    | false =>
      rw [List.filter_cons_of_neg (by simp [here]), List.flatMap_cons, silent a here, ih,
        List.nil_append]

theorem forall₂_declares {items : List Occurrence} (named : ∀ o ∈ items,
    ∃ child, o.node.childAt? .name = some child ∧ IsIdentifier child.text) :
    List.Forall₂ (fun o name => Declares o.node name) items
      (items.flatMap fun o => (definitionName? o.node).toList) := by
  induction items with
  | nil => exact .nil
  | cons o items ih =>
    obtain ⟨child, found, identifier⟩ := named o (List.mem_cons_self ..)
    have name : definitionName? o.node = some child.text := by rw [definitionName?, found]; rfl
    rw [List.flatMap_cons, name, Option.toList_some, List.singleton_append]
    exact .cons ⟨identifier, child, found, rfl⟩
      (ih fun other mem => named other (List.mem_cons_of_mem _ mem))

theorem forall₂_defined {root : Node} (grammar : root.IsModule) {found : List Occurrence}
    (inside : ∀ o ∈ found, o.node.IsIn root) {kind : Kind}
    (declares : kind = .classDefinition ∨ kind = .functionDefinition) :
    List.Forall₂ (fun o name => Declares o.node name) (found.filter fun o => o.node.kind = kind)
      (found.flatMap fun o => o.node.defined kind) := by
  have silent : ∀ o : Occurrence, decide (o.node.kind = kind) = false → o.node.defined kind = [] :=
    fun o other => if_neg (of_decide_eq_false other)
  have names : ∀ o ∈ found.filter fun o => o.node.kind = kind,
      o.node.defined kind = (definitionName? o.node).toList :=
    fun o mem => if_pos (of_decide_eq_true (List.mem_filter.1 mem).2)
  rw [← flatMap_filter_of_silent _ _ found silent, List.flatMap_congr names]
  refine forall₂_declares fun o mem => ?_
  obtain ⟨held, same⟩ := List.mem_filter.1 mem
  refine (grammar.fits o.node (inside o held)).declared ?_
  rwa [of_decide_eq_true same]

theorem isHead_of_isModule {root : Node} (grammar : root.IsModule) : IsHead root := by
  rw [IsHead, grammar.top]
  exact ⟨rfl, by decide⟩

/-- The facts of an accepted text come from the nodes of its tree that stand anywhere below, each of
them once: lower levels first, and within a level from left to right. The imports are the targets of
the import statements among them, the classes and functions are the names of the definitions. -/
theorem facts_by_level [Parser] (text : String) (root : Node)
    (parsed : Parser.tree? (withoutMark text) = some root) (sound : root.hasError = false)
    (grammar : root.IsModule) :
    ∃ facts, understand text = .ok facts ∧ ∃ found : List Occurrence,
      found.Pairwise Occurrence.Before ∧
      (∀ occurrence, occurrence ∈ found ↔ Stands root occurrence) ∧
      (∃ targets, facts.imports = targets.flatten ∧
        List.Forall₂ (fun o names => Targets o.node names)
          (found.filter fun o => o.node.kind.isImport) targets) ∧
      List.Forall₂ (fun o name => Declares o.node name)
        (found.filter fun o => o.node.kind = .classDefinition) facts.classes ∧
      List.Forall₂ (fun o name => Declares o.node name)
        (found.filter fun o => o.node.kind = .functionDefinition) facts.functions := by
  have each (o : Occurrence) : o ∈ root.occurrences ↔ Stands root o :=
    (mem_occurrences_iff (isHead_of_isModule grammar) o).trans (met_iff_stands grammar o)
  have within {o : Occurrence} (mem : o ∈ root.occurrences) : o.node.IsIn root :=
    ((each o).1 mem).isIn
  refine ⟨root.facts, ?_, root.occurrences, ?_, each, ?_, ?_, ?_⟩
  · rw [understand, parsed]
    exact if_neg (by simp [sound])
  · exact occurrences_ordered _ _ _ (List.pairwise_singleton _ _)
  · refine ⟨(root.occurrences.filter fun o => o.node.kind.isImport).map fun o => o.node.modules,
      ?_, ?_⟩
    · rw [facts_eq, ← List.flatMap_def, flatMap_filter_of_silent]
      exact fun o other => modules_eq_nil other
    · rw [List.forall₂_map_right_iff, List.forall₂_same]
      intro o mem
      obtain ⟨held, isImport⟩ := List.mem_filter.1 mem
      exact targets_modules grammar (within held) isImport
  · rw [facts_eq]
    exact forall₂_defined grammar (fun o => within) (.inl rfl)
  · rw [facts_eq]
    exact forall₂_defined grammar (fun o => within) (.inr rfl)

namespace Node

/-- `import a.b`, where the name may be written in any way. -/
def imported (start : Position) (written : String) : Node :=
  let place : Position := ⟨start.row, start.column + 7⟩
  named .importStatement none start ("import " ++ written)
    [token start "import", named .dottedName (some .name) place written []]

theorem fits_imported (start : Position) {written : String} (name : DottedName)
    (same : written.toList = name.written) :
    ∀ node : Node, node.IsIn (imported start written) → node.Fits := by
  rw [imported, named, forall_isIn_iff]
  refine ⟨⟨fun _ child mem => ?_, nofun, nofun, nofun, nofun, nofun⟩, ?_⟩
  · obtain rfl : child = named .dottedName (some .name) ⟨start.row, start.column + 7⟩ written [] := by
      simpa [childrenAt, children, named, token, label] using mem
    exact .inl rfl
  refine List.forall_mem_cons.2 ⟨forall_fits_of_leaf rfl nofun, ?_⟩
  refine List.forall_mem_singleton.2 ((forall_isIn_iff _ _).2 ⟨?_, nofun⟩)
  exact ⟨nofun, nofun, nofun, fun _ => ⟨name, same⟩, nofun, nofun⟩

end Node

def DottedName.ofIdentifier (part : String) (identifier : IsIdentifier part) : DottedName :=
  ⟨[part], part.toList, List.forall_mem_singleton.2 identifier, .one part⟩

/-- A definition with an import in it, and an import behind it. -/
def lateImport : Node :=
  .named (.other "module") none ⟨0, 0⟩ "def f():\n    import b\nimport a\n"
    [.named .functionDefinition none ⟨0, 0⟩ "def f():\n    import b"
      [.token ⟨0, 0⟩ "def", .named (.other "identifier") (some .name) ⟨0, 4⟩ "f" [],
        .named (.other "parameters") (some (.other "parameters")) ⟨0, 5⟩ "()"
          [.token ⟨0, 5⟩ "(", .token ⟨0, 6⟩ ")"],
        .token ⟨0, 7⟩ ":",
        .named .block (some (.other "body")) ⟨1, 4⟩ "import b" [.imported ⟨1, 4⟩ "b"]],
      .imported ⟨2, 0⟩ "a"]

theorem lateImport_isModule : lateImport.IsModule := by
  have identifiers : IsIdentifier "a" ∧ IsIdentifier "b" ∧ IsIdentifier "f" :=
    ⟨⟨'a', [], rfl, by decide +kernel, nofun⟩, ⟨'b', [], rfl, by decide +kernel, nofun⟩,
      ⟨'f', [], rfl, by decide +kernel, nofun⟩⟩
  have a := Node.fits_imported ⟨2, 0⟩ (.ofIdentifier "a" identifiers.1) rfl
  have b := Node.fits_imported ⟨1, 4⟩ (.ofIdentifier "b" identifiers.2.1) rfl
  refine ⟨rfl, Node.forall_fits rfl rfl nofun nofun ?_⟩
  refine List.forall_mem_cons.2 ⟨(Node.forall_isIn_iff _ _).2 ⟨?_, ?_⟩, List.forall_mem_singleton.2 a⟩
  · exact ⟨nofun, nofun, fun _ => ⟨_, rfl, identifiers.2.2⟩, nofun, nofun, nofun⟩
  simp only [List.forall_mem_cons]
  refine ⟨?_, ?_, Node.forall_fits rfl rfl nofun nofun ?_, ?_, ?_, nofun⟩
  · exact Node.forall_fits_of_leaf rfl nofun
  · exact Node.forall_fits_of_leaf rfl nofun
  · exact List.forall_mem_cons.2 ⟨Node.forall_fits_of_leaf rfl nofun,
      List.forall_mem_singleton.2 (Node.forall_fits_of_leaf rfl nofun)⟩
  · exact Node.forall_fits_of_leaf rfl nofun
  · exact Node.forall_fits rfl rfl nofun nofun (List.forall_mem_singleton.2 b)

theorem facts_by_level_late : lateImport.hasError = false ∧ lateImport.IsModule ∧
    ∃ facts, @understand ⟨fun _ => some lateImport⟩ lateImport.text = .ok facts ∧
      ∃ found : List Occurrence, found.Pairwise Occurrence.Before ∧
        (∀ occurrence, occurrence ∈ found ↔ Stands lateImport occurrence) ∧
        List.Forall₂ (fun o name => Declares o.node name)
          (found.filter fun o => o.node.kind = .functionDefinition) facts.functions := by
  let _ : Parser := ⟨fun _ => some lateImport⟩
  have sound : lateImport.hasError = false := by decide +kernel
  obtain ⟨facts, understood, found, ordered, each, -, -, functions⟩ :=
    facts_by_level lateImport.text lateImport rfl sound lateImport_isModule
  exact ⟨sound, lateImport_isModule, facts, understood, found, ordered, each, functions⟩

example : lateImport.facts = { imports := ["a", "b"], functions := ["f"] } := by decide +kernel

end SourceAtlas.Python
