import SourceAtlas.Proofs.Python.ModuleName
import SourceAtlas.Python.Node
set_option autoImplicit false

namespace SourceAtlas.Python

def Kind.isTold : Kind → Bool
  | .importStatement | .importFromStatement | .futureImportStatement => true
  | .classDefinition | .functionDefinition => true
  | _ => false

namespace Node

/-- A node is the one at the top of a tree or below it. -/
inductive IsIn (node : Node) : Node → Prop
  | root : IsIn node node
  | inside {child root : Node} (listed : child ∈ root.children) (inside : IsIn node child) :
      IsIn node root

theorem IsIn.trans {first second third : Node} (low : first.IsIn second) (high : second.IsIn third) :
    first.IsIn third := by
  induction high with
  | root => exact low
  | inside listed _ ih => exact .inside listed ih

theorem isIn_of_mem_childrenAt {node child : Node} {field : Field}
    (mem : child ∈ node.childrenAt field) : child.IsIn node :=
  .inside (List.mem_filter.1 mem).1 .root

theorem isIn_of_childAt? {node child : Node} {field : Field}
    (found : node.childAt? field = some child) : child.IsIn node :=
  .inside (List.mem_of_find?_eq_some found) .root

def IsTarget (child : Node) : Prop :=
  child.kind = .dottedName ∨
    child.kind = .aliasedImport ∧ ∃ target, child.childAt? .name = some target ∧
      target.kind = .dottedName

structure Fits (node : Node) : Prop where
  plain : node.kind = .importStatement → ∀ child ∈ node.childrenAt .name, child.IsTarget
  source : node.kind = .importFromStatement → ∃ module, node.childAt? .moduleName = some module ∧
    (module.kind = .dottedName ∨ module.kind = .relativeImport)
  declared : node.kind = .classDefinition ∨ node.kind = .functionDefinition →
    ∃ name, node.childAt? .name = some name ∧ IsIdentifier name.text
  dotted : node.kind = .dottedName → ∃ name : DottedName, node.text.toList = name.written
  token : node.label.isNamed = false → node.kind.isTold = false ∧
    ∀ child ∈ node.children, child.label.isNamed = false
  comment : node.kind = .comment → node.children = []

/-- What the grammar says of the tree of a source text. -/
structure IsModule (root : Node) : Prop where
  top : root.kind = .other "module"
  fits : ∀ node : Node, node.IsIn root → node.Fits

theorem forall_isIn_iff {P : Node → Prop} (label : Label) (children : List Node) :
    (∀ node : Node, node.IsIn (mk label children) → P node) ↔
      P (mk label children) ∧ ∀ child ∈ children, ∀ node : Node, node.IsIn child → P node := by
  constructor
  · intro each
    exact ⟨each _ .root, fun child listed node inside => each node (.inside listed inside)⟩
  · rintro ⟨top, each⟩ node (_ | ⟨listed, inside⟩)
    · exact top
    · exact each _ listed node inside

theorem fits_of_untold {node : Node} (untold : node.kind.isTold = false)
    (undotted : node.kind ≠ .dottedName)
    (token : node.label.isNamed = false → ∀ child ∈ node.children, child.label.isNamed = false)
    (comment : node.kind = .comment → node.children = []) : node.Fits := by
  have silent {kind : Kind} (told : kind.isTold = true) : node.kind ≠ kind := by
    rintro rfl
    rw [untold] at told
    cases told
  exact
    { plain := fun kind => absurd kind (silent rfl)
      source := fun kind => absurd kind (silent rfl)
      declared := fun kind => kind.elim (absurd · (silent rfl)) (absurd · (silent rfl))
      dotted := fun kind => absurd kind undotted
      token := fun unnamed => ⟨untold, token unnamed⟩
      comment }

theorem forall_fits {label : Label} {children : List Node} (named : label.isNamed = true)
    (untold : label.kind.isTold = false) (undotted : label.kind ≠ .dottedName)
    (visible : label.kind ≠ .comment)
    (below : ∀ child ∈ children, ∀ node : Node, node.IsIn child → node.Fits) :
    ∀ node : Node, node.IsIn (mk label children) → node.Fits := by
  refine (forall_isIn_iff label children).2 ⟨fits_of_untold untold undotted ?_ ?_, below⟩
  · exact fun unnamed => absurd (named.symm.trans unnamed) nofun
  · exact fun comment => absurd comment visible

theorem forall_fits_of_leaf {label : Label} (untold : label.kind.isTold = false)
    (undotted : label.kind ≠ .dottedName) : ∀ node : Node, node.IsIn (mk label []) → node.Fits :=
  (forall_isIn_iff label []).2 ⟨fits_of_untold untold undotted (fun _ => nofun) fun _ => rfl, nofun⟩

def named (kind : Kind) (field : Option Field) (start : Position) (text : String)
    (children : List Node) : Node :=
  .mk ⟨kind, field, true, false, start, text⟩ children

def token (start : Position) (text : String) : Node :=
  .mk ⟨.other text, none, false, false, start, text⟩ []

/-- The tree of a text that is one literal in triple quotes, but for the node of the closing ones. -/
def documented (body blank : String) : Node :=
  let quotes := "\"\"\""
  let literal := quotes ++ body ++ quotes
  named (.other "module") none ⟨0, 0⟩ (literal ++ blank)
    [named .expressionStatement none ⟨0, 0⟩ literal
      [named .string none ⟨0, 0⟩ literal
        [named (.other "string_start") none ⟨0, 0⟩ quotes [],
          named (.other "string_content") none ⟨0, 3⟩ body []]]]

theorem documented_isModule (body blank : String) : (documented body blank).IsModule := by
  refine ⟨rfl, forall_fits rfl rfl nofun nofun (List.forall_mem_singleton.2 ?_)⟩
  refine forall_fits rfl rfl nofun nofun (List.forall_mem_singleton.2 ?_)
  refine forall_fits rfl rfl nofun nofun (List.forall_mem_cons.2 ⟨?_, List.forall_mem_singleton.2 ?_⟩)
  · exact forall_fits_of_leaf rfl nofun
  · exact forall_fits_of_leaf rfl nofun

end Node

mutual

theorem Node.fault?_of_hasError : (root : Node) → root.hasError = true →
    ∃ node, root.fault? = some node ∧ node.label.isFault = true ∧ node.IsIn root
  | .mk label children, faulty => by
    rw [Node.fault?]
    by_cases here : label.isFault = true
    · exact ⟨.mk label children, if_pos here, here, .root⟩
    · rw [Node.hasError, Bool.or_eq_true] at faulty
      obtain ⟨node, found, fault, child, listed, inside⟩ :=
        faultAmong?_of_haveError children (faulty.resolve_left here)
      exact ⟨node, (if_neg here).trans found, fault, .inside listed inside⟩

theorem faultAmong?_of_haveError : (nodes : List Node) → haveError nodes = true →
    ∃ node, faultAmong? nodes = some node ∧ node.label.isFault = true ∧
      ∃ child ∈ nodes, node.IsIn child
  | [], faulty => absurd faulty Bool.false_ne_true
  | child :: rest, faulty => by
    rw [faultAmong?]
    by_cases here : child.hasError = true
    · obtain ⟨node, found, fault, inside⟩ := child.fault?_of_hasError here
      rw [if_pos here, found]
      exact ⟨node, rfl, fault, child, List.mem_cons_self .., inside⟩
    · rw [haveError, Bool.or_eq_true] at faulty
      obtain ⟨node, found, fault, other, listed, inside⟩ :=
        faultAmong?_of_haveError rest (faulty.resolve_left here)
      exact ⟨node, (if_neg here).trans found, fault, other, List.mem_cons_of_mem _ listed, inside⟩

end

/-- A tree with errors is complained about at the place of one of them. -/
theorem complaint_of_hasError {root : Node} (faulty : root.hasError = true) :
    ∃ node : Node, node.label.isFault = true ∧ node.IsIn root ∧ root.complaint =
      "invalid syntax at line " ++ toString (node.label.start.row + 1) ++ ", column " ++
        toString (node.label.start.column + 1) := by
  obtain ⟨node, found, fault, inside⟩ := root.fault?_of_hasError faulty
  exact ⟨node, fault, inside, by rw [Node.complaint, found]⟩

end SourceAtlas.Python
