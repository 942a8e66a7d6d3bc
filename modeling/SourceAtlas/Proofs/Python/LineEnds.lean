import SourceAtlas.Proofs.Python.Collection
import SourceAtlas.Proofs.Python.Continuation
set_option autoImplicit false

namespace SourceAtlas.Python

open SourceAtlas.Text

/-- A node of a text as it is in the text with carriage returns. Where it starts is left open, and so
is what most nodes span: a comment has the carriage return of its line. -/
structure Label.IsReturned (label label' : Label) : Prop where
  kind : label'.kind = label.kind
  field : label'.field = label.field
  named : label'.isNamed = label.isNamed
  missing : label'.isMissing = label.isMissing
  text : label.kind = .string ∨ label.kind = .dottedName ∨ label.field = some .name →
    label'.text = Text.returned label.text

/-- The tree of a text and one of the same shape, of the text with carriage returns. -/
inductive Node.IsReturned : Node → Node → Prop
  | mk {label label' : Label} {children children' : List Node} (same : label.IsReturned label')
      (below : List.Forall₂ Node.IsReturned children children') :
      IsReturned (.mk label children) (.mk label' children')

theorem Node.IsReturned.label {node node' : Node} (alike : node.IsReturned node') :
    node.label.IsReturned node'.label := by
  cases alike with
  | mk same _ => exact same

theorem Node.IsReturned.kind {node node' : Node} (alike : node.IsReturned node') :
    node'.kind = node.kind :=
  alike.label.kind

mutual

theorem Node.hasError_returned : (node : Node) → {node' : Node} → node.IsReturned node' →
    node'.hasError = node.hasError
  | .mk label children, .mk label' _, .mk alike below => by
    rw [Node.hasError, Node.hasError, haveError_returned children below, Label.isFault,
      Label.isFault, alike.kind, alike.missing]

theorem haveError_returned : (nodes : List Node) → {nodes' : List Node} →
    List.Forall₂ Node.IsReturned nodes nodes' → haveError nodes' = haveError nodes
  | [], [], .nil => rfl
  | node :: nodes, _ :: _, .cons alike rest => by
    rw [haveError, haveError, node.hasError_returned alike, haveError_returned nodes rest]

end

mutual

theorem Node.size_returned : (node : Node) → {node' : Node} → node.IsReturned node' →
    node'.size = node.size
  | .mk _ children, .mk _ _, .mk _ below => by
    rw [Node.size, Node.size, sizes_returned children below]

theorem sizes_returned : (nodes : List Node) → {nodes' : List Node} →
    List.Forall₂ Node.IsReturned nodes nodes' → sizes nodes' = sizes nodes
  | [], [], .nil => rfl
  | node :: nodes, _ :: _, .cons alike rest => by
    rw [sizes, sizes, node.size_returned alike, sizes_returned nodes rest]

end

mutual

theorem Node.nested_returned : (node : Node) → {node' : Node} → node.IsReturned node' →
    List.Forall₂ Node.IsReturned node.nested node'.nested
  | .mk _ children, .mk _ _, .mk _ below => reached_returned children below

theorem reached_returned : (nodes : List Node) → {nodes' : List Node} →
    List.Forall₂ Node.IsReturned nodes nodes' →
      List.Forall₂ Node.IsReturned (reached nodes) (reached nodes')
  | [], [], .nil => .nil
  | node :: nodes, node' :: _, .cons alike rest => by
    have inside := node.nested_returned alike
    rw [reached, reached]
    refine List.rel_append ?_ (reached_returned nodes rest)
    by_cases named : node.label.isNamed = true
    · rw [if_pos named, if_pos (alike.label.named.trans named), alike.kind]
      cases node.kind with
      | block => exact inside
      | decoratedDefinition => exact inside
      | comment => exact .nil
      | _ => exact .cons alike .nil
    · rw [if_neg named, if_neg (alike.label.named ▸ named)]
      exact .nil

end

theorem visited_returned (fuel : Nat) {queue queue' : List Node}
    (alike : List.Forall₂ Node.IsReturned queue queue') :
    List.Forall₂ Node.IsReturned (visited fuel queue) (visited fuel queue') := by
  induction fuel generalizing queue queue' with
  | zero => exact .nil
  | succ fuel ih =>
    cases alike with
    | nil => exact .nil
    | @cons node node' _ _ first rest =>
      exact .cons first (ih (List.rel_append rest (node.nested_returned first)))

section Search

variable {α β : Type} {R : α → β → Prop} {p : α → Bool} {q : β → Bool}

theorem rel_find? (same : ∀ a b, R a b → q b = p a) {as : List α} {bs : List β}
    (alike : List.Forall₂ R as bs) : Option.Rel R (as.find? p) (bs.find? q) := by
  induction alike with
  | nil => exact .none
  | @cons a b as bs first _ ih =>
    rw [List.find?_cons, List.find?_cons, same a b first]
    cases p a with
    | true => exact .some first
    | false => exact ih

theorem rel_filter_of (same : ∀ a b, R a b → q b = p a) {as : List α} {bs : List β}
    (alike : List.Forall₂ R as bs) : List.Forall₂ R (as.filter p) (bs.filter q) := by
  induction alike with
  | nil => exact .nil
  | @cons a b as bs first _ ih =>
    rw [List.filter_cons, List.filter_cons, same a b first]
    cases p a with
    | true => exact .cons first ih
    | false => exact ih

end Search

namespace Node.IsReturned

variable {node node' : Node} (alike : node.IsReturned node')

include alike

theorem children : List.Forall₂ Node.IsReturned node.children node'.children := by
  cases alike with
  | mk _ below => exact below

theorem namedChildren :
    List.Forall₂ Node.IsReturned node.namedChildren node'.namedChildren :=
  rel_filter_of (fun _ _ alike => alike.label.named) alike.children

theorem childrenAt (field : Field) :
    List.Forall₂ Node.IsReturned (node.childrenAt field) (node'.childrenAt field) :=
  rel_filter_of (fun _ _ alike => by rw [alike.label.field]) alike.children

theorem childAt? (field : Field) :
    Option.Rel Node.IsReturned (node.childAt? field) (node'.childAt? field) :=
  rel_find? (fun _ _ alike => by rw [alike.label.field]) alike.children

theorem dottedText? (spoken : node.kind = .dottedName ∨ node.label.field = some .name) :
    dottedText? node' = dottedText? node := by
  have text : node'.text.toList = withReturns node.text.toList := by
    rw [Node.text, alike.label.text (.inr spoken), toList_returned, Node.text]
  rw [Python.dottedText?, Python.dottedText?, text]
  exact congrArg (fun name : List Char => if name.isEmpty then none else some (String.ofList name))
    (ink_withReturns node.text.toList)

end Node.IsReturned

theorem filterMap_eq_of_rel {α β γ : Type} {R : α → β → Prop} {f : α → Option γ} {g : β → Option γ}
    {as : List α} {bs : List β} (alike : List.Forall₂ R as bs)
    (same : ∀ a ∈ as, ∀ b, R a b → g b = f a) : bs.filterMap g = as.filterMap f := by
  induction alike with
  | nil => rfl
  | @cons a b as bs first _ ih =>
    rw [List.filterMap_cons, List.filterMap_cons, same a (List.mem_cons_self ..) b first,
      ih fun a mem => same a (List.mem_cons_of_mem _ mem)]

theorem map_eq_of_rel {α β γ : Type} {R : α → β → Prop} {f : α → γ} {g : β → γ} {as : List α}
    {bs : List β} (alike : List.Forall₂ R as bs) (same : ∀ a ∈ as, ∀ b, R a b → g b = f a) :
    bs.map g = as.map f := by
  rw [← List.filterMap_eq_map, ← List.filterMap_eq_map]
  exact filterMap_eq_of_rel alike fun a mem b rel => congrArg some (same a mem b rel)

section Tell

variable {node node' : Node} (alike : node.IsReturned node')

include alike

theorem plainImports_returned : plainImports node' = plainImports node := by
  refine filterMap_eq_of_rel (alike.childrenAt .name) fun child mem child' alike => ?_
  have field : child.label.field = some .name := by simpa using (List.mem_filter.1 mem).2
  rw [alike.kind]
  cases kind : child.kind with
  | dottedName => exact alike.dottedText? (.inl kind)
  | aliasedImport =>
    have targets := alike.childAt? .name
    generalize found : child.childAt? .name = target, child'.childAt? .name = target' at targets
    cases targets with
    | none => rfl
    | some alike =>
      have field := List.find?_some found
      exact alike.dottedText? (.inr (by simpa using field))
  | _ => rfl

theorem fromModule?_returned : fromModule? node' = fromModule? node := by
  have modules := alike.childAt? .moduleName
  rw [fromModule?, fromModule?]
  generalize node.childAt? .moduleName = module, node'.childAt? .moduleName = module' at modules
  cases modules with
  | none => rfl
  | @some module module' alike =>
    rw [Option.bind_some, Option.bind_some, alike.kind]
    cases kind : module.kind with
    | dottedName => exact alike.dottedText? (.inl kind)
    | relativeImport =>
      have names : Option.Rel Node.IsReturned
          (module.namedChildren.find? fun child => child.kind == .dottedName)
          (module'.namedChildren.find? fun child => child.kind == .dottedName) :=
        rel_find? (fun _ _ alike => by rw [alike.kind]) alike.namedChildren
      generalize found : (module.namedChildren.find? fun child => child.kind == .dottedName) = name,
        (module'.namedChildren.find? fun child => child.kind == .dottedName) = name' at names
      cases names with
      | none => rfl
      | some alike =>
        have kind := List.find?_some found
        exact alike.dottedText? (.inl (by simpa using kind))
    | _ => rfl

theorem definitionName?_returned (fits : node.Fits)
    (declares : node.kind = .classDefinition ∨ node.kind = .functionDefinition) :
    definitionName? node' = definitionName? node := by
  obtain ⟨name, found, identifier⟩ := fits.declared declares
  have names := alike.childAt? .name
  rw [definitionName?, definitionName?]
  generalize node'.childAt? .name = name' at names
  rw [found] at names ⊢
  cases names with
  | @some _ name' alike =>
    have field : name.label.field = some .name := by simpa using List.find?_some found
    have single : '\n' ∉ name.text.toList := fun mem =>
      absurd (identifier.visible '\n' mem).1 (by decide)
    have text : name'.text = Text.returned name.text := alike.label.text (.inr (.inr field))
    rw [Option.map_some, Option.map_some, text, Text.returned, withReturns_of_not_mem single,
      String.ofList_toList]

theorem collect_returned (fits : node.Fits) (facts : Facts) :
    facts.collect node' = facts.collect node := by
  rw [Facts.collect, Facts.collect, alike.kind]
  cases kind : node.kind with
  | importStatement => rw [plainImports_returned alike]
  | importFromStatement => rw [fromModule?_returned alike]
  | classDefinition => rw [definitionName?_returned alike fits (.inl kind)]
  | functionDefinition => rw [definitionName?_returned alike fits (.inr kind)]
  | _ => rfl

theorem documentation?_returned :
    node'.documentation? = node.documentation?.map (List.map Text.returned) := by
  have statements : Option.Rel Node.IsReturned
      (node.namedChildren.find? fun child => child.kind != .comment)
      (node'.namedChildren.find? fun child => child.kind != .comment) :=
    rel_find? (fun _ _ alike => by rw [alike.kind]) alike.namedChildren
  rw [Node.documentation?, Node.documentation?]
  generalize (node.namedChildren.find? fun child => child.kind != .comment) = statement,
    (node'.namedChildren.find? fun child => child.kind != .comment) = statement' at statements
  cases statements with
  | none => rfl
  | @some statement statement' alike =>
    have expressions := alike.namedChildren
    dsimp only
    rw [alike.kind]
    generalize statement.namedChildren = inner, statement'.namedChildren = inner' at expressions
    cases statement.kind <;> try rfl
    cases expressions with
    | nil => rfl
    | @cons expression expression' _ _ alike rest =>
      cases rest with
      | cons => rfl
      | nil =>
        dsimp only
        rw [alike.kind]
        cases kind : expression.kind with
        | string =>
          exact congrArg (fun text => some [text]) (alike.label.text (.inl kind))
        | concatenatedString =>
          have parts : List.Forall₂ Node.IsReturned
              (expression.namedChildren.filter fun part => part.kind == .string)
              (expression'.namedChildren.filter fun part => part.kind == .string) :=
            rel_filter_of (fun _ _ alike => by rw [alike.kind]) alike.namedChildren
          have texts : (expression'.namedChildren.filter fun part => part.kind == .string).map
              Node.text = (expression.namedChildren.filter fun part => part.kind == .string).map
                (Text.returned ∘ Node.text) := by
            refine map_eq_of_rel parts fun part mem part' alike => ?_
            have kind : part.kind = .string := by simpa using (List.mem_filter.1 mem).2
            exact alike.label.text (.inl kind)
          rw [← List.map_map] at texts
          exact congrArg some texts
        | _ => rfl

end Tell

mutual

theorem Node.isIn_of_mem_nested : (node : Node) → ∀ inner ∈ node.nested, inner.IsIn node
  | .mk label children => by
    intro inner mem
    obtain ⟨child, listed, inside⟩ := isIn_of_mem_reached children inner mem
    exact .inside listed inside

theorem isIn_of_mem_reached : (nodes : List Node) → ∀ inner ∈ reached nodes,
    ∃ node ∈ nodes, inner.IsIn node
  | [] => nofun
  | node :: nodes => by
    intro inner mem
    have below := node.isIn_of_mem_nested inner
    rw [reached, List.mem_append] at mem
    rcases mem with here | later
    · refine ⟨node, List.mem_cons_self .., ?_⟩
      split at here
      · split at here
        · exact below here
        · exact below here
        · cases here
        · exact List.mem_singleton.1 here ▸ .root
      · cases here
    · obtain ⟨other, listed, inside⟩ := isIn_of_mem_reached nodes inner later
      exact ⟨other, List.mem_cons_of_mem _ listed, inside⟩

end

theorem isIn_of_mem_visited {fuel : Nat} {queue : List Node} {node : Node}
    (mem : node ∈ visited fuel queue) : ∃ top ∈ queue, node.IsIn top := by
  induction fuel generalizing queue with
  | zero => cases mem
  | succ fuel ih =>
    cases queue with
    | nil => cases mem
    | cons first queue =>
      rcases List.mem_cons.1 mem with rfl | later
      · exact ⟨node, List.mem_cons_self .., .root⟩
      obtain ⟨top, listed, inside⟩ := ih later
      rcases List.mem_append.1 listed with queued | nested
      · exact ⟨top, List.mem_cons_of_mem _ queued, inside⟩
      · exact ⟨first, List.mem_cons_self .., inside.trans (first.isIn_of_mem_nested top nested)⟩

theorem foldl_collect_returned {nodes nodes' : List Node}
    (alike : List.Forall₂ Node.IsReturned nodes nodes') (fits : ∀ node ∈ nodes, node.Fits)
    (facts : Facts) : nodes'.foldl Facts.collect facts = nodes.foldl Facts.collect facts := by
  induction alike generalizing facts with
  | nil => rfl
  | cons first _ ih =>
    rw [List.foldl_cons, List.foldl_cons, collect_returned first (fits _ (List.mem_cons_self ..)),
      ih fun node mem => fits node (List.mem_cons_of_mem _ mem)]

theorem facts_returned {root root' : Node} (alike : root.IsReturned root') (grammar : root.IsModule) :
    root'.facts = { root.facts with
      docstring := (root.documentation?.map (List.map Text.returned)).bind docstring? } := by
  have fits : ∀ node ∈ visited root.size [root], node.Fits := by
    intro node mem
    obtain ⟨top, listed, inside⟩ := isIn_of_mem_visited mem
    exact grammar.fits node (List.mem_singleton.1 listed ▸ inside)
  rw [Node.facts, Node.facts, root.size_returned alike, documentation?_returned alike,
    foldl_collect_returned (visited_returned root.size (.cons alike .nil)) fits, foldl_collect,
    foldl_collect]

theorem isIn_of_documentation? {root : Node} {literals : List String}
    (documented : root.documentation? = some literals) :
    ∀ literal ∈ literals, ∃ node : Node, node.IsIn root ∧ node.text = literal := by
  have below {node child : Node} (named : child ∈ node.namedChildren) : child.IsIn node :=
    .inside (List.mem_filter.1 named).1 .root
  rw [Node.documentation?] at documented
  split at documented
  · cases documented
  next statement found =>
  have inRoot : statement.IsIn root := below (List.mem_of_find?_eq_some found)
  split at documented
  swap
  · cases documented
  next expression _ single =>
  have inStatement : expression.IsIn root :=
    (below (by rw [single]; exact List.mem_singleton_self _)).trans inRoot
  split at documented
  · obtain rfl := Option.some.inj documented
    exact List.forall_mem_singleton.2 ⟨expression, inStatement, rfl⟩
  · obtain rfl := Option.some.inj documented
    intro literal mem
    obtain ⟨part, listed, rfl⟩ := List.mem_map.1 mem
    exact ⟨part, (below (List.mem_filter.1 listed).1).trans inStatement, rfl⟩
  · cases documented

/-- Whether a backslash takes a line end out of the documentation string of a tree. -/
def Node.Continues (root : Node) : Prop :=
  ∃ literals, root.documentation? = some literals ∧ (docstring? literals).isSome = true ∧
    ∃ literal ∈ literals, 0 < joins literal.toList

theorem docstring_returned {root : Node} (plain : ∀ node : Node, node.IsIn root →
    '\r' ∉ node.text.toList) :
    ((root.documentation?.map (List.map Text.returned)).bind docstring?).isSome =
        (root.documentation?.bind docstring?).isSome ∧
      ((root.documentation?.map (List.map Text.returned)).bind docstring? =
        root.documentation?.bind docstring? ↔ ¬ root.Continues) := by
  rw [Node.Continues]
  cases documented : root.documentation? with
  | none => exact ⟨rfl, iff_of_true rfl (by rintro ⟨literals, same, -⟩; cases same)⟩
  | some literals =>
  have both := isSome_docstring?_returned literals
  rw [Option.map_some, Option.bind_some, Option.bind_some]
  refine ⟨both, ?_⟩
  cases spelled : docstring? literals with
  | none =>
    rw [spelled] at both
    refine iff_of_true (Option.not_isSome_iff_eq_none.1 (by rw [both]; decide)) ?_
    rintro ⟨other, same, spoken, -⟩
    rw [← Option.some.inj same, spelled] at spoken
    cases spoken
  | some doc =>
    rw [spelled, Option.isSome_some] at both
    obtain ⟨doc', spelled'⟩ := Option.isSome_iff_exists.1 both
    have bare : ∀ literal ∈ literals, '\r' ∉ literal.toList := by
      intro literal listed
      obtain ⟨node, inside, rfl⟩ := isIn_of_documentation? documented literal listed
      exact plain node inside
    rw [spelled', Option.some_inj, docstring?_returned bare spelled spelled']
    constructor
    · rintro whole ⟨other, same, -, literal, listed, joined⟩
      obtain rfl := Option.some.inj same
      exact joined.ne' (whole literal listed)
    · intro never literal listed
      by_contra joined
      exact never ⟨literals, rfl, by rw [spelled]; rfl, literal, listed, Nat.pos_of_ne_zero joined⟩

/-- A source text is read, and so is the text with a carriage return before every line feed, and the
trees of both have the same shape. Then both say the same but for the documentation string: with
carriage returns no backslash takes a line end out of it. -/
theorem facts_of_returned [Parser] (source : String) (root root' : Node)
    (plain : '\r' ∉ source.toList) (parsed : Parser.tree? (withoutMark source) = some root)
    (parsed' : Parser.tree? (withoutMark (Text.returned source)) = some root')
    (sound : root.hasError = false) (grammar : root.IsModule)
    (spans : ∀ node : Node, node.IsIn root → node.text.toList <:+: source.toList)
    (alike : root.IsReturned root') :
    ∃ facts facts', understand source = .ok facts ∧
      understand (Text.returned source) = .ok facts' ∧
      facts' = { facts with docstring := facts'.docstring } ∧
      facts'.docstring.isSome = facts.docstring.isSome ∧ (facts' = facts ↔ ¬ root.Continues) := by
  have told := facts_returned alike grammar
  have docstring : root.facts.docstring = root.documentation?.bind docstring? := by rw [facts_eq]
  obtain ⟨both, same⟩ := docstring_returned fun node inside mem =>
    plain ((spans node inside).subset mem)
  refine ⟨root.facts, root'.facts, ?_, ?_, ?_, ?_, ?_⟩
  · rw [understand, parsed]
    exact if_neg (by simp [sound])
  · rw [understand, parsed']
    exact if_neg (by simp [root.hasError_returned alike, sound])
  · rw [told]
  · rw [told, docstring]
    exact both
  · rw [← same, ← docstring, told]
    constructor
    · exact fun whole => congrArg Facts.docstring whole
    · intro docstring
      rw [docstring]

theorem documented_isReturned (body blank : String) : (Node.documented body blank).IsReturned
    (.documented (Text.returned body) (Text.returned blank)) := by
  have literal : "\"\"\"" ++ Text.returned body ++ "\"\"\"" =
      Text.returned ("\"\"\"" ++ body ++ "\"\"\"") := by
    rw [← String.toList_inj]
    have quotes : withReturns "\"\"\"".toList = "\"\"\"".toList := rfl
    simp only [String.toList_append, toList_returned, withReturns_append]
    rw [quotes]
  rw [Node.documented, Node.documented, literal]
  refine .mk ⟨rfl, rfl, rfl, rfl, nofun⟩ (.cons ?_ .nil)
  refine .mk ⟨rfl, rfl, rfl, rfl, nofun⟩ (.cons ?_ .nil)
  refine .mk ⟨rfl, rfl, rfl, rfl, fun _ => rfl⟩ (.cons ?_ (.cons ?_ .nil))
  · exact .mk ⟨rfl, rfl, rfl, rfl, nofun⟩ .nil
  · exact .mk ⟨rfl, rfl, rfl, rfl, nofun⟩ .nil

theorem documented_spans (body blank : String) : ∀ node : Node,
    node.IsIn (.documented body blank) →
      node.text.toList <:+: (Node.documented body blank).text.toList := by
  have front (first second : String) : first.toList <:+: (first ++ second).toList := by
    rw [String.toList_append]
    exact (List.prefix_append ..).isInfix
  have back (first second : String) : second.toList <:+: (first ++ second).toList := by
    rw [String.toList_append]
    exact (List.suffix_append ..).isInfix
  have literal := front ("\"\"\"" ++ body ++ "\"\"\"") blank
  have quotes := (back ("\"\"\"" ++ body) "\"\"\"").trans literal
  have inner := ((back "\"\"\"" body).trans (front _ "\"\"\"")).trans literal
  refine (Node.forall_isIn_iff _ _).2 ⟨List.infix_rfl, List.forall_mem_singleton.2 ?_⟩
  refine (Node.forall_isIn_iff _ _).2 ⟨literal, List.forall_mem_singleton.2 ?_⟩
  refine (Node.forall_isIn_iff _ _).2 ⟨literal, List.forall_mem_cons.2 ⟨?_, ?_⟩⟩
  · exact (Node.forall_isIn_iff _ _).2 ⟨quotes, nofun⟩
  · exact List.forall_mem_singleton.2 ((Node.forall_isIn_iff _ _).2 ⟨inner, nofun⟩)

theorem facts_of_returned_module :
    let root := Node.documented "Reads\n  lines." "\n"
    let root' := Node.documented "Reads\r\n  lines." "\r\n"
    let parser : Parser := ⟨fun text => if text = root.text then some root else some root'⟩
    '\r' ∉ root.text.toList ∧ root.hasError = false ∧ root.IsModule ∧ root.IsReturned root' ∧
      ∃ facts facts', @understand parser root.text = .ok facts ∧
        @understand parser (Text.returned root.text) = .ok facts' ∧
        facts' = { facts with docstring := facts'.docstring } ∧
        (facts' = facts ↔ ¬ root.Continues) := by
  intro root root' parser
  have plain : '\r' ∉ root.text.toList := by decide +kernel
  have sound : root.hasError = false := by decide +kernel
  have grammar : root.IsModule := Node.documented_isModule _ _
  have alike : root.IsReturned root' := documented_isReturned "Reads\n  lines." "\n"
  have parsed : parser.tree? (withoutMark root.text) = some root :=
    if_pos (by decide +kernel)
  have parsed' : parser.tree? (withoutMark (Text.returned root.text)) = some root' :=
    if_neg (by decide +kernel)
  obtain ⟨facts, facts', understood, understood', told, -, same⟩ :=
    facts_of_returned root.text root root' plain parsed parsed' sound grammar
      (documented_spans _ _) alike
  exact ⟨plain, sound, grammar, alike, facts, facts', understood, understood', told, same⟩

/-- A documentation string of one line, written on two, that has two with carriage returns. -/
theorem returned_line_stays :
    (Node.documented "a\\\nb" "\n").IsReturned (.documented "a\\\r\nb" "\r\n") ∧
      (Node.documented "a\\\nb" "\n").facts = { docstring := some "ab" } ∧
      (Node.documented "a\\\r\nb" "\r\n").facts = { docstring := some "a\\\nb" } := by
  refine ⟨?_, by decide +kernel, by decide +kernel⟩
  exact documented_isReturned "a\\\nb" "\n"

end SourceAtlas.Python
