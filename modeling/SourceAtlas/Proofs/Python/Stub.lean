import Mathlib.Data.List.Infix
import SourceAtlas.Proofs.Diagram.Spacing
import SourceAtlas.Proofs.Python.Collection
import SourceAtlas.Proofs.Python.Docstring
import SourceAtlas.Proofs.Python.Literal
import SourceAtlas.Python.Reader.Tree
set_option autoImplicit false

namespace SourceAtlas

def Intent.told (intent : Intent) : List Char :=
  '\n' :: (intent.name ++ "\n\nResponsibility: " ++ intent.responsibility).toList ++ ['\n']

namespace Python

open SourceAtlas.Text

def tripled (inner : List Char) : List Char :=
  '"' :: '"' :: '"' :: (inner ++ ['"', '"', '"'])

structure HasLiterals (cs : List Char) (literals : List String) : Prop where
  inside : (literals.flatMap String.toList).Sublist cs
  each : ∀ literal ∈ literals, IsLiteral literal.toList

/-- The literals that a text begins with if it begins with triple quotes: the first one goes from
there to triple quotes again. -/
def OpensTripled (cs : List Char) (literals : List String) : Prop :=
  ∃ inner rest others, literals = String.ofList (tripled inner) :: others ∧
    cs = tripled inner ++ rest ∧ HasLiterals rest others

/-- The tree of a text that is one literal. What the literal is made of is of other kinds than those
that tell facts. -/
inductive Node.IsSole (literal : String) : Node → Prop
  | mk {top statement string : Label} {parts : List Node} (module : top.kind = .other "module")
      (stated : statement.kind = .expressionStatement) (spelled : string.kind = .string)
      (named : statement.isNamed = true ∧ string.isNamed = true) (text : string.text = literal)
      (whole : top.isMissing = false ∧ statement.isMissing = false ∧ string.isMissing = false)
      (silent : ∀ part ∈ parts, ∀ node : Node, node.IsIn part →
        node.label.isMissing = false ∧ ∃ name, node.kind = .other name) :
      IsSole literal (.mk top [.mk statement [.mk string parts]])

/-- How the parser reads a literal in triple quotes that a text consists of but for two ends of lines.
The text of the literal is any that ends with a line. -/
structure Parser.ReadsTripled [Parser] : Prop where
  sole : ∀ body : List Char, body.getLast? = some '\n' → '\x00' ∉ body →
    ¬ ['"', '"', '"'] <:+: body → ∃ root, Parser.tree? (String.ofList (tripled body ++ ['\n', '\n'])) =
      some root ∧ root.IsSole (String.ofList (tripled body))
  opened : ∀ (body : List Char) (root : Node) (literals : List String),
    Parser.tree? (String.ofList (tripled body ++ ['\n', '\n'])) = some root →
    root.hasError = false → root.documentation? = some literals →
    OpensTripled (tripled body ++ ['\n', '\n']) literals

theorem skeleton_toList (intent : Intent) :
    intent.skeleton.toList = tripled intent.told ++ ['\n', '\n'] := by
  have front : "\"\"\"\n".toList = ['"', '"', '"', '\n'] := rfl
  have back : "\n\"\"\"\n\n".toList = ['\n', '"', '"', '"', '\n', '\n'] := rfl
  simp [Intent.skeleton, Intent.told, tripled, String.toList_append, front, back]

theorem literalContents_tripled (inner : List Char) :
    literalContents (tripled inner) = inner := by
  have body : literalBody (tripled inner) = tripled inner := rfl
  have starts : ['"', '"', '"'].isPrefixOf (tripled inner) = true := rfl
  have ends : ['"', '"', '"'].isSuffixOf (tripled inner) = true :=
    List.isSuffixOf_iff_suffix.2 (List.suffix_append ('"' :: '"' :: '"' :: inner) _)
  have long : 6 ≤ (tripled inner).length := by simp [tripled]
  rw [literalContents, body, quotes, unquoted, if_pos (by simp [long, starts, ends])]
  simp [tripled]

theorem docstringPart?_tripled (inner : List Char) :
    docstringPart? (tripled inner) = some (decodeEscapes inner) := by
  have value : docstringPart? (tripled inner) =
      some (decodeEscapes (literalContents (tripled inner))) := rfl
  rw [value, literalContents_tripled]

def shown (literals : List String) : Nat :=
  (ink (literals.flatMap fun literal => literalContents literal.toList)).length

theorem shown_cons (literal : String) (literals : List String) :
    shown (literal :: literals) =
      (ink (literalContents literal.toList)).length + shown literals := by
  rw [shown, List.flatMap_cons, ink_append, List.length_append, shown]

theorem shown_le (literals : List String) :
    shown literals ≤ (ink (literals.flatMap String.toList)).length := by
  induction literals with
  | nil => exact Nat.zero_le _
  | cons literal literals ih =>
    have first := literalContents_le literal.toList
    rw [shown_cons, List.flatMap_cons, ink_append, List.length_append]
    omega

/-- Literals that do not all end in a grave accent show two characters less than they take. -/
theorem shown_quotes {literals : List String} {literal : String} (listed : literal ∈ literals)
    (quoted : (ink (literalContents literal.toList)).length + 2 ≤ (ink literal.toList).length) :
    shown literals + 2 ≤ (ink (literals.flatMap String.toList)).length := by
  obtain ⟨front, back, rfl⟩ := List.append_of_mem listed
  have before := shown_le front
  have behind := shown_le back
  rw [shown] at before behind ⊢
  simp only [List.flatMap_append, List.flatMap_cons, ink_append, List.length_append]
  omega

theorem docstringPart?_le {literal part : List Char} (read : docstringPart? literal = some part) :
    (ink part).length ≤ (ink (literalContents literal)).length := by
  rw [docstringPart?] at read
  split at read
  · cases read
  · obtain rfl := Option.some.inj read
    exact literalValue_le literal

theorem ink_parts_le {literals : List String} {parts : List (List Char)}
    (read : literals.map (fun literal => docstringPart? literal.toList) = parts.map some) :
    (ink parts.flatten).length ≤ shown literals := by
  induction literals generalizing parts with
  | nil =>
    obtain rfl := List.map_eq_nil_iff.1 read.symm
    exact Nat.zero_le _
  | cons literal literals ih =>
    obtain ⟨part, more, rfl, same, rest⟩ := List.map_eq_cons_iff.1 read.symm
    have first := docstringPart?_le same.symm
    have behind := ih rest.symm
    rw [List.flatten_cons, ink_append, List.length_append, shown_cons]
    omega

theorem map_of_mapM {α β : Type} {f : α → Option β} {as : List α} {bs : List β}
    (read : as.mapM f = some bs) : as.map f = bs.map some := by
  induction as generalizing bs with
  | nil =>
    obtain rfl : [] = bs := Option.some.inj read
    rfl
  | cons a as ih =>
    simp only [List.mapM_cons, Option.bind_eq_bind, Option.bind_eq_some_iff] at read
    obtain ⟨b, first, more, rest, same⟩ := read
    obtain rfl : b :: more = bs := Option.some.inj same
    rw [List.map_cons, List.map_cons, first, ih rest]

theorem closes_early {told inner rest : List Char} (ends : told.getLast? = some '\n')
    (whole : told ++ ['"', '"', '"', '\n', '\n'] = inner ++ (['"', '"', '"'] ++ rest)) :
    told = inner ∧ rest = ['\n', '\n'] ∨
      ∃ behind, told = inner ++ ['"', '"', '"'] ++ behind ∧
        rest = behind ++ ['"', '"', '"', '\n', '\n'] := by
  rcases List.append_eq_append_iff.1 whole with ⟨late, rfl, same⟩ | ⟨early, rfl, same⟩
  · rcases late with _ | ⟨a, _ | ⟨b, _ | ⟨c, late⟩⟩⟩
    · exact .inl ⟨(List.append_nil _).symm, by simpa using same.symm⟩
    · simp at same
    · simp at same
    · have := congrArg List.length same
      simp at this
      omega
  · rcases early with _ | ⟨a, _ | ⟨b, _ | ⟨c, early⟩⟩⟩
    · exact .inl ⟨List.append_nil _, by simpa using same⟩
    · simp_all
    · simp_all
    · simp only [List.cons_append, List.nil_append, List.cons.injEq] at same
      obtain ⟨rfl, rfl, rfl, rfl⟩ := same
      exact .inr ⟨early, by simp, rfl⟩

theorem getLast?_of_graves {literals : List String} {last : Char}
    (graves : ∀ literal ∈ literals, literal.toList.getLast? = some '\x60')
    (ends : (literals.flatMap String.toList).getLast? = some last) :
    (literals.flatMap String.toList).getLast? = some '\x60' := by
  rcases List.eq_nil_or_concat' literals with rfl | ⟨others, literal, rfl⟩
  · cases ends
  · have ended := graves literal (List.mem_append_right others (List.mem_singleton.2 rfl))
    rw [List.flatMap_append, List.flatMap_singleton, List.getLast?_append, ended, Option.some_or]

theorem shown_behind {behind : List Char} {literals : List String}
    (has : HasLiterals (behind ++ ['"', '"', '"', '\n', '\n']) literals) :
    shown literals < (ink behind).length + 3 := by
  have three : (ink ['"', '"', '"', '\n', '\n']).length = 3 := by decide
  by_cases graves : ∀ literal ∈ literals, literal.toList.getLast? = some '\x60'
  · have inside : (literals.flatMap String.toList).Sublist behind := by
      obtain ⟨first, second, split, before, after⟩ := List.sublist_append_iff.1 has.inside
      -- The last literal ends in a grave accent, and the quotes at the end of the text are none.
      rcases List.eq_nil_or_concat' second with rfl | ⟨front, last, rfl⟩
      · rwa [split, List.append_nil]
      have ends : (literals.flatMap String.toList).getLast? = some last := by
        rw [split, ← List.append_assoc, List.getLast?_concat]
      have held := after.subset (List.mem_append_right front (List.mem_singleton.2 rfl))
      rw [Option.some.inj (ends.symm.trans (getLast?_of_graves graves ends))] at held
      exact absurd held (by decide)
    have takes := ink_sublist inside
    have shows := shown_le literals
    omega
  · obtain ⟨literal, listed, other⟩ : ∃ literal ∈ literals,
        literal.toList.getLast? ≠ some '\x60' := by simpa using graves
    have quotes := shown_quotes listed ((has.each literal listed).contents.resolve_left other)
    have takes := ink_sublist has.inside
    rw [ink_append, List.length_append, three] at takes
    omega

theorem told_visible (intent : Intent) : ink intent.told ≠ [] := by
  have written : 'R' ∈ ink intent.told := by
    have middle : "\n\nResponsibility: ".toList =
        '\n' :: '\n' :: 'R' :: "esponsibility: ".toList := rfl
    rw [Intent.told, String.toList_append, String.toList_append, middle]
    simp [ink]
    decide
  exact List.ne_nil_of_mem written

theorem HasLiterals.eq_nil {cs : List Char} {literals : List String} (has : HasLiterals cs literals)
    (blank : ink cs = []) : literals = [] := by
  cases literals with
  | nil => rfl
  | cons literal literals =>
    have visible := List.length_pos_of_ne_nil (has.each literal (List.mem_cons_self ..)).visible
    have takes := ink_sublist has.inside
    rw [List.flatMap_cons, ink_append, List.length_append, blank, List.length_nil] at takes
    omega

theorem verbatim_iff (cs : List Char) :
    Verbatim cs ↔ cleanDocstring (decodeEscapes cs) = cleanDocstring cs := by
  constructor
  · intro verbatim
    rw [decodeEscapes_of_verbatim verbatim]
  · intro same
    have counted := congrArg (fun text => (ink text).length) same
    rw [ink_cleanDocstring, ink_cleanDocstring] at counted
    rcases decodeEscapes_cases cs with ⟨verbatim, -⟩ | less
    · exact verbatim
    · omega

theorem docstring?_tripled (inner : List Char) :
    docstring? [String.ofList (tripled inner)] =
      some (String.ofList (cleanDocstring (decodeEscapes inner))) := by
  rw [docstring?, List.mapM_cons, String.toList_ofList, docstringPart?_tripled]
  simp

theorem sole_of_documented {told : List Char} {literals : List String}
    (ends : told.getLast? = some '\n')
    (opens : OpensTripled (tripled told ++ ['\n', '\n']) literals)
    (documented : docstring? literals = some (String.ofList (cleanDocstring told))) :
    literals = [String.ofList (tripled told)] := by
  obtain ⟨inner, rest, others, rfl, whole, has⟩ := opens
  obtain ⟨parts, mapped, same⟩ := Option.map_eq_some_iff.1 documented
  have counted : (ink parts.flatten).length = (ink told).length := by
    have cleaned := congrArg ink (String.ofList_inj.1 same)
    rw [ink_cleanDocstring, ink_cleanDocstring] at cleaned
    rw [cleaned]
  have spells := ink_parts_le (map_of_mapM mapped)
  have split : told ++ ['"', '"', '"', '\n', '\n'] = inner ++ (['"', '"', '"'] ++ rest) := by
    simpa [tripled] using whole
  rcases closes_early ends split with ⟨rfl, rfl⟩ | ⟨behind, same, rfl⟩
  · rw [has.eq_nil (by decide)]
  · -- The quotes in the middle are lost, so fewer characters are shown than were to be told.
    have less := shown_behind has
    have lengths := congrArg (fun cs => (ink cs).length) same
    have three : (ink ['"', '"', '"']).length = 3 := by decide
    rw [shown_cons, String.toList_ofList, literalContents_tripled] at spells
    simp only [ink_append, List.length_append, three] at lengths
    omega

namespace Node.IsSole

variable {root : Node} {literal : String} (sole : root.IsSole literal)

include sole

theorem isIn_cases : ∀ node : Node, node.IsIn root →
    node.label.isFault = false ∧ node.kind.isTold = false := by
  obtain ⟨module, stated, spelled, -, -, whole, silent⟩ := sole
  simp only [forall_isIn_iff, List.forall_mem_singleton]
  refine ⟨?_, ?_, ?_, fun part mem node inside => ?_⟩
  · simp [label, kind, Label.isFault, Kind.isTold, module, whole]
  · simp [label, kind, Label.isFault, Kind.isTold, stated, whole]
  · simp [label, kind, Label.isFault, Kind.isTold, spelled, whole]
  · obtain ⟨present, name, other⟩ := silent part mem node inside
    rw [kind] at other ⊢
    simp [Label.isFault, Kind.isTold, present, other]

theorem hasError_eq_false : root.hasError = false := by
  cases faulty : root.hasError with
  | false => rfl
  | true =>
    obtain ⟨node, -, fault, inside⟩ := root.fault?_of_hasError faulty
    rw [(sole.isIn_cases node inside).1] at fault
    cases fault

theorem documentation?_eq : root.documentation? = some [literal] := by
  obtain ⟨-, stated, spelled, named, text, -, -⟩ := sole
  simp [documentation?, namedChildren, children, label, kind, Node.text, stated, spelled, named,
    text]

theorem facts_eq : root.facts = { docstring := docstring? [literal] } := by
  have head : IsHead root := by
    obtain ⟨module, -⟩ := sole
    simp [IsHead, kind, label, module, Kind.descent]
  have silent : root.occurrences = [] := by
    refine List.eq_nil_iff_forall_not_mem.2 fun o mem => ?_
    have stands := ((mem_occurrences_iff head o).1 mem).stands
    have untold := (sole.isIn_cases o.node stands.isIn).2
    rw [stands.isTold] at untold
    cases untold
  rw [Python.facts_eq, silent, sole.documentation?_eq]
  rfl

end Node.IsSole

def labelled (label : List Char) : List (List Char) → List (List Char)
  | [] => [label]
  | line :: rest => (label ++ line) :: rest

theorem joined_labelled (label : List Char) (lines : List (List Char)) :
    joined '\n' (labelled label lines) = label ++ joined '\n' lines := by
  rcases lines with _ | ⟨line, _ | ⟨next, rest⟩⟩
  · exact (List.append_nil label).symm
  · rfl
  · simp [labelled, joined]

theorem mem_labelled {label line : List Char} {lines : List (List Char)}
    (listed : line ∈ labelled label lines) :
    lines = [] ∧ line = label ∨
      ∃ original ∈ lines, line <:+ label ++ original ∧ original <:+ line := by
  cases lines with
  | nil => exact .inl ⟨rfl, List.mem_singleton.1 listed⟩
  | cons first rest =>
    right
    rcases List.mem_cons.1 listed with rfl | listed
    · exact ⟨first, List.mem_cons_self .., List.suffix_rfl, List.suffix_append ..⟩
    · exact ⟨line, List.mem_cons_of_mem _ listed, List.suffix_append .., List.suffix_rfl⟩

section Labelled

variable {label line last : List Char} {lines middle : List (List Char)}

theorem exists_labelled_concat (label : List Char) (lines : List (List Char)) :
    ∃ middle last, labelled label lines = middle ++ [last] := by
  rcases List.eq_nil_or_concat' (labelled label lines) with empty | split
  · cases lines <;> cases empty
  · exact split

theorem single_of_mem_labelled (single : '\n' ∉ label) (neat : ∀ line ∈ lines, Intent.IsNeat line)
    (listed : line ∈ labelled label lines) : '\n' ∉ line := by
  rcases mem_labelled listed with ⟨-, rfl⟩ | ⟨original, mem, inside, -⟩
  · exact single
  · intro feed
    rcases List.mem_append.1 (inside.subset feed) with feed | feed
    · exact single feed
    · exact (neat original mem).single feed

/-- Before the last line none has a blank end: a label ends a line only if nothing stands behind it. -/
theorem last_of_labelled (neat : ∀ line ∈ lines, Intent.IsNeat line)
    (split : labelled label lines = middle ++ [last]) (listed : line ∈ middle) :
    ∀ c, line.getLast? = some c → isBlank c = false := by
  rcases mem_labelled (split ▸ List.mem_append_left [last] listed) with
    ⟨rfl, -⟩ | ⟨original, mem, -, front, rfl⟩
  · have one := congrArg List.length split
    rw [List.length_append] at one
    obtain rfl := List.eq_nil_of_length_eq_zero (Nat.succ.inj one).symm
    cases listed
  · rw [List.getLast?_append_of_ne_nil _ (neat original mem).2]
    exact (neat original mem).last

theorem ink_of_mem_labelled (visible : ink label ≠ []) (neat : ∀ line ∈ lines, Intent.IsNeat line)
    (listed : line ∈ labelled label lines) : ink line ≠ [] := by
  rcases mem_labelled listed with ⟨-, rfl⟩ | ⟨original, mem, -, front, rfl⟩
  · exact visible
  · obtain ⟨c, more, rfl⟩ := List.exists_cons_of_ne_nil (neat original mem).2
    rw [ink_append, ink_cons_visible ((neat _ mem).start c rfl)]
    simp

theorem joined_told (name : List Char) (split : labelled label lines = middle ++ [last]) :
    joined '\n' (name :: ([] :: middle) ++ [last]) =
      name ++ '\n' :: '\n' :: (label ++ joined '\n' lines) := by
  have behind : joined '\n' ([] :: (middle ++ [last])) = '\n' :: joined '\n' (middle ++ [last]) := by
    cases middle <;> rfl
  have whole : joined '\n' (name :: ([] :: middle) ++ [last]) =
      name ++ '\n' :: joined '\n' ([] :: (middle ++ [last])) := rfl
  rw [whole, behind, ← split, joined_labelled]

end Labelled

/-- A documentation string shows the name and what the component is for, as the lines of a diagram
give them. -/
theorem told_shown {text : String} {color : Option String} {intent : Intent}
    (called : Intent.ofText? text color = some intent) :
    cleanDocstring intent.told = trimEnd (expandTabs
      (intent.name ++ "\n\nResponsibility: " ++ intent.responsibility).toList) := by
  unfold Intent.ofText? at called
  split at called
  swap
  · cases called
  next name path rest visible =>
  obtain rfl := Option.some.inj called
  have neat : ∀ line ∈ name :: path :: rest, Intent.IsNeat line := fun line listed =>
    Intent.plain_of_mem_visibleLines (visible ▸ listed)
  simp only [List.forall_mem_cons] at neat
  obtain ⟨named, -, behind⟩ := neat
  obtain ⟨c, first, rfl⟩ := List.exists_cons_of_ne_nil named.2
  obtain ⟨label, known, single, shows⟩ : ∃ label : List Char,
      "\n\nResponsibility: ".toList = '\n' :: '\n' :: label ∧ '\n' ∉ label ∧ ink label ≠ [] :=
    ⟨"Responsibility: ".toList, rfl, by decide, by decide⟩
  obtain ⟨middle, last, split⟩ := exists_labelled_concat label rest
  have told : (String.ofList (c :: first) ++ "\n\nResponsibility: " ++
      String.ofList (joined '\n' rest)).toList =
        joined '\n' ((c :: first) :: ([] :: middle) ++ [last]) := by
    rw [joined_told _ split, String.toList_append, String.toList_append, known, String.toList_ofList,
      String.toList_ofList]
    simp
  have ending : last ∈ labelled label rest := split ▸ List.mem_concat_self
  rw [Intent.told, told]
  refine cleanDocstring_flush (named.start c rfl) (fun line held => ?_) (fun line held => ?_)
    (ink_of_mem_labelled shows behind ending)
  · rcases List.mem_cons.1 held with rfl | held
    · exact named.single
    rcases List.mem_cons.1 held with rfl | held
    · exact List.not_mem_nil
    exact single_of_mem_labelled single behind (split ▸ held)
  · rcases List.mem_cons.1 held with rfl | held
    · exact named.last
    rcases List.mem_cons.1 held with rfl | held
    · exact nofun
    exact last_of_labelled behind split held

theorem skeleton_eq (intent : Intent) :
    intent.skeleton = String.ofList (tripled intent.told ++ ['\n', '\n']) := by
  rw [← skeleton_toList, String.ofList_toList]

theorem withoutMark_skeleton (intent : Intent) : withoutMark intent.skeleton = intent.skeleton := by
  rw [withoutMark, skeleton_toList, tripled]
  rfl

/-- The stub of a component parses, declares and imports nothing, and has as its documentation string
what is to be told with the escapes in it decoded, if the parser can take that for one literal. So the
documentation string is what was to be told if there are no escapes, and only then. The summary of
such a stub is the name and what the component is for, with spaces for tabs. -/
theorem skeleton_documents [Parser] (reads : Parser.ReadsTripled) {text : String}
    {color : Option String} {intent : Intent} (called : Intent.ofText? text color = some intent) :
    ('\x00' ∉ intent.told → ¬ ['"', '"', '"'] <:+: intent.told →
      understand intent.skeleton = .ok
        { docstring := some (String.ofList (cleanDocstring (decodeEscapes intent.told))) } ∧
      (understand intent.skeleton = .ok
        { docstring := some (String.ofList (cleanDocstring intent.told)) } ↔
          Verbatim intent.told)) ∧
    (∀ facts, understand intent.skeleton = .ok facts →
      facts.docstring = some (String.ofList (cleanDocstring intent.told)) →
      Verbatim intent.told ∧ ∃ root, Parser.tree? intent.skeleton = some root ∧
        root.documentation? = some [String.ofList (tripled intent.told)]) ∧
    Facts.responsibility { docstring := some (String.ofList (cleanDocstring intent.told)) } =
      "description: " ++ String.ofList (trimEnd (expandTabs
        (intent.name ++ "\n\nResponsibility: " ++ intent.responsibility).toList)) := by
  have ends : intent.told.getLast? = some '\n' := List.getLast?_concat
  refine ⟨fun nul free => ?_, fun facts read documented => ?_, ?_⟩
  · obtain ⟨root, parsed, sole⟩ := reads.sole intent.told ends nul free
    have read : understand intent.skeleton = .ok
        { docstring := some (String.ofList (cleanDocstring (decodeEscapes intent.told))) } := by
      rw [understand, withoutMark_skeleton, skeleton_eq, parsed]
      dsimp only
      rw [if_neg (by simp [sole.hasError_eq_false]), sole.facts_eq, docstring?_tripled]
    refine ⟨read, ?_⟩
    rw [read, verbatim_iff, ← String.ofList_inj]
    simp
  · rw [understand, withoutMark_skeleton] at read
    cases parsed : Parser.tree? intent.skeleton with
    | none =>
      rw [parsed] at read
      cases read
    | some root =>
      rw [parsed] at read
      dsimp only at read
      split at read
      · cases read
      next sound =>
      obtain rfl := Except.ok.inj read
      rw [Python.facts_eq] at documented
      obtain ⟨literals, documentation, spelled⟩ := Option.bind_eq_some_iff.1 documented
      have opens := reads.opened intent.told root literals (by rw [← skeleton_eq, parsed])
        (by simpa using sound) documentation
      obtain rfl := sole_of_documented ends opens spelled
      refine ⟨?_, root, rfl, documentation⟩
      rw [docstring?_tripled, Option.some_inj, String.ofList_inj] at spelled
      exact (verbatim_iff _).2 spelled
  · have written : (String.ofList (cleanDocstring intent.told)).isEmpty = false := by
      have visible := told_visible intent
      rw [← ink_cleanDocstring] at visible
      cases shown : cleanDocstring intent.told with
      | nil => exact absurd (by rw [shown]; rfl) visible
      | cons c cs => simp
    rw [← told_shown called]
    simp [Facts.responsibility, Facts.summaryLines, written, Facts.publicFunctions]

/-- The tree of a literal in triple quotes and two ends of lines, if what stands in them is plain. -/
def soleLiteral? (text : String) : Option Node :=
  let body := (text.toList.drop 3).take (text.toList.length - 8)
  if '\x00' ∈ body ∨ ['"', '"', '"'] <:+: body then none
  else some (.documented (String.ofList body) "\n\n")

theorem documented_isSole (body : List Char) :
    (Node.documented (String.ofList body) "\n\n").IsSole (String.ofList (tripled body)) := by
  have text : "\"\"\"" ++ String.ofList body ++ "\"\"\"" = String.ofList (tripled body) := by
    rw [← String.toList_inj]
    simp [tripled]
  rw [Node.documented, text]
  refine .mk rfl rfl rfl ⟨rfl, rfl⟩ rfl ⟨rfl, rfl, rfl⟩ ?_
  simp only [List.forall_mem_cons, Node.named, Node.forall_isIn_iff]
  exact ⟨⟨⟨rfl, _, rfl⟩, by simp⟩, ⟨⟨rfl, _, rfl⟩, by simp⟩, by simp⟩

theorem soleLiteral?_tripled (body : List Char) :
    soleLiteral? (String.ofList (tripled body ++ ['\n', '\n'])) =
      if '\x00' ∈ body ∨ ['"', '"', '"'] <:+: body then none
      else some (.documented (String.ofList body) "\n\n") := by
  have inner : ((tripled body ++ ['\n', '\n']).drop 3).take
      ((tripled body ++ ['\n', '\n']).length - 8) = body := by
    simp [tripled]
  rw [soleLiteral?, String.toList_ofList, inner]

theorem soleLiteral?_reads : @Parser.ReadsTripled ⟨soleLiteral?⟩ := by
  refine @Parser.ReadsTripled.mk ⟨soleLiteral?⟩ (fun body _ nul free => ?_)
    fun body root literals parsed _ documented => ?_
  · exact ⟨_, (soleLiteral?_tripled body).trans (if_neg (not_or.2 ⟨nul, free⟩)),
      documented_isSole body⟩
  · replace parsed := (soleLiteral?_tripled body).symm.trans parsed
    split at parsed
    · cases parsed
    · obtain rfl := Option.some.inj parsed
      rw [(documented_isSole body).documentation?_eq] at documented
      obtain rfl := Option.some.inj documented
      exact ⟨body, ['\n', '\n'], [], rfl, rfl, List.nil_sublist _, nofun⟩

theorem skeleton_documents_plain :
    Intent.ofText? "Parser\nparser.py\nReads source files." none =
        some ⟨"Parser", "parser.py", "Reads source files.", none⟩ ∧
      @understand ⟨soleLiteral?⟩
          (Intent.skeleton ⟨"Parser", "parser.py", "Reads source files.", none⟩) =
        .ok { docstring := some "Parser\n\nResponsibility: Reads source files." } := by
  have called : Intent.ofText? "Parser\nparser.py\nReads source files." none =
      some ⟨"Parser", "parser.py", "Reads source files.", none⟩ := by decide +kernel
  have plain : '\\' ∉ Intent.told ⟨"Parser", "parser.py", "Reads source files.", none⟩ := by
    decide +kernel
  have verbatim : Verbatim (Intent.told ⟨"Parser", "parser.py", "Reads source files.", none⟩) := by
    intro before after same
    exact absurd (same ▸ List.mem_append_right before (List.mem_cons_self ..)) plain
  obtain ⟨reads, -, -⟩ := @skeleton_documents ⟨soleLiteral?⟩ soleLiteral?_reads _ _ _ called
  refine ⟨called, ((reads ?_ ?_).2.2 verbatim).trans (by decide +kernel)⟩
  · decide +kernel
  · decide +kernel

/-- A backslash that begins an escape is not shown, and three double quotes end the literal. -/
theorem skeleton_escapes :
    Intent.ofText? "Parser\nparser.py\nReads C:\\new" none =
        some ⟨"Parser", "parser.py", "Reads C:\\new", none⟩ ∧
      facts? (Intent.skeleton ⟨"Parser", "parser.py", "Reads C:\\new", none⟩) ≠
        some { docstring := some (String.ofList (cleanDocstring
          (Intent.told ⟨"Parser", "parser.py", "Reads C:\\new", none⟩))) } ∧
      Intent.ofText? "Parser\nparser.py\nReads \"\"\"" none =
        some ⟨"Parser", "parser.py", "Reads \"\"\"", none⟩ ∧
      facts? (Intent.skeleton ⟨"Parser", "parser.py", "Reads \"\"\"", none⟩) = none := by
  decide +kernel

end Python

end SourceAtlas
