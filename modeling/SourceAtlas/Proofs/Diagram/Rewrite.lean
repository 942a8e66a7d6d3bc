import SourceAtlas.Proofs.Diagram.ReadBack
set_option autoImplicit false

/-!
# What rewriting keeps

A document is read and written again. Members of nodes and edges are kept, those that mean nothing
here as well, but for four exceptions; members of the document itself that mean nothing are lost.
-/

namespace SourceAtlas

open Json
open Number (Binary64)

def JsonNumber.value : JsonNumber → Int
  | .integer i => i * Binary64.one
  | .real x => x.value

namespace Json

def SameValue (old new : Json) : Prop :=
  old = new ∨ ∃ n m, old = .number n ∧ new = .number m ∧ n.value = m.value

def RecordKept (optional : List String) (old new : Json) : Prop :=
  ∃ members written, old = .object members ∧ new = .object written ∧
    ∀ key value, Members.get? key members = some value →
      value = .null ∧ key ∈ optional ∨
        ∃ other, Members.get? key written = some other ∧ SameValue value other

theorem recordKept_iff {optional : List String} {members written : Members}
    {member? : String → Option Json}
    (same : ∀ key, Members.get? key written = member? key) :
    RecordKept optional (.object members) (.object written) ↔
      ∀ key value, Members.get? key members = some value →
        value = .null ∧ key ∈ optional ∨
          ∃ other, member? key = some other ∧ SameValue value other := by
  simp only [← same]
  constructor
  · rintro ⟨_, _, old, new, kept⟩
    obtain rfl := Json.object.inj old
    obtain rfl := Json.object.inj new
    exact kept
  · exact fun kept => ⟨members, written, rfl, rfl, kept⟩

def SectionKept (optional : List String) (old new : Option Json) : Prop :=
  ∀ value, old = some value → ∃ olds news, value = .array olds ∧ new = some (.array news) ∧
    List.Forall₂ (RecordKept optional) olds news

/-- Whether an integer is a number of double precision. -/
def IsExact (i : Int) : Prop :=
  (Binary64.ofInt i).value = i * Binary64.one

theorem ofCoordinate_value (x : Binary64) :
    ∃ number, ofCoordinate x = .number number ∧ number.value = x.value := by
  unfold ofCoordinate
  split
  · next i whole => exact ⟨.integer i, rfl, (Binary64.value_of_whole? whole).symm⟩
  · exact ⟨.real x, rfl, rfl⟩

theorem coordinate_kept_iff {x : Binary64} {value : Json} (real : IsReal x value) :
    SameValue value (ofCoordinate x) ↔ ∀ i, value = .number (.integer i) → IsExact i := by
  obtain ⟨number, rfl, rfl⟩ := real
  obtain ⟨other, written, same⟩ := ofCoordinate_value (toReal number)
  rw [written]
  constructor
  · rintro (equal | ⟨n, m, left, right, equal⟩) i integer
    · obtain rfl := Json.number.inj equal
      obtain rfl := Json.number.inj integer
      exact same.symm
    · obtain rfl := Json.number.inj left
      obtain rfl := Json.number.inj right
      obtain rfl := Json.number.inj integer
      exact (equal.trans same).symm
  · intro exact'
    refine .inr ⟨number, other, rfl, rfl, ?_⟩
    rw [same]
    -- A real number loses at most the sign of zero, which is none in its value.
    cases number with
    | integer i => exact (exact' i rfl).symm
    | real y => exact (Binary64.value_plain y).symm

theorem get?_optionalText (key k : String) (text : Option String) :
    Members.get? k (optionalText key text) = if key = k then text.map .string else none := by
  cases text with
  | none => simp [optionalText]
  | some text => simp [optionalText, Members.get?_cons]

theorem isReal_getD {field : Option Binary64} {default : Binary64} {value : Json}
    (shown : Option.Rel IsReal field (some value)) : IsReal (field.getD default) value := by
  cases shown with
  | some shown => exact shown

theorem isText_getD {field : Option String} {default : String} {value : Json}
    (shown : Option.Rel IsText field (some value)) : value = .string (field.getD default) := by
  cases shown with
  | some shown => exact shown

theorem isText_eq_some {field : Option String} {text : String}
    (shown : Option.Rel IsText field (some (.string text))) : field = some text := by
  cases shown with
  | some shown => exact congrArg some (Json.string.inj shown).symm

theorem isOptional_join {α : Type} {R : α → Json → Prop} {field : Option (Option α)} {value : Json}
    (shown : Option.Rel (IsOptional R) field (some value)) :
    value = .null ∨ ∃ a, field.join = some a ∧ R a value := by
  cases shown with
  | @some field _ shown =>
    cases field with
    | none => exact .inl shown
    | some a => exact .inr ⟨a, rfl, shown⟩

end Json

namespace Node

def member? (node : Node) (key : String) : Option Json :=
  match key with
  | "id" => some (.string node.id)
  | "type" => some (.string node.kind)
  | "text" => node.shownText.map .string
  | "x" => some (ofCoordinate node.x)
  | "y" => some (ofCoordinate node.y)
  | "width" => some (ofCoordinate node.width)
  | "height" => some (ofCoordinate node.height)
  | "color" => node.color.map .string
  | key => node.extra.get? key

theorem get?_members {node : Node} (extras : Extras keys node.extra) (key : String) :
    Members.get? key node.members = node.member? key := by
  by_cases known : key ∈ keys
  · have blank := extras.get?_known known
    simp only [keys, List.mem_cons, List.not_mem_nil, or_false] at known
    rcases known with rfl | rfl | rfl | rfl | rfl | rfl | rfl | rfl <;>
      simp [members, member?, Members.get?_append, Members.get?_cons, get?_optionalText, blank]
  · have other : node.member? key = Members.get? key node.extra := by
      unfold member?
      split <;> first | rfl | exact absurd (by decide) known
    rw [other]
    simp only [keys, List.mem_cons, List.not_mem_nil, or_false, not_or, @eq_comm _ key] at known
    simp [members, Members.get?_append, Members.get?_cons, get?_optionalText, known]

/-- What a node must not have for all its members to be kept: an empty text although it is not there
to show one, or a coordinate that is no number of double precision. -/
structure Spared (members : Members) : Prop where
  text : members.get? "text" = some (.string "") →
    ∀ kind, members.get? "type" = some (.string kind) → kind = textKind
  geometry : ∀ key ∈ ["x", "y", "width", "height"], ∀ i,
    members.get? key = some (.number (.integer i)) → IsExact i

theorem shownText_eq_some {node : Node} (spared : node.text = "" → node.kind = textKind) :
    node.shownText = some node.text := by
  unfold shownText
  rw [if_pos]
  by_cases empty : node.text = ""
  · exact .inl (spared empty)
  · exact .inr empty

theorem kind_eq_textKind {draft : Draft} {members : Members} (views : draft.Views members)
    (same : ∀ kind, members.get? "type" = some (.string kind) → kind = textKind) :
    draft.kind.getD textKind = textKind := by
  have shown : Option.Rel IsText draft.kind (members.get? "type") := views.each "type"
  cases found : members.get? "type" with
  | none =>
    rw [found] at shown
    cases field : draft.kind with
    | none => rfl
    | some kind =>
      rw [field] at shown
      cases shown
  | some value =>
    rw [found] at shown
    exact same _ (found.trans (congrArg some (isText_getD shown)))

structure Draft.Gives (draft : Draft) (node : Node) : Prop where
  id : draft.id = some node.id
  kind : node.kind = draft.kind.getD textKind
  text : node.text = draft.text.getD ""
  x : node.x = draft.x.getD Binary64.zero
  y : node.y = draft.y.getD Binary64.zero
  width : node.width = draft.width.getD defaultWidth
  height : node.height = draft.height.getD defaultHeight
  color : node.color = draft.color.join
  extra : node.extra = draft.extra

theorem gives_of_finish {draft : Draft} {node : Node} (finished : draft.finish = .ok node) :
    draft.Gives node := by
  unfold Draft.finish at finished
  split at finished
  · cases finished
  · next id given =>
    obtain rfl := Except.ok.inj finished
    exact ⟨given, rfl, rfl, rfl, rfl, rfl, rfl, rfl, rfl⟩

variable {node : Node} {draft : Draft} {members : Members}

theorem kept_of_spared (views : draft.Views members) (gives : draft.Gives node)
    (spared : Spared members) (key : String) (value : Json)
    (found : members.get? key = some value) :
    value = .null ∧ key ∈ ["color"] ∨
      ∃ other, node.member? key = some other ∧ SameValue value other := by
  have real : ∀ k ∈ ["x", "y", "width", "height"], ∀ {v field default}, k = key →
      v = field.getD default → Option.Rel IsReal field (some value) →
      SameValue value (ofCoordinate v) := by
    rintro k mem v field default rfl rfl shown
    refine (coordinate_kept_iff (isReal_getD shown)).2 ?_
    rintro i rfl
    exact spared.geometry k mem i found
  have shows := views.each key
  rw [found] at shows
  unfold Draft.Shows at shows
  split at shows
  · rw [gives.id] at shows
    cases shows with
    | some same => exact .inr ⟨_, rfl, .inl same⟩
  · exact .inr ⟨_, rfl, .inl (gives.kind ▸ isText_getD shows)⟩
  · have same : value = .string node.text := gives.text ▸ isText_getD shows
    have shown : node.shownText = some node.text := shownText_eq_some fun empty =>
      gives.kind ▸ kind_eq_textKind views (spared.text (by rw [found, same, empty]))
    exact .inr ⟨.string node.text, congrArg (Option.map Json.string) shown, .inl same⟩
  · exact .inr ⟨_, rfl, real "x" (by decide) rfl gives.x shows⟩
  · exact .inr ⟨_, rfl, real "y" (by decide) rfl gives.y shows⟩
  · exact .inr ⟨_, rfl, real "width" (by decide) rfl gives.width shows⟩
  · exact .inr ⟨_, rfl, real "height" (by decide) rfl gives.height shows⟩
  · rcases isOptional_join shows with null | ⟨color, field, same⟩
    · exact .inl ⟨null, List.mem_singleton_self _⟩
    · exact .inr ⟨_, congrArg (Option.map Json.string) (gives.color.trans field), .inl same⟩
  · refine .inr ⟨value, ?_, .inl rfl⟩
    unfold member?
    split <;> first | exact gives.extra ▸ shows | contradiction

theorem spared_of_kept (views : draft.Views members) (gives : draft.Gives node)
    (kept : ∀ key value, members.get? key = some value → value = .null ∧ key ∈ ["color"] ∨
      ∃ other, node.member? key = some other ∧ SameValue value other) : Spared members := by
  have real : ∀ key {v field default}, node.member? key = some (ofCoordinate v) →
      v = field.getD default → Option.Rel IsReal field (members.get? key) →
      ∀ i, members.get? key = some (.number (.integer i)) → IsExact i := by
    rintro key v field default written rfl shown i found
    rw [found] at shown
    rcases kept key _ found with ⟨null, -⟩ | ⟨other, there, same⟩
    · cases null
    · obtain rfl := Option.some.inj (written.symm.trans there)
      exact (coordinate_kept_iff (isReal_getD shown)).1 same i rfl
  constructor
  · intro empty kind found
    have text : Option.Rel IsText draft.text (members.get? "text") := views.each "text"
    have shown : Option.Rel IsText draft.kind (members.get? "type") := views.each "type"
    rw [empty] at text
    rw [found] at shown
    have noText : node.text = "" := by rw [gives.text, isText_eq_some text]; rfl
    have given : node.kind = kind := by rw [gives.kind, isText_eq_some shown]; rfl
    rcases kept "text" _ empty with ⟨null, -⟩ | ⟨other, there, -⟩
    · cases null
    -- An empty text is shown for the kind of texts alone.
    · by_contra apart
      simp [member?, shownText, noText, given, apart] at there
  · simp only [List.forall_mem_cons]
    exact ⟨real "x" rfl gives.x (views.each "x"), real "y" rfl gives.y (views.each "y"),
      real "width" rfl gives.width (views.each "width"),
      real "height" rfl gives.height (views.each "height"), by simp⟩

theorem kept_iff (views : draft.Views members) (finished : draft.finish = .ok node) :
    RecordKept ["color"] (.object members) node.toJson ↔ Spared members := by
  have gives := gives_of_finish finished
  have extras : Extras keys node.extra := gives.extra ▸ views.extras
  rw [toJson_eq, recordKept_iff (get?_members extras)]
  exact ⟨spared_of_kept views gives, kept_of_spared views gives⟩

theorem Views.kept_iff {value : Json} (views : node.Views value) :
    RecordKept ["color"] value node.toJson ↔ ∀ members, value = .object members → Spared members := by
  obtain ⟨draft, members, rfl, -, views, finished⟩ := views
  simp [Node.kept_iff views finished]

end Node

namespace Edge

def member? (edge : Edge) (key : String) : Option Json :=
  match key with
  | "id" => some (.string edge.id)
  | "fromNode" => some (.string edge.fromNode)
  | "fromSide" => (edge.fromSide.map Side.name).map .string
  | "toNode" => some (.string edge.toNode)
  | "toSide" => (edge.toSide.map Side.name).map .string
  | "label" => edge.label.map .string
  | "color" => edge.color.map .string
  | key => edge.extra.get? key

theorem get?_members {edge : Edge} (extras : Extras keys edge.extra) (key : String) :
    Members.get? key edge.members = edge.member? key := by
  by_cases known : key ∈ keys
  · have blank := extras.get?_known known
    simp only [keys, List.mem_cons, List.not_mem_nil, or_false] at known
    rcases known with rfl | rfl | rfl | rfl | rfl | rfl | rfl <;>
      simp [members, member?, Members.get?_append, Members.get?_cons, get?_optionalText, blank]
  · have other : edge.member? key = Members.get? key edge.extra := by
      unfold member?
      split <;> first | rfl | exact absurd (by decide) known
    rw [other]
    simp only [keys, List.mem_cons, List.not_mem_nil, or_false, not_or, @eq_comm _ key] at known
    simp [members, Members.get?_append, Members.get?_cons, get?_optionalText, known]

/-- What an edge must not have for all its members to be kept: a side that is spelled as an
object. -/
def Spared (members : Members) : Prop :=
  ∀ key ∈ ["fromSide", "toSide"], ∀ more, members.get? key ≠ some (.object more)

structure Draft.Gives (draft : Draft) (edge : Edge) : Prop where
  id : draft.id = some edge.id
  fromNode : draft.fromNode = some edge.fromNode
  fromSide : edge.fromSide = draft.fromSide.join
  toNode : draft.toNode = some edge.toNode
  toSide : edge.toSide = draft.toSide.join
  label : edge.label = draft.label.join
  color : edge.color = draft.color.join
  extra : edge.extra = draft.extra

theorem gives_of_finish {draft : Draft} {edge : Edge} (finished : draft.finish = .ok edge) :
    draft.Gives edge := by
  unfold Draft.finish at finished
  split at finished
  · cases finished
  · cases finished
  · cases finished
  · next id fromNode toNode given source target =>
    obtain rfl := Except.ok.inj finished
    exact ⟨given, source, rfl, target, rfl, rfl, rfl, rfl⟩

variable {edge : Edge} {draft : Draft} {members : Members}

theorem kept_of_spared (views : draft.Views members) (gives : draft.Gives edge)
    (spared : Spared members) (key : String) (value : Json)
    (found : members.get? key = some value) :
    value = .null ∧ key ∈ ["fromSide", "toSide", "label", "color"] ∨
      ∃ other, edge.member? key = some other ∧ SameValue value other := by
  have side : ∀ k ∈ ["fromSide", "toSide"], ∀ {side : Option Side} {field}, k = key →
      side = field.join → Option.Rel (IsOptional Side.Named) field (some value) →
      value = .null ∨ (side.map Side.name).map Json.string = some value := by
    rintro k mem _ field rfl rfl shown
    rcases isOptional_join shown with null | ⟨side, given, same | same⟩
    · exact .inl null
    · exact .inr (by rw [given, same]; rfl)
    · exact absurd (found.trans (congrArg some same)) (spared k mem _)
  have text : ∀ {text : Option String} {field}, text = field.join →
      Option.Rel (IsOptional IsText) field (some value) →
      value = .null ∨ text.map Json.string = some value := by
    rintro _ field rfl shown
    rcases isOptional_join shown with null | ⟨text, given, same⟩
    · exact .inl null
    · exact .inr (by rw [given, same]; rfl)
  have shows := views.each key
  rw [found] at shows
  unfold Draft.Shows at shows
  split at shows
  · rw [gives.id] at shows
    cases shows with
    | some same => exact .inr ⟨_, rfl, .inl same⟩
  · rw [gives.fromNode] at shows
    cases shows with
    | some same => exact .inr ⟨_, rfl, .inl same⟩
  · exact (side "fromSide" (by decide) rfl gives.fromSide shows).imp (⟨·, by decide⟩)
      fun kept => ⟨value, kept, .inl rfl⟩
  · rw [gives.toNode] at shows
    cases shows with
    | some same => exact .inr ⟨_, rfl, .inl same⟩
  · exact (side "toSide" (by decide) rfl gives.toSide shows).imp (⟨·, by decide⟩)
      fun kept => ⟨value, kept, .inl rfl⟩
  · exact (text gives.label shows).imp (⟨·, by decide⟩) fun kept => ⟨value, kept, .inl rfl⟩
  · exact (text gives.color shows).imp (⟨·, by decide⟩) fun kept => ⟨value, kept, .inl rfl⟩
  · refine .inr ⟨value, ?_, .inl rfl⟩
    unfold member?
    split <;> first | exact gives.extra ▸ shows | contradiction

theorem spared_of_kept (edge : Edge) (kept : ∀ key value, members.get? key = some value →
      value = .null ∧ key ∈ ["fromSide", "toSide", "label", "color"] ∨
        ∃ other, edge.member? key = some other ∧ SameValue value other) : Spared members := by
  -- A side is written as a text, which is no object.
  have text : ∀ {side : Option Side} {more other},
      (side.map Side.name).map Json.string = some other → ¬ SameValue (.object more) other := by
    rintro side more other written (same | ⟨n, m, same, -⟩)
    · obtain ⟨name, -, rfl⟩ := Option.map_eq_some_iff.1 written
      cases same
    · cases same
  simp only [Spared, List.forall_mem_cons]
  refine ⟨fun more found => ?_, fun more found => ?_, by simp⟩
  · rcases kept "fromSide" _ found with ⟨null, -⟩ | ⟨other, written, same⟩
    · cases null
    · exact text written same
  · rcases kept "toSide" _ found with ⟨null, -⟩ | ⟨other, written, same⟩
    · cases null
    · exact text written same

theorem kept_iff (views : draft.Views members) (finished : draft.finish = .ok edge) :
    RecordKept ["fromSide", "toSide", "label", "color"] (.object members) edge.toJson ↔
      Spared members := by
  have gives := gives_of_finish finished
  have extras : Extras keys edge.extra := gives.extra ▸ views.extras
  rw [toJson_eq, recordKept_iff (get?_members extras)]
  exact ⟨spared_of_kept edge, kept_of_spared views gives⟩

theorem Views.kept_iff {value : Json} (views : edge.Views value) :
    RecordKept ["fromSide", "toSide", "label", "color"] value edge.toJson ↔
      ∀ members, value = .object members → Spared members := by
  obtain ⟨draft, members, rfl, -, views, finished⟩ := views
  simp [Edge.kept_iff views finished]

end Edge

def Json.records : Option Json → List Json
  | some (.array items) => items
  | _ => []

theorem Json.sectionKept_iff {α : Type} {V : α → Json → Prop} {optional : List String}
    {write : α → Json} {Spared : Json → Prop}
    (record : ∀ a value, V a value → (RecordKept optional value (write a) ↔ Spared value))
    {items : List α} {found : Option Json} (shown : Diagram.IsSection V items found) :
    SectionKept optional found (some (.array (items.map write))) ↔
      ∀ value ∈ records found, Spared value := by
  cases found with
  | none => simp [SectionKept, records]
  | some value =>
    obtain ⟨values, rfl, shown⟩ := shown
    have each : List.Forall₂ (RecordKept optional) values (items.map write) ↔
        ∀ value ∈ values, Spared value := by
      induction shown with
      | nil => simp
      | cons one _ ih => simp [record _ _ one, ih]
    rw [records, ← each]
    constructor
    · intro kept
      obtain ⟨olds, news, same, written, spared⟩ := kept _ rfl
      obtain rfl := Json.array.inj same
      obtain rfl := Json.array.inj (Option.some.inj written)
      exact spared
    · intro spared value same
      exact ⟨values, _, (Option.some.inj same).symm, rfl, spared⟩

namespace Document

/-- Whether a value has every member of a document, in the document itself and in every node and
edge. -/
def KeptIn (document : Document) (written : Json) : Prop :=
  ∃ members, written = .object members ∧
    SectionKept ["color"] document.nodes (Members.get? "nodes" members) ∧
    SectionKept ["fromSide", "toSide", "label", "color"] document.edges
      (Members.get? "edges" members) ∧
    ∀ key ∈ document.foreign, (Members.get? key members).isSome

structure Spared (document : Document) : Prop where
  foreign : document.foreign = []
  nodes : ∀ members, .object members ∈ records document.nodes → Node.Spared members
  edges : ∀ members, .object members ∈ records document.edges → Edge.Spared members

end Document

namespace Diagram

/-- Reading a document and writing it again keeps every member just when the document is spared: it
has no other keys than those of the sections, no node has an empty text that is not there to show
one, no coordinate is out of double precision and no side is spelled as an object. -/
theorem rewrite_keeps_iff {text : String} {diagram : Diagram}
    (read : Diagram.read text = .ok diagram) :
    ∃ document, Document.read text = .ok document ∧
      (document.KeptIn diagram.toJson ↔ document.Spared) := by
  obtain ⟨document, taken, views⟩ := document_of_read read
  have nodes := sectionKept_iff (fun _ _ shown => Node.Views.kept_iff shown) views.nodes
  have edges := sectionKept_iff (fun _ _ shown => Edge.Views.kept_iff shown) views.edges
  refine ⟨document, taken, ?_, ?_⟩
  · rintro ⟨members, written, keptNodes, keptEdges, foreign⟩
    obtain rfl := Json.object.inj written
    refine ⟨?_, ?_, ?_⟩
    -- Nothing but the two sections is written, so no other key can be found again.
    · refine List.eq_nil_iff_forall_not_mem.2 fun key mem => ?_
      obtain ⟨noNodes, noEdges⟩ := views.foreign key mem
      have never := foreign key mem
      simp [Members.get?_cons, noNodes.symm, noEdges.symm] at never
    · exact fun members mem => nodes.1 keptNodes _ mem members rfl
    · exact fun members mem => edges.1 keptEdges _ mem members rfl
  · intro spared
    refine ⟨_, rfl, nodes.2 ?_, edges.2 ?_, ?_⟩
    · rintro _ mem members rfl
      exact spared.nodes members mem
    · rintro _ mem members rfl
      exact spared.edges members mem
    · simp [spared.foreign]

/-- A node with a member that means nothing here, a color that is null and a coordinate with a point;
all but the color is written again. -/
theorem rewrite_keeps_iff_tagged :
    let text := "\x7b\"nodes\":[\x7b\"tag\":[\"a\"],\"color\":null,\"id\":\"n\",\"x\":1.0\x7d]\x7d"
    let node : Node :=
      { Node.ofText "n" "" 1 0 with extra := [("tag", .array [.string "a"])] }
    Diagram.read text = .ok ⟨[node], []⟩ ∧ ∃ document, Document.read text = .ok document ∧
      (document.KeptIn (Diagram.toJson ⟨[node], []⟩) ↔ document.Spared) := by
  intro text node
  have read : Diagram.read text = .ok ⟨[node], []⟩ := ok_of_toOption (by decide +kernel)
  exact ⟨read, rewrite_keeps_iff read⟩

/-- A document with a member of its own, which is not written again. -/
theorem foreign_member_lost :
    let text := "\x7b\"nodes\":[],\"edges\":[],\"meta\":1\x7d"
    ∃ diagram document, Diagram.read text = .ok diagram ∧ Document.read text = .ok document ∧
      "meta" ∈ document.foreign ∧ ¬ document.KeptIn diagram.toJson := by
  intro text
  have diagram : Diagram.read text = .ok ⟨[], []⟩ := ok_of_toOption (by decide +kernel)
  have document : Document.read text = .ok ⟨some (.array []), some (.array []), ["meta"]⟩ :=
    ok_of_toOption (by decide +kernel)
  refine ⟨_, _, diagram, document, by decide, ?_⟩
  rintro ⟨members, written, -, -, kept⟩
  obtain rfl := Json.object.inj written
  have never := kept "meta" (by decide)
  simp [Members.get?_cons] at never

end Diagram

end SourceAtlas
