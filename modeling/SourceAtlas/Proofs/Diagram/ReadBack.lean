import SourceAtlas.Diagram.Writer
import SourceAtlas.Proofs.Diagram.Document
import SourceAtlas.Proofs.Number.Whole
set_option autoImplicit false

namespace SourceAtlas

open Json
open Number (Binary64)

section Members

variable {σ τ α : Type} {level : Nat}

theorem Json.Gathers.known {add : σ → String → Reader σ} {start last : σ} {key : String}
    {value : Json} {members : Members} {a : α} {item : Reader α} (takes : Takes item level value a)
    (skips : SkipsBlank item) (put : Option α → σ)
    (step : ∀ cs, add start key cs = (do
      let (field, rest) ← readOnce key none item cs
      .ok (put field, rest)))
    (onward : Gathers add level (put (some a)) members last) :
    Gathers add level start ((key, value) :: members) last := by
  refine .cons (fun rest ends => ?_) onward
  have one : readOnce key none item (':' :: ' ' :: (writeValue level value ++ rest)) =
      .ok (some a, rest) := bind_eq_ok.2 ⟨_, takes.member skips ends, rfl⟩
  rw [step, one]
  rfl

theorem Json.Gathers.optional {add : σ → String → Reader σ} {start last : σ} {key : String}
    {members : Members} {text : Option String} {field : Option α} {item : Reader α}
    (takes : Option.Rel (fun text a => Takes item level (.string text) a) text field)
    (skips : SkipsBlank item) (put : Option α → σ) (none' : put none = start)
    (step : ∀ cs, add start key cs = (do
      let (field, rest) ← readOnce key none item cs
      .ok (put field, rest)))
    (onward : Gathers add level (put field) members last) :
    Gathers add level start (optionalText key text ++ members) last := by
  cases takes with
  | none => exact none' ▸ onward
  | some takes => exact .known takes skips put step onward

theorem Json.Gathers.lift {inner : σ → String → Reader σ} {outer : τ → String → Reader τ}
    {known : List String} {members : Members} {start last : σ}
    (gathers : Gathers inner level start members last) (foreign : ∀ m ∈ members, m.1 ∉ known)
    (put : σ → τ)
    (step : ∀ s key cs, key ∉ known → outer (put s) key cs = (do
      let (more, rest) ← inner s key cs
      .ok (put more, rest))) :
    Gathers outer level (put start) members (put last) := by
  induction gathers with
  | nil => exact .nil _
  | cons one _ ih =>
    refine .cons (fun rest ends => ?_) (ih fun m mem => foreign m (List.mem_cons_of_mem _ mem))
    rw [step _ _ _ (foreign _ (List.mem_cons_self ..)), one rest ends]
    rfl

theorem Json.Extras.gathers {known : List String} {extra : Members} (extras : Extras known extra)
    (back : RealsReadBack (numbersOfMembers extra)) (level : Nat) :
    Gathers (addMember (readValue innerDepth)) level [] extra extra :=
  gathers_members (readValue_skipsBlank innerDepth) extras.sorted fun m mem =>
    takes_value innerDepth level m.2 (extras.legible m mem) fun v inside =>
      back v (mem_numbersOfMembers mem inside)

theorem Json.takes_record {add : σ → String → Reader σ} {empty last : σ}
    {finish : σ → Except String α} {members : Members} {a : α}
    (gathers : Gathers add (level + 1) empty members last) (finished : finish last = .ok a)
    (expected : String) :
    Takes (readRecord expected add empty finish) level (.object members) a := by
  refine ⟨begins_object level members, fun rest _ => ?_⟩
  obtain ⟨inner, written, read⟩ := readMembers_object gathers rest
  have opened : skipGap ('{' :: inner) = '{' :: inner := skipGap_of_visible (by decide) inner
  rw [written, readRecord, opened]
  exact bind_eq_ok.2 ⟨_, read, closeRecord_eq_ok.2 ⟨rfl, finished⟩⟩

theorem Json.takes_given {item : Reader α} (name : α → String)
    (takes : ∀ a, Takes item level (.string (name a)) a) (given : Option α) :
    Option.Rel (fun text a => Takes (readOptional item) level (.string text) a) (given.map name)
      (given.map some) := by
  cases given with
  | none => exact .none
  | some a => exact .some (takes_optional (takes a))

end Members

theorem Side.takes_name (side : Side) (level : Nat) :
    Takes Side.read level (.string side.name) side := by
  have text := takes_text "variant identifier" side.name level
  refine ⟨text.1, fun rest ends => ?_⟩
  have name := text.2 rest ends
  rw [writeValue, writeString, List.append_assoc, List.cons_append] at name ⊢
  rw [Side.read, skipGap_of_visible (by decide)]
  refine bind_eq_ok.2 ⟨_, name, ?_⟩
  simp only [Side.ofName?_name]

theorem Json.takes_coordinate {x : Binary64} {i : Int} (plain : x.plain = x)
    (whole : x.whole? = some i) (level : Nat) : Takes readReal level (ofCoordinate x) x := by
  have back := readsBack_integer (storable_small (Binary64.whole?_le whole))
  obtain ⟨begins, -⟩ := takes_number back 0 level
  have written : ofCoordinate x = .number (.integer i) := by rw [ofCoordinate, whole]
  rw [written]
  refine ⟨begins, fun rest ends => ?_⟩
  have read := back rest ends
  obtain ⟨c, cs, head, numeric⟩ := back.head
  have skipped := begins.skipGap rest
  rw [writeValue, head, List.cons_append] at skipped ⊢
  rw [head, List.cons_append] at read
  rw [readReal, skipped]
  simp only [if_pos numeric]
  refine bind_eq_ok.2 ⟨_, read, ?_⟩
  simp only [Binary64.ofInt_of_whole? plain whole]

namespace Node

def geometry (node : Node) : List Binary64 :=
  [node.x, node.y, node.width, node.height]

structure Sound (node : Node) : Prop where
  plain : ∀ v ∈ node.geometry, v.plain = v
  extras : Extras keys node.extra

def members (node : Node) : Members :=
  [("id", .string node.id), ("type", .string node.kind)] ++
  optionalText "text" node.shownText ++
  [("x", ofCoordinate node.x), ("y", ofCoordinate node.y),
    ("width", ofCoordinate node.width), ("height", ofCoordinate node.height)] ++
  optionalText "color" node.color ++
  node.extra

theorem toJson_eq (node : Node) : node.toJson = .object node.members := rfl

theorem add_foreign {key : String} (foreign : key ∉ keys) (draft : Draft) (cs : List Char) :
    draft.add key cs = (do
      let (more, rest) ← addMember (readValue innerDepth) draft.extra key cs
      .ok ({ draft with extra := more }, rest)) := by
  unfold Draft.add
  split <;> first | rfl | exact absurd (by decide) foreign

theorem gathers (node : Node) (sound : node.Sound) (whole : ∀ v ∈ node.geometry, v.IsWhole)
    (back : RealsReadBack (numbersOfMembers node.extra)) (level : Nat) :
    Gathers Draft.add level Draft.empty node.members
      ⟨some node.id, some node.kind, node.shownText, some node.x, some node.y, some node.width,
        some node.height, node.color.map some, node.extra⟩ := by
  have text : ∀ s, Takes readText level (.string s) s := fun s => takes_text _ s level
  have blank := skipsBlank_text "a string"
  have coordinate : ∀ v ∈ node.geometry, Takes readReal level (ofCoordinate v) v := fun v mem => by
    obtain ⟨i, same⟩ := Option.isSome_iff_exists.1 (Binary64.isWhole_iff.1 (whole v mem))
    exact takes_coordinate (sound.plain v mem) same level
  obtain ⟨x, y, width, height⟩ :
      Takes readReal level (ofCoordinate node.x) node.x ∧
      Takes readReal level (ofCoordinate node.y) node.y ∧
      Takes readReal level (ofCoordinate node.width) node.width ∧
      Takes readReal level (ofCoordinate node.height) node.height := by
    simpa [geometry] using coordinate
  have shown : Option.Rel (fun s a => Takes readText level (.string s) a) node.shownText
      node.shownText := by
    cases node.shownText with
    | none => exact .none
    | some s => exact .some (text s)
  have color := takes_given (fun s : String => s) text node.color
  rw [Option.map_id'] at color
  simp only [members, List.append_assoc, List.cons_append, List.nil_append]
  -- The draft after each member, in the order in which they are written.
  let named : Draft := { Draft.empty with id := some node.id, kind := some node.kind }
  let told : Draft := { named with text := node.shownText }
  let placed : Draft := { told with x := some node.x, y := some node.y }
  let sized : Draft := { placed with width := some node.width, height := some node.height }
  let colored : Draft := { sized with color := node.color.map some }
  refine .known (text node.id) blank (fun v => { Draft.empty with id := v }) (fun _ => rfl) ?_
  refine .known (text node.kind) blank (fun v => { named with kind := v }) (fun _ => rfl) ?_
  refine .optional shown blank (fun v => { named with text := v }) rfl (fun _ => rfl) ?_
  refine .known x skipsBlank_real (fun v => { told with x := v }) (fun _ => rfl) ?_
  refine .known y skipsBlank_real (fun v => { placed with y := v }) (fun _ => rfl) ?_
  refine .known width skipsBlank_real (fun v => { placed with width := v }) (fun _ => rfl) ?_
  refine .known height skipsBlank_real (fun v => { sized with height := v }) (fun _ => rfl) ?_
  refine .optional color (skipsBlank_optional _) (fun v => { sized with color := v }) rfl
    (fun _ => rfl) ?_
  exact (sound.extras.gathers back level).lift sound.extras.foreign
    (fun extra => { colored with extra := extra })
    fun _ key cs foreign => add_foreign foreign _ cs

theorem finish_written (node : Node) :
    Draft.finish ⟨some node.id, some node.kind, node.shownText, some node.x, some node.y,
      some node.width, some node.height, node.color.map some, node.extra⟩ = .ok node := by
  have text : node.shownText.getD "" = node.text := by
    unfold shownText
    split
    · rfl
    · next hidden => simp_all
  have color : (node.color.map some).join = node.color := by cases node.color <;> rfl
  simp [Draft.finish, text, color]

theorem takes_toJson {node : Node} (sound : node.Sound)
    (whole : ∀ v ∈ node.geometry, v.IsWhole)
    (back : RealsReadBack (numbersOfMembers node.extra)) (level : Nat) :
    Takes Node.read level node.toJson node :=
  takes_record (gathers node sound whole back (level + 1)) (finish_written node) "struct Node"

theorem plain_defaultWidth : defaultWidth.plain = defaultWidth := by
  decide +kernel

theorem plain_defaultHeight : defaultHeight.plain = defaultHeight := by
  decide +kernel

theorem plain_getD {field : Option Binary64} {found : Option Json} {default : Binary64}
    (plain : default.plain = default) (shown : Option.Rel IsReal field found)
    (legible : ∀ value ∈ found, Legible innerDepth value) :
    (field.getD default).plain = field.getD default := by
  cases shown with
  | none => exact plain
  | some shown =>
    obtain ⟨number, rfl, rfl⟩ := shown
    have held := legible _ rfl
    cases number with
    | integer i => exact Binary64.ofInt_plain (Storable.natAbs_le held)
    | real x => exact Binary64.plain_plain x

theorem Views.sound {node : Node} {value : Json} (views : node.Views value) : node.Sound := by
  obtain ⟨draft, members, rfl, legible, views, finished⟩ := views
  have held : ∀ key, ∀ value ∈ Members.get? key members, Legible innerDepth value :=
    fun key value found => legible.2 _ (Members.mem_of_get? found)
  have zero : Binary64.zero.plain = Binary64.zero := rfl
  have x := plain_getD zero (views.each "x") (held "x")
  have y := plain_getD zero (views.each "y") (held "y")
  have width := plain_getD plain_defaultWidth (views.each "width") (held "width")
  have height := plain_getD plain_defaultHeight (views.each "height") (held "height")
  have extras := views.extras
  unfold Draft.finish at finished
  split at finished
  · cases finished
  · obtain rfl := Except.ok.inj finished
    exact ⟨by simp [geometry, x, y, width, height], extras⟩

end Node

namespace Edge

def Sound (edge : Edge) : Prop :=
  Extras keys edge.extra

def members (edge : Edge) : Members :=
  [("id", .string edge.id), ("fromNode", .string edge.fromNode)] ++
  optionalText "fromSide" (edge.fromSide.map Side.name) ++
  [("toNode", .string edge.toNode)] ++
  optionalText "toSide" (edge.toSide.map Side.name) ++
  optionalText "label" edge.label ++
  optionalText "color" edge.color ++
  edge.extra

theorem toJson_eq (edge : Edge) : edge.toJson = .object edge.members := rfl

theorem add_foreign {key : String} (foreign : key ∉ keys) (draft : Draft) (cs : List Char) :
    draft.add key cs = (do
      let (more, rest) ← addMember (readValue innerDepth) draft.extra key cs
      .ok ({ draft with extra := more }, rest)) := by
  unfold Draft.add
  split <;> first | rfl | exact absurd (by decide) foreign

theorem gathers (edge : Edge) (sound : edge.Sound)
    (back : RealsReadBack (numbersOfMembers edge.extra)) (level : Nat) :
    Gathers Draft.add level Draft.empty edge.members
      ⟨some edge.id, some edge.fromNode, edge.fromSide.map some, some edge.toNode,
        edge.toSide.map some, edge.label.map some, edge.color.map some, edge.extra⟩ := by
  have text : ∀ s, Takes readText level (.string s) s := fun s => takes_text _ s level
  have blank := skipsBlank_text "a string"
  have side := takes_given Side.name fun s => Side.takes_name s level
  have optional : ∀ o : Option String,
      Option.Rel (fun s a => Takes (readOptional readText) level (.string s) a) o (o.map some) := by
    intro o
    simpa using takes_given (fun s : String => s) text o
  simp only [members, List.append_assoc, List.cons_append, List.nil_append]
  -- The draft after each member, in the order in which they are written.
  let begun : Draft := { Draft.empty with id := some edge.id, fromNode := some edge.fromNode }
  let left : Draft := { begun with fromSide := edge.fromSide.map some }
  let ended : Draft := { left with toNode := some edge.toNode }
  let reached : Draft := { ended with toSide := edge.toSide.map some }
  let labeled : Draft := { reached with label := edge.label.map some }
  let colored : Draft := { labeled with color := edge.color.map some }
  refine .known (text edge.id) blank (fun v => { Draft.empty with id := v }) (fun _ => rfl) ?_
  refine .known (text edge.fromNode) blank (fun v => { begun with fromNode := v }) (fun _ => rfl) ?_
  refine .optional (side edge.fromSide) (skipsBlank_optional _)
    (fun v => { begun with fromSide := v }) rfl (fun _ => rfl) ?_
  refine .known (text edge.toNode) blank (fun v => { left with toNode := v }) (fun _ => rfl) ?_
  refine .optional (side edge.toSide) (skipsBlank_optional _)
    (fun v => { ended with toSide := v }) rfl (fun _ => rfl) ?_
  refine .optional (optional edge.label) (skipsBlank_optional _)
    (fun v => { reached with label := v }) rfl (fun _ => rfl) ?_
  refine .optional (optional edge.color) (skipsBlank_optional _)
    (fun v => { labeled with color := v }) rfl (fun _ => rfl) ?_
  exact (Extras.gathers sound back level).lift sound.foreign
    (fun extra => { colored with extra := extra })
    fun _ key cs foreign => add_foreign foreign _ cs

theorem finish_written (edge : Edge) :
    Draft.finish ⟨some edge.id, some edge.fromNode, edge.fromSide.map some, some edge.toNode,
      edge.toSide.map some, edge.label.map some, edge.color.map some, edge.extra⟩ = .ok edge := by
  have join : ∀ {α : Type} (o : Option α), (o.map some).join = o := by
    rintro α (_ | a) <;> rfl
  simp [Draft.finish, join]

theorem takes_toJson {edge : Edge} (sound : edge.Sound)
    (back : RealsReadBack (numbersOfMembers edge.extra)) (level : Nat) :
    Takes Edge.read level edge.toJson edge :=
  takes_record (gathers edge sound back (level + 1)) (finish_written edge) "struct Edge"

theorem Views.sound {edge : Edge} {value : Json} (views : edge.Views value) : edge.Sound := by
  obtain ⟨draft, members, -, -, views, finished⟩ := views
  have extras := views.extras
  unfold Draft.finish at finished
  split at finished
  · cases finished
  · cases finished
  · cases finished
  · obtain rfl := Except.ok.inj finished
    exact extras

end Edge

namespace Diagram

structure Sound (diagram : Diagram) : Prop where
  nodes : ∀ node ∈ diagram.nodes, node.Sound
  edges : ∀ edge ∈ diagram.edges, edge.Sound

/-- Whether all positions and sizes are whole numbers of at most 53 bits. -/
def WholeGeometry (diagram : Diagram) : Prop :=
  ∀ node ∈ diagram.nodes, ∀ v ∈ node.geometry, v.IsWhole

/-- The numbers in members that mean nothing here. -/
def extraNumbers (diagram : Diagram) : List JsonNumber :=
  (diagram.nodes.flatMap fun node => numbersOfMembers node.extra) ++
    diagram.edges.flatMap fun edge => numbersOfMembers edge.extra

theorem read_written {diagram : Diagram} (sound : diagram.Sound) (whole : diagram.WholeGeometry)
    (back : RealsReadBack diagram.extraNumbers) : Diagram.read diagram.write = .ok diagram := by
  have nodes : Takes (readList Node.read) 1 (.array (diagram.nodes.map Node.toJson))
      diagram.nodes := by
    refine takes_list (List.forall₂_map_left_iff.2 (List.forall₂_same.2 fun node mem => ?_))
    refine Node.takes_toJson (sound.nodes node mem) (whole node mem) (fun v inside => back v ?_) 2
    exact List.mem_append_left _ (List.mem_flatMap.2 ⟨node, mem, inside⟩)
  have edges : Takes (readList Edge.read) 1 (.array (diagram.edges.map Edge.toJson))
      diagram.edges := by
    refine takes_list (List.forall₂_map_left_iff.2 (List.forall₂_same.2 fun edge mem => ?_))
    refine Edge.takes_toJson (sound.edges edge mem) (fun v inside => back v ?_) 2
    exact List.mem_append_right _ (List.mem_flatMap.2 ⟨edge, mem, inside⟩)
  have gathers : Gathers Draft.add 1 Draft.empty
      [("nodes", .array (diagram.nodes.map Node.toJson)),
        ("edges", .array (diagram.edges.map Edge.toJson))]
      ⟨some diagram.nodes, some diagram.edges⟩ := by
    refine .known nodes (skipsBlank_list _) (fun v => ⟨v, none⟩) (fun _ => rfl) ?_
    refine .known edges (skipsBlank_list _) (fun v => ⟨some diagram.nodes, v⟩) (fun _ => rfl) ?_
    exact .nil _
  obtain ⟨inner, written, read⟩ := readMembers_object gathers []
  rw [List.append_nil] at written
  have opened : skipGap ('{' :: inner) = '{' :: inner := skipGap_of_visible (by decide) inner
  have front : readDocument diagram.write.toList = .ok (diagram, []) := by
    rw [write, Json.write, String.toList_ofList, toJson, written, readDocument, opened]
    exact bind_eq_ok.2 ⟨_, read, rfl⟩
  exact bind_eq_ok.2 ⟨_, front, rfl⟩

theorem IsSection.exists {α : Type} {R : α → Json → Prop} {items : List α} {found : Option Json}
    (shown : IsSection R items found) {a : α} (mem : a ∈ items) : ∃ value, R a value := by
  cases found with
  | none =>
    obtain rfl : items = [] := shown
    cases mem
  | some value =>
    obtain ⟨values, -, shown⟩ := shown
    induction shown with
    | nil => cases mem
    | cons one _ ih =>
      rcases List.mem_cons.1 mem with rfl | mem
      · exact ⟨_, one⟩
      · exact ih mem

theorem sound_of_read {text : String} {diagram : Diagram}
    (read : Diagram.read text = .ok diagram) : diagram.Sound := by
  obtain ⟨document, -, views⟩ := document_of_read read
  constructor
  · intro node mem
    obtain ⟨value, views⟩ := IsSection.exists views.nodes mem
    exact views.sound
  · intro edge mem
    obtain ⟨value, views⟩ := IsSection.exists views.edges mem
    exact views.sound

end Diagram

end SourceAtlas
