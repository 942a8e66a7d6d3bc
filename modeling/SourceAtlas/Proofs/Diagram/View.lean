import SourceAtlas.Diagram.Reader
import SourceAtlas.Proofs.Json.ReadBack
set_option autoImplicit false

namespace SourceAtlas

open Json
open Number (Binary64)

def Json.IsText (text : String) (value : Json) : Prop :=
  value = .string text

theorem Json.readOnce_eq_ok {α : Type} {item : Reader α} {key : String} {old field : Option α}
    {cs rest : List Char} : readOnce key old item cs = .ok (field, rest) ↔
      old = none ∧ ∃ a, field = some a ∧ readMember item cs = .ok (a, rest) := by
  cases old with
  | some _ =>
    refine ⟨fun read => ?_, fun fresh => by cases fresh.1⟩
    change refuseRepeated key cs = _ at read
    unfold refuseRepeated at read
    split at read <;> cases read
  | none =>
    constructor
    · intro read
      obtain ⟨⟨a, behind⟩, one, read⟩ := bind_eq_ok.1 read
      obtain ⟨rfl, rfl⟩ := Prod.mk.inj (Except.ok.inj read)
      exact ⟨rfl, a, rfl, one⟩
    · rintro ⟨-, a, rfl, one⟩
      exact bind_eq_ok.2 ⟨_, one, rfl⟩

theorem Json.readOnce_follows {α : Type} {R : α → Json → Prop} {item : Reader α} {depth : Nat}
    (follows : Follows R item (readValue depth)) (key : String) (old : Option α) :
    Follows (fun field value => ∃ a, field = some a ∧ R a value) (readOnce key old item)
      (readMember (readValue depth)) := by
  intro cs field rest read
  obtain ⟨-, a, rfl, one⟩ := readOnce_eq_ok.1 read
  obtain ⟨value, taken, related⟩ := readMember_follows follows _ _ _ one
  exact ⟨value, taken, a, rfl, related⟩

structure Json.Extras (known : List String) (extra : Members) : Prop where
  sorted : extra.Sorted
  foreign : ∀ m ∈ extra, m.1 ∉ known
  legible : ∀ m ∈ extra, Legible innerDepth m.2

theorem Json.Extras.nil (known : List String) : Extras known [] :=
  ⟨.nil, by simp, by simp⟩

theorem Json.Extras.set {known : List String} {extra : Members} (extras : Extras known extra)
    {key : String} (foreign : key ∉ known) {value : Json} (legible : Legible innerDepth value) :
    Extras known (extra.set key value) := by
  refine ⟨Members.sorted_set extras.sorted key value, fun m mem => ?_, fun m mem => ?_⟩
  all_goals rcases Members.mem_set mem with rfl | mem
  · exact foreign
  · exact extras.foreign m mem
  · exact legible
  · exact extras.legible m mem

theorem Json.Extras.get?_known {known : List String} {extra : Members}
    (extras : Extras known extra) {key : String} (mem : key ∈ known) : extra.get? key = none :=
  Members.get?_eq_none.2 fun m held same => extras.foreign m held (same ▸ mem)

theorem Json.addMember_eq_ok {item : Reader Json} {members : Members} {key : String}
    {cs rest : List Char} {more : Members} :
    addMember item members key cs = .ok (more, rest) ↔
      ∃ value, readMember item cs = .ok (value, rest) ∧ more = members.set key value := by
  constructor
  · intro read
    obtain ⟨⟨value, behind⟩, one, read⟩ := bind_eq_ok.1 read
    obtain ⟨rfl, rfl⟩ := Prod.mk.inj (Except.ok.inj read)
    exact ⟨value, one, rfl⟩
  · rintro ⟨value, one, rfl⟩
    exact bind_eq_ok.2 ⟨(value, rest), one, rfl⟩

section Drafts

variable {σ α : Type} {Shows : σ → String → Option Json → Prop} {extra : σ → Members}
  {known : List String}

/-- Whether a draft shows some members: under every key what is found there, and under the unknown
ones in order. -/
structure Json.Views (Shows : σ → String → Option Json → Prop) (extra : σ → Members)
    (known : List String) (draft : σ) (members : Members) : Prop where
  each : ∀ key, Shows draft key (members.get? key)
  extras : Extras known (extra draft)

theorem Json.Views.empty {draft : σ} (shows : ∀ key, Shows draft key none)
    (bare : extra draft = []) : Views Shows extra known draft [] :=
  ⟨shows, bare ▸ Extras.nil known⟩

theorem Json.Views.set {draft next : σ} {members : Members}
    (views : Views Shows extra known draft members) {key : String} {value : Json}
    (here : Shows next key (some value))
    (others : ∀ k found, key ≠ k → Shows draft k found → Shows next k found)
    (extras : Extras known (extra next)) :
    Views Shows extra known next (members.set key value) := by
  refine ⟨fun k => ?_, extras⟩
  rw [Members.get?_set]
  split
  · next same => exact same ▸ here
  · next other => exact others k _ other (views.each k)

theorem Json.Views.known_follows {draft : σ} {members : Members}
    (views : Views Shows extra known draft members) (key : String) {R : α → Json → Prop}
    {item : Reader α} (follows : Follows R item (readValue innerDepth)) (put : Option α → σ)
    (old : Option α) (here : ∀ a value, R a value → Shows (put (some a)) key (some value))
    (same : ∀ field, extra (put field) = extra draft)
    (others : ∀ field k found, key ≠ k → Shows draft k found → Shows (put field) k found) :
    Follows (Views Shows extra known)
      (fun cs => do
        let (field, rest) ← readOnce key old item cs
        .ok (put field, rest))
      (addMember (readValue innerDepth) members key) := by
  intro cs next rest read
  obtain ⟨⟨field, behind⟩, one, read⟩ := bind_eq_ok.1 read
  obtain ⟨rfl, rfl⟩ := Prod.mk.inj (Except.ok.inj read)
  obtain ⟨value, taken, a, rfl, related⟩ := readOnce_follows follows key old _ _ _ one
  refine ⟨_, addMember_eq_ok.2 ⟨value, taken, rfl⟩, ?_⟩
  exact views.set (here a value related) (others _) (same (some a) ▸ views.extras)

theorem Json.Views.foreign_follows {draft : σ} {members : Members}
    (views : Views Shows extra known draft members) {key : String} (foreign : key ∉ known)
    (put : Members → σ) (gathered : ∀ members, extra (put members) = members)
    (here : ∀ members found, members.get? key = found → Shows (put members) key found)
    (others : ∀ more k found, more.get? k = (extra draft).get? k → Shows draft k found →
      Shows (put more) k found) :
    Follows (Views Shows extra known)
      (fun cs => do
        let (more, rest) ← addMember (readValue innerDepth) (extra draft) key cs
        .ok (put more, rest))
      (addMember (readValue innerDepth) members key) := by
  intro cs next rest read
  obtain ⟨⟨more, behind⟩, one, read⟩ := bind_eq_ok.1 read
  obtain ⟨rfl, rfl⟩ := Prod.mk.inj (Except.ok.inj read)
  obtain ⟨value, taken, rfl⟩ := addMember_eq_ok.1 one
  obtain ⟨start, -, whole⟩ := bind_eq_ok.1 taken
  refine ⟨_, addMember_eq_ok.2 ⟨value, taken, rfl⟩, ?_⟩
  refine views.set (here _ _ (by simp)) ?_ ?_
  · intro k found other shows
    exact others _ k found (by simp [other]) shows
  · rw [gathered]
    exact views.extras.set foreign (readValue_legible innerDepth _ _ _ whole)

theorem Json.closeRecord_eq_ok {finish : σ → Except String α} {draft : σ} {a : α}
    {cs rest : List Char} :
    closeRecord finish draft cs = .ok (a, rest) ↔ cs = rest ∧ finish draft = .ok a := by
  unfold closeRecord
  cases finish draft <;> simp [stopAt, and_comm]

theorem Json.readRecord_eq_ok {expected : String} {add : σ → String → Reader σ} {empty : σ}
    {finish : σ → Except String α} {cs rest : List Char} {a : α}
    (read : readRecord expected add empty finish cs = .ok (a, rest)) :
    ∃ tail draft, skipGap cs = '{' :: tail ∧
      readMembers add ('{' :: tail) true empty tail = .ok (draft, rest) ∧ finish draft = .ok a := by
  unfold readRecord at read
  split at read
  · next tail skipped =>
    obtain ⟨⟨draft, behind⟩, gathered, closed⟩ := bind_eq_ok.1 read
    obtain ⟨rfl, finished⟩ := closeRecord_eq_ok.1 closed
    exact ⟨tail, draft, skipped, gathered, finished⟩
  · exact absurd read refuse_ne_ok

theorem Json.readMembers_follows {V : σ → Members → Prop} {add : σ → String → Reader σ} {empty : σ}
    {depth : Nat} (start : V empty [])
    (step : ∀ draft members key, V draft members →
      Follows V (add draft key) (addMember (readValue depth) members key))
    {cs tail rest : List Char} (skipped : skipGap cs = '{' :: tail) {last : σ}
    (read : readMembers add ('{' :: tail) true empty tail = .ok (last, rest)) :
    ∃ members, readValue (depth + 1) cs = .ok (.object members, rest) ∧ V last members := by
  obtain ⟨members, taken, views⟩ := Follows.readMembers step _ true start _ _ _ read
  refine ⟨members, ?_, views⟩
  rw [readValue_object skipped, taken]
  rfl

theorem Json.readRecord_follows {V : σ → Members → Prop} {add : σ → String → Reader σ} {empty : σ}
    {depth : Nat} (start : V empty [])
    (step : ∀ draft members key, V draft members →
      Follows V (add draft key) (addMember (readValue depth) members key))
    (expected : String) (finish : σ → Except String α) :
    Follows (fun a value => ∃ draft members, value = .object members ∧ Legible (depth + 1) value ∧
        V draft members ∧ finish draft = .ok a)
      (readRecord expected add empty finish) (readValue (depth + 1)) := by
  intro cs a rest read
  obtain ⟨tail, draft, skipped, gathered, finished⟩ := readRecord_eq_ok read
  obtain ⟨members, taken, views⟩ := readMembers_follows start step skipped gathered
  have legible := readValue_legible _ _ _ _ taken
  exact ⟨.object members, taken, draft, members, rfl, legible, views, finished⟩

end Drafts

namespace Node

def keys : List String :=
  ["id", "type", "text", "x", "y", "width", "height", "color"]

/-- Whether a draft shows what is found under a key. -/
def Draft.Shows (draft : Draft) (key : String) (found : Option Json) : Prop :=
  match key with
  | "id" => Option.Rel IsText draft.id found
  | "type" => Option.Rel IsText draft.kind found
  | "text" => Option.Rel IsText draft.text found
  | "x" => Option.Rel IsReal draft.x found
  | "y" => Option.Rel IsReal draft.y found
  | "width" => Option.Rel IsReal draft.width found
  | "height" => Option.Rel IsReal draft.height found
  | "color" => Option.Rel (IsOptional IsText) draft.color found
  | key => draft.extra.get? key = found

abbrev Draft.Views := Json.Views Draft.Shows Draft.extra keys

theorem Draft.shows_empty (key : String) : Draft.empty.Shows key none := by
  unfold Draft.Shows
  split <;> first | exact .none | rfl

theorem Draft.add_follows (draft : Draft) (members : Members) (key : String)
    (views : draft.Views members) :
    Follows Draft.Views (draft.add key) (addMember (readValue innerDepth) members key) := by
  have text := readTextAs_follows "a string" innerDepth
  have real := readReal_follows innerDepth
  have optional := readOptional_follows text
  intro cs next rest read
  unfold Draft.add at read
  split at read
  case' h_1 =>
    refine views.known_follows "id" text (fun v => { draft with id := v }) _
      (fun _ _ shown => Option.Rel.some shown) (fun _ => rfl) ?_ _ _ _ read
  case' h_2 =>
    refine views.known_follows "type" text (fun v => { draft with kind := v }) _
      (fun _ _ shown => Option.Rel.some shown) (fun _ => rfl) ?_ _ _ _ read
  case' h_3 =>
    refine views.known_follows "text" text (fun v => { draft with text := v }) _
      (fun _ _ shown => Option.Rel.some shown) (fun _ => rfl) ?_ _ _ _ read
  case' h_4 =>
    refine views.known_follows "x" real (fun v => { draft with x := v }) _
      (fun _ _ shown => Option.Rel.some shown) (fun _ => rfl) ?_ _ _ _ read
  case' h_5 =>
    refine views.known_follows "y" real (fun v => { draft with y := v }) _
      (fun _ _ shown => Option.Rel.some shown) (fun _ => rfl) ?_ _ _ _ read
  case' h_6 =>
    refine views.known_follows "width" real (fun v => { draft with width := v }) _
      (fun _ _ shown => Option.Rel.some shown) (fun _ => rfl) ?_ _ _ _ read
  case' h_7 =>
    refine views.known_follows "height" real (fun v => { draft with height := v }) _
      (fun _ _ shown => Option.Rel.some shown) (fun _ => rfl) ?_ _ _ _ read
  case' h_8 =>
    refine views.known_follows "color" optional (fun v => { draft with color := v }) _
      (fun _ _ shown => Option.Rel.some shown) (fun _ => rfl) ?_ _ _ _ read
  case h_9 =>
    have foreign : key ∉ keys := by simp_all [keys]
    refine views.foreign_follows foreign (fun more => { draft with extra := more }) (fun _ => rfl)
      ?_ ?_ _ _ _ read
    · intro more found shown
      unfold Draft.Shows
      split <;> first | exact shown | exact absurd (by decide) foreign
    · intro more k found same shows
      unfold Draft.Shows at shows ⊢
      split at shows <;> first | exact shows | exact same.trans shows
  -- Under every other key the draft shows what it showed before.
  all_goals
    intro _ k found other shows
    unfold Draft.Shows at shows ⊢
    split at shows <;> first | exact shows | exact absurd rfl other

def Views (node : Node) (value : Json) : Prop :=
  ∃ draft members, value = .object members ∧ Legible (innerDepth + 1) value ∧
    Draft.Views draft members ∧ draft.finish = .ok node

theorem read_follows : Follows Node.Views Node.read (readValue (innerDepth + 1)) :=
  readRecord_follows (.empty Draft.shows_empty rfl) Draft.add_follows "struct Node" Draft.finish

end Node

namespace Side

theorem ofName?_eq_some {name : String} {side : Side} (found : ofName? name = some side) :
    side.name = name := by
  simpa using List.find?_some found

def Named (side : Side) (value : Json) : Prop :=
  value = .string side.name ∨ value = .object [(side.name, .null)]

theorem readName_eq_ok {cs rest : List Char} {side : Side}
    (read : readName cs = .ok (side, rest)) :
    ∃ tail, skipGap cs = '"' :: tail ∧ readString tail = .ok (side.name, rest) := by
  obtain ⟨⟨name, behind⟩, text, read⟩ := bind_eq_ok.1 read
  obtain ⟨tail, skipped, text⟩ := readTextAs_eq_ok.1 text
  cases known : ofName? name with
  | none =>
    simp only [known] at read
    cases read
  | some side =>
    simp only [known] at read
    obtain ⟨rfl, rfl⟩ := Prod.mk.inj (Except.ok.inj read)
    exact ⟨tail, skipped, ofName?_eq_some known ▸ text⟩

theorem readNothing_eq_ok {cs rest : List Char} (read : readNothing cs = .ok rest) (depth : Nat) :
    readValue depth cs = .ok (.null, rest) := by
  unfold readNothing at read
  split at read
  · next tail skipped =>
    rw [readValue_of_skipGap skipped (by decide) (by decide)]
    exact bind_eq_ok.2 ⟨rest, read, rfl⟩
  · exact absurd read refuse_ne_ok

theorem readNothing_follows (depth : Nat) :
    Follows (fun (_ : Unit) value => value = .null)
      (fun cs => (fun rest => ((), rest)) <$> readNothing cs) (readValue depth) := by
  intro cs _ rest read
  refine ⟨.null, ?_, rfl⟩
  cases word : readNothing cs with
  | error e =>
    simp only [word] at read
    cases read
  | ok behind =>
    simp only [word] at read
    obtain ⟨-, rfl⟩ := Prod.mk.inj (Except.ok.inj read)
    exact readNothing_eq_ok word depth

theorem read_follows (depth : Nat) : Follows Named Side.read (readValue (depth + 1)) := by
  intro cs side rest read
  unfold Side.read at read
  split at read
  · next tail skipped =>
    obtain ⟨⟨found, behind⟩, name, read⟩ := bind_eq_ok.1 read
    obtain ⟨quoted, inner, name⟩ := readName_eq_ok name
    obtain ⟨⟨_, middle⟩, null, read⟩ := bind_eq_ok.1 read
    obtain ⟨-, taken, rfl⟩ := readMember_follows (readNothing_follows depth) _ _ _ null
    simp only at read
    split at read
    · cases read
    · next closing =>
      obtain ⟨rfl, rfl⟩ := Prod.mk.inj (Except.ok.inj read)
      -- Any reader takes this for an object with one member.
      refine ⟨.object [(found.name, .null)], ?_, .inr rfl⟩
      have first := nextKey_quote inner name
      have last := nextKey_end closing false
      cases tail with
      | nil => cases inner
      | cons f fuel =>
        rw [readValue_object skipped, readMembers, first]
        simp only [bind, Except.bind, addMember, taken, readMembers, last, Members.set]
    · cases read
  · next tail skipped =>
    obtain ⟨quoted, same, name⟩ := readName_eq_ok read
    obtain rfl : tail = quoted := (List.cons.inj same).2
    refine ⟨.string side.name, ?_, .inl rfl⟩
    rw [readValue_of_skipGap skipped (by decide) (by decide)]
    exact bind_eq_ok.2 ⟨_, name, rfl⟩
  · cases read
  · cases read

end Side

namespace Edge

def keys : List String :=
  ["id", "fromNode", "fromSide", "toNode", "toSide", "label", "color"]

/-- Whether a draft shows what is found under a key. -/
def Draft.Shows (draft : Draft) (key : String) (found : Option Json) : Prop :=
  match key with
  | "id" => Option.Rel IsText draft.id found
  | "fromNode" => Option.Rel IsText draft.fromNode found
  | "fromSide" => Option.Rel (IsOptional Side.Named) draft.fromSide found
  | "toNode" => Option.Rel IsText draft.toNode found
  | "toSide" => Option.Rel (IsOptional Side.Named) draft.toSide found
  | "label" => Option.Rel (IsOptional IsText) draft.label found
  | "color" => Option.Rel (IsOptional IsText) draft.color found
  | key => draft.extra.get? key = found

abbrev Draft.Views := Json.Views Draft.Shows Draft.extra keys

theorem Draft.shows_empty (key : String) : Draft.empty.Shows key none := by
  unfold Draft.Shows
  split <;> first | exact .none | rfl

theorem Draft.add_follows (draft : Draft) (members : Members) (key : String)
    (views : draft.Views members) :
    Follows Draft.Views (draft.add key) (addMember (readValue innerDepth) members key) := by
  have text := readTextAs_follows "a string" innerDepth
  have optional := readOptional_follows text
  have side := readOptional_follows (Side.read_follows (innerDepth - 1))
  intro cs next rest read
  unfold Draft.add at read
  split at read
  case' h_1 =>
    refine views.known_follows "id" text (fun v => { draft with id := v }) _
      (fun _ _ shown => Option.Rel.some shown) (fun _ => rfl) ?_ _ _ _ read
  case' h_2 =>
    refine views.known_follows "fromNode" text (fun v => { draft with fromNode := v }) _
      (fun _ _ shown => Option.Rel.some shown) (fun _ => rfl) ?_ _ _ _ read
  case' h_3 =>
    refine views.known_follows "fromSide" side (fun v => { draft with fromSide := v }) _
      (fun _ _ shown => Option.Rel.some shown) (fun _ => rfl) ?_ _ _ _ read
  case' h_4 =>
    refine views.known_follows "toNode" text (fun v => { draft with toNode := v }) _
      (fun _ _ shown => Option.Rel.some shown) (fun _ => rfl) ?_ _ _ _ read
  case' h_5 =>
    refine views.known_follows "toSide" side (fun v => { draft with toSide := v }) _
      (fun _ _ shown => Option.Rel.some shown) (fun _ => rfl) ?_ _ _ _ read
  case' h_6 =>
    refine views.known_follows "label" optional (fun v => { draft with label := v }) _
      (fun _ _ shown => Option.Rel.some shown) (fun _ => rfl) ?_ _ _ _ read
  case' h_7 =>
    refine views.known_follows "color" optional (fun v => { draft with color := v }) _
      (fun _ _ shown => Option.Rel.some shown) (fun _ => rfl) ?_ _ _ _ read
  case h_8 =>
    have foreign : key ∉ keys := by simp_all [keys]
    refine views.foreign_follows foreign (fun more => { draft with extra := more }) (fun _ => rfl)
      ?_ ?_ _ _ _ read
    · intro more found shown
      unfold Draft.Shows
      split <;> first | exact shown | exact absurd (by decide) foreign
    · intro more k found same shows
      unfold Draft.Shows at shows ⊢
      split at shows <;> first | exact shows | exact same.trans shows
  -- Under every other key the draft shows what it showed before.
  all_goals
    intro _ k found other shows
    unfold Draft.Shows at shows ⊢
    split at shows <;> first | exact shows | exact absurd rfl other

def Views (edge : Edge) (value : Json) : Prop :=
  ∃ draft members, value = .object members ∧ Legible (innerDepth + 1) value ∧
    Draft.Views draft members ∧ draft.finish = .ok edge

theorem read_follows : Follows Edge.Views Edge.read (readValue (innerDepth + 1)) :=
  readRecord_follows (.empty Draft.shows_empty rfl) Draft.add_follows "struct Edge" Draft.finish

end Edge

end SourceAtlas
