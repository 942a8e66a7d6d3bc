import SourceAtlas.Proofs.Diagram.Grammar
import SourceAtlas.Proofs.Diagram.ReadBack
import SourceAtlas.Proofs.Json.Skipping
set_option autoImplicit false

namespace SourceAtlas

open Json

section Members

variable {σ α : Type}

theorem Json.readOnce_admits {item : Reader α} {L : Language} (recognizes : Recognizes item L)
    (key : String) (old : Option α) : Admits (readOnce key old item) L (old.isSome = false) where
  sound := by
    intro cs field rest read
    obtain ⟨rfl, a, rfl, one⟩ := readOnce_eq_ok.1 read
    exact ⟨rfl, readMember_sound recognizes one⟩
  complete := by
    intro front rest fresh assigns ends
    obtain ⟨a, one⟩ := readMember_complete recognizes assigns ends
    exact ⟨some a, readOnce_eq_ok.2 ⟨by simpa using fresh, a, rfl, one⟩⟩

variable {shape : Shape} {seen : σ → String → Bool} {state : σ} {key : String} {read : Reader σ}

theorem Json.joins_known {item : Reader α} {L : Language} (recognizes : Recognizes item L)
    (known : shape.known key = some L) (old : Option α) (put : Option α → σ)
    (step : ∀ cs, read cs = (do
      let (field, rest) ← readOnce key old item cs
      .ok (put field, rest)))
    (before : seen state key = old.isSome) (after : ∀ a, seen (put (some a)) key = true)
    (others : ∀ a k, k ≠ key → seen (put (some a)) k = seen state k) :
    Joins shape seen state key read where
  admits := by
    have value : shape.value key = L := by rw [Shape.value, known, Option.getD_some]
    have admits := (readOnce_admits recognizes key old).map put
    rw [value, before, funext step]
    exact ⟨fun read => ⟨fun _ => (admits.sound read).1, (admits.sound read).2⟩,
      fun fresh => admits.complete (fresh (by rw [known]; rfl))⟩
  marks := by
    intro cs next rest taken k _
    rw [step] at taken
    obtain ⟨⟨field, behind⟩, one, taken⟩ := bind_eq_ok.1 taken
    obtain ⟨rfl, -⟩ := Prod.mk.inj (Except.ok.inj taken)
    obtain ⟨-, a, rfl, -⟩ := readOnce_eq_ok.1 one
    by_cases same : k = key
    · subst same
      simp [after]
    · simp [others a k same, beq_eq_false_iff_ne.2 same]

theorem Json.joins_extra {item : Reader Json} (recognizes : Recognizes item shape.other)
    (unknown : shape.known key = none) (extra : Json.Members) (put : Json.Members → σ)
    (step : ∀ cs, read cs = (do
      let (more, rest) ← addMember item extra key cs
      .ok (put more, rest)))
    (same : ∀ more, seen (put more) = seen state) : Joins shape seen state key read := by
  rw [funext step]
  refine joins_unknown unknown ((addMember_admits recognizes extra key).map put) ?_
  intro cs next rest taken
  obtain ⟨⟨more, behind⟩, -, taken⟩ := bind_eq_ok.1 taken
  obtain ⟨rfl, -⟩ := Prod.mk.inj (Except.ok.inj taken)
  exact same more

/-- A record is read just when its members are and all required keys are among them: what is
gathered is finished just then. -/
theorem Json.readRecord_recognizes {add : σ → String → Reader σ} (collects : Collects shape seen add)
    {empty : σ} (unseen : ∀ key, seen empty key = false)
    (needs : ∀ key ∈ shape.required, (shape.known key).isSome = true)
    {finish : σ → Except String α}
    (finishes : ∀ draft, (∃ a, finish draft = .ok a) ↔ ∀ key ∈ shape.required, seen draft key = true)
    (expected : String) :
    Recognizes (readRecord expected add empty finish) (IsRecord shape) := by
  obtain ⟨sound, complete⟩ := collects.record empty unseen needs
  refine recognizes_of_visible ?_ (fun cs => ?_) ?_ ?_
  · rintro word ⟨inner, keys, rfl, -⟩
    exact ⟨'{', inner, rfl, by decide, by decide⟩
  · unfold readRecord
    rw [skipGap_skipGap]
  · intro cs a rest read visible
    obtain ⟨tail, draft, skipped, gathered, finished⟩ := readRecord_eq_ok read
    rw [← visible, skipped]
    exact sound gathered ((finishes draft).1 ⟨a, finished⟩)
  · intro word rest isRecord _ _
    obtain ⟨inner, rfl, gathered⟩ := complete isRecord
    obtain ⟨draft, gathered, met⟩ := gathered rest
    obtain ⟨a, finished⟩ := (finishes draft).2 met
    refine ⟨a, ?_⟩
    rw [List.cons_append, readRecord, skipGap_of_visible (by decide)]
    exact bind_eq_ok.2 ⟨_, gathered, closeRecord_eq_ok.2 ⟨rfl, finished⟩⟩

end Members

theorem Json.isString_notNull (tail : List Char) : ¬ IsString ('n' :: tail) := by
  rintro ⟨text, inner, same, -⟩
  cases same

namespace Node

def Draft.has (draft : Draft) : String → Bool
  | "id" => draft.id.isSome
  | "type" => draft.kind.isSome
  | "text" => draft.text.isSome
  | "x" => draft.x.isSome
  | "y" => draft.y.isSome
  | "width" => draft.width.isSome
  | "height" => draft.height.isSome
  | "color" => draft.color.isSome
  | _ => false

theorem Draft.has_empty (key : String) : Draft.empty.has key = false := by
  unfold Draft.has
  split <;> rfl

theorem Draft.add_collects : Collects shape Draft.has Draft.add := by
  intro draft key
  have text := readText_recognizes
  have real := readReal_recognizes
  have optional := readOptional_recognizes text isString_notNull
  by_cases foreign : key ∉ keys
  · have unknown : shape.known key = none := by
      unfold shape
      simp only
      split <;> first | rfl | exact absurd (by decide) foreign
    exact joins_extra (readValue_recognizes innerDepth) unknown draft.extra
      (fun more => { draft with extra := more }) (add_foreign foreign draft) fun _ => rfl
  have known := not_not.1 foreign
  simp only [keys, List.mem_cons, List.not_mem_nil, or_false] at known
  rcases known with rfl | rfl | rfl | rfl | rfl | rfl | rfl | rfl
  on_goal 1 =>
    refine joins_known text rfl draft.id (fun v => { draft with id := v }) (fun _ => rfl) rfl
      (fun _ => rfl) ?_
  on_goal 2 =>
    refine joins_known text rfl draft.kind (fun v => { draft with kind := v }) (fun _ => rfl) rfl
      (fun _ => rfl) ?_
  on_goal 3 =>
    refine joins_known text rfl draft.text (fun v => { draft with text := v }) (fun _ => rfl) rfl
      (fun _ => rfl) ?_
  on_goal 4 =>
    refine joins_known real rfl draft.x (fun v => { draft with x := v }) (fun _ => rfl) rfl
      (fun _ => rfl) ?_
  on_goal 5 =>
    refine joins_known real rfl draft.y (fun v => { draft with y := v }) (fun _ => rfl) rfl
      (fun _ => rfl) ?_
  on_goal 6 =>
    refine joins_known real rfl draft.width (fun v => { draft with width := v }) (fun _ => rfl) rfl
      (fun _ => rfl) ?_
  on_goal 7 =>
    refine joins_known real rfl draft.height (fun v => { draft with height := v }) (fun _ => rfl) rfl
      (fun _ => rfl) ?_
  on_goal 8 =>
    refine joins_known optional rfl draft.color (fun v => { draft with color := v }) (fun _ => rfl) rfl
      (fun _ => rfl) ?_
  -- Of every other key it is known as much as before.
  all_goals
    intro _ k other
    unfold Draft.has
    split <;> first | rfl | exact absurd rfl other

theorem Draft.finishes_iff (draft : Draft) :
    (∃ node, draft.finish = .ok node) ↔ ∀ key ∈ shape.required, draft.has key = true := by
  unfold Draft.finish
  cases id : draft.id <;> simp [shape, Draft.has, id]

theorem read_recognizes : Recognizes Node.read (IsRecord shape) :=
  readRecord_recognizes Draft.add_collects Draft.has_empty (by decide) Draft.finishes_iff _

end Node

namespace Side

theorem readName_complete {gap word : List Char} (space : IsSpace gap) (isName : IsName word)
    (rest : List Char) : ∃ side, readName (gap ++ (word ++ rest)) = .ok (side, rest) := by
  obtain ⟨side, spells⟩ := isName
  refine ⟨side, bind_eq_ok.2 ⟨_, readTextAs_complete _ space spells rest, ?_⟩⟩
  simp only [ofName?_name]

theorem readName_recognizes : Recognizes readName IsName where
  begins := by
    rintro word ⟨side, spells⟩
    exact spells.begins
  sound := by
    intro cs side rest read
    obtain ⟨tail, skipped, text⟩ := readName_eq_ok read
    have one : readTextAs "variant identifier" cs = .ok (side.name, rest) :=
      readTextAs_eq_ok.2 ⟨tail, skipped, text⟩
    obtain ⟨gap, word, same, space, spells⟩ := readTextAs_sound one
    exact ⟨gap, word, same, space, side, spells⟩
  complete space isName _ := readName_complete space isName _

theorem readNothing_recognizes : Recognizes (passing readNothing) IsNull := by
  refine recognizes_of_visible ?_ ?_ ?_ ?_
  · rintro word rfl
    exact ⟨'n', _, rfl, by decide, by decide⟩
  · intro cs
    unfold passing readNothing
    rw [skipGap_skipGap]
  · intro cs _ rest read visible
    have read := passing_eq_ok.1 read
    unfold readNothing at read
    rw [visible] at read
    split at read
    · exact ⟨_, by rw [readWord_eq_ok.1 read]; rfl, rfl⟩
    · exact absurd read refuse_ne_ok
  · rintro word rest rfl _ _
    exact ⟨(), passing_eq_ok.2 (readWord_eq_ok.2 rfl)⟩

theorem IsTagged.iff {cs : List Char} : IsTagged cs ↔ ∃ gap name front space,
    cs = '{' :: (gap ++ (name ++ (front ++ (space ++ ['}'])))) ∧ IsSpace gap ∧ IsName name ∧
      Assigns IsNull front ∧ IsSpace space := by
  constructor
  · rintro ⟨inner, rfl, entries⟩
    cases entries with
    | entry apart isMember rest =>
      obtain ⟨name, front, rfl, isName, assigns⟩ := isMember
      cases rest with
      | close space => exact ⟨_, name, front, _, by simp, apart, isName, assigns, space⟩
  · rintro ⟨gap, name, front, space, rfl, blank, isName, assigns, blank'⟩
    exact ⟨_, rfl, by
      rw [← List.append_assoc name]
      exact .entry blank ⟨name, front, rfl, isName, assigns⟩ (.close blank')⟩

theorem IsSide.begins {word : List Char} (isSide : IsSide word) : BeginsValue word := by
  rcases isSide with ⟨side, spells⟩ | ⟨inner, rfl, -⟩
  · exact spells.begins
  · exact ⟨'{', inner, rfl, by decide, by decide⟩

theorem isSide_notNull (tail : List Char) : ¬ IsSide ('n' :: tail) := by
  rintro (⟨side, inner, same, -⟩ | ⟨inner, same, -⟩)
  · cases same
  · cases same

def readTagged (cs : List Char) : Except Fault (Side × List Char) := do
  let (side, rest) ← readName cs
  let rest ← readMember (passing readNothing) rest
  match skipGap rest.2 with
  | [] => stopAt .endInObject []
  | '}' :: rest => .ok (side, rest)
  | rest => stopAt .expectedValue rest

theorem readTagged_sound {cs rest : List Char} {side : Side}
    (read : readTagged cs = .ok (side, rest)) :
    ∃ word, '{' :: cs = word ++ rest ∧ IsTagged word := by
  obtain ⟨⟨found, behind⟩, name, read⟩ := bind_eq_ok.1 read
  obtain ⟨⟨_, tail⟩, null, read⟩ := bind_eq_ok.1 read
  simp only at read
  split at read
  · cases read
  · next closing =>
    obtain ⟨rfl, rfl⟩ := Prod.mk.inj (Except.ok.inj read)
    obtain ⟨gap, word, rfl, space, isName⟩ := readName_recognizes.sound name
    obtain ⟨front, rfl, assigns⟩ := readMember_sound readNothing_recognizes null
    obtain ⟨gap', rfl, space'⟩ := gap_of_skipGap closing
    exact ⟨'{' :: (gap ++ (word ++ (front ++ (gap' ++ ['}'])))), by simp, IsTagged.iff.2
      ⟨gap, word, front, gap', rfl, space, isName, assigns, space'⟩⟩
  · cases read

theorem readTagged_complete {word : List Char} (isTagged : IsTagged word) :
    ∃ inner, word = '{' :: inner ∧ ∀ rest, ∃ side,
      readTagged (inner ++ rest) = .ok (side, rest) := by
  obtain ⟨gap, name, front, space, rfl, blank, isName, assigns, blank'⟩ := IsTagged.iff.1 isTagged
  refine ⟨_, rfl, fun rest => ?_⟩
  have ended : EndsNumber (space ++ '}' :: rest) := endsNumber_gap blank' (endsNumber_brace rest)
  obtain ⟨u, null⟩ := readMember_complete readNothing_recognizes assigns ended
  obtain ⟨side, one⟩ := readName_complete blank isName (front ++ (space ++ '}' :: rest))
  have shapes : gap ++ (name ++ (front ++ (space ++ ['}']))) ++ rest =
      gap ++ (name ++ (front ++ (space ++ '}' :: rest))) := by simp
  have closing : skipGap (space ++ '}' :: rest) = '}' :: rest :=
    (skipGap_append blank' _).trans (skipGap_of_visible (by decide) _)
  rw [shapes]
  refine ⟨side, bind_eq_ok.2 ⟨_, one, bind_eq_ok.2 ⟨_, null, ?_⟩⟩⟩
  simp only [closing]

theorem read_recognizes : Recognizes Side.read IsSide := by
  refine recognizes_of_visible IsSide.begins ?_ ?_ ?_
  · intro cs
    unfold Side.read
    rw [skipGap_skipGap]
  · intro cs side rest read visible
    unfold Side.read at read
    rw [visible] at read
    split at read
    · obtain ⟨word, same, isTagged⟩ := readTagged_sound read
      exact ⟨word, same, .inr isTagged⟩
    · obtain ⟨word, same, isName⟩ := readName_recognizes.sound_visible read visible
      exact ⟨word, same, .inl isName⟩
    · cases read
    · cases read
  · rintro word rest (isName | isTagged) visible ends
    · obtain ⟨side, one⟩ := readName_recognizes.complete_visible isName ends
      obtain ⟨_, _, rfl, -⟩ := isName
      refine ⟨side, ?_⟩
      unfold Side.read
      rw [visible]
      exact one
    · obtain ⟨inner, rfl, read⟩ := readTagged_complete isTagged
      obtain ⟨side, read⟩ := read rest
      refine ⟨side, ?_⟩
      unfold Side.read
      rw [visible]
      exact read

end Side

namespace Edge

def Draft.has (draft : Draft) : String → Bool
  | "id" => draft.id.isSome
  | "fromNode" => draft.fromNode.isSome
  | "fromSide" => draft.fromSide.isSome
  | "toNode" => draft.toNode.isSome
  | "toSide" => draft.toSide.isSome
  | "label" => draft.label.isSome
  | "color" => draft.color.isSome
  | _ => false

theorem Draft.has_empty (key : String) : Draft.empty.has key = false := by
  unfold Draft.has
  split <;> rfl

theorem Draft.add_collects : Collects shape Draft.has Draft.add := by
  intro draft key
  have text := readText_recognizes
  have optional := readOptional_recognizes text isString_notNull
  have side := readOptional_recognizes Side.read_recognizes Side.isSide_notNull
  by_cases foreign : key ∉ keys
  · have unknown : shape.known key = none := by
      unfold shape
      simp only
      split <;> first | rfl | exact absurd (by decide) foreign
    exact joins_extra (readValue_recognizes innerDepth) unknown draft.extra
      (fun more => { draft with extra := more }) (add_foreign foreign draft) fun _ => rfl
  have known := not_not.1 foreign
  simp only [keys, List.mem_cons, List.not_mem_nil, or_false] at known
  rcases known with rfl | rfl | rfl | rfl | rfl | rfl | rfl
  on_goal 1 =>
    refine joins_known text rfl draft.id (fun v => { draft with id := v }) (fun _ => rfl) rfl
      (fun _ => rfl) ?_
  on_goal 2 =>
    refine joins_known text rfl draft.fromNode (fun v => { draft with fromNode := v }) (fun _ => rfl) rfl
      (fun _ => rfl) ?_
  on_goal 3 =>
    refine joins_known side rfl draft.fromSide (fun v => { draft with fromSide := v }) (fun _ => rfl) rfl
      (fun _ => rfl) ?_
  on_goal 4 =>
    refine joins_known text rfl draft.toNode (fun v => { draft with toNode := v }) (fun _ => rfl) rfl
      (fun _ => rfl) ?_
  on_goal 5 =>
    refine joins_known side rfl draft.toSide (fun v => { draft with toSide := v }) (fun _ => rfl) rfl
      (fun _ => rfl) ?_
  on_goal 6 =>
    refine joins_known optional rfl draft.label (fun v => { draft with label := v }) (fun _ => rfl) rfl
      (fun _ => rfl) ?_
  on_goal 7 =>
    refine joins_known optional rfl draft.color (fun v => { draft with color := v }) (fun _ => rfl) rfl
      (fun _ => rfl) ?_
  -- Of every other key it is known as much as before.
  all_goals
    intro _ k other
    unfold Draft.has
    split <;> first | rfl | exact absurd rfl other

theorem Draft.finishes_iff (draft : Draft) :
    (∃ edge, draft.finish = .ok edge) ↔ ∀ key ∈ shape.required, draft.has key = true := by
  unfold Draft.finish
  cases id : draft.id <;> cases source : draft.fromNode <;> cases target : draft.toNode <;>
    simp [shape, Draft.has, id, source, target]

theorem read_recognizes : Recognizes Edge.read (IsRecord shape) :=
  readRecord_recognizes Draft.add_collects Draft.has_empty (by decide) Draft.finishes_iff _

end Edge

namespace Diagram

def Draft.has (draft : Draft) : String → Bool
  | "nodes" => draft.nodes.isSome
  | "edges" => draft.edges.isSome
  | _ => false

theorem nodes_recognizes : Recognizes (readList Node.read) (IsSequence (IsRecord Node.shape)) :=
  readList_recognizes Node.read_recognizes

theorem edges_recognizes : Recognizes (readList Edge.read) (IsSequence (IsRecord Edge.shape)) :=
  readList_recognizes Edge.read_recognizes

theorem Draft.add_collects : Collects shape Draft.has Draft.add := by
  intro draft key
  by_cases nodes : key = "nodes"
  · subst nodes
    refine joins_known nodes_recognizes rfl draft.nodes (fun v => { draft with nodes := v })
      (fun _ => rfl) rfl (fun _ => rfl) fun _ k other => ?_
    unfold Draft.has
    split <;> first | rfl | exact absurd rfl other
  by_cases edges : key = "edges"
  · subst edges
    refine joins_known edges_recognizes rfl draft.edges (fun v => { draft with edges := v })
      (fun _ => rfl) rfl (fun _ => rfl) fun _ k other => ?_
    unfold Draft.has
    split <;> first | rfl | exact absurd rfl other
  have unknown : shape.known key = none := by simp [shape]
  have step : ∀ cs, draft.add key cs =
      (readMember (passing skipValue) cs >>= fun passed => .ok (draft, passed.2)) := by
    intro cs
    unfold Draft.add readMember passing
    split
    · exact absurd rfl nodes
    · exact absurd rfl edges
    cases readColon cs with
    | error fault => rfl
    | ok behind => cases h : skipValue behind <;> simp [h, bind, Except.bind, Functor.map, Except.map]
  rw [funext step]
  refine joins_unknown unknown ((readMember_admits skipValue_recognizes).map fun _ => draft) ?_
  intro cs next rest taken
  obtain ⟨⟨_, behind⟩, -, taken⟩ := bind_eq_ok.1 taken
  obtain ⟨rfl, -⟩ := Prod.mk.inj (Except.ok.inj taken)
  rfl

theorem readSection_sound {α : Type} {item : Reader α} {L : Language}
    (recognizes : Recognizes item L) {first : Bool} {cs rest : List Char} {found : Option α}
    (read : readSection first item cs = .ok (found, rest)) :
    (found = none ∧ ∃ space tail, cs = space ++ ']' :: tail ∧ rest = ']' :: tail ∧ IsSpace space) ∨
      found.isSome = true ∧ ∃ before word, cs = before ++ (word ++ rest) ∧ Separates first before ∧
        L word := by
  obtain ⟨⟨more, behind⟩, next, read⟩ := bind_eq_ok.1 read
  cases more with
  | false =>
    obtain ⟨rfl, rfl⟩ := Prod.mk.inj (Except.ok.inj read)
    exact .inl ⟨rfl, nextItem_end next⟩
  | true =>
    obtain ⟨⟨value, tail⟩, one, read⟩ := bind_eq_ok.1 read
    obtain ⟨rfl, rfl⟩ := Prod.mk.inj (Except.ok.inj read)
    obtain ⟨before, rfl, apart⟩ := nextItem_sound next
    obtain ⟨gap, word, rfl, space, isWord⟩ := recognizes.sound one
    exact .inr ⟨rfl, before ++ gap, word, by simp, apart.append space, isWord⟩

theorem readSection_word {α : Type} {item : Reader α} {L : Language}
    (recognizes : Recognizes item L) {first : Bool} {before word rest : List Char}
    (apart : Separates first before) (isWord : L word) (ends : EndsNumber rest) :
    ∃ value, readSection first item (before ++ (word ++ rest)) = .ok (some value, rest) := by
  obtain ⟨value, one⟩ := recognizes.complete_visible isWord ends
  have next := nextItem_word apart (recognizes.begins isWord) rest
  exact ⟨value, bind_eq_ok.2 ⟨_, next, bind_eq_ok.2 ⟨_, one, rfl⟩⟩⟩

theorem readSection_bracket {α : Type} {item : Reader α} (first : Bool) {space : List Char}
    (blank : IsSpace space) (rest : List Char) :
    readSection first item (space ++ ']' :: rest) = .ok (none, ']' :: rest) :=
  bind_eq_ok.2 ⟨_, nextItem_bracket first blank rest, rfl⟩

theorem closeList_eq_ok {cs rest : List Char} :
    closeList cs = .ok rest ↔ ∃ space, cs = space ++ ']' :: rest ∧ IsSpace space := by
  constructor
  · intro close
    unfold closeList at close
    split at close
    · cases close
    · next tail skipped =>
      obtain rfl := Except.ok.inj close
      exact gap_of_skipGap skipped
    · split at close <;> cases close
    · cases close
  · rintro ⟨space, rfl, blank⟩
    unfold closeList
    rw [skipGap_append blank]
    rfl

def readListed (cs : List Char) : Except Fault (Diagram × List Char) := do
  let (nodes, rest) ← readSection true (readList Node.read) cs
  let (edges, rest) ← readSection nodes.isNone (readList Edge.read) rest
  let rest ← closeList rest
  .ok (Draft.finish ⟨nodes, edges⟩, rest)

theorem readListed_sound {cs rest : List Char} {diagram : Diagram}
    (read : readListed cs = .ok (diagram, rest)) :
    ∃ word, '[' :: cs = word ++ rest ∧ IsListed word := by
  obtain ⟨⟨nodes, behind⟩, first, read⟩ := bind_eq_ok.1 read
  obtain ⟨⟨edges, ended⟩, second, read⟩ := bind_eq_ok.1 read
  obtain ⟨tail, close, read⟩ := bind_eq_ok.1 read
  obtain ⟨-, rfl⟩ := Prod.mk.inj (Except.ok.inj read)
  rcases readSection_sound nodes_recognizes first with
    ⟨rfl, space, tail', rfl, rfl, blank⟩ | ⟨following, before, word, rfl, apart, isNodes⟩
  · -- The list is at its end, so there is nothing for the edges either.
    obtain ⟨-, rfl⟩ := Prod.mk.inj (Except.ok.inj second)
    obtain rfl := Except.ok.inj close
    exact ⟨'[' :: (space ++ [']']), by simp, _, [], rfl, .close blank, by decide⟩
  rw [Option.isNone_eq_false_iff.2 following] at second
  rcases readSection_sound edges_recognizes second with
    ⟨rfl, space, tail', rfl, rfl, blank⟩ | ⟨-, before', word', rfl, apart', isEdges⟩
  · obtain rfl := Except.ok.inj close
    exact ⟨'[' :: (before ++ (word ++ (space ++ [']']))), by simp, _, ["nodes"], rfl,
      .entry apart isNodes (.close blank), by decide⟩
  · obtain ⟨space, rfl, blank⟩ := closeList_eq_ok.1 close
    exact ⟨'[' :: (before ++ (word ++ (before' ++ (word' ++ (space ++ [']']))))), by simp, _,
      ["nodes", "edges"], rfl, .entry apart isNodes (.entry apart' isEdges (.close blank)),
      by decide⟩

theorem readListed_complete {word : List Char} (isListed : IsListed word) :
    ∃ inner, word = '[' :: inner ∧ ∀ rest, ∃ diagram,
      readListed (inner ++ rest) = .ok (diagram, rest) := by
  obtain ⟨inner, keys, rfl, entries, front⟩ := isListed
  refine ⟨inner, rfl, fun rest => ?_⟩
  have closed : ∀ {space : List Char}, IsSpace space → closeList (space ++ ']' :: rest) = .ok rest :=
    fun blank => closeList_eq_ok.2 ⟨_, rfl, blank⟩
  -- There is nothing in the list, or the nodes, or the nodes and the edges.
  cases entries with
  | @close _ space blank =>
    have ended : readSection true (readList Node.read) (space ++ ']' :: rest) = _ :=
      readSection_bracket true blank rest
    rw [List.append_assoc]
    exact ⟨_, bind_eq_ok.2 ⟨_, ended, bind_eq_ok.2 ⟨_, rfl, bind_eq_ok.2 ⟨_, rfl, rfl⟩⟩⟩⟩
  | @entry _ before nodes behind key keys apart isNodes entries =>
    obtain ⟨rfl, later⟩ := List.cons_prefix_cons.1 front
    have ends := entries.endsNumber endsNumber_bracket rest
    obtain ⟨one, first⟩ := readSection_word nodes_recognizes apart isNodes ends
    rw [List.append_assoc, List.append_assoc]
    cases entries with
    | @close _ space blank =>
      have ended : readSection false (readList Edge.read) (space ++ [']'] ++ rest) =
          .ok (none, ']' :: rest) := by
        rw [List.append_assoc]
        exact readSection_bracket false blank rest
      exact ⟨_, bind_eq_ok.2 ⟨_, first, bind_eq_ok.2 ⟨_, ended, bind_eq_ok.2 ⟨_, rfl, rfl⟩⟩⟩⟩
    | @entry _ before' edges behind key keys apart' isEdges entries =>
      obtain ⟨rfl, last⟩ := List.cons_prefix_cons.1 later
      obtain rfl := List.prefix_nil.1 last
      cases entries with
      | @close _ space blank =>
        have ends' : EndsNumber (space ++ ']' :: rest) := endsNumber_gap blank (endsNumber_bracket _)
        obtain ⟨two, second⟩ := readSection_word edges_recognizes apart' isEdges ends'
        have shapes : before' ++ (edges ++ (space ++ [']'])) ++ rest =
            before' ++ (edges ++ (space ++ ']' :: rest)) := by simp
        rw [shapes] at first ⊢
        exact ⟨_, bind_eq_ok.2 ⟨_, first, bind_eq_ok.2 ⟨_, second,
          bind_eq_ok.2 ⟨_, closed blank, rfl⟩⟩⟩⟩

end Diagram

end SourceAtlas
