import SourceAtlas.Proofs.Json.Recognition
set_option autoImplicit false

namespace SourceAtlas.Json

variable {α σ τ : Type}

theorem nextKey_skipGap (first : Bool) (cs : List Char) :
    nextKey first cs = nextKey first (skipGap cs) := by
  unfold nextKey
  rw [skipGap_skipGap]

theorem nextKey_word {first : Bool} {before word : List Char} {key : String}
    (apart : Separates first before) (spells : Spells key word) (rest : List Char) :
    nextKey first (before ++ (word ++ rest)) = .ok (some key, rest) := by
  have visible := spells.begins.skipGap rest
  obtain ⟨tail, rfl, read⟩ := readString_complete spells
  cases first with
  | true =>
    exact nextKey_quote ((skipGap_append apart _).trans visible) (read rest)
  | false =>
    obtain ⟨left, right, rfl, leftSpace, rightSpace⟩ := apart
    rw [List.append_assoc, List.cons_append, nextKey_skipGap, skipGap_append leftSpace,
      ← nextKey_skipGap]
    exact nextKey_comma ((skipGap_append rightSpace _).trans visible) (read rest)

theorem nextKey_brace (first : Bool) {space : List Char} (blank : IsSpace space)
    (rest : List Char) : nextKey first (space ++ '}' :: rest) = .ok (none, rest) := by
  refine nextKey_end ?_ first
  rw [skipGap_append blank]
  rfl

theorem readKey_sound {cs rest : List Char} {key : Option String}
    (read : readKey cs = .ok (key, rest)) :
    ∃ word text, key = some text ∧ cs = word ++ rest ∧ Spells text word := by
  unfold readKey at read
  split at read
  · cases read
  · obtain ⟨⟨text, behind⟩, one, read⟩ := bind_eq_ok.1 read
    obtain ⟨rfl, rfl⟩ := Prod.mk.inj (Except.ok.inj read)
    obtain ⟨word, same, spells⟩ := readString_sound one
    exact ⟨word, text, rfl, same, spells⟩
  · cases read
  · cases read

theorem nextKey_sound {first : Bool} {cs rest : List Char} {key : String}
    (next : nextKey first cs = .ok (some key, rest)) : ∃ before word,
      cs = before ++ (word ++ rest) ∧ Separates first before ∧ Spells key word := by
  rw [nextKey_eq] at next
  split at next
  · cases next
  · cases next
  next c tail _ skipped =>
  obtain ⟨gap, rfl, space⟩ := gap_of_skipGap skipped
  -- The key itself stands behind the gap, or behind a comma and one more gap.
  split at next
  · next isFirst =>
    subst isFirst
    obtain ⟨word, _, found, same, spells⟩ := readKey_sound next
    obtain rfl := Option.some.inj found
    exact ⟨gap, word, by rw [same], space, spells⟩
  next notFirst =>
  obtain rfl : first = false := by simpa using notFirst
  split at next
  · next comma =>
    subst comma
    obtain ⟨word, _, found, same, spells⟩ := readKey_sound next
    obtain rfl := Option.some.inj found
    obtain ⟨gap', rfl, space'⟩ := gap_of_skipGap same
    exact ⟨gap ++ ',' :: gap', word, by simp, ⟨gap, gap', rfl, space, space'⟩, spells⟩
  · cases next

theorem nextKey_none {first : Bool} {cs rest : List Char}
    (next : nextKey first cs = .ok (none, rest)) :
    ∃ space, cs = space ++ '}' :: rest ∧ IsSpace space := by
  have key {cs : List Char} : readKey cs ≠ .ok (none, rest) := by
    intro read
    obtain ⟨_, _, found, -⟩ := readKey_sound read
    cases found
  rw [nextKey_eq] at next
  split at next
  · cases next
  · next tail skipped =>
    obtain ⟨gap, rfl, space⟩ := gap_of_skipGap skipped
    obtain ⟨-, rfl⟩ := Prod.mk.inj (Except.ok.inj next)
    exact ⟨gap, rfl, space⟩
  split at next
  · exact absurd next key
  split at next
  · exact absurd next key
  · cases next

theorem readColon_eq_ok {cs rest : List Char} :
    readColon cs = .ok rest ↔ ∃ before, cs = before ++ ':' :: rest ∧ IsSpace before := by
  constructor
  · intro read
    unfold readColon at read
    split at read
    · cases read
    · next tail skipped =>
      obtain rfl := Except.ok.inj read
      exact gap_of_skipGap skipped
    · cases read
  · rintro ⟨before, rfl, space⟩
    unfold readColon
    rw [skipGap_append space, skipGap_of_visible (by decide)]
    rfl

theorem readMember_sound {item : Reader α} {L : Language} (recognizes : Recognizes item L)
    {cs rest : List Char} {a : α} (read : readMember item cs = .ok (a, rest)) :
    ∃ front, cs = front ++ rest ∧ Assigns L front := by
  obtain ⟨behind, colon, one⟩ := bind_eq_ok.1 read
  obtain ⟨before, rfl, space⟩ := readColon_eq_ok.1 colon
  obtain ⟨gap, word, rfl, space', isWord⟩ := recognizes.sound one
  exact ⟨before ++ ':' :: (gap ++ word), by simp, before, gap, word, rfl, space, space', isWord⟩

theorem readMember_complete {item : Reader α} {L : Language} (recognizes : Recognizes item L)
    {front rest : List Char} (assigns : Assigns L front) (ends : EndsNumber rest) :
    ∃ a, readMember item (front ++ rest) = .ok (a, rest) := by
  obtain ⟨before, gap, word, rfl, space, space', isWord⟩ := assigns
  obtain ⟨a, read⟩ := recognizes.complete space' isWord ends
  refine ⟨a, bind_eq_ok.2 ⟨gap ++ (word ++ rest), readColon_eq_ok.2 ⟨before, ?_, space⟩, read⟩⟩
  simp

structure Admits (read : Reader α) (L : Language) (condition : Prop) : Prop where
  sound : ∀ {cs a rest}, read cs = .ok (a, rest) →
    condition ∧ ∃ front, cs = front ++ rest ∧ Assigns L front
  complete : ∀ {front rest}, condition → Assigns L front → EndsNumber rest →
    ∃ a, read (front ++ rest) = .ok (a, rest)

theorem readMember_admits {item : Reader α} {L : Language} (recognizes : Recognizes item L) :
    Admits (readMember item) L True where
  sound read := ⟨trivial, readMember_sound recognizes read⟩
  complete _ := readMember_complete recognizes

theorem Admits.map {read : Reader α} {L : Language} {condition : Prop}
    (admits : Admits read L condition) (f : α → τ) :
    Admits (fun cs => do
      let (value, rest) ← read cs
      .ok (f value, rest)) L condition where
  sound := by
    intro cs b rest mapped
    obtain ⟨⟨a, behind⟩, one, mapped⟩ := bind_eq_ok.1 mapped
    obtain ⟨-, rfl⟩ := Prod.mk.inj (Except.ok.inj mapped)
    exact admits.sound one
  complete := by
    intro front rest met assigns ends
    obtain ⟨a, one⟩ := admits.complete met assigns ends
    exact ⟨f a, bind_eq_ok.2 ⟨_, one, rfl⟩⟩

/-- Whether reading one more member keeps to a shape: the value is one that the shape has for the key,
and a known key has not been seen before and has been seen then. -/
structure Joins (shape : Shape) (seen : σ → String → Bool) (state : σ) (key : String)
    (read : Reader σ) : Prop where
  admits : Admits read (shape.value key)
    ((shape.known key).isSome = true → seen state key = false)
  marks : ∀ {cs next rest}, read cs = .ok (next, rest) →
    ∀ k, (shape.known k).isSome = true → seen next k = (seen state k || k == key)

def Collects (shape : Shape) (seen : σ → String → Bool) (member : σ → String → Reader σ) : Prop :=
  ∀ state key, Joins shape seen state key (member state key)

theorem joins_unknown {shape : Shape} {seen : σ → String → Bool} {state : σ} {key : String}
    {read : Reader σ} (unknown : shape.known key = none) (admits : Admits read shape.other True)
    (same : ∀ {cs next rest}, read cs = .ok (next, rest) → seen next = seen state) :
    Joins shape seen state key read where
  admits := by
    have value : shape.value key = shape.other := by rw [Shape.value, unknown, Option.getD_none]
    rw [value]
    refine ⟨fun taken => ⟨fun known => ?_, (admits.sound taken).2⟩, fun _ => admits.complete trivial⟩
    rw [unknown] at known
    cases known
  marks := by
    intro cs next rest taken k known
    have other : k ≠ key := by
      rintro rfl
      rw [unknown] at known
      cases known
    rw [same taken, beq_eq_false_iff_ne.2 other, Bool.or_false]

abbrev Shape.Members (shape : Shape) : Bool → List String → Language :=
  Entries (fun key => IsMember (Spells key) (shape.value key)) '}'

section Collects

variable {shape : Shape} {seen : σ → String → Bool} {member : σ → String → Reader σ}

def Fresh (shape : Shape) (seen : String → Bool) (keys : List String) : Prop :=
  ∀ k, (shape.known k).isSome = true → keys.count k + (seen k).toNat ≤ 1

theorem Collects.fresh_cons (collects : Collects shape seen member) {state next : σ} {key : String}
    {keys : List String} {cs rest : List Char} (one : member state key cs = .ok (next, rest)) :
    Fresh shape (seen state) (key :: keys) ↔ Fresh shape (seen next) keys := by
  have before := ((collects state key).admits.sound one).1
  refine forall_congr' fun k => imp_congr_right fun known => ?_
  rw [(collects _ _).marks one k known]
  by_cases same : k = key
  · subst same
    simp [before known]
  · simp [beq_eq_false_iff_ne.2 same, Ne.symm same]

theorem Collects.sound (collects : Collects shape seen member) {fuel : List Char} {first : Bool}
    {state last : σ} {cs rest : List Char}
    (read : readMembers member fuel first state cs = .ok (last, rest)) :
    ∃ keys inner, cs = inner ++ rest ∧ shape.Members first keys inner ∧
      Fresh shape (seen state) keys ∧
      ∀ k, (shape.known k).isSome = true → seen last k = (seen state k || keys.contains k) := by
  -- On the fuel, of which a member takes one; what has been seen goes from member to member.
  induction fuel generalizing first state cs with
  | nil => cases read
  | cons _ fuel ih =>
    obtain ⟨⟨found, behind⟩, next, read⟩ := bind_eq_ok.1 read
    cases found with
    | none =>
      obtain ⟨rfl, rfl⟩ := Prod.mk.inj (Except.ok.inj read)
      obtain ⟨space, rfl, blank⟩ := nextKey_none next
      refine ⟨[], space ++ ['}'], by simp, .close blank, fun k _ => ?_, fun k _ => by simp⟩
      simpa using Bool.toNat_le _
    | some key =>
      obtain ⟨⟨state', tail⟩, one, later⟩ := bind_eq_ok.1 read
      obtain ⟨before, word, rfl, apart, spells⟩ := nextKey_sound next
      obtain ⟨-, front, rfl, assigns⟩ := (collects state key).admits.sound one
      obtain ⟨keys, inner, rfl, members, fresh, marks⟩ := ih later
      refine ⟨key :: keys, before ++ (word ++ front ++ inner), by simp,
        .entry apart ⟨word, front, rfl, spells, assigns⟩ members,
        (collects.fresh_cons one).2 fresh, fun k known => ?_⟩
      rw [marks k known, (collects _ _).marks one k known, List.contains_cons, Bool.or_assoc]

theorem Collects.complete (collects : Collects shape seen member) {first : Bool}
    {keys : List String} {inner : List Char} (members : shape.Members first keys inner)
    {fuel : List Char} (enough : keys.length < fuel.length) {state : σ}
    (fresh : Fresh shape (seen state) keys) (rest : List Char) :
    ∃ last, readMembers member fuel first state (inner ++ rest) = .ok (last, rest) ∧
      ∀ k, (shape.known k).isSome = true → seen last k = (seen state k || keys.contains k) := by
  -- On the members; that the rest of the keys is fresh carries over to the state behind each.
  induction members generalizing fuel state with
  | @close first space blank =>
    obtain ⟨_, fuel, rfl⟩ := List.exists_cons_of_length_pos (Nat.zero_lt_of_lt enough)
    refine ⟨state, ?_, fun k _ => by simp⟩
    rw [List.append_assoc]
    exact bind_eq_ok.2 ⟨_, nextKey_brace first blank rest, rfl⟩
  | @entry first before one behind key keys apart isMember members ih =>
    obtain ⟨_, fuel, rfl⟩ := List.exists_cons_of_length_pos (Nat.zero_lt_of_lt enough)
    obtain ⟨word, front, rfl, spells, assigns⟩ := isMember
    have ends := members.endsNumber endsNumber_brace rest
    have unseen : (shape.known key).isSome = true → seen state key = false := by
      intro known
      have once := fresh key known
      rw [List.count_cons_self] at once
      cases already : seen state key with
      | false => rfl
      | true => simp [already] at once
    obtain ⟨next, taken⟩ := (collects state key).admits.complete unseen assigns ends
    obtain ⟨last, later, marks⟩ :=
      ih (Nat.lt_of_succ_lt_succ enough) ((collects.fresh_cons taken).1 fresh)
    refine ⟨last, ?_, fun k known => ?_⟩
    · have shapes : before ++ (word ++ front ++ behind) ++ rest =
          before ++ (word ++ (front ++ (behind ++ rest))) := by simp
      rw [shapes]
      exact bind_eq_ok.2 ⟨_, nextKey_word apart spells _, bind_eq_ok.2 ⟨_, taken, later⟩⟩
    · rw [marks k known, (collects _ _).marks taken k known, List.contains_cons, Bool.or_assoc]

/-- An object whose brace has been read, gathered from a state that has seen none of its keys. -/
theorem Collects.record (collects : Collects shape seen member) (start : σ)
    (unseen : ∀ key, seen start key = false)
    (needs : ∀ key ∈ shape.required, (shape.known key).isSome = true) :
    (∀ {cs last rest}, readMembers member ('{' :: cs) true start cs = .ok (last, rest) →
      (∀ key ∈ shape.required, seen last key = true) →
      ∃ word, '{' :: cs = word ++ rest ∧ IsRecord shape word) ∧
    ∀ {word}, IsRecord shape word → ∃ inner, word = '{' :: inner ∧ ∀ rest, ∃ last,
      readMembers member ('{' :: (inner ++ rest)) true start (inner ++ rest) = .ok (last, rest) ∧
      ∀ key ∈ shape.required, seen last key = true := by
  have fresh_iff : ∀ keys, Fresh shape (seen start) keys ↔
      ∀ key, (shape.known key).isSome = true → keys.count key ≤ 1 := by
    intro keys
    unfold Fresh
    simp only [unseen, Bool.toNat_false, Nat.add_zero]
  constructor
  · intro cs last rest read met
    obtain ⟨keys, inner, rfl, members, fresh, marks⟩ := collects.sound read
    refine ⟨'{' :: inner, rfl, inner, keys, rfl, members, fun key required => ?_,
      (fresh_iff keys).1 fresh⟩
    have marked := (marks key (needs key required)).symm.trans (met key required)
    simpa [unseen] using marked
  · rintro word ⟨inner, keys, rfl, members, required, once⟩
    refine ⟨inner, rfl, fun rest => ?_⟩
    have fewer := members.length_lt fun key one isMember => by
      obtain ⟨word, rest, rfl, spells, -⟩ := isMember
      obtain ⟨c, cs, rfl, -⟩ := spells.begins
      exact List.cons_ne_nil _ _
    have enough : keys.length < ('{' :: (inner ++ rest)).length := by
      simp only [List.length_cons, List.length_append]
      omega
    obtain ⟨last, read, marks⟩ := collects.complete members enough ((fresh_iff keys).2 once) rest
    refine ⟨last, read, fun key mem => ?_⟩
    rw [marks key (needs key mem)]
    simpa [unseen] using required key mem

end Collects

theorem readScalar_sound {cs rest : List Char} {value : Json}
    (read : readScalar cs = .ok (value, rest)) :
    ∃ word, cs = word ++ rest ∧ IsScalar Tokens.meaningful word := by
  unfold readScalar at read
  split at read
  · cases read
  · obtain ⟨tail, null, read⟩ := bind_eq_ok.1 read
    obtain ⟨-, rfl⟩ := Prod.mk.inj (Except.ok.inj read)
    exact ⟨_, by rw [readWord_eq_ok.1 null]; rfl, .inl rfl⟩
  · obtain ⟨tail, word, read⟩ := bind_eq_ok.1 read
    obtain ⟨-, rfl⟩ := Prod.mk.inj (Except.ok.inj read)
    exact ⟨_, by rw [readWord_eq_ok.1 word]; rfl, .inr (.inl rfl)⟩
  · obtain ⟨tail, word, read⟩ := bind_eq_ok.1 read
    obtain ⟨-, rfl⟩ := Prod.mk.inj (Except.ok.inj read)
    exact ⟨_, by rw [readWord_eq_ok.1 word]; rfl, .inr (.inr (.inl rfl))⟩
  · obtain ⟨⟨text, tail⟩, one, read⟩ := bind_eq_ok.1 read
    obtain ⟨-, rfl⟩ := Prod.mk.inj (Except.ok.inj read)
    obtain ⟨word, same, spells⟩ := readString_sound one
    exact ⟨word, same, .inr (.inr (.inr (.inl ⟨text, spells⟩)))⟩
  · split at read
    · obtain ⟨⟨number, tail⟩, one, read⟩ := bind_eq_ok.1 read
      obtain ⟨-, rfl⟩ := Prod.mk.inj (Except.ok.inj read)
      obtain ⟨word, same, inRange⟩ := inRange_of_readNumber one
      exact ⟨word, same, .inr (.inr (.inr (.inr inRange)))⟩
    · cases read

theorem readScalar_complete {word rest : List Char} (scalar : IsScalar Tokens.meaningful word)
    (ends : EndsNumber rest) : ∃ value, readScalar (word ++ rest) = .ok (value, rest) := by
  rcases scalar with rfl | rfl | rfl | ⟨text, spells⟩ | inRange
  · exact ⟨.null, bind_eq_ok.2 ⟨rest, readWord_eq_ok.2 rfl, rfl⟩⟩
  · exact ⟨.bool true, bind_eq_ok.2 ⟨rest, readWord_eq_ok.2 rfl, rfl⟩⟩
  · exact ⟨.bool false, bind_eq_ok.2 ⟨rest, readWord_eq_ok.2 rfl, rfl⟩⟩
  · obtain ⟨tail, rfl, read⟩ := readString_complete spells
    exact ⟨.string text, bind_eq_ok.2 ⟨_, read rest, rfl⟩⟩
  · obtain ⟨c, tail, rfl, numeric⟩ := inRange.1.head
    obtain ⟨number, read⟩ := inRange.read
    refine ⟨.number number, ?_⟩
    rw [List.cons_append, readScalar_of_numeric numeric]
    exact bind_eq_ok.2 ⟨_, read rest ends, rfl⟩

structure Tokens.Distinct (tokens : Tokens) : Prop where
  text : ∀ {word}, tokens.text word → ∃ tail, word = '"' :: tail
  number : ∀ {word}, tokens.number word → ∃ c tail, word = c :: tail ∧
    (c = '-' ∨ c.isDigit = true)

theorem meaningful_distinct : Tokens.meaningful.Distinct where
  text := by
    rintro word ⟨text, inner, rfl, -⟩
    exact ⟨_, rfl⟩
  number inRange := inRange.1.head

theorem any_distinct : Tokens.any.Distinct where
  text := by
    rintro word ⟨inner, rfl, -⟩
    exact ⟨_, rfl⟩
  number := IsNumeral.head

theorem Tokens.Distinct.head {tokens : Tokens} (distinct : tokens.Distinct) {word : List Char}
    (scalar : IsScalar tokens word) : ∃ c tail, word = c :: tail ∧
      ((c = 'n' ∨ c = 't' ∨ c = 'f' ∨ c = '"') ∨ c = '-' ∨ c.isDigit = true) := by
  rcases scalar with rfl | rfl | rfl | text | number
  · exact ⟨_, _, rfl, .inl (.inl rfl)⟩
  · exact ⟨_, _, rfl, .inl (.inr (.inl rfl))⟩
  · exact ⟨_, _, rfl, .inl (.inr (.inr (.inl rfl)))⟩
  · obtain ⟨tail, rfl⟩ := distinct.text text
    exact ⟨_, _, rfl, .inl (.inr (.inr (.inr rfl)))⟩
  · obtain ⟨c, tail, rfl, numeric⟩ := distinct.number number
    exact ⟨c, tail, rfl, .inr numeric⟩

theorem Tokens.Distinct.scalar_begins {tokens : Tokens} (distinct : tokens.Distinct)
    {word : List Char} (scalar : IsScalar tokens word) : BeginsValue word := by
  obtain ⟨c, tail, rfl, known | numeric⟩ := distinct.head scalar
  · exact ⟨c, tail, rfl, by rcases known with rfl | rfl | rfl | rfl <;> decide⟩
  · exact ⟨c, tail, rfl, numeric_noGap numeric, numeric_visible numeric ']' (by decide)⟩

theorem Tokens.Distinct.scalar_closed {tokens : Tokens} (distinct : tokens.Distinct)
    {c : Char} {tail : List Char} (scalar : IsScalar tokens (c :: tail)) : c ≠ '[' ∧ c ≠ '{' := by
  obtain ⟨d, rest, same, first⟩ := distinct.head scalar
  obtain ⟨rfl, -⟩ := List.cons.inj same
  rcases first with known | numeric
  · rcases known with rfl | rfl | rfl | rfl <;> decide
  · exact ⟨numeric_visible numeric '[' (by decide), numeric_visible numeric '{' (by decide)⟩

theorem IsMap.begins {key value : Language} {word : List Char} (isMap : IsMap key value word) :
    BeginsValue word := by
  obtain ⟨inner, labels, rfl, -⟩ := isMap
  exact ⟨'{', inner, rfl, by decide, by decide⟩

theorem Tokens.Distinct.begins {tokens : Tokens} (distinct : tokens.Distinct) {depth : Nat}
    {word : List Char} (isValue : IsValue tokens depth word) : BeginsValue word := by
  cases depth with
  | zero => exact distinct.scalar_begins isValue
  | succ depth =>
    rcases isValue with scalar | isSequence | isMap
    · exact distinct.scalar_begins scalar
    · exact isSequence.begins
    · exact isMap.begins

def anyKeys (L : Language) : Shape := ⟨fun _ => none, L, []⟩

theorem isRecord_anyKeys {L : Language} {word : List Char} :
    IsRecord (anyKeys L) word ↔ IsMap IsString L word := by
  constructor
  · rintro ⟨inner, keys, rfl, members, -⟩
    obtain ⟨labels, entries⟩ := members.relabel (fun _ : Unit => IsMember IsString L)
      fun key one isMember => by
        obtain ⟨word, rest, rfl, spells, assigns⟩ := isMember
        exact ⟨(), word, rest, rfl, ⟨key, spells⟩, assigns⟩
    exact ⟨inner, labels, rfl, entries⟩
  · rintro ⟨inner, labels, rfl, entries⟩
    obtain ⟨keys, members⟩ := entries.relabel
      (fun key => IsMember (Spells key) ((anyKeys L).value key))
      fun _ one isMember => by
        obtain ⟨word, rest, rfl, ⟨key, spells⟩, assigns⟩ := isMember
        exact ⟨key, word, rest, rfl, spells, assigns⟩
    exact ⟨inner, keys, rfl, members, by simp [anyKeys], by simp [anyKeys]⟩

theorem addMember_admits {item : Reader Json} {L : Language} (recognizes : Recognizes item L)
    (members : Members) (key : String) : Admits (addMember item members key) L True :=
  (readMember_admits recognizes).map (members.set key)

theorem addMember_collects {item : Reader Json} {L : Language} (recognizes : Recognizes item L) :
    Collects (anyKeys L) (fun _ _ => false) (addMember item) :=
  fun members key => joins_unknown rfl (addMember_admits recognizes members key) fun _ => rfl

theorem readValue_scalar (depth : Nat) {word rest : List Char}
    (scalar : IsScalar Tokens.meaningful word) (visible : skipGap (word ++ rest) = word ++ rest)
    (ends : EndsNumber rest) : ∃ value, readValue depth (word ++ rest) = .ok (value, rest) := by
  obtain ⟨c, tail, rfl, -⟩ := meaningful_distinct.scalar_begins scalar
  obtain ⟨list, object⟩ := meaningful_distinct.scalar_closed scalar
  rw [List.cons_append] at visible ⊢
  rw [readValue_of_skipGap visible list object]
  exact readScalar_complete scalar ends

theorem readValue_recognizes (depth : Nat) :
    Recognizes (readValue depth) (IsValue Tokens.meaningful depth) := by
  -- On how many lists and objects may still be opened; inside one there may be one fewer.
  induction depth with
  | zero =>
    refine recognizes_of_visible meaningful_distinct.begins (readValue_skipGap 0) ?_ ?_
    · intro cs value rest read visible
      unfold readValue at read
      rw [visible] at read
      split at read
      · cases read
      · cases read
      · exact readScalar_sound read
    · exact readValue_scalar 0
  | succ depth ih =>
    have record := (addMember_collects ih).record [] (fun _ => rfl) (by simp [anyKeys])
    refine recognizes_of_visible meaningful_distinct.begins (readValue_skipGap _) ?_ ?_
    · intro cs value rest read visible
      unfold readValue at read
      rw [visible] at read
      split at read
      · obtain ⟨⟨items, tail⟩, list, read⟩ := bind_eq_ok.1 read
        obtain ⟨-, rfl⟩ := Prod.mk.inj (Except.ok.inj read)
        obtain ⟨word, same, isSequence⟩ := (readItems_recognizes ih).1 list
        exact ⟨word, same, .inr (.inl isSequence)⟩
      · obtain ⟨⟨members, tail⟩, object, read⟩ := bind_eq_ok.1 read
        obtain ⟨-, rfl⟩ := Prod.mk.inj (Except.ok.inj read)
        obtain ⟨word, same, isRecord⟩ := record.1 object (by simp [anyKeys])
        exact ⟨word, same, .inr (.inr (isRecord_anyKeys.1 isRecord))⟩
      · obtain ⟨word, same, scalar⟩ := readScalar_sound read
        exact ⟨word, same, .inl scalar⟩
    · rintro word rest (scalar | isSequence | isMap) visible ends
      · exact readValue_scalar _ scalar visible ends
      · obtain ⟨inner, rfl, read⟩ := (readItems_recognizes ih).2 isSequence
        obtain ⟨items, read⟩ := read rest
        refine ⟨.array items, ?_⟩
        rw [readValue_list visible]
        exact bind_eq_ok.2 ⟨_, read, rfl⟩
      · obtain ⟨inner, rfl, read⟩ := record.2 (isRecord_anyKeys.2 isMap)
        obtain ⟨members, read, -⟩ := read rest
        refine ⟨.object members, ?_⟩
        rw [readValue_object visible]
        exact bind_eq_ok.2 ⟨_, read, rfl⟩

end SourceAtlas.Json
