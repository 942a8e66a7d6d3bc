import SourceAtlas.Proofs.Json.Layout
import SourceAtlas.Proofs.Json.NumberText
import SourceAtlas.Proofs.Json.StringText
import SourceAtlas.Proofs.Json.View
set_option autoImplicit false

namespace SourceAtlas.Json

variable {α σ κ μ : Type}

theorem skipGap_append {gap : List Char} (space : IsSpace gap) (cs : List Char) :
    skipGap (gap ++ cs) = skipGap cs :=
  List.dropWhile_append_of_pos space

theorem gap_of_skipGap {cs tail : List Char} (skipped : skipGap cs = tail) :
    ∃ gap, cs = gap ++ tail ∧ IsSpace gap := by
  refine ⟨cs.takeWhile isGap, ?_, fun c mem => List.mem_takeWhile_imp mem⟩
  rw [← skipped]
  exact (List.takeWhile_append_dropWhile ..).symm

theorem IsSpace.nil : IsSpace [] := by
  intro c never
  cases never

theorem IsSpace.append {front back : List Char} (first : IsSpace front) (second : IsSpace back) :
    IsSpace (front ++ back) := by
  intro c mem
  exact (List.mem_append.1 mem).elim (first c) (second c)

theorem endsNumber_gap {gap rest : List Char} (space : IsSpace gap) (ends : EndsNumber rest) :
    EndsNumber (gap ++ rest) := by
  cases gap with
  | nil => exact ends
  | cons c gap =>
    intro d mem
    obtain rfl := Option.mem_some.1 mem
    have blank : isGap c = true := space c (List.mem_cons_self ..)
    have four : c = ' ' ∨ c = '\n' ∨ c = '\t' ∨ c = '\r' := by
      simpa [isGap, or_assoc] using blank
    rcases four with rfl | rfl | rfl | rfl <;> decide

theorem Separates.append {first : Bool} {before gap : List Char} (apart : Separates first before)
    (space : IsSpace gap) : Separates first (before ++ gap) := by
  cases first with
  | true => exact IsSpace.append apart space
  | false =>
    obtain ⟨left, right, rfl, leftSpace, rightSpace⟩ := apart
    exact ⟨left, right ++ gap, by simp, leftSpace, rightSpace.append space⟩

section Entries

variable {entry : κ → Language} {close : Char} {first : Bool} {labels : List κ} {cs : List Char}

theorem Entries.length_lt (entries : Entries entry close first labels cs)
    (visible : ∀ label word, entry label word → word ≠ []) : labels.length < cs.length := by
  induction entries with
  | close => simp
  | entry _ taken _ ih =>
    have nonempty := List.length_pos_iff.2 (visible _ _ taken)
    simp only [List.length_cons, List.length_append]
    omega

theorem Entries.endsNumber (entries : Entries entry close false labels cs)
    (closing : ∀ rest, EndsNumber (close :: rest)) (rest : List Char) : EndsNumber (cs ++ rest) := by
  cases entries with
  | close space =>
    rw [List.append_assoc]
    exact endsNumber_gap space (closing rest)
  | entry apart _ _ =>
    obtain ⟨left, right, rfl, leftSpace, -⟩ := apart
    simp only [List.append_assoc, List.cons_append]
    exact endsNumber_gap leftSpace (endsNumber_comma _)

theorem Entries.relabel (entries : Entries entry close first labels cs) (other : μ → Language)
    (same : ∀ label word, entry label word → ∃ label, other label word) :
    ∃ labels, Entries other close first labels cs := by
  induction entries with
  | close space => exact ⟨[], .close space⟩
  | entry apart taken _ ih =>
    obtain ⟨label, taken⟩ := same _ _ taken
    obtain ⟨labels, entries⟩ := ih
    exact ⟨label :: labels, .entry apart taken entries⟩

end Entries

theorem endsNumber_bracket (rest : List Char) : EndsNumber (']' :: rest) := by
  intro c mem
  obtain rfl := Option.mem_some.1 mem
  decide

theorem endsNumber_brace (rest : List Char) : EndsNumber ('}' :: rest) := by
  intro c mem
  obtain rfl := Option.mem_some.1 mem
  decide

/-- Whether a reader takes the words of a language with gaps before them, and nothing else. The last
word may be a number, so it is taken where no number goes on. -/
structure Recognizes (read : Reader α) (L : Language) : Prop where
  begins : ∀ {word}, L word → BeginsValue word
  sound : ∀ {cs a rest}, read cs = .ok (a, rest) →
    ∃ gap word, cs = gap ++ (word ++ rest) ∧ IsSpace gap ∧ L word
  complete : ∀ {gap word rest}, IsSpace gap → L word → EndsNumber rest →
    ∃ a, read (gap ++ (word ++ rest)) = .ok (a, rest)

theorem Recognizes.some {read : Reader α} {L : Language} (recognizes : Recognizes read L)
    {word : List Char} (taken : L word) : word ≠ [] := by
  obtain ⟨c, cs, rfl, -⟩ := recognizes.begins taken
  exact List.cons_ne_nil _ _

theorem Recognizes.sound_visible {read : Reader α} {L : Language} (recognizes : Recognizes read L)
    {cs rest : List Char} {a : α} (taken : read cs = .ok (a, rest)) (visible : skipGap cs = cs) :
    ∃ word, cs = word ++ rest ∧ L word := by
  obtain ⟨gap, word, same, space, isWord⟩ := recognizes.sound taken
  refine ⟨word, ?_, isWord⟩
  rw [← visible, same, skipGap_append space, (recognizes.begins isWord).skipGap]

theorem Recognizes.complete_visible {read : Reader α} {L : Language}
    (recognizes : Recognizes read L) {word rest : List Char} (isWord : L word)
    (ends : EndsNumber rest) : ∃ a, read (word ++ rest) = .ok (a, rest) :=
  recognizes.complete IsSpace.nil isWord ends

theorem recognizes_of_visible {read : Reader α} {L : Language}
    (begins : ∀ {word}, L word → BeginsValue word) (skips : ∀ cs, read cs = read (skipGap cs))
    (sound : ∀ {cs a rest}, read cs = .ok (a, rest) → skipGap cs = cs →
      ∃ word, cs = word ++ rest ∧ L word)
    (complete : ∀ {word rest}, L word → skipGap (word ++ rest) = word ++ rest → EndsNumber rest →
      ∃ a, read (word ++ rest) = .ok (a, rest)) : Recognizes read L where
  begins := begins
  sound := by
    intro cs a rest taken
    rw [skips] at taken
    obtain ⟨word, same, isWord⟩ := sound taken (skipGap_skipGap cs)
    obtain ⟨gap, rfl, space⟩ := gap_of_skipGap same
    exact ⟨gap, word, rfl, space, isWord⟩
  complete := by
    intro gap word rest space isWord ends
    have visible := (begins isWord).skipGap rest
    obtain ⟨a, taken⟩ := complete isWord visible ends
    refine ⟨a, ?_⟩
    rw [skips, skipGap_append space, visible]
    exact taken

theorem Spells.begins {text : String} {word : List Char} (spells : Spells text word) :
    BeginsValue word := by
  obtain ⟨inner, rfl, -⟩ := spells
  exact ⟨'"', _, rfl, by decide, by decide⟩

theorem readTextAs_sound {expected text : String} {cs rest : List Char}
    (read : readTextAs expected cs = .ok (text, rest)) :
    ∃ gap word, cs = gap ++ (word ++ rest) ∧ IsSpace gap ∧ Spells text word := by
  obtain ⟨tail, skipped, read⟩ := readTextAs_eq_ok.1 read
  obtain ⟨word, same, spells⟩ := readString_sound read
  obtain ⟨gap, rfl, space⟩ := gap_of_skipGap (skipped.trans same)
  exact ⟨gap, word, rfl, space, spells⟩

theorem readTextAs_complete (expected : String) {text : String} {gap word : List Char}
    (space : IsSpace gap) (spells : Spells text word) (rest : List Char) :
    readTextAs expected (gap ++ (word ++ rest)) = .ok (text, rest) := by
  have visible := spells.begins.skipGap rest
  obtain ⟨tail, rfl, read⟩ := readString_complete spells
  exact readTextAs_eq_ok.2 ⟨tail ++ rest, (skipGap_append space _).trans visible, read rest⟩

theorem readText_recognizes : Recognizes readText IsString where
  begins := by
    rintro word ⟨text, spells⟩
    exact spells.begins
  sound := by
    intro cs text rest read
    obtain ⟨gap, word, same, space, spells⟩ := readTextAs_sound read
    exact ⟨gap, word, same, space, text, spells⟩
  complete := by
    rintro gap word rest space ⟨text, spells⟩ -
    exact ⟨text, readTextAs_complete _ space spells rest⟩

theorem IsNumeral.head {cs : List Char} (isNumeral : IsNumeral cs) :
    ∃ c tail, cs = c :: tail ∧ (c = '-' ∨ c.isDigit = true) := by
  obtain ⟨sign, _, rfl, rfl | rfl, _, scale, rfl, ⟨⟨nonempty, areDigits⟩, -⟩, -⟩ := isNumeral
  · obtain ⟨c, digits, rfl⟩ := List.exists_cons_of_ne_nil nonempty
    exact ⟨c, digits ++ scale, rfl, .inr (areDigits c (List.mem_cons_self ..))⟩
  · exact ⟨'-', _, rfl, .inl rfl⟩

theorem numeric_visible {c : Char} (numeric : c = '-' ∨ c.isDigit = true) (d : Char)
    (other : d ≠ '-' ∧ d.isDigit = false) : c ≠ d := by
  rintro rfl
  rcases numeric with minus | digit
  · exact other.1 minus
  · exact absurd (digit.symm.trans other.2) (by decide)

theorem numeric_noGap {c : Char} (numeric : c = '-' ∨ c.isDigit = true) : isGap c = false := by
  have space := numeric_visible numeric ' ' (by decide)
  have line := numeric_visible numeric '\n' (by decide)
  have tab := numeric_visible numeric '\t' (by decide)
  have back := numeric_visible numeric '\r' (by decide)
  simp [isGap, space, line, tab, back]

theorem readReal_recognizes : Recognizes readReal IsInRange := by
  refine recognizes_of_visible ?_ ?_ ?_ ?_
  · rintro word ⟨isNumeral, -⟩
    obtain ⟨c, tail, rfl, numeric⟩ := isNumeral.head
    exact ⟨c, tail, rfl, numeric_noGap numeric, numeric_visible numeric ']' (by decide)⟩
  · intro cs
    unfold readReal
    rw [skipGap_skipGap]
  · intro cs x rest read visible
    unfold readReal at read
    rw [visible] at read
    split at read
    · cases read
    split at read
    · obtain ⟨⟨number, behind⟩, one, read⟩ := bind_eq_ok.1 read
      obtain rfl : behind = rest := by
        cases number <;> exact (Prod.mk.inj (Except.ok.inj read)).2
      exact inRange_of_readNumber one
    · exact absurd read refuse_ne_ok
  · intro word rest inRange visible ends
    obtain ⟨c, tail, rfl, numeric⟩ := inRange.1.head
    obtain ⟨number, again⟩ := inRange.read
    have read := again rest ends
    unfold readReal
    rw [visible, List.cons_append]
    rw [List.cons_append] at read
    simp only [if_pos numeric, read]
    cases number with
    | integer value => exact ⟨_, rfl⟩
    | real value => exact ⟨_, rfl⟩

theorem readWord_eq_ok {letters cs rest : List Char} :
    readWord letters cs = .ok rest ↔ cs = letters ++ rest := by
  induction letters generalizing cs with
  | nil => simp [readWord]
  | cons letter letters ih =>
    cases cs with
    | nil => simp [readWord, stopAt]
    | cons c cs =>
      rw [readWord]
      split
      · next same => simp [same, ih]
      · next other => simp [other, stopOn]

theorem readOptional_recognizes {item : Reader α} {L : Language} (recognizes : Recognizes item L)
    (other : ∀ tail, ¬ L ('n' :: tail)) : Recognizes (readOptional item) (Nullable L) := by
  refine recognizes_of_visible ?_ ?_ ?_ ?_
  · rintro word (rfl | isWord)
    · exact ⟨'n', _, rfl, by decide, by decide⟩
    · exact recognizes.begins isWord
  · intro cs
    unfold readOptional
    rw [skipGap_skipGap]
  · intro cs value rest read visible
    unfold readOptional at read
    rw [visible] at read
    split at read
    · obtain ⟨tail, null, read⟩ := bind_eq_ok.1 read
      obtain ⟨-, rfl⟩ := Prod.mk.inj (Except.ok.inj read)
      exact ⟨_, by rw [readWord_eq_ok.1 null]; rfl, .inl rfl⟩
    · obtain ⟨⟨a, tail⟩, one, read⟩ := bind_eq_ok.1 read
      obtain ⟨-, rfl⟩ := Prod.mk.inj (Except.ok.inj read)
      obtain ⟨word, same, isWord⟩ := recognizes.sound_visible one visible
      exact ⟨word, same, .inr isWord⟩
  · rintro word rest (rfl | isWord) visible ends
    · refine ⟨none, ?_⟩
      unfold readOptional
      rw [visible]
      exact bind_eq_ok.2 ⟨rest, readWord_eq_ok.2 rfl, rfl⟩
    · obtain ⟨a, one⟩ := recognizes.complete_visible isWord ends
      refine ⟨Option.some a, ?_⟩
      unfold readOptional
      rw [visible]
      split
      · next tail same =>
        obtain ⟨c, cs, rfl, -⟩ := recognizes.begins isWord
        obtain ⟨rfl, -⟩ := List.cons.inj same
        exact absurd isWord (other cs)
      · exact bind_eq_ok.2 ⟨_, one, rfl⟩

theorem nextItem_sound {first : Bool} {cs rest : List Char}
    (next : nextItem first cs = .ok (true, rest)) :
    ∃ before, cs = before ++ rest ∧ Separates first before := by
  unfold nextItem at next
  split at next
  · cases next
  · cases next
  next c tail _ skipped =>
  obtain ⟨gap, rfl, space⟩ := gap_of_skipGap skipped
  split at next
  · next isFirst =>
    subst isFirst
    obtain ⟨-, rfl⟩ := Prod.mk.inj (Except.ok.inj next)
    exact ⟨gap, rfl, space⟩
  next notFirst =>
  obtain rfl : first = false := by simpa using notFirst
  split at next
  · next comma =>
    subst comma
    split at next
    · cases next
    · cases next
    · next rest' _ _ =>
      obtain ⟨-, skipped'⟩ := Prod.mk.inj (Except.ok.inj next)
      obtain ⟨gap', rfl, space'⟩ := gap_of_skipGap skipped'
      exact ⟨gap ++ ',' :: gap', by simp, gap, gap', rfl, space, space'⟩
  · cases next

theorem nextItem_end {first : Bool} {cs rest : List Char}
    (next : nextItem first cs = .ok (false, rest)) :
    ∃ space tail, cs = space ++ ']' :: tail ∧ rest = ']' :: tail ∧ IsSpace space := by
  unfold nextItem at next
  split at next
  · cases next
  · next tail skipped =>
    obtain ⟨gap, rfl, space⟩ := gap_of_skipGap skipped
    obtain ⟨-, rfl⟩ := Prod.mk.inj (Except.ok.inj next)
    exact ⟨gap, tail, rfl, rfl, space⟩
  split at next
  · cases next
  split at next
  · split at next <;> cases next
  · cases next

theorem nextItem_skipGap (first : Bool) (cs : List Char) :
    nextItem first cs = nextItem first (skipGap cs) := by
  unfold nextItem
  rw [skipGap_skipGap]

theorem nextItem_word {first : Bool} {before word : List Char} (apart : Separates first before)
    (begins : BeginsValue word) (rest : List Char) :
    nextItem first (before ++ (word ++ rest)) = .ok (true, word ++ rest) := by
  have visible := begins.skipGap rest
  obtain ⟨c, cs, rfl, -, noEnd⟩ := begins
  rw [List.cons_append] at visible ⊢
  cases first with
  | true =>
    unfold nextItem
    rw [skipGap_append apart, visible]
    split
    · next impossible => cases impossible
    · next same => exact absurd (List.cons.inj same).1 noEnd
    · next same =>
      rw [← same]
      rfl
  | false =>
    obtain ⟨left, right, rfl, leftSpace, rightSpace⟩ := apart
    rw [List.append_assoc, List.cons_append, nextItem_skipGap, skipGap_append leftSpace,
      ← nextItem_skipGap]
    exact nextItem_behind ((skipGap_append rightSpace _).trans visible) noEnd

theorem nextItem_bracket (first : Bool) {space : List Char} (blank : IsSpace space)
    (rest : List Char) : nextItem first (space ++ ']' :: rest) = .ok (false, ']' :: rest) := by
  rw [nextItem_skipGap, skipGap_append blank]
  rfl

abbrev Items (L : Language) : Bool → List Unit → Language :=
  Entries (fun _ => L) ']'

theorem readItems_sound {item : Reader α} {L : Language} (recognizes : Recognizes item L)
    {fuel : List Char} {first : Bool} {cs rest : List Char} {values : List α}
    (read : readItems item fuel first cs = .ok (values, rest)) :
    ∃ labels inner, cs = inner ++ rest ∧ Items L first labels inner := by
  induction fuel generalizing first cs values with
  | nil => cases read
  | cons _ fuel ih =>
    obtain ⟨⟨more, front⟩, next, read⟩ := bind_eq_ok.1 read
    cases more with
    | false =>
      obtain ⟨tail, ended, read⟩ := bind_eq_ok.1 read
      obtain ⟨space, tail, rfl, rfl, blank⟩ := nextItem_end next
      obtain rfl := Except.ok.inj ended
      obtain ⟨-, rfl⟩ := Prod.mk.inj (Except.ok.inj read)
      exact ⟨[], space ++ [']'], by simp, .close blank⟩
    | true =>
      obtain ⟨⟨value, behind⟩, one, read⟩ := bind_eq_ok.1 read
      obtain ⟨⟨later, tail⟩, rest', read⟩ := bind_eq_ok.1 read
      obtain ⟨-, rfl⟩ := Prod.mk.inj (Except.ok.inj read)
      obtain ⟨before, rfl, apart⟩ := nextItem_sound next
      obtain ⟨gap, word, rfl, space, isWord⟩ := recognizes.sound one
      obtain ⟨labels, inner, rfl, items⟩ := ih rest'
      exact ⟨() :: labels, before ++ gap ++ (word ++ inner), by simp,
        .entry (apart.append space) isWord items⟩

theorem readItems_complete {item : Reader α} {L : Language} (recognizes : Recognizes item L)
    {first : Bool} {labels : List Unit} {inner : List Char} (items : Items L first labels inner)
    {fuel : List Char} (enough : labels.length < fuel.length) (rest : List Char) :
    ∃ values, readItems item fuel first (inner ++ rest) = .ok (values, rest) := by
  induction items generalizing fuel with
  | @close first space blank =>
    obtain ⟨_, fuel, rfl⟩ := List.exists_cons_of_length_pos (Nat.zero_lt_of_lt enough)
    refine ⟨[], ?_⟩
    rw [List.append_assoc]
    exact bind_eq_ok.2 ⟨_, nextItem_bracket first blank rest, rfl⟩
  | @entry first before word behind _ labels apart isWord items ih =>
    obtain ⟨_, fuel, rfl⟩ := List.exists_cons_of_length_pos (Nat.zero_lt_of_lt enough)
    obtain ⟨values, later⟩ := ih (Nat.lt_of_succ_lt_succ enough)
    have ends := items.endsNumber endsNumber_bracket rest
    obtain ⟨value, one⟩ := recognizes.complete_visible isWord ends
    have next := nextItem_word apart (recognizes.begins isWord) (behind ++ rest)
    refine ⟨value :: values, ?_⟩
    rw [List.append_assoc, List.append_assoc]
    exact bind_eq_ok.2 ⟨_, next, bind_eq_ok.2 ⟨_, one, bind_eq_ok.2 ⟨_, later, rfl⟩⟩⟩

theorem IsSequence.begins {L : Language} {word : List Char} (isSequence : IsSequence L word) :
    BeginsValue word := by
  obtain ⟨inner, labels, rfl, -⟩ := isSequence
  exact ⟨'[', inner, rfl, by decide, by decide⟩

theorem readItems_recognizes {item : Reader α} {L : Language} (recognizes : Recognizes item L) :
    (∀ {cs rest values}, readItems item ('[' :: cs) true cs = .ok (values, rest) →
      ∃ word, '[' :: cs = word ++ rest ∧ IsSequence L word) ∧
    ∀ {word}, IsSequence L word → ∃ inner, word = '[' :: inner ∧ ∀ rest, ∃ values,
      readItems item ('[' :: (inner ++ rest)) true (inner ++ rest) = .ok (values, rest) := by
  constructor
  · intro cs rest values read
    obtain ⟨labels, inner, rfl, items⟩ := readItems_sound recognizes read
    exact ⟨'[' :: inner, rfl, inner, labels, rfl, items⟩
  · rintro word ⟨inner, labels, rfl, items⟩
    refine ⟨inner, rfl, fun rest => readItems_complete recognizes items ?_ rest⟩
    have fewer := items.length_lt fun _ _ => recognizes.some
    simp only [List.length_cons, List.length_append]
    omega

theorem readList_recognizes {item : Reader α} {L : Language} (recognizes : Recognizes item L) :
    Recognizes (readList item) (IsSequence L) := by
  refine recognizes_of_visible IsSequence.begins ?_ ?_ ?_
  · intro cs
    unfold readList
    rw [skipGap_skipGap]
  · intro cs values rest read visible
    unfold readList at read
    rw [visible] at read
    split at read
    · exact (readItems_recognizes recognizes).1 read
    · exact absurd read refuse_ne_ok
  · intro word rest isSequence visible _
    obtain ⟨inner, rfl, read⟩ := (readItems_recognizes recognizes).2 isSequence
    obtain ⟨values, read⟩ := read rest
    refine ⟨values, ?_⟩
    unfold readList
    rw [visible]
    exact read

end SourceAtlas.Json
