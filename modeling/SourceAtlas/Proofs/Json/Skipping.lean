import SourceAtlas.Json.Skip
import SourceAtlas.Proofs.Json.Values
set_option autoImplicit false

/-!
# What skipping takes

Skipping goes from bracket to bracket without keeping anything, and still takes just the values of the
grammar. Each state of it stands for a language: what is due inside the innermost open bracket, then
what may follow in the one around it, and so on up to the end of the value.
-/

namespace SourceAtlas.Json

theorem skipScalar_sound {cs rest : List Char} (skip : skipScalar cs = .ok rest) :
    ∃ word, cs = word ++ rest ∧ IsScalar Tokens.any word := by
  unfold skipScalar at skip
  split at skip
  · cases skip
  · exact ⟨_, by rw [readWord_eq_ok.1 skip]; rfl, .inl rfl⟩
  · exact ⟨_, by rw [readWord_eq_ok.1 skip]; rfl, .inr (.inl rfl)⟩
  · exact ⟨_, by rw [readWord_eq_ok.1 skip]; rfl, .inr (.inr (.inl rfl))⟩
  · obtain ⟨word, same, isQuotation⟩ := skipString_sound skip
    exact ⟨word, same, .inr (.inr (.inr (.inl isQuotation)))⟩
  · split at skip
    · obtain ⟨word, same, isNumeral⟩ := skipNumber_sound skip
      exact ⟨word, same, .inr (.inr (.inr (.inr isNumeral)))⟩
    · cases skip

theorem skipScalar_complete {word rest : List Char} (scalar : IsScalar Tokens.any word)
    (ends : EndsNumber rest) : skipScalar (word ++ rest) = .ok rest := by
  rcases scalar with rfl | rfl | rfl | isQuotation | isNumeral
  · exact readWord_eq_ok.2 rfl
  · exact readWord_eq_ok.2 rfl
  · exact readWord_eq_ok.2 rfl
  · obtain ⟨tail, rfl, skip⟩ := skipString_complete isQuotation
    exact skip rest
  · have skip := skipNumber_complete isNumeral ends
    obtain ⟨c, tail, rfl, numeric⟩ := isNumeral.head
    have other : ∀ d, d ≠ '-' ∧ d.isDigit = false → c ≠ d := numeric_visible numeric
    unfold skipScalar
    split
    · next impossible => cases impossible
    · next same => exact absurd (List.cons.inj same).1 (other 'n' (by decide))
    · next same => exact absurd (List.cons.inj same).1 (other 't' (by decide))
    · next same => exact absurd (List.cons.inj same).1 (other 'f' (by decide))
    · next same => exact absurd (List.cons.inj same).1 (other '"' (by decide))
    · next same =>
      obtain ⟨rfl, -⟩ := List.cons.inj same
      rw [if_pos numeric]
      exact skip

def Bracket.Key : Bracket → Language
  | .list => fun cs => cs = []
  | .object => fun cs => ∃ word before, cs = word ++ (before ++ [':']) ∧ IsQuotation word ∧
    IsSpace before

def Bracket.entry : Bracket → Unit → Language
  | .list, _ => IsJson
  | .object, _ => IsMember IsQuotation IsJson

abbrev Bracket.Entries (bracket : Bracket) : Bool → List Unit → Language :=
  Json.Entries bracket.entry bracket.closing

def ValueThen (L : Language) : Language := fun cs => ∃ gap value behind,
  cs = gap ++ (value ++ behind) ∧ IsSpace gap ∧ IsJson value ∧ L behind

def Ends : List Bracket → Language
  | [] => fun cs => cs = []
  | bracket :: outer => fun cs => ∃ inner labels rest, cs = inner ++ rest ∧
    bracket.Entries false labels inner ∧ Ends outer rest

def Finishes : List Bracket → Due → Language
  | [], _ => fun cs => cs = []
  | opened, .laterEntry => Ends opened
  | opened, .value => ValueThen (Ends opened)
  | bracket :: outer, .firstEntry => fun cs => ∃ inner labels rest, cs = inner ++ rest ∧
    bracket.Entries true labels inner ∧ Ends outer rest

theorem finishes_laterEntry (opened : List Bracket) : Finishes opened .laterEntry = Ends opened := by
  cases opened <;> rfl

theorem Ends.endsNumber {opened : List Bracket} {cs rest : List Char} (ends : Ends opened cs)
    (ended : EndsNumber rest) : EndsNumber (cs ++ rest) := by
  cases opened with
  | nil =>
    obtain rfl := ends
    exact ended
  | cons bracket outer =>
    obtain ⟨inner, labels, behind, rfl, entries, -⟩ := ends
    have closing : ∀ rest, EndsNumber (bracket.closing :: rest) := by
      cases bracket
      · exact endsNumber_bracket
      · exact endsNumber_brace
    rw [List.append_assoc]
    exact entries.endsNumber closing _

theorem Bracket.entry_of_value (bracket : Bracket) {key gap value : List Char}
    (isKey : bracket.Key key) (space : IsSpace gap) (isJson : IsJson value) :
    ∃ gap' word, key ++ (gap ++ value) = gap' ++ word ∧ IsSpace gap' ∧ bracket.entry () word := by
  cases bracket with
  | list =>
    obtain rfl := isKey
    exact ⟨gap, value, rfl, space, isJson⟩
  | object =>
    obtain ⟨word, before, rfl, isQuotation, blank⟩ := isKey
    exact ⟨[], _, rfl, IsSpace.nil, word, before ++ ':' :: (gap ++ value), by simp, isQuotation,
      before, gap, value, rfl, blank, space, isJson⟩

theorem Bracket.value_of_entry (bracket : Bracket) {word : List Char}
    (isEntry : bracket.entry () word) : ∃ key gap value, word = key ++ (gap ++ value) ∧
      bracket.Key key ∧ IsSpace gap ∧ IsJson value := by
  cases bracket with
  | list => exact ⟨[], [], word, rfl, rfl, IsSpace.nil, isEntry⟩
  | object =>
    obtain ⟨word, _, rfl, isQuotation, before, gap, value, rfl, blank, space, isJson⟩ := isEntry
    exact ⟨word ++ (before ++ [':']), gap, value, by simp, ⟨word, before, rfl, isQuotation, blank⟩,
      space, isJson⟩

theorem Bracket.entry_begins (bracket : Bracket) {word : List Char}
    (isEntry : bracket.entry () word) :
    ∃ c tail, word = c :: tail ∧ isGap c = false ∧ c ≠ bracket.closing := by
  cases bracket with
  | list => exact isJson_begins isEntry
  | object =>
    obtain ⟨_, rest, rfl, ⟨inner, rfl, -⟩, -⟩ := isEntry
    exact ⟨'"', _, rfl, by decide, by decide⟩

def Due.entry (first : Bool) : Due :=
  if first then .firstEntry else .laterEntry

theorem finishes_entries {bracket : Bracket} {outer : List Bracket} {first : Bool}
    {cs : List Char} : Finishes (bracket :: outer) (Due.entry first) cs ↔
      ∃ inner labels rest, cs = inner ++ rest ∧ bracket.Entries first labels inner ∧
        Ends outer rest := by
  cases first <;> rfl

theorem finishes_of_value {bracket : Bracket} {outer : List Bracket} {first : Bool}
    {before key more : List Char} (apart : Separates first before) (isKey : bracket.Key key)
    (values : ValueThen (Ends (bracket :: outer)) more) :
    Finishes (bracket :: outer) (Due.entry first) (before ++ (key ++ more)) := by
  obtain ⟨gap, value, _, rfl, space, isJson, inner, labels, rest, rfl, entries, ends⟩ := values
  obtain ⟨gap', word, same, space', isEntry⟩ := bracket.entry_of_value isKey space isJson
  have shapes : before ++ (key ++ (gap ++ (value ++ (inner ++ rest)))) =
      before ++ (key ++ (gap ++ value)) ++ inner ++ rest := by simp
  refine finishes_entries.2 ⟨before ++ gap' ++ (word ++ inner), () :: labels, rest, ?_,
    .entry (apart.append space') isEntry entries, ends⟩
  rw [shapes, same]
  simp

def Advances (cs : List Char) (progress : Progress) (L : Language) : Prop :=
  ∃ front, cs = front ++ progress.rest ∧
    ∀ more, Finishes progress.opened progress.due more → L (front ++ more)

theorem skipKey_sound {bracket : Bracket} {cs rest : List Char}
    (skip : skipKey bracket cs = .ok rest) :
    ∃ gap key, cs = gap ++ (key ++ rest) ∧ IsSpace gap ∧ bracket.Key key := by
  cases bracket with
  | list =>
    obtain rfl := Except.ok.inj skip
    exact ⟨[], [], rfl, IsSpace.nil, rfl⟩
  | object =>
    unfold skipKey at skip
    simp only at skip
    split at skip
    · cases skip
    · next tail skipped =>
      obtain ⟨behind, skipped', colon⟩ := bind_eq_ok.1 skip
      obtain ⟨word, same, isQuotation⟩ := skipString_sound skipped'
      obtain ⟨before, rfl, blank⟩ := readColon_eq_ok.1 colon
      obtain ⟨gap, rfl, space⟩ := gap_of_skipGap (skipped.trans same)
      exact ⟨gap, word ++ (before ++ [':']), by simp, space, word, before, rfl, isQuotation, blank⟩
    · cases skip

theorem skipStart_sound {opened : List Bracket} {cs : List Char} {progress : Progress}
    (skip : skipStart opened cs = .ok progress) :
    Advances cs progress (ValueThen (Ends opened)) := by
  unfold skipStart at skip
  split at skip
  · next tail skipped =>
    obtain rfl := Except.ok.inj skip
    obtain ⟨gap, rfl, space⟩ := gap_of_skipGap skipped
    refine ⟨gap ++ ['['], by simp, ?_⟩
    rintro _ ⟨inner, labels, rest, rfl, entries, ends⟩
    exact ⟨gap, '[' :: inner, rest, by simp, space,
      isJson_iff.2 (.inr (.inl ⟨inner, labels, rfl, entries⟩)), ends⟩
  · next tail skipped =>
    obtain rfl := Except.ok.inj skip
    obtain ⟨gap, rfl, space⟩ := gap_of_skipGap skipped
    refine ⟨gap ++ ['{'], by simp, ?_⟩
    rintro _ ⟨inner, labels, rest, rfl, entries, ends⟩
    exact ⟨gap, '{' :: inner, rest, by simp, space,
      isJson_iff.2 (.inr (.inr ⟨inner, labels, rfl, entries⟩)), ends⟩
  · obtain ⟨rest, scalar, skip⟩ := bind_eq_ok.1 skip
    obtain rfl := Except.ok.inj skip
    obtain ⟨word, same, isScalar⟩ := skipScalar_sound scalar
    obtain ⟨gap, rfl, space⟩ := gap_of_skipGap same
    refine ⟨gap ++ word, by simp, fun more finishes => ?_⟩
    rw [finishes_laterEntry] at finishes
    exact ⟨gap, word, more, by simp, space, isJson_iff.2 (.inl isScalar), finishes⟩

/-- What a step inside a bracket may be: into the value of an entry, out of the bracket, into its
first entry, or behind a comma and the key of a later entry. -/
theorem skipStep_cases {bracket : Bracket} {outer : List Bracket} {due : Due} {cs : List Char}
    {progress : Progress} (skip : skipStep bracket outer due cs = .ok progress) :
    ∃ gap c rest, cs = gap ++ c :: rest ∧ IsSpace gap ∧
      (due = .value ∧ skipStart (bracket :: outer) (c :: rest) = .ok progress ∨
      (∃ first, due = Due.entry first) ∧ c = bracket.closing ∧
        progress = ⟨outer, .laterEntry, rest⟩ ∨
      due = Due.entry true ∧ (∃ behind, skipKey bracket (c :: rest) = .ok behind ∧
        skipStart (bracket :: outer) behind = .ok progress) ∨
      due = Due.entry false ∧ c = ',' ∧ ∃ behind, skipKey bracket rest = .ok behind ∧
        progress = ⟨bracket :: outer, .value, behind⟩) := by
  unfold skipStep at skip
  split at skip
  · cases skip
  next c rest skipped =>
  obtain ⟨gap, rfl, space⟩ := gap_of_skipGap skipped
  refine ⟨gap, c, rest, rfl, space, ?_⟩
  cases due with
  | value => exact .inl ⟨rfl, skip⟩
  | firstEntry =>
    rw [if_neg Due.noConfusion] at skip
    split at skip
    · next closing => exact .inr (.inl ⟨⟨true, rfl⟩, closing, (Except.ok.inj skip).symm⟩)
    · exact .inr (.inr (.inl ⟨rfl, bind_eq_ok.1 skip⟩))
  | laterEntry =>
    rw [if_neg Due.noConfusion] at skip
    split at skip
    · next closing => exact .inr (.inl ⟨⟨false, rfl⟩, closing, (Except.ok.inj skip).symm⟩)
    rw [if_neg Due.noConfusion] at skip
    split at skip
    · next comma =>
      obtain ⟨behind, keyed, skip⟩ := bind_eq_ok.1 skip
      exact .inr (.inr (.inr ⟨rfl, comma, behind, keyed, (Except.ok.inj skip).symm⟩))
    · cases skip

theorem skipStep_sound {bracket : Bracket} {outer : List Bracket} {due : Due} {cs : List Char}
    {progress : Progress} (skip : skipStep bracket outer due cs = .ok progress) :
    Advances cs progress (Finishes (bracket :: outer) due) := by
  obtain ⟨gap, c, rest, rfl, space, ⟨rfl, start⟩ | ⟨⟨first, rfl⟩, rfl, rfl⟩ |
    ⟨rfl, behind, keyed, start⟩ | ⟨rfl, rfl, behind, keyed, rfl⟩⟩ := skipStep_cases skip
  · obtain ⟨front, same, finish⟩ := skipStart_sound start
    refine ⟨gap ++ front, by rw [same, List.append_assoc], fun more finishes => ?_⟩
    obtain ⟨gap', value, behind, split, space', isJson, ends⟩ := finish more finishes
    exact ⟨gap ++ gap', value, behind, by simp [split], space.append space', isJson, ends⟩
  · refine ⟨gap ++ [bracket.closing], by simp, fun more finishes => ?_⟩
    rw [finishes_laterEntry] at finishes
    exact finishes_entries.2 ⟨_, [], more, rfl, .close space, finishes⟩
  · obtain ⟨gap', key, same, space', isKey⟩ := skipKey_sound keyed
    obtain ⟨front, rfl, finish⟩ := skipStart_sound start
    refine ⟨gap ++ gap' ++ (key ++ front), by simp [same], fun more finishes => ?_⟩
    have apart : Separates true (gap ++ gap') := space.append space'
    rw [List.append_assoc, List.append_assoc key]
    exact finishes_of_value apart isKey (finish more finishes)
  · obtain ⟨gap', key, rfl, space', isKey⟩ := skipKey_sound keyed
    refine ⟨gap ++ ',' :: gap' ++ key, by simp, fun more finishes => ?_⟩
    have apart : Separates false (gap ++ ',' :: gap') := ⟨gap, gap', rfl, space, space'⟩
    rw [List.append_assoc]
    exact finishes_of_value apart isKey finishes

theorem skipWithin_sound {fuel : List Char} {progress : Progress} {rest : List Char}
    (skip : skipWithin fuel progress = .ok rest) :
    ∃ front, progress.rest = front ++ rest ∧ Finishes progress.opened progress.due front := by
  -- On the fuel, of which each step takes one.
  induction fuel generalizing progress with
  | nil =>
    obtain ⟨opened, due, cs⟩ := progress
    cases opened with
    | nil =>
      obtain rfl := Except.ok.inj skip
      exact ⟨[], rfl, rfl⟩
    | cons bracket outer => cases skip
  | cons _ fuel ih =>
    obtain ⟨opened, due, cs⟩ := progress
    cases opened with
    | nil =>
      obtain rfl := Except.ok.inj skip
      exact ⟨[], rfl, rfl⟩
    | cons bracket outer =>
      obtain ⟨next, step, skip⟩ := bind_eq_ok.1 skip
      obtain ⟨front, same, finish⟩ := skipStep_sound step
      obtain ⟨more, rest', finishes⟩ := ih skip
      exact ⟨front ++ more, by rw [List.append_assoc, ← rest', ← same], finish more finishes⟩

def Progresses (step : Except Fault Progress) (cs rest : List Char) : Prop :=
  ∃ progress front, step = .ok progress ∧ progress.rest = front ++ rest ∧
    Finishes progress.opened progress.due front ∧ front.length < cs.length

theorem skipKey_complete {bracket : Bracket} {gap key : List Char} (space : IsSpace gap)
    (isKey : bracket.Key key) (tail : List Char) : ∃ gap', IsSpace gap' ∧
      gap'.length ≤ gap.length ∧ skipKey bracket (gap ++ (key ++ tail)) = .ok (gap' ++ tail) := by
  cases bracket with
  | list =>
    obtain rfl := isKey
    exact ⟨gap, space, Nat.le_refl _, rfl⟩
  | object =>
    obtain ⟨word, before, rfl, isQuotation, blank⟩ := isKey
    obtain ⟨quoted, rfl, skip⟩ := skipString_complete isQuotation
    have shapes : gap ++ ('"' :: quoted ++ (before ++ [':']) ++ tail) =
        gap ++ '"' :: (quoted ++ (before ++ ':' :: tail)) := by simp
    refine ⟨[], IsSpace.nil, Nat.zero_le _, ?_⟩
    rw [shapes]
    unfold skipKey
    simp only [skipGap_append space]
    rw [skipGap_of_visible (by decide)]
    exact bind_eq_ok.2 ⟨_, skip _, readColon_eq_ok.2 ⟨before, rfl, blank⟩⟩

theorem skipStart_complete {opened : List Bracket} {gap value behind rest : List Char}
    (space : IsSpace gap) (isJson : IsJson value) (ends : Ends opened behind)
    (ended : EndsNumber rest) :
    Progresses (skipStart opened (gap ++ (value ++ (behind ++ rest)))) (value ++ behind) rest := by
  have skipped := (skipGap_append space _).trans ((isJson_begins isJson).skipGap (behind ++ rest))
  unfold skipStart
  rw [skipped]
  rcases isJson_iff.1 isJson with scalar | ⟨inner, labels, rfl, entries⟩ |
    ⟨inner, labels, rfl, entries⟩
  · have skip := skipScalar_complete scalar (ends.endsNumber ended)
    refine ⟨⟨opened, .laterEntry, behind ++ rest⟩, behind, ?_, rfl, ?_, ?_⟩
    · obtain ⟨c, tail, rfl, -⟩ := any_distinct.scalar_begins scalar
      obtain ⟨list, object⟩ := any_distinct.scalar_closed scalar
      split
      · next same => exact absurd (List.cons.inj same).1 list
      · next same => exact absurd (List.cons.inj same).1 object
      · rw [skip]
        rfl
    · rw [finishes_laterEntry]
      exact ends
    · obtain ⟨c, tail, rfl, -⟩ := any_distinct.scalar_begins scalar
      simp only [List.length_append, List.length_cons]
      omega
  · exact ⟨⟨.list :: opened, .firstEntry, inner ++ (behind ++ rest)⟩, inner ++ behind, rfl,
      by simp, ⟨inner, labels, behind, rfl, entries, ends⟩, by simp⟩
  · exact ⟨⟨.object :: opened, .firstEntry, inner ++ (behind ++ rest)⟩, inner ++ behind, rfl,
      by simp, ⟨inner, labels, behind, rfl, entries, ends⟩, by simp⟩

theorem Progresses.mono {step : Except Fault Progress} {cs cs' rest : List Char}
    (progresses : Progresses step cs rest) (le : cs.length ≤ cs'.length) :
    Progresses step cs' rest := by
  obtain ⟨progress, front, same, split, finishes, shorter⟩ := progresses
  exact ⟨progress, front, same, split, finishes, Nat.lt_of_lt_of_le shorter le⟩

theorem skipStep_value {bracket : Bracket} {outer : List Bracket} {cs rest : List Char}
    (values : ValueThen (Ends (bracket :: outer)) cs) (ended : EndsNumber rest) :
    Progresses (skipStep bracket outer .value (cs ++ rest)) cs rest := by
  obtain ⟨gap, value, behind, rfl, space, isJson, ends⟩ := values
  have progresses := skipStart_complete IsSpace.nil isJson ends ended
  have visible := (isJson_begins isJson).skipGap (behind ++ rest)
  have skipped : skipGap (gap ++ (value ++ behind) ++ rest) = value ++ (behind ++ rest) := by
    rw [List.append_assoc, List.append_assoc, skipGap_append space, visible]
  obtain ⟨c, tail, rfl, -⟩ := isJson_begins isJson
  unfold skipStep
  rw [skipped]
  exact progresses.mono (by simp)

theorem skipStep_close {bracket : Bracket} {outer : List Bracket} {due : Due}
    {space behind rest : List Char} (entry : due ≠ .value) (blank : IsSpace space)
    (ends : Ends outer behind) :
    Progresses (skipStep bracket outer due (space ++ bracket.closing :: (behind ++ rest)))
      (space ++ bracket.closing :: behind) rest := by
  have noGap : isGap bracket.closing = false := by cases bracket <;> rfl
  have skipped : skipGap (space ++ bracket.closing :: (behind ++ rest)) =
      bracket.closing :: (behind ++ rest) :=
    (skipGap_append blank _).trans (skipGap_of_visible noGap _)
  refine ⟨⟨outer, .laterEntry, behind ++ rest⟩, behind, ?_, rfl, ?_, ?_⟩
  · unfold skipStep
    rw [skipped]
    simp only [entry, if_false, if_true]
  · rw [finishes_laterEntry]
    exact ends
  · simp only [List.length_append, List.length_cons]
    omega

theorem skipStep_first {bracket : Bracket} {outer : List Bracket}
    {before word behind rest : List Char} (space : IsSpace before)
    (isEntry : bracket.entry () word) (ends : Ends (bracket :: outer) behind)
    (ended : EndsNumber rest) :
    Progresses (skipStep bracket outer .firstEntry (before ++ (word ++ (behind ++ rest))))
      (before ++ (word ++ behind)) rest := by
  obtain ⟨c, tail, begin, noGap, notClosing⟩ := bracket.entry_begins isEntry
  obtain ⟨key, gap, value, split, isKey, blank, isJson⟩ := bracket.value_of_entry isEntry
  obtain ⟨gap', blank', shorter, skip⟩ :=
    skipKey_complete IsSpace.nil isKey (gap ++ (value ++ (behind ++ rest)))
  have progresses := skipStart_complete (blank'.append blank) isJson ends ended
  have visible : key ++ (gap ++ (value ++ (behind ++ rest))) = c :: (tail ++ (behind ++ rest)) := by
    rw [← List.append_assoc gap, ← List.append_assoc key, ← split, begin, List.cons_append]
  have skipped : skipGap (before ++ (word ++ (behind ++ rest))) =
      c :: (tail ++ (behind ++ rest)) := by
    rw [begin, skipGap_append space]
    exact skipGap_of_visible noGap _
  have step : skipStep bracket outer .firstEntry (before ++ (word ++ (behind ++ rest))) =
      skipStart (bracket :: outer) (gap' ++ gap ++ (value ++ (behind ++ rest))) := by
    rw [List.nil_append, visible] at skip
    unfold skipStep
    rw [skipped]
    simp only [reduceCtorEq, if_false, notClosing, if_true, skip]
    rw [List.append_assoc]
    rfl
  rw [step]
  refine progresses.mono ?_
  simp only [split, List.length_append]
  omega

theorem skipStep_later {bracket : Bracket} {outer : List Bracket}
    {before word behind rest : List Char} (apart : Separates false before)
    (isEntry : bracket.entry () word) (ends : Ends (bracket :: outer) behind) :
    Progresses (skipStep bracket outer .laterEntry (before ++ (word ++ (behind ++ rest))))
      (before ++ (word ++ behind)) rest := by
  obtain ⟨left, right, rfl, leftSpace, rightSpace⟩ := apart
  obtain ⟨key, gap, value, rfl, isKey, blank, isJson⟩ := bracket.value_of_entry isEntry
  obtain ⟨gap', blank', shorter, skip⟩ :=
    skipKey_complete rightSpace isKey (gap ++ (value ++ (behind ++ rest)))
  have other : ',' ≠ bracket.closing := by cases bracket <;> decide
  have skipped : skipGap (left ++ ',' :: right ++ (key ++ (gap ++ value) ++ (behind ++ rest))) =
      ',' :: (right ++ (key ++ (gap ++ (value ++ (behind ++ rest))))) := by
    simp only [List.append_assoc, List.cons_append, skipGap_append leftSpace]
    exact skipGap_of_visible (by decide) _
  refine ⟨⟨bracket :: outer, .value, gap' ++ (gap ++ (value ++ (behind ++ rest)))⟩,
    gap' ++ gap ++ (value ++ behind), ?_, by simp, ?_, ?_⟩
  · unfold skipStep
    rw [skipped]
    simp only [reduceCtorEq, if_false, other, if_true, skip]
    rfl
  · exact ⟨gap' ++ gap, value, behind, rfl, blank'.append blank, isJson, ends⟩
  · simp only [List.length_append, List.length_cons]
    omega

theorem skipStep_entries {bracket : Bracket} {outer : List Bracket} {first : Bool}
    {cs rest : List Char} (finishes : Finishes (bracket :: outer) (Due.entry first) cs)
    (ended : EndsNumber rest) :
    Progresses (skipStep bracket outer (Due.entry first) (cs ++ rest)) cs rest := by
  obtain ⟨inner, labels, behind, rfl, entries, ends⟩ := finishes_entries.1 finishes
  cases entries with
  | @close _ space blank =>
    have entry : Due.entry first ≠ .value := by cases first <;> decide
    simp only [List.append_assoc, List.cons_append, List.nil_append]
    exact skipStep_close entry blank ends
  | @entry _ before word later _ labels apart isEntry entries =>
    have closes : Ends (bracket :: outer) (later ++ behind) := ⟨later, _, behind, rfl, entries, ends⟩
    simp only [List.append_assoc]
    cases first with
    | true =>
      have step := skipStep_first apart isEntry closes ended
      rwa [List.append_assoc] at step
    | false =>
      have step : Progresses _ _ rest := skipStep_later apart isEntry closes
      rwa [List.append_assoc] at step

theorem skipStep_complete {bracket : Bracket} {outer : List Bracket} {due : Due}
    {cs rest : List Char} (finishes : Finishes (bracket :: outer) due cs)
    (ended : EndsNumber rest) : Progresses (skipStep bracket outer due (cs ++ rest)) cs rest := by
  cases due with
  | value => exact skipStep_value finishes ended
  | firstEntry => exact @skipStep_entries _ _ true _ _ finishes ended
  | laterEntry => exact @skipStep_entries _ _ false _ _ finishes ended

theorem skipWithin_complete {fuel : List Char} {opened : List Bracket} {due : Due}
    {front : List Char} (finishes : Finishes opened due front) (enough : front.length ≤ fuel.length)
    {rest : List Char} (ended : EndsNumber rest) :
    skipWithin fuel ⟨opened, due, front ++ rest⟩ = .ok rest := by
  -- On the fuel: a step leaves less to finish, so there is always enough for the next one.
  induction fuel generalizing opened due front with
  | nil =>
    cases opened with
    | nil =>
      obtain rfl := finishes
      rfl
    | cons bracket outer =>
      obtain ⟨_, front', -, -, -, shorter⟩ := skipStep_complete finishes ended
      exact absurd (Nat.lt_of_lt_of_le shorter enough) (Nat.not_lt_zero _)
  | cons _ fuel ih =>
    cases opened with
    | nil =>
      obtain rfl := finishes
      rfl
    | cons bracket outer =>
      obtain ⟨⟨opened, due, cs⟩, less, step, rfl, finishes, shorter⟩ :=
        skipStep_complete finishes ended
      have fewer : less.length ≤ fuel.length := by
        simp only [List.length_cons] at enough
        omega
      exact bind_eq_ok.2 ⟨_, step, ih finishes fewer⟩

def passing (skip : List Char → Except Fault (List Char)) : Reader Unit :=
  fun cs => (fun rest => ((), rest)) <$> skip cs

theorem passing_eq_ok {skip : List Char → Except Fault (List Char)} {cs rest : List Char}
    {u : Unit} : passing skip cs = .ok (u, rest) ↔ skip cs = .ok rest := by
  unfold passing
  cases skip cs with
  | error fault => simp [Functor.map, Except.map]
  | ok tail => simp [Functor.map, Except.map]

theorem skipValue_recognizes : Recognizes (passing skipValue) IsJson where
  begins := isJson_begins
  sound := by
    intro cs _ rest skip
    obtain ⟨progress, start, within⟩ := bind_eq_ok.1 (passing_eq_ok.1 skip)
    obtain ⟨front, rfl, finish⟩ := skipStart_sound start
    obtain ⟨more, same, finishes⟩ := skipWithin_sound within
    obtain ⟨gap, value, _, split, space, isJson, rfl⟩ := finish more finishes
    refine ⟨gap, value, ?_, space, isJson⟩
    rw [same, ← List.append_assoc, split]
    simp
  complete := by
    intro gap word rest space isJson ended
    have started : Progresses (skipStart [] _) _ rest := skipStart_complete space isJson rfl ended
    obtain ⟨⟨opened, due, cs⟩, front, start, rfl, finishes, shorter⟩ := started
    refine ⟨(), passing_eq_ok.2 (bind_eq_ok.2 ⟨_, start, skipWithin_complete finishes ?_ ended⟩)⟩
    simp only [List.length_append, List.append_nil] at shorter ⊢
    omega

end SourceAtlas.Json
