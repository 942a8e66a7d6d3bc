import SourceAtlas.Proofs.Json.Grammar
import SourceAtlas.Proofs.Json.Lockstep
set_option autoImplicit false

namespace SourceAtlas.Json

theorem readUnit_eq_ok {cs rest : List Char} {unit : Nat} :
    readUnit cs = .ok (unit, rest) ↔
      ∃ a b c d, cs = a :: b :: c :: d :: rest ∧ fourDigits? a b c d = some unit := by
  constructor
  · intro read
    unfold readUnit at read
    split at read
    · next a b c d behind =>
      cases found : fourDigits? a b c d with
      | none => simp [found] at read
      | some value =>
        rw [found] at read
        obtain ⟨rfl, rfl⟩ := Prod.mk.inj (Except.ok.inj read)
        exact ⟨a, b, c, d, rfl, found⟩
    · split at read <;> cases read
  · rintro ⟨a, b, c, d, rfl, found⟩
    rw [readUnit, found]

theorem readLowUnit_eq_ok {cs rest : List Char} {low : Nat} :
    readLowUnit cs = .ok (low, rest) ↔ ∃ behind, cs = '\\' :: 'u' :: behind ∧
      readUnit behind = .ok (low, rest) ∧ 0xDC00 ≤ low ∧ low ≤ 0xDFFF := by
  constructor
  · intro read
    unfold readLowUnit at read
    split at read
    · cases read
    · next behind =>
      obtain ⟨⟨unit, tail⟩, readUnit, read⟩ := bind_eq_ok.1 read
      simp only at read
      split at read
      · next second =>
        obtain ⟨rfl, rfl⟩ := Prod.mk.inj (Except.ok.inj read)
        exact ⟨behind, rfl, readUnit, second⟩
      · cases read
    all_goals cases read
  · rintro ⟨behind, rfl, read, second⟩
    simp [readLowUnit, read, second, bind, Except.bind]

theorem readUnits_sound {cs rest : List Char} {c : Char} (read : readUnits cs = .ok (c, rest)) :
    ∃ escape, cs = escape ++ rest ∧ Escapes ('u' :: escape) c := by
  obtain ⟨⟨unit, behind⟩, readUnit, taken⟩ := bind_eq_ok.1 read
  obtain ⟨x, y, z, w, rfl, digits⟩ := readUnit_eq_ok.1 readUnit
  simp only at taken
  split at taken
  · cases taken
  next notSecond =>
  split at taken
  · next first =>
    obtain ⟨⟨low, tail⟩, readLow, taken⟩ := bind_eq_ok.1 taken
    obtain ⟨rfl, rfl⟩ := Prod.mk.inj (Except.ok.inj taken)
    obtain ⟨_, rfl, readUnit, second⟩ := readLowUnit_eq_ok.1 readLow
    obtain ⟨e, f, g, h, rfl, digits'⟩ := readUnit_eq_ok.1 readUnit
    exact ⟨[x, y, z, w, '\\', 'u', e, f, g, h], rfl, .pair digits first digits' second⟩
  · next notFirst =>
    obtain ⟨rfl, rfl⟩ := Prod.mk.inj (Except.ok.inj taken)
    refine ⟨[x, y, z, w], rfl, .unit digits ?_⟩
    unfold IsSurrogate
    omega

theorem readEscape_sound {cs rest : List Char} {c : Char} (read : readEscape cs = .ok (c, rest)) :
    ∃ escape, cs = escape ++ rest ∧ Escapes escape c := by
  unfold readEscape at read
  split at read
  · cases read
  · obtain ⟨escape, rfl, escapes⟩ := readUnits_sound read
    exact ⟨'u' :: escape, rfl, escapes⟩
  · next e behind _ =>
    cases known : escaped? e with
    | none => simp [known, stopOn] at read
    | some d =>
      rw [known] at read
      obtain ⟨rfl, rfl⟩ := Prod.mk.inj (Except.ok.inj read)
      exact ⟨[e], rfl, .short known⟩

theorem readEscape_complete {escape : List Char} {c : Char} (escapes : Escapes escape c)
    (rest : List Char) : readEscape (escape ++ rest) = .ok (c, rest) := by
  cases escapes with
  | @short e c known =>
    have other : e ≠ 'u' := by
      rintro rfl
      cases known
    rw [List.singleton_append, readEscape.eq_3 _ _ other, known]
  | @unit x y z w unit digits whole =>
    have read : readUnit ([x, y, z, w] ++ rest) = .ok (unit, rest) :=
      readUnit_eq_ok.2 ⟨x, y, z, w, rfl, digits⟩
    have notSecond : ¬ (0xDC00 ≤ unit ∧ unit ≤ 0xDFFF) := by
      unfold IsSurrogate at whole
      omega
    have notFirst : ¬ (0xD800 ≤ unit ∧ unit ≤ 0xDBFF) := by
      unfold IsSurrogate at whole
      omega
    change readUnits ([x, y, z, w] ++ rest) = _
    rw [readUnits, read]
    exact (if_neg notSecond).trans (if_neg notFirst)
  | @pair x y z w e f g h high low digits first digits' second =>
    have read : readUnit ([x, y, z, w] ++ ('\\' :: 'u' :: ([e, f, g, h] ++ rest))) =
        .ok (high, '\\' :: 'u' :: ([e, f, g, h] ++ rest)) :=
      readUnit_eq_ok.2 ⟨x, y, z, w, rfl, digits⟩
    have readLow : readLowUnit ('\\' :: 'u' :: ([e, f, g, h] ++ rest)) = .ok (low, rest) :=
      readLowUnit_eq_ok.2 ⟨_, rfl, readUnit_eq_ok.2 ⟨e, f, g, h, rfl, digits'⟩, second⟩
    have notSecond : ¬ (0xDC00 ≤ high ∧ high ≤ 0xDFFF) := by omega
    change readUnits ([x, y, z, w] ++ ('\\' :: 'u' :: ([e, f, g, h] ++ rest))) = _
    rw [readUnits, read]
    refine (if_neg notSecond).trans ((if_pos first).trans ?_)
    rw [readLow]
    rfl

theorem skipEscape_eq_ok {cs rest : List Char} :
    skipEscape cs = .ok rest ↔ ∃ escape, cs = escape ++ rest ∧ IsEscape escape := by
  constructor
  · intro read
    unfold skipEscape at read
    split at read
    · cases read
    · obtain ⟨⟨unit, tail⟩, readUnit, read⟩ := bind_eq_ok.1 read
      obtain rfl := Except.ok.inj read
      obtain ⟨x, y, z, w, rfl, digits⟩ := readUnit_eq_ok.1 readUnit
      exact ⟨['u', x, y, z, w], rfl, .unit digits⟩
    · next e behind _ =>
      split at read
      · next found =>
        obtain ⟨c, known⟩ := Option.isSome_iff_exists.1 found
        obtain rfl := Except.ok.inj read
        exact ⟨[e], rfl, .short known⟩
      · cases read
  · rintro ⟨escape, rfl, isEscape⟩
    cases isEscape with
    | @short e c known =>
      have other : e ≠ 'u' := by
        rintro rfl
        cases known
      rw [List.singleton_append, skipEscape.eq_3 _ _ other, known]
      rfl
    | @unit x y z w unit digits =>
      have read : readUnit ([x, y, z, w] ++ rest) = .ok (unit, rest) :=
        readUnit_eq_ok.2 ⟨x, y, z, w, rfl, digits⟩
      exact bind_eq_ok.2 ⟨(unit, rest), read, rfl⟩

theorem readQuoted_sound {fuel cs meaning rest : List Char}
    (read : readQuoted fuel cs = .ok (meaning, rest)) :
    ∃ inner, cs = inner ++ '"' :: rest ∧ Quotes inner meaning := by
  induction fuel generalizing cs meaning with
  | nil => cases read
  | cons _ fuel ih =>
    cases cs with
    | nil => cases read
    | cons c cs =>
      rw [readQuoted] at read
      split at read
      · next quote =>
        obtain ⟨rfl, rfl⟩ := Prod.mk.inj (Except.ok.inj read)
        exact ⟨[], by rw [quote]; rfl, .nil⟩
      next noQuote =>
      split at read
      · next backslash =>
        obtain ⟨⟨d, behind⟩, readEscape, read⟩ := bind_eq_ok.1 read
        obtain ⟨⟨more, tail⟩, readMore, read⟩ := bind_eq_ok.1 read
        obtain ⟨rfl, rfl⟩ := Prod.mk.inj (Except.ok.inj read)
        obtain ⟨escape, rfl, escapes⟩ := readEscape_sound readEscape
        obtain ⟨inner, rfl, quotes⟩ := ih readMore
        exact ⟨'\\' :: (escape ++ inner), by simp [backslash], .escape escapes quotes⟩
      next noBackslash =>
      split at read
      · cases read
      next visible =>
      obtain ⟨⟨more, tail⟩, readMore, read⟩ := bind_eq_ok.1 read
      obtain ⟨rfl, rfl⟩ := Prod.mk.inj (Except.ok.inj read)
      obtain ⟨inner, rfl, quotes⟩ := ih readMore
      exact ⟨c :: inner, rfl, .plain ⟨noQuote, noBackslash, visible⟩ quotes⟩

theorem readQuoted_complete {inner meaning : List Char} (quotes : Quotes inner meaning)
    {fuel : List Char} (enough : inner.length < fuel.length) (rest : List Char) :
    readQuoted fuel (inner ++ '"' :: rest) = .ok (meaning, rest) := by
  induction quotes generalizing fuel with
  | nil =>
    obtain ⟨_, fuel, rfl⟩ := List.exists_cons_of_length_pos (Nat.zero_lt_of_lt enough)
    rfl
  | @plain c inner meaning plain _ ih =>
    obtain ⟨_, fuel, rfl⟩ := List.exists_cons_of_length_pos (Nat.zero_lt_of_lt enough)
    obtain ⟨noQuote, noBackslash, visible⟩ := plain
    rw [List.cons_append, readQuoted, if_neg noQuote, if_neg noBackslash, if_neg visible,
      ih (Nat.lt_of_succ_lt_succ enough)]
    rfl
  | @escape escape inner meaning c escapes _ ih =>
    obtain ⟨_, fuel, rfl⟩ := List.exists_cons_of_length_pos (Nat.zero_lt_of_lt enough)
    have shorter : inner.length < fuel.length := by
      simp only [List.length_cons, List.length_append] at enough
      omega
    rw [List.cons_append, List.append_assoc, readQuoted, if_neg (by decide), if_pos rfl,
      readEscape_complete escapes]
    simp only [bind, Except.bind, ih shorter]

theorem skipQuoted_sound {fuel cs rest : List Char} (read : skipQuoted fuel cs = .ok rest) :
    ∃ inner, cs = inner ++ '"' :: rest ∧ IsQuoted inner := by
  induction fuel generalizing cs with
  | nil => cases read
  | cons _ fuel ih =>
    cases cs with
    | nil => cases read
    | cons c cs =>
      rw [skipQuoted] at read
      split at read
      · next quote =>
        obtain rfl := Except.ok.inj read
        exact ⟨[], by rw [quote]; rfl, .nil⟩
      next noQuote =>
      split at read
      · next backslash =>
        obtain ⟨behind, skipped, skipMore⟩ := bind_eq_ok.1 read
        obtain ⟨escape, rfl, isEscape⟩ := skipEscape_eq_ok.1 skipped
        obtain ⟨inner, rfl, isQuoted⟩ := ih skipMore
        exact ⟨'\\' :: (escape ++ inner), by simp [backslash], .escape isEscape isQuoted⟩
      next noBackslash =>
      split at read
      · cases read
      next visible =>
      obtain ⟨inner, rfl, isQuoted⟩ := ih read
      exact ⟨c :: inner, rfl, .plain ⟨noQuote, noBackslash, visible⟩ isQuoted⟩

theorem skipQuoted_complete {inner : List Char} (isQuoted : IsQuoted inner) {fuel : List Char}
    (enough : inner.length < fuel.length) (rest : List Char) :
    skipQuoted fuel (inner ++ '"' :: rest) = .ok rest := by
  induction isQuoted generalizing fuel with
  | nil =>
    obtain ⟨_, fuel, rfl⟩ := List.exists_cons_of_length_pos (Nat.zero_lt_of_lt enough)
    rfl
  | @plain c inner plain _ ih =>
    obtain ⟨_, fuel, rfl⟩ := List.exists_cons_of_length_pos (Nat.zero_lt_of_lt enough)
    obtain ⟨noQuote, noBackslash, visible⟩ := plain
    rw [List.cons_append, skipQuoted, if_neg noQuote, if_neg noBackslash, if_neg visible]
    exact ih (Nat.lt_of_succ_lt_succ enough)
  | @escape escape inner isEscape _ ih =>
    obtain ⟨_, fuel, rfl⟩ := List.exists_cons_of_length_pos (Nat.zero_lt_of_lt enough)
    have shorter : inner.length < fuel.length := by
      simp only [List.length_cons, List.length_append] at enough
      omega
    rw [List.cons_append, List.append_assoc, skipQuoted, if_neg (by decide), if_pos rfl,
      skipEscape_eq_ok.2 ⟨escape, rfl, isEscape⟩]
    exact ih shorter

theorem readString_sound {cs rest : List Char} {text : String}
    (read : readString cs = .ok (text, rest)) :
    ∃ front, '"' :: cs = front ++ rest ∧ Spells text front := by
  obtain ⟨⟨meaning, tail⟩, readQuoted, read⟩ := bind_eq_ok.1 read
  obtain ⟨rfl, rfl⟩ := Prod.mk.inj (Except.ok.inj read)
  obtain ⟨inner, rfl, quotes⟩ := readQuoted_sound readQuoted
  exact ⟨'"' :: (inner ++ ['"']), by simp, inner, rfl, by rwa [String.toList_ofList]⟩

theorem readString_complete {text : String} {front : List Char} (spells : Spells text front) :
    ∃ tail, front = '"' :: tail ∧ ∀ rest, readString (tail ++ rest) = .ok (text, rest) := by
  obtain ⟨inner, rfl, quotes⟩ := spells
  refine ⟨inner ++ ['"'], rfl, fun rest => ?_⟩
  have shape : inner ++ ['"'] ++ rest = inner ++ '"' :: rest := by simp
  have enough : inner.length < (inner ++ '"' :: rest).length := by simp
  rw [shape, readString, readQuoted_complete quotes enough]
  simp [bind, Except.bind]

theorem skipString_sound {cs rest : List Char} (read : skipString cs = .ok rest) :
    ∃ front, '"' :: cs = front ++ rest ∧ IsQuotation front := by
  obtain ⟨inner, rfl, isQuoted⟩ := skipQuoted_sound read
  exact ⟨'"' :: (inner ++ ['"']), by simp, inner, rfl, isQuoted⟩

theorem skipString_complete {front : List Char} (isQuotation : IsQuotation front) :
    ∃ tail, front = '"' :: tail ∧ ∀ rest, skipString (tail ++ rest) = .ok rest := by
  obtain ⟨inner, rfl, isQuoted⟩ := isQuotation
  refine ⟨inner ++ ['"'], rfl, fun rest => ?_⟩
  have shape : inner ++ ['"'] ++ rest = inner ++ '"' :: rest := by simp
  have enough : inner.length < (inner ++ '"' :: rest).length := by simp
  rw [shape]
  exact skipQuoted_complete isQuoted enough rest

end SourceAtlas.Json
