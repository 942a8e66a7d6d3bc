import SourceAtlas.Json.Quotation
import SourceAtlas.Json.Writer
set_option autoImplicit false

namespace SourceAtlas.Json

theorem fourDigits?_lowerHex (n : Nat) (small : n < 0x20) :
    fourDigits? '0' '0' (lowerHex (n / 16)) (lowerHex (n % 16)) = some n := by
  revert n
  decide

theorem readEscape_lowerHex (c : Char) (small : c.toNat < 0x20) (rest : List Char) :
    readEscape ('u' :: '0' :: '0' :: lowerHex (c.toNat / 16) :: lowerHex (c.toNat % 16) :: rest) =
      .ok (c, rest) := by
  have unit : readUnit ('0' :: '0' :: lowerHex (c.toNat / 16) :: lowerHex (c.toNat % 16) :: rest) =
      .ok (c.toNat, rest) := by
    rw [readUnit, fourDigits?_lowerHex c.toNat small]
  have low : ¬ (0xDC00 ≤ c.toNat ∧ c.toNat ≤ 0xDFFF) := by omega
  have high : ¬ (0xD800 ≤ c.toNat ∧ c.toNat ≤ 0xDBFF) := by omega
  rw [readEscape, readUnits, unit]
  simp only [bind, Except.bind, if_neg low, if_neg high, Char.ofNat_toNat]

theorem readQuoted_escape (f c : Char) (fuel cs rest : List Char)
    (read : readEscape cs = .ok (c, rest)) :
    readQuoted (f :: fuel) ('\\' :: cs) =
      (readQuoted fuel rest).map fun p => (c :: p.1, p.2) := by
  have apart : ¬ '\\' = '"' := by decide
  rw [readQuoted, if_neg apart, if_pos rfl, read]
  simp only [bind, Except.bind]
  cases readQuoted fuel rest <;> rfl

theorem readQuoted_writeChar (f c : Char) (fuel rest : List Char) :
    readQuoted (f :: fuel) (writeChar c ++ rest) =
      (readQuoted fuel rest).map fun p => (c :: p.1, p.2) := by
  unfold writeChar
  split
  -- The escapes of one character come first.
  · exact readQuoted_escape f '"' fuel _ rest rfl
  · exact readQuoted_escape f '\\' fuel _ rest rfl
  · exact readQuoted_escape f '\x08' fuel _ rest rfl
  · exact readQuoted_escape f '\t' fuel _ rest rfl
  · exact readQuoted_escape f '\n' fuel _ rest rfl
  · exact readQuoted_escape f '\x0c' fuel _ rest rfl
  · exact readQuoted_escape f '\r' fuel _ rest rfl
  next quote slash _ _ _ _ _ =>
  split
  · next small => exact readQuoted_escape f c fuel _ rest (readEscape_lowerHex c small rest)
  · next plain =>
    rw [List.singleton_append, readQuoted, if_neg quote, if_neg slash, if_neg plain]
    cases readQuoted fuel rest <;> rfl

theorem readQuoted_written (fuel cs rest : List Char) (long : cs.length < fuel.length) :
    readQuoted fuel (cs.flatMap writeChar ++ '"' :: rest) = .ok (cs, rest) := by
  induction cs generalizing fuel with
  | nil =>
    cases fuel with
    | nil => simp at long
    | cons f fuel => simp [readQuoted]
  | cons c cs ih =>
    cases fuel with
    | nil => simp at long
    | cons f fuel =>
      have inner := ih fuel (by simpa using long)
      rw [List.flatMap_cons, List.append_assoc, readQuoted_writeChar, inner]
      rfl

theorem writeChar_ne_nil (c : Char) : writeChar c ≠ [] := by
  unfold writeChar
  split <;> (try split) <;> simp

theorem length_le_flatMap_writeChar (cs : List Char) :
    cs.length ≤ (cs.flatMap writeChar).length := by
  induction cs with
  | nil => exact Nat.le_refl _
  | cons c cs ih =>
    have first := List.length_pos_iff.2 (writeChar_ne_nil c)
    rw [List.flatMap_cons, List.length_append, List.length_cons]
    omega

theorem readString_written (text : String) (rest : List Char) :
    readString (text.toList.flatMap writeChar ++ '"' :: rest) = .ok (text, rest) := by
  have long := length_le_flatMap_writeChar text.toList
  have read := readQuoted_written (text.toList.flatMap writeChar ++ '"' :: rest) text.toList rest
    (by rw [List.length_append, List.length_cons]; omega)
  rw [readString, read]
  simp [bind, Except.bind]

end SourceAtlas.Json
