import Mathlib.Algebra.Group.Nat.Defs
import SourceAtlas.Json.Numeral
set_option autoImplicit false

namespace SourceAtlas.Json

def EndsNumber (rest : List Char) : Prop :=
  ∀ c ∈ rest.head?, c.isDigit = false ∧ c ≠ '.' ∧ c ≠ 'e' ∧ c ≠ 'E'

theorem EndsNumber.startsDigit {rest : List Char} (ends : EndsNumber rest) :
    startsDigit rest = false := by
  cases rest with
  | nil => rfl
  | cons c cs => exact (ends c rfl).1

def Storable (i : Int) : Prop :=
  -(Nat.pow 2 63 : Nat) ≤ i ∧ i ≤ (significandLimit : Nat)

instance (i : Int) : Decidable (Storable i) :=
  inferInstanceAs (Decidable (_ ∧ _))

theorem storable_small {i : Int} (small : i.natAbs ≤ 2 ^ 53) : Storable i := by
  have limit : significandLimit = 18446744073709551615 := by decide
  have bound : (Nat.pow 2 63 : Nat) = 9223372036854775808 := by decide
  exact ⟨by omega, by omega⟩

theorem Storable.natAbs_le {i : Int} (fits : Storable i) : i.natAbs ≤ 2 ^ 64 := by
  have limit : significandLimit = 18446744073709551615 := by decide
  have bound : (Nat.pow 2 63 : Nat) = 9223372036854775808 := by decide
  obtain ⟨low, high⟩ := fits
  omega

def ReadsBack (number : JsonNumber) : Prop :=
  ∀ rest, EndsNumber rest → readNumber (number.write.toList ++ rest) = .ok (number, rest)

theorem le_ofDigitChars (digits : List Char) (start : Nat) :
    start ≤ Nat.ofDigitChars 10 digits start := by
  induction digits generalizing start with
  | nil => exact Nat.le_refl start
  | cons c digits ih =>
    have grows := ih (10 * start + (c.toNat - '0'.toNat))
    rw [Nat.ofDigitChars_cons]
    omega

theorem takeDigits_append (limit start : Nat) (digits rest : List Char)
    (areDigits : ∀ c ∈ digits, c.isDigit = true) (fits : Nat.ofDigitChars 10 digits start ≤ limit)
    (behind : startsDigit rest = false) :
    takeDigits limit start (digits ++ rest) =
      (Nat.ofDigitChars 10 digits start, digits.length, rest) := by
  induction digits generalizing start with
  | nil =>
    cases rest with
    | nil => rfl
    | cons c cs =>
      have other : c.isDigit = false := behind
      simp [takeDigits, other]
  | cons c digits ih =>
    have first : c.isDigit = true := areDigits c (List.mem_cons_self ..)
    rw [Nat.ofDigitChars_cons] at fits ⊢
    have value : 10 * start + (c.toNat - '0'.toNat) = start * 10 + digitValue c := by
      rw [digitValue, Nat.mul_comm]
    rw [value] at fits ⊢
    -- The bound is known of the whole number; so it holds of what is in front.
    have step := le_ofDigitChars digits (start * 10 + digitValue c)
    have inner := ih (start * 10 + digitValue c) (fun d mem => areDigits d (List.mem_cons_of_mem _ mem))
      fits
    rw [List.cons_append, takeDigits, if_pos ⟨first, by omega⟩, inner]
    rfl

theorem takeDigits_le (limit start : Nat) (cs : List Char) (fits : start ≤ limit) :
    (takeDigits limit start cs).1 ≤ limit := by
  induction cs generalizing start with
  | nil => exact fits
  | cons c cs ih =>
    rw [takeDigits]
    split
    · next further => exact ih _ further.2
    · exact fits

theorem toDigits_zero_head (n : Nat) (digits : List Char)
    (written : Nat.toDigits 10 n = '0' :: digits) : n = 0 ∧ digits = [] := by
  induction n using Nat.strongRecOn generalizing digits with
  | _ n ih =>
    by_cases small : n < 10
    · rw [Nat.toDigits_of_lt_base small] at written
      obtain ⟨zero, empty⟩ := List.cons.inj written
      have only : ∀ d, d < 10 → d.digitChar = '0' → d = 0 := by decide
      exact ⟨only n small zero, empty.symm⟩
    · rw [Nat.toDigits_of_base_le (by decide) (by omega)] at written
      -- The digits in front begin with zero as well, so they are a zero, and `n` is small.
      cases front : Nat.toDigits 10 (n / 10) with
      | nil => exact absurd front Nat.toDigits_ne_nil
      | cons d more =>
        rw [front, List.cons_append] at written
        obtain ⟨rfl, -⟩ := List.cons.inj written
        have zero := (ih (n / 10) (by omega) more front).1
        omega

theorem readMagnitude_toDigits (negative : Bool) (n : Nat) (fits : n ≤ significandLimit)
    (rest : List Char) (ends : EndsNumber rest) :
    readMagnitude negative (Nat.toDigits 10 n ++ rest) = .ok (ofSignificand negative n, rest) := by
  have areDigits : ∀ c ∈ Nat.toDigits 10 n, c.isDigit = true := fun c mem =>
    Nat.isDigit_of_mem_toDigits (by decide) (by decide) mem
  have value : Nat.ofDigitChars 10 (Nat.toDigits 10 n) 0 = n :=
    Nat.ofDigitChars_toDigits (by decide) (by decide)
  have taken := takeDigits_append significandLimit 0 (Nat.toDigits 10 n) rest areDigits
    (by rw [value]; exact fits) ends.startsDigit
  rw [value] at taken
  have ended : rest.takeWhile Char.isDigit = [] ∧ rest.dropWhile Char.isDigit = rest := by
    cases rest with
    | nil => exact ⟨rfl, rfl⟩
    | cons c cs => simp [(ends c rfl).1]
  cases written : Nat.toDigits 10 n with
  | nil => exact absurd written Nat.toDigits_ne_nil
  | cons d digits =>
    rw [written] at taken areDigits
    have first : d.isDigit = true := areDigits d (List.mem_cons_self ..)
    -- A zero in front of further digits would be refused.
    have plain : ¬ (d = '0' ∧ startsDigit (digits ++ rest) = true) := by
      rintro ⟨rfl, further⟩
      rw [(toDigits_zero_head n digits written).2, List.nil_append, ends.startsDigit] at further
      cases further
    rw [List.cons_append, readMagnitude, if_neg plain, if_pos first, ← List.cons_append, taken]
    simp only [ended]
    cases rest with
    | nil => simp
    | cons c cs =>
      obtain ⟨-, point, small, large⟩ := ends c rfl
      split
      · next same =>
        obtain ⟨rfl, -⟩ := List.cons.inj same
        exact absurd rfl point
      · simp [small, large]

theorem integer_write_toList (i : Int) : (JsonNumber.integer i).write.toList =
    if i < 0 then '-' :: Nat.toDigits 10 i.natAbs else Nat.toDigits 10 i.natAbs := by
  cases i with
  | ofNat n =>
    have plain : ¬ (Int.ofNat n < 0) := by simp
    rw [if_neg plain]
    exact Nat.toList_repr
  | negSucc n =>
    have sign : Int.negSucc n < 0 := Int.negSucc_lt_zero n
    rw [if_pos sign]
    change ("-" ++ (n + 1).repr).toList = _
    simp

theorem readsBack_integer {i : Int} (fits : Storable i) : ReadsBack (.integer i) := by
  intro rest ends
  obtain ⟨low, high⟩ := fits
  have limit : significandLimit = 18446744073709551615 := by decide
  have bound : (Nat.pow 2 63 : Nat) = 9223372036854775808 := by decide
  rw [integer_write_toList]
  split
  · next sign =>
    have fits : ¬ (i.natAbs = 0 ∨ Nat.pow 2 63 < i.natAbs) := by omega
    have value : -(i.natAbs : Int) = i := by omega
    rw [List.cons_append, readNumber, readMagnitude_toDigits true _ (by omega) rest ends,
      ofSignificand, if_neg (by decide), if_neg fits, value]
  · next plain =>
    have read := readMagnitude_toDigits false i.natAbs (by omega) rest ends
    have value : (i.natAbs : Int) = i := by omega
    rw [ofSignificand, Bool.not_false, if_pos rfl, value] at read
    cases written : Nat.toDigits 10 i.natAbs with
    | nil => exact absurd written Nat.toDigits_ne_nil
    | cons d digits =>
      rw [written] at read
      have digit : d.isDigit = true :=
        Nat.isDigit_of_mem_toDigits (by decide) (by decide) (written ▸ List.mem_cons_self ..)
      rw [readNumber.eq_2]
      · exact read
      · intro tail same
        obtain ⟨rfl, -⟩ := List.cons.inj same
        cases digit

theorem ofSignificand_storable {negative : Bool} {n : Nat} {i : Int} (fits : n ≤ significandLimit)
    (same : ofSignificand negative n = .integer i) : Storable i := by
  have limit : significandLimit = 18446744073709551615 := by decide
  have bound : (Nat.pow 2 63 : Nat) = 9223372036854775808 := by decide
  unfold ofSignificand at same
  split at same
  · obtain rfl := JsonNumber.integer.inj same
    exact ⟨by omega, by omega⟩
  · split at same
    · cases same
    · next small =>
      obtain rfl := JsonNumber.integer.inj same
      exact ⟨by omega, by omega⟩

theorem readScaled_real {negative : Bool} {significand : Nat} {exponent : Int} {cs rest : List Char}
    {number : JsonNumber} (read : readScaled negative significand exponent cs = .ok (number, rest)) :
    ∃ x, number = .real x := by
  rw [readScaled] at read
  split at read
  · obtain ⟨rfl, -⟩ := Prod.mk.inj (Except.ok.inj read)
    exact ⟨_, rfl⟩
  · cases read

theorem readExponent_real {negative : Bool} {significand : Nat} {exponent : Int}
    {cs rest : List Char} {number : JsonNumber}
    (read : readExponent negative significand exponent cs = .ok (number, rest)) :
    ∃ x, number = .real x := by
  rw [readExponent] at read
  cases sign : takeSign cs with
  | mk down digits =>
    simp only [sign] at read
    split at read
    · cases read
    split at read
    · split at read
      · split at read
        · cases read
        · obtain ⟨rfl, -⟩ := Prod.mk.inj (Except.ok.inj read)
          exact ⟨_, rfl⟩
      · exact readScaled_real read
    · cases read

theorem readScale_real {negative : Bool} {significand : Nat} {exponent : Int}
    {cs rest : List Char} {number : JsonNumber}
    (read : readScale negative significand exponent cs = .ok (number, rest)) :
    ∃ x, number = .real x := by
  unfold readScale at read
  split at read
  · exact readExponent_real read
  · exact readExponent_real read
  · exact readScaled_real read

theorem readFraction_real {negative : Bool} {significand : Nat} {exponent : Int}
    {cs rest : List Char} {number : JsonNumber}
    (read : readFraction negative significand exponent cs = .ok (number, rest)) :
    ∃ x, number = .real x := by
  unfold readFraction at read
  split at read
  · exact readScale_real read
  · split at read <;> cases read

theorem readMagnitude_storable {negative : Bool} {cs rest : List Char} {i : Int}
    (read : readMagnitude negative cs = .ok (.integer i, rest)) : Storable i := by
  unfold readMagnitude at read
  split at read
  · cases read
  next c tail =>
  split at read
  · cases read
  split at read
  · have fits := takeDigits_le significandLimit 0 (c :: tail) (Nat.zero_le _)
    simp only at read
    split at read
    · obtain ⟨x, never⟩ := readFraction_real read
      cases never
    · split at read
      · obtain ⟨same, -⟩ := Prod.mk.inj (Except.ok.inj read)
        exact ofSignificand_storable fits same
      · obtain ⟨x, never⟩ := readScale_real read
        cases never
  · cases read

theorem readNumber_storable {cs rest : List Char} {i : Int}
    (read : readNumber cs = .ok (.integer i, rest)) : Storable i := by
  unfold readNumber at read
  split at read
  · exact readMagnitude_storable read
  · exact readMagnitude_storable read

end SourceAtlas.Json
