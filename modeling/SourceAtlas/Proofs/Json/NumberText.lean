import Mathlib.Data.List.TakeWhile
import SourceAtlas.Proofs.Json.Grammar
import SourceAtlas.Proofs.Json.Lockstep
import SourceAtlas.Proofs.Json.Numeral
set_option autoImplicit false

namespace SourceAtlas.Json

variable {α : Type}

theorem digits_split (cs : List Char) : ∃ digits tail, cs = digits ++ tail ∧
    (∀ c ∈ digits, c.isDigit = true) ∧ startsDigit tail = false := by
  refine ⟨cs.takeWhile Char.isDigit, cs.dropWhile Char.isDigit,
    (List.takeWhile_append_dropWhile ..).symm, fun c mem => List.mem_takeWhile_imp mem, ?_⟩
  cases behind : cs.dropWhile Char.isDigit with
  | nil => rfl
  | cons c tail =>
    have stop := List.head?_dropWhile_not Char.isDigit cs
    rw [behind] at stop
    simpa [startsDigit] using stop

theorem dropDigits_append {digits tail : List Char} (areDigits : ∀ c ∈ digits, c.isDigit = true)
    (ended : startsDigit tail = false) : (digits ++ tail).dropWhile Char.isDigit = tail := by
  rw [List.dropWhile_append_of_pos areDigits]
  cases tail with
  | nil => rfl
  | cons c tail =>
    have other : c.isDigit = false := ended
    simp [other]

theorem keepDigits_append {digits tail : List Char} (areDigits : ∀ c ∈ digits, c.isDigit = true)
    (ended : startsDigit tail = false) : (digits ++ tail).takeWhile Char.isDigit = digits := by
  rw [List.takeWhile_append_of_pos areDigits]
  cases tail with
  | nil => simp
  | cons c tail =>
    have other : c.isDigit = false := ended
    simp [other]

theorem takeDigits_tail (limit start : Nat) {digits tail : List Char}
    (areDigits : ∀ c ∈ digits, c.isDigit = true) (ended : startsDigit tail = false) :
    takeDigits limit start (digits ++ tail) = ((takeDigits limit start digits).1,
      (takeDigits limit start digits).2.1, (takeDigits limit start digits).2.2 ++ tail) := by
  induction digits generalizing start with
  | nil =>
    cases tail with
    | nil => rfl
    | cons c tail =>
      have other : c.isDigit = false := ended
      simp [takeDigits, other]
  | cons c digits ih =>
    have rest := ih (start * 10 + digitValue c) fun d mem => areDigits d (List.mem_cons_of_mem _ mem)
    rw [List.cons_append, takeDigits, takeDigits]
    split
    · rw [rest]
    · rfl

theorem takeDigits_left (limit start : Nat) {digits : List Char}
    (areDigits : ∀ c ∈ digits, c.isDigit = true) :
    ∀ c ∈ (takeDigits limit start digits).2.2, c.isDigit = true := by
  induction digits generalizing start with
  | nil => simp [takeDigits]
  | cons c digits ih =>
    rw [takeDigits]
    split
    · exact ih _ fun d mem => areDigits d (List.mem_cons_of_mem _ mem)
    · exact areDigits

theorem startsDigit_append {digits tail : List Char} (areDigits : ∀ c ∈ digits, c.isDigit = true)
    (ended : startsDigit tail = false) : startsDigit (digits ++ tail) = !digits.isEmpty := by
  cases digits with
  | nil => exact ended
  | cons c digits => exact areDigits c (List.mem_cons_self ..)

theorem isWhole_of_digits {c : Char} {digits tail : List Char} (digit : c.isDigit = true)
    (areDigits : ∀ c ∈ digits, c.isDigit = true)
    (plain : ¬ (c = '0' ∧ startsDigit (digits ++ tail) = true)) : IsWhole (c :: digits) := by
  refine ⟨⟨List.cons_ne_nil _ _, by simpa [digit] using areDigits⟩, fun zero => ?_⟩
  obtain rfl : c = '0' := by simpa using zero
  cases digits with
  | nil => rfl
  | cons d digits => exact absurd ⟨rfl, areDigits d (List.mem_cons_self ..)⟩ plain

theorem IsWhole.plain {c : Char} {digits tail : List Char} (isWhole : IsWhole (c :: digits))
    (ended : startsDigit tail = false) : ¬ (c = '0' ∧ startsDigit (digits ++ tail) = true) := by
  rintro ⟨rfl, further⟩
  obtain ⟨-, rfl⟩ := List.cons.inj (isWhole.2 rfl)
  rw [List.nil_append, ended] at further
  cases further

theorem EndsNumber.noPoint {rest : List Char} (ends : EndsNumber rest) (tail : List Char) :
    rest ≠ '.' :: tail := by
  rintro rfl
  exact (ends '.' rfl).2.1 rfl

theorem IsExponent.noPoint {cs : List Char} (exponent : IsExponent cs) (other tail : List Char) :
    cs ++ other ≠ '.' :: tail := by
  obtain ⟨letter, sign, digits, rfl, rfl | rfl, -⟩ := exponent
  · rintro ⟨⟩
  · rintro ⟨⟩

/-- Whether a reader takes only texts of a language, each of them also where something else comes
behind it, if that does not go on with a number. -/
def Confined (L : Language) (read : Reader α) : Prop :=
  ∀ cs a rest, read cs = .ok (a, rest) → ∃ front, cs = front ++ rest ∧ L front ∧
    ∀ other, EndsNumber other → read (front ++ other) = .ok (a, other)

theorem readScaled_confined (negative : Bool) (significand : Nat) (exponent : Int) :
    Confined (fun cs => cs = []) (readScaled negative significand exponent) := by
  intro cs a rest read
  rw [readScaled] at read
  split at read
  · next x found =>
    obtain ⟨rfl, rfl⟩ := Prod.mk.inj (Except.ok.inj read)
    exact ⟨[], rfl, rfl, fun other _ => by rw [readScaled, found]; rfl⟩
  · cases read

theorem takeSign_split (cs : List Char) : ∃ sign, IsSign sign ∧ cs = sign ++ (takeSign cs).2 ∧
    (takeSign cs).1 = (sign == ['-']) := by
  unfold takeSign
  split
  · exact ⟨['+'], .inr (.inl rfl), rfl, rfl⟩
  · exact ⟨['-'], .inr (.inr rfl), rfl, rfl⟩
  · exact ⟨[], .inl rfl, rfl, rfl⟩

theorem takeSign_digit {sign : List Char} (isSign : IsSign sign) {c : Char}
    (digit : c.isDigit = true) (cs : List Char) :
    takeSign (sign ++ c :: cs) = (sign == ['-'], c :: cs) := by
  have plus : c ≠ '+' := by
    rintro rfl
    cases digit
  have minus : c ≠ '-' := by
    rintro rfl
    cases digit
  rcases isSign with rfl | rfl | rfl
  · simp [takeSign, plus, minus]
  · rfl
  · rfl

def behindExponent (negative : Bool) (significand : Nat) (exponent : Int) (down : Bool)
    (taken : Nat × Nat × List Char) (cs : List Char) : Except Fault (JsonNumber × List Char) :=
  if taken.2.2 = [] then
    readScaled negative significand (if down then exponent - taken.1 else exponent + taken.1) cs
  else if significand ≠ 0 ∧ !down then stopAt .numberOutOfRange ((taken.2.2 ++ cs).drop 1)
  else .ok (.real (signed negative Number.Binary64.zero), cs)

theorem behindExponent_confined (negative : Bool) (significand : Nat) (exponent : Int) (down : Bool)
    (taken : Nat × Nat × List Char) :
    Confined (fun cs => cs = []) (behindExponent negative significand exponent down taken) := by
  intro cs a rest read
  unfold behindExponent at read
  split at read
  · next whole =>
    obtain ⟨front, same, nothing, again⟩ := readScaled_confined _ _ _ _ _ _ read
    refine ⟨front, same, nothing, fun other ends => ?_⟩
    rw [behindExponent, if_pos whole]
    exact again other ends
  next long =>
  split at read
  · cases read
  next small =>
  obtain ⟨rfl, rfl⟩ := Prod.mk.inj (Except.ok.inj read)
  refine ⟨[], rfl, rfl, fun other _ => ?_⟩
  rw [List.nil_append, behindExponent, if_neg long, if_neg small]

theorem readExponent_digits (negative : Bool) (significand : Nat) (exponent : Int)
    {sign digits tail : List Char} (isSign : IsSign sign) {c : Char} (digit : c.isDigit = true)
    (areDigits : ∀ c ∈ digits, c.isDigit = true) (ended : startsDigit tail = false) :
    readExponent negative significand exponent (sign ++ c :: (digits ++ tail)) =
      behindExponent negative significand exponent (sign == ['-'])
        (takeDigits exponentLimit (digitValue c) digits) tail := by
  have left := takeDigits_left exponentLimit (digitValue c) areDigits
  rw [readExponent, takeSign_digit isSign digit, behindExponent]
  simp only [digit, if_true, takeDigits_tail _ _ areDigits ended, startsDigit_append left ended,
    dropDigits_append left ended]
  cases (takeDigits exponentLimit (digitValue c) digits).2.2 with
  | nil => rfl
  | cons d more => rfl

theorem readExponent_confined (negative : Bool) (significand : Nat) (exponent : Int) :
    Confined (fun cs => ∃ sign digits, cs = sign ++ digits ∧ IsSign sign ∧ IsDigits digits)
      (readExponent negative significand exponent) := by
  intro cs a rest read
  obtain ⟨sign, isSign, split, down⟩ := takeSign_split cs
  cases behind : (takeSign cs).2 with
  | nil =>
    rw [readExponent] at read
    simp [behind, stopAt] at read
  | cons c more =>
    by_cases digit : c.isDigit = true
    swap
    · rw [readExponent] at read
      simp [behind, digit, stopOn] at read
    obtain ⟨digits, tail, rfl, areDigits, ended⟩ := digits_split more
    rw [behind] at split
    rw [split, readExponent_digits _ _ _ isSign digit areDigits ended] at read
    have isDigits : IsDigits (c :: digits) := ⟨List.cons_ne_nil _ _, by simpa [digit] using areDigits⟩
    obtain ⟨_, rfl, rfl, again⟩ := behindExponent_confined _ _ _ _ _ _ _ _ read
    refine ⟨sign ++ c :: digits, by simp [split], ⟨_, _, rfl, isSign, isDigits⟩, ?_⟩
    intro other ends
    have shape : sign ++ c :: digits ++ other = sign ++ c :: (digits ++ other) := by simp
    rw [shape, readExponent_digits _ _ _ isSign digit areDigits ends.startsDigit]
    exact again other ends

theorem IsExponent.startsDigit {cs : List Char} (exponent : IsExponent cs) (other : List Char) :
    startsDigit (cs ++ other) = false := by
  obtain ⟨letter, sign, digits, rfl, rfl | rfl, -⟩ := exponent
  · rfl
  · rfl

theorem readScale_other (negative : Bool) (significand : Nat) (exponent : Int) {cs : List Char}
    (ends : EndsNumber cs) : readScale negative significand exponent cs =
      readScaled negative significand exponent cs := by
  unfold readScale
  split
  · exact absurd rfl (ends _ rfl).2.2.1
  · exact absurd rfl (ends _ rfl).2.2.2
  · rfl

theorem readScale_exponent {negative : Bool} {significand : Nat} {exponent : Int} {letter : Char}
    {cs rest : List Char} {a : JsonNumber} (either : letter = 'e' ∨ letter = 'E')
    (read : readScale negative significand exponent (letter :: cs) = .ok (a, rest)) :
    ∃ front, letter :: cs = front ++ rest ∧ IsExponent front ∧ ∀ other, EndsNumber other →
      readScale negative significand exponent (front ++ other) = .ok (a, other) := by
  have same : ∀ cs, readScale negative significand exponent (letter :: cs) =
      readExponent negative significand exponent cs := by
    rcases either with rfl | rfl <;> exact fun _ => rfl
  rw [same] at read
  obtain ⟨_, rfl, ⟨sign, digits, rfl, isSign, isDigits⟩, again⟩ :=
    readExponent_confined _ _ _ _ _ _ read
  refine ⟨letter :: (sign ++ digits), rfl, ⟨_, _, _, rfl, either, isSign, isDigits⟩, ?_⟩
  intro other ends
  rw [List.cons_append, same]
  exact again other ends

theorem readScale_confined (negative : Bool) (significand : Nat) (exponent : Int) :
    Confined (fun cs => cs = [] ∨ IsExponent cs) (readScale negative significand exponent) := by
  intro cs a rest read
  have exponents : ∀ letter more, (letter = 'e' ∨ letter = 'E') → cs = letter :: more →
      ∃ front, cs = front ++ rest ∧ (front = [] ∨ IsExponent front) ∧
        ∀ other, EndsNumber other →
          readScale negative significand exponent (front ++ other) = .ok (a, other) := by
    rintro letter more either rfl
    obtain ⟨front, same, isExponent, again⟩ := readScale_exponent either read
    exact ⟨front, same, .inr isExponent, again⟩
  have taken := read
  unfold readScale at taken
  split at taken
  · exact exponents 'e' _ (.inl rfl) rfl
  · exact exponents 'E' _ (.inr rfl) rfl
  · obtain ⟨front, same, rfl, again⟩ := readScaled_confined _ _ _ _ _ _ taken
    refine ⟨[], same, .inl rfl, fun other ends => ?_⟩
    rw [List.nil_append, readScale_other _ _ _ ends]
    exact again other ends

theorem readFraction_digits (negative : Bool) (significand : Nat) (exponent : Int)
    {digits tail : List Char} (isDigits : IsDigits digits) (ended : startsDigit tail = false) :
    readFraction negative significand exponent (digits ++ tail) =
      readScale negative (takeDigits significandLimit significand digits).1
        (exponent - (takeDigits significandLimit significand digits).2.1) tail := by
  obtain ⟨nonempty, areDigits⟩ := isDigits
  have left := takeDigits_left significandLimit significand areDigits
  have starts : startsDigit (digits ++ tail) = true := by
    rw [startsDigit_append areDigits ended, List.isEmpty_eq_false_iff.2 nonempty]
    rfl
  unfold readFraction
  rw [if_pos starts]
  simp only [takeDigits_tail _ _ areDigits ended, dropDigits_append left ended]

theorem readFraction_confined (negative : Bool) (significand : Nat) (exponent : Int) :
    Confined (fun cs => ∃ digits exponent, cs = digits ++ exponent ∧ IsDigits digits ∧
      (exponent = [] ∨ IsExponent exponent)) (readFraction negative significand exponent) := by
  intro cs a rest read
  obtain ⟨digits, tail, rfl, areDigits, ended⟩ := digits_split cs
  by_cases empty : digits = []
  · subst empty
    unfold readFraction at read
    rw [if_neg (by simp [ended])] at read
    split at read <;> cases read
  have isDigits : IsDigits digits := ⟨empty, areDigits⟩
  rw [readFraction_digits _ _ _ isDigits ended] at read
  obtain ⟨front, rfl, scale, again⟩ := readScale_confined _ _ _ _ _ _ read
  refine ⟨digits ++ front, by simp, ⟨digits, front, rfl, isDigits, scale⟩, fun other ends => ?_⟩
  have ended' : startsDigit (front ++ other) = false := by
    rcases scale with rfl | isExponent
    · exact ends.startsDigit
    · exact isExponent.startsDigit other
  rw [List.append_assoc, readFraction_digits _ _ _ isDigits ended']
  exact again other ends

theorem IsScale.startsDigit {scale other : List Char} (isScale : IsScale scale)
    (ends : EndsNumber other) : startsDigit (scale ++ other) = false := by
  obtain ⟨fraction, exponent, rfl, rfl | ⟨digits, rfl, -⟩, rfl | isExponent⟩ := isScale
  · exact ends.startsDigit
  · exact isExponent.startsDigit other
  · rfl
  · rfl

theorem IsMagnitude.noSign {cs : List Char} (isMagnitude : IsMagnitude cs)
    (other tail : List Char) : cs ++ other ≠ '-' :: tail := by
  intro same
  obtain ⟨whole, scale, rfl, ⟨⟨nonempty, areDigits⟩, -⟩, -⟩ := isMagnitude
  obtain ⟨c, digits, rfl⟩ := List.exists_cons_of_ne_nil nonempty
  obtain ⟨rfl, -⟩ := List.cons.inj same
  exact absurd (areDigits '-' (List.mem_cons_self ..)) (by decide)

def readBehind (negative : Bool) (significand : Nat) (left cs : List Char) :
    Except Fault (JsonNumber × List Char) :=
  match cs with
  | '.' :: rest => readFraction negative significand left.length rest
  | rest =>
    if left = [] ∧ rest.head? ≠ some 'e' ∧ rest.head? ≠ some 'E' then
      .ok (ofSignificand negative significand, rest)
    else readScale negative significand left.length rest

theorem readMagnitude_digits (negative : Bool) {whole tail : List Char} (isWhole : IsWhole whole)
    (ended : startsDigit tail = false) :
    readMagnitude negative (whole ++ tail) =
      readBehind negative (takeDigits significandLimit 0 whole).1
        (takeDigits significandLimit 0 whole).2.2 tail := by
  obtain ⟨c, digits, rfl⟩ := List.exists_cons_of_ne_nil isWhole.1.1
  have areDigits := isWhole.1.2
  have left := takeDigits_left significandLimit 0 areDigits
  have first : c.isDigit = true := areDigits c (List.mem_cons_self ..)
  have plain := isWhole.plain ended
  have taken := takeDigits_tail significandLimit 0 areDigits ended
  rw [List.cons_append] at taken ⊢
  rw [readMagnitude, if_neg plain, if_pos first, taken]
  simp only [dropDigits_append left ended, keepDigits_append left ended]
  rfl

theorem readBehind_integer (negative : Bool) (significand : Nat) {cs : List Char}
    (ends : EndsNumber cs) :
    readBehind negative significand [] cs = .ok (ofSignificand negative significand, cs) := by
  rw [readBehind.eq_2 _ _ _ _ ends.noPoint, if_pos]
  exact ⟨rfl, fun e => (ends 'e' e).2.2.1 rfl, fun e => (ends 'E' e).2.2.2 rfl⟩

theorem readBehind_scale (negative : Bool) (significand : Nat) (left : List Char)
    {scale other : List Char} (isScale : scale = [] ∧ left ≠ [] ∨ IsExponent scale)
    (ends : EndsNumber other) : readBehind negative significand left (scale ++ other) =
      readScale negative significand left.length (scale ++ other) := by
  rcases isScale with ⟨rfl, long⟩ | isExponent
  · rw [List.nil_append, readBehind.eq_2 _ _ _ _ ends.noPoint, if_neg fun whole => long whole.1]
  · rw [readBehind.eq_2 _ _ _ _ (isExponent.noPoint other), if_neg]
    obtain ⟨letter, sign, digits, rfl, rfl | rfl, -⟩ := isExponent
    · exact fun whole => whole.2.1 rfl
    · exact fun whole => whole.2.2 rfl

theorem readBehind_confined (negative : Bool) (significand : Nat) (left : List Char) :
    Confined IsScale (readBehind negative significand left) := by
  intro cs a rest read
  unfold readBehind at read
  split at read
  · obtain ⟨_, rfl, ⟨digits, exponent, rfl, isDigits, scale⟩, again⟩ :=
      readFraction_confined _ _ _ _ _ _ read
    refine ⟨'.' :: (digits ++ exponent), rfl,
      ⟨'.' :: digits, exponent, rfl, .inr ⟨digits, rfl, isDigits⟩, scale⟩, fun other ends => ?_⟩
    exact again other ends
  split at read
  · next whole =>
    obtain ⟨rfl, rfl⟩ := Prod.mk.inj (Except.ok.inj read)
    obtain rfl := whole.1
    exact ⟨[], rfl, ⟨[], [], rfl, .inl rfl, .inl rfl⟩, fun other ends =>
      readBehind_integer negative significand ends⟩
  next more =>
  -- An exponent follows, or else nothing, and then only because there were more digits than fit.
  have taken : ∃ front, cs = front ++ rest ∧ (front = [] ∧ left ≠ [] ∨ IsExponent front) ∧
      ∀ other, EndsNumber other →
        readScale negative significand left.length (front ++ other) = .ok (a, other) := by
    by_cases empty : left = []
    · -- An integer would have been read, were it not for the letter of an exponent.
      have letter : cs.head? = some 'e' ∨ cs.head? = some 'E' := by
        by_contra other
        rw [not_or] at other
        exact more ⟨empty, other.1, other.2⟩
      obtain ⟨c, tail, rfl, either⟩ : ∃ c tail, cs = c :: tail ∧ (c = 'e' ∨ c = 'E') := by
        cases cs with
        | nil => simp at letter
        | cons c tail => exact ⟨c, tail, rfl, by simpa using letter⟩
      obtain ⟨front, same, isExponent, again⟩ := readScale_exponent either read
      exact ⟨front, same, .inr isExponent, again⟩
    · obtain ⟨front, same, scale, again⟩ := readScale_confined _ _ _ _ _ _ read
      exact ⟨front, same, scale.imp (fun nothing => ⟨nothing, empty⟩) id, again⟩
  obtain ⟨front, rfl, scale, again⟩ := taken
  refine ⟨front, rfl, ⟨[], front, rfl, .inl rfl, scale.imp And.left id⟩, fun other ends => ?_⟩
  rw [readBehind_scale negative significand left scale ends]
  exact again other ends

theorem readMagnitude_head {negative : Bool} {cs rest : List Char} {a : JsonNumber}
    (read : readMagnitude negative cs = .ok (a, rest)) : ∃ c more, cs = c :: more ∧
      c.isDigit = true ∧ ¬ (c = '0' ∧ startsDigit more = true) := by
  unfold readMagnitude at read
  split at read
  · cases read
  next c more =>
  split at read
  · cases read
  next plain =>
  split at read
  · next digit => exact ⟨c, more, rfl, digit, plain⟩
  · cases read

theorem readMagnitude_confined (negative : Bool) :
    Confined IsMagnitude (readMagnitude negative) := by
  intro cs a rest read
  obtain ⟨c, more, rfl, digit, plain⟩ := readMagnitude_head read
  obtain ⟨digits, tail, rfl, areDigits, ended⟩ := digits_split more
  have isWhole := isWhole_of_digits digit areDigits plain
  rw [← List.cons_append] at read
  rw [readMagnitude_digits negative isWhole ended] at read
  obtain ⟨front, rfl, scale, again⟩ := readBehind_confined _ _ _ _ _ _ read
  refine ⟨c :: digits ++ front, by simp, ⟨_, front, rfl, isWhole, scale⟩, fun other ends => ?_⟩
  rw [List.append_assoc, readMagnitude_digits negative isWhole (scale.startsDigit ends)]
  exact again other ends

theorem readNumber_confined : Confined IsNumeral readNumber := by
  intro cs a rest read
  unfold readNumber at read
  split at read
  · obtain ⟨front, rfl, isMagnitude, again⟩ := readMagnitude_confined _ _ _ _ read
    refine ⟨'-' :: front, rfl, ⟨['-'], front, rfl, .inr rfl, isMagnitude⟩, fun other ends => ?_⟩
    exact again other ends
  · next plain =>
    obtain ⟨front, rfl, isMagnitude, again⟩ := readMagnitude_confined _ _ _ _ read
    refine ⟨front, rfl, ⟨[], front, rfl, .inl rfl, isMagnitude⟩, fun other ends => ?_⟩
    rw [readNumber.eq_2]
    · exact again other ends
    · exact fun tail same => isMagnitude.noSign other tail same

def Exhausts (result : Except Fault (JsonNumber × List Char)) (rest : List Char) : Prop :=
  (∃ number, result = .ok (number, rest)) ∨
    ∃ fault, result = .error fault ∧ fault.cause = .numberOutOfRange

theorem readScaled_exhausts (negative : Bool) (significand : Nat) (exponent : Int)
    (rest : List Char) : Exhausts (readScaled negative significand exponent rest) rest := by
  unfold readScaled
  split
  · exact .inl ⟨_, rfl⟩
  · exact .inr ⟨_, rfl, rfl⟩

theorem behindExponent_exhausts (negative : Bool) (significand : Nat) (exponent : Int) (down : Bool)
    (taken : Nat × Nat × List Char) (rest : List Char) :
    Exhausts (behindExponent negative significand exponent down taken rest) rest := by
  unfold behindExponent
  split
  · exact readScaled_exhausts ..
  split
  · exact .inr ⟨_, rfl, rfl⟩
  · exact .inl ⟨_, rfl⟩

theorem readScale_exhausts (negative : Bool) (significand : Nat) (start : Int)
    {exponent rest : List Char} (isExponent : exponent = [] ∨ IsExponent exponent)
    (ends : EndsNumber rest) :
    Exhausts (readScale negative significand start (exponent ++ rest)) rest := by
  rcases isExponent with rfl | ⟨letter, sign, digits, rfl, either, isSign, nonempty, areDigits⟩
  · rw [List.nil_append, readScale_other _ _ _ ends]
    exact readScaled_exhausts ..
  · obtain ⟨c, digits, rfl⟩ := List.exists_cons_of_ne_nil nonempty
    have digit := areDigits c (List.mem_cons_self ..)
    have behind : ∀ d ∈ digits, d.isDigit = true := fun d mem => areDigits d (List.mem_cons_of_mem _ mem)
    have same : readScale negative significand start (letter :: (sign ++ c :: digits) ++ rest) =
        readExponent negative significand start (sign ++ c :: (digits ++ rest)) := by
      rcases either with rfl | rfl
      · simp [readScale]
      · simp [readScale]
    rw [same, readExponent_digits _ _ _ isSign digit behind ends.startsDigit]
    exact behindExponent_exhausts ..

theorem readBehind_exhausts (negative : Bool) (significand : Nat) (left : List Char)
    {scale rest : List Char} (isScale : IsScale scale) (ends : EndsNumber rest) :
    Exhausts (readBehind negative significand left (scale ++ rest)) rest := by
  obtain ⟨fraction, exponent, rfl, rfl | ⟨digits, rfl, isDigits⟩, isExponent⟩ := isScale
  · rw [List.nil_append]
    by_cases whole : left = [] ∧ exponent = []
    · obtain ⟨rfl, rfl⟩ := whole
      exact .inl ⟨_, readBehind_integer negative significand ends⟩
    · have scale : exponent = [] ∧ left ≠ [] ∨ IsExponent exponent :=
        isExponent.imp (fun empty => ⟨empty, fun taken => whole ⟨taken, empty⟩⟩) id
      rw [readBehind_scale negative significand left scale ends]
      exact readScale_exhausts _ _ _ isExponent ends
  · have ended : startsDigit (exponent ++ rest) = false :=
      IsScale.startsDigit ⟨[], exponent, rfl, .inl rfl, isExponent⟩ ends
    rw [List.append_assoc, List.cons_append, readBehind,
      readFraction_digits _ _ _ isDigits ended]
    exact readScale_exhausts _ _ _ isExponent ends

theorem readNumber_exhausts {cs rest : List Char} (isNumeral : IsNumeral cs)
    (ends : EndsNumber rest) : Exhausts (readNumber (cs ++ rest)) rest := by
  obtain ⟨sign, magnitude, rfl, isSign, isMagnitude⟩ := isNumeral
  have unsigned : ∀ negative, Exhausts (readMagnitude negative (magnitude ++ rest)) rest := by
    intro negative
    obtain ⟨whole, scale, rfl, isWhole, isScale⟩ := isMagnitude
    rw [List.append_assoc, readMagnitude_digits negative isWhole (isScale.startsDigit ends)]
    exact readBehind_exhausts _ _ _ isScale ends
  rcases isSign with rfl | rfl
  · rw [List.nil_append, readNumber.eq_2 _ fun tail => isMagnitude.noSign rest tail]
    exact unsigned false
  · exact unsigned true

theorem IsInRange.read {cs : List Char} (inRange : IsInRange cs) : ∃ number, ∀ rest,
    EndsNumber rest → readNumber (cs ++ rest) = .ok (number, rest) := by
  obtain ⟨isNumeral, bounded⟩ := inRange
  have whole := @readNumber_exhausts _ [] isNumeral fun c never => by cases never
  rw [List.append_nil] at whole
  obtain ⟨number, read⟩ | ⟨fault, read, large⟩ := whole
  · obtain ⟨front, same, -, again⟩ := readNumber_confined _ _ _ read
    rw [List.append_nil] at same
    exact ⟨number, same ▸ again⟩
  · exact absurd large (bounded fault read)

theorem inRange_of_readNumber {cs rest : List Char} {number : JsonNumber}
    (read : readNumber cs = .ok (number, rest)) : ∃ front, cs = front ++ rest ∧
      IsInRange front := by
  obtain ⟨front, same, isNumeral, again⟩ := readNumber_confined _ _ _ read
  have alone := again [] fun c never => by cases never
  rw [List.append_nil] at alone
  refine ⟨front, same, isNumeral, fun fault refused => ?_⟩
  rw [alone] at refused
  cases refused

theorem skipExponent_sound {cs rest : List Char} (read : skipExponent cs = .ok rest) :
    ∃ sign digits, cs = sign ++ (digits ++ rest) ∧ IsSign sign ∧ IsDigits digits := by
  obtain ⟨sign, isSign, split, -⟩ := takeSign_split cs
  obtain ⟨digits, tail, cut, areDigits, ended⟩ := digits_split (takeSign cs).2
  rw [skipExponent, cut, startsDigit_append areDigits ended, dropDigits_append areDigits ended] at read
  cases digits with
  | nil => cases read
  | cons c digits =>
    obtain rfl := Except.ok.inj read
    exact ⟨sign, c :: digits, by rw [← cut, ← split], isSign, List.cons_ne_nil _ _, areDigits⟩

theorem skipExponent_complete {sign digits rest : List Char} (isSign : IsSign sign)
    (isDigits : IsDigits digits) (ended : startsDigit rest = false) :
    skipExponent (sign ++ (digits ++ rest)) = .ok rest := by
  obtain ⟨nonempty, areDigits⟩ := isDigits
  obtain ⟨c, more, rfl⟩ := List.exists_cons_of_ne_nil nonempty
  have digit := areDigits c (List.mem_cons_self ..)
  rw [skipExponent, List.cons_append, takeSign_digit isSign digit, ← List.cons_append,
    startsDigit_append areDigits ended, dropDigits_append areDigits ended]
  rfl

def skipScale (cs : List Char) : Except Fault (List Char) :=
  match cs with
  | 'e' :: rest | 'E' :: rest => skipExponent rest
  | rest => .ok rest

def skipBehind (cs : List Char) : Except Fault (List Char) :=
  match cs with
  | '.' :: rest =>
    if startsDigit rest then skipScale (rest.dropWhile Char.isDigit)
    else stopOn .invalidNumber rest
  | rest => skipScale rest

theorem skipScale_sound {cs rest : List Char} (read : skipScale cs = .ok rest) :
    ∃ front, cs = front ++ rest ∧ (front = [] ∨ IsExponent front) := by
  have exponents : ∀ letter more, (letter = 'e' ∨ letter = 'E') →
      skipExponent more = .ok rest →
      ∃ front, letter :: more = front ++ rest ∧ (front = [] ∨ IsExponent front) := by
    intro letter more either read
    obtain ⟨sign, digits, rfl, isSign, isDigits⟩ := skipExponent_sound read
    exact ⟨letter :: (sign ++ digits), by simp, .inr ⟨_, _, _, rfl, either, isSign, isDigits⟩⟩
  unfold skipScale at read
  split at read
  · exact exponents 'e' _ (.inl rfl) read
  · exact exponents 'E' _ (.inr rfl) read
  · obtain rfl := Except.ok.inj read
    exact ⟨[], rfl, .inl rfl⟩

theorem skipScale_complete {exponent rest : List Char}
    (scale : exponent = [] ∨ IsExponent exponent) (ends : EndsNumber rest) :
    skipScale (exponent ++ rest) = .ok rest := by
  rcases scale with rfl | ⟨letter, sign, digits, rfl, either, isSign, isDigits⟩
  · rw [List.nil_append]
    unfold skipScale
    split
    · exact absurd rfl (ends _ rfl).2.2.1
    · exact absurd rfl (ends _ rfl).2.2.2
    · rfl
  · have read := skipExponent_complete isSign isDigits ends.startsDigit
    rcases either with rfl | rfl
    · simpa [skipScale] using read
    · simpa [skipScale] using read

theorem skipBehind_sound {cs rest : List Char} (read : skipBehind cs = .ok rest) :
    ∃ front, cs = front ++ rest ∧ IsScale front := by
  unfold skipBehind at read
  split at read
  · next behind =>
    obtain ⟨digits, tail, rfl, areDigits, ended⟩ := digits_split behind
    rw [startsDigit_append areDigits ended, dropDigits_append areDigits ended] at read
    cases digits with
    | nil => cases read
    | cons c digits =>
      obtain ⟨front, rfl, scale⟩ := skipScale_sound read
      exact ⟨'.' :: (c :: digits ++ front), by simp, '.' :: c :: digits, front, by simp,
        .inr ⟨_, rfl, List.cons_ne_nil _ _, areDigits⟩, scale⟩
  · obtain ⟨front, rfl, scale⟩ := skipScale_sound read
    exact ⟨front, rfl, [], front, rfl, .inl rfl, scale⟩

theorem skipBehind_complete {scale rest : List Char} (isScale : IsScale scale)
    (ends : EndsNumber rest) : skipBehind (scale ++ rest) = .ok rest := by
  obtain ⟨fraction, exponent, rfl, rfl | ⟨digits, rfl, nonempty, areDigits⟩, isExponent⟩ := isScale
  · have read := skipScale_complete isExponent ends
    have point : ∀ tail, exponent ++ rest ≠ '.' :: tail := by
      rcases isExponent with rfl | exponent
      · exact ends.noPoint
      · exact exponent.noPoint rest
    rw [List.nil_append, skipBehind.eq_2 _ point]
    exact read
  · have ended : startsDigit (exponent ++ rest) = false :=
      IsScale.startsDigit ⟨[], exponent, rfl, .inl rfl, isExponent⟩ ends
    rw [List.append_assoc, List.cons_append, skipBehind, startsDigit_append areDigits ended,
      List.isEmpty_eq_false_iff.2 nonempty, dropDigits_append areDigits ended]
    exact skipScale_complete isExponent ends

theorem skipNumber_digits {sign whole tail : List Char} (isSign : sign = [] ∨ sign = ['-'])
    (isWhole : IsWhole whole) (ended : startsDigit tail = false) :
    skipNumber (sign ++ (whole ++ tail)) = skipBehind tail := by
  obtain ⟨c, digits, rfl⟩ := List.exists_cons_of_ne_nil isWhole.1.1
  have areDigits := isWhole.1.2
  have first : c.isDigit = true := areDigits c (List.mem_cons_self ..)
  have rest : ∀ d ∈ digits, d.isDigit = true := fun d mem => areDigits d (List.mem_cons_of_mem _ mem)
  have minus : c ≠ '-' := by
    rintro rfl
    cases first
  have plain := isWhole.plain ended
  have unsigned : skipNumber (sign ++ (c :: digits ++ tail)) = skipNumber (c :: digits ++ tail) := by
    rcases isSign with rfl | rfl
    · rfl
    · simp [skipNumber, minus]
  rw [unsigned, skipNumber]
  simp only [List.cons_append, List.head?_cons, Option.some.injEq, minus, if_false, plain, first,
    if_true, dropDigits_append rest ended]
  unfold skipBehind skipScale
  split
  · rfl
  · rfl
  · rfl
  · next point small large =>
    split
    · exact absurd rfl (point _)
    split
    · exact absurd rfl (small _)
    · exact absurd rfl (large _)
    · rfl

theorem skipNumber_head {cs rest : List Char} (read : skipNumber cs = .ok rest) :
    ∃ sign c more, cs = sign ++ c :: more ∧ (sign = [] ∨ sign = ['-']) ∧ c.isDigit = true ∧
      ¬ (c = '0' ∧ startsDigit more = true) := by
  have signed : ∃ sign behind, cs = sign ++ behind ∧ (sign = [] ∨ sign = ['-']) ∧
      (if cs.head? = some '-' then cs.drop 1 else cs) = behind := by
    split
    · next minus =>
      obtain ⟨more, rfl⟩ := List.head?_eq_some_iff.1 minus
      exact ⟨['-'], more, rfl, .inr rfl, rfl⟩
    · exact ⟨[], cs, rfl, .inl rfl, rfl⟩
  obtain ⟨sign, behind, rfl, isSign, same⟩ := signed
  unfold skipNumber at read
  simp only [same] at read
  split at read
  · cases read
  next c more =>
  split at read
  · cases read
  next plain =>
  split at read
  · next digit => exact ⟨sign, c, more, rfl, isSign, digit, plain⟩
  · cases read

theorem skipNumber_sound {cs rest : List Char} (read : skipNumber cs = .ok rest) :
    ∃ front, cs = front ++ rest ∧ IsNumeral front := by
  obtain ⟨sign, c, more, rfl, isSign, digit, plain⟩ := skipNumber_head read
  obtain ⟨digits, tail, rfl, areDigits, ended⟩ := digits_split more
  have isWhole := isWhole_of_digits digit areDigits plain
  rw [← List.cons_append, skipNumber_digits isSign isWhole ended] at read
  obtain ⟨scale, rfl, isScale⟩ := skipBehind_sound read
  exact ⟨sign ++ (c :: digits ++ scale), by simp, sign, _, rfl, isSign, _, scale, rfl, isWhole,
    isScale⟩

theorem skipNumber_complete {cs rest : List Char} (isNumeral : IsNumeral cs)
    (ends : EndsNumber rest) : skipNumber (cs ++ rest) = .ok rest := by
  obtain ⟨sign, _, rfl, isSign, whole, scale, rfl, isWhole, isScale⟩ := isNumeral
  rw [List.append_assoc, List.append_assoc,
    skipNumber_digits isSign isWhole (isScale.startsDigit ends)]
  exact skipBehind_complete isScale ends

end SourceAtlas.Json
