import Mathlib.Algebra.Group.Nat.Defs
import Mathlib.Data.Nat.Log
import SourceAtlas.Number.Binary64
set_option autoImplicit false

/-!
# Whole numbers of 53 bits

Rounding leaves a whole number of at most 53 bits as it is, so a number that is one comes back from
its integer.
-/

namespace SourceAtlas.Number.Binary64

theorem one_eq : one = 2 ^ one.log2 := by
  decide +kernel

theorem lt_limit : 2 ^ 65 * one < limit := by
  decide +kernel

-- The powers are too large to be computed while terms are compared.
attribute [local irreducible] one limit

theorem one_pos : 0 < one := by
  rw [one_eq]
  exact Nat.two_pow_pos _

theorem spacing_pos (units : Nat) : 0 < spacing units := by
  unfold spacing
  split
  · exact Nat.one_pos
  · exact Nat.two_pow_pos _

theorem roundQuotient_of_dvd {n d : Nat} (pos : 0 < d) (whole : d ∣ n) :
    roundQuotient n d = n / d := by
  have divides : n % d = 0 := Nat.mod_eq_zero_of_dvd whole
  simp only [roundQuotient, divides, Nat.mul_zero]
  rw [if_pos pos]

theorem roundUnits_of_spacing_dvd {n : Nat} (whole : spacing n ∣ n) : roundUnits n 1 = n := by
  rw [roundUnits, Nat.div_one, Nat.one_mul, roundQuotient_of_dvd (spacing_pos n) whole]
  exact Nat.div_mul_cancel whole

theorem two_pow_log2_dvd {n k : Nat} (small : n ≤ 2 ^ 53) (nonzero : n * 2 ^ k ≠ 0) :
    2 ^ ((n * 2 ^ k).log2 - 52) ∣ n * 2 ^ k := by
  rcases Nat.lt_or_eq_of_le small with below | rfl
  · have bound : n * 2 ^ k < 2 ^ (53 + k) := by
      rw [Nat.pow_add]
      exact Nat.mul_lt_mul_of_pos_right below (Nat.two_pow_pos k)
    have log : (n * 2 ^ k).log2 < 53 + k := (Nat.log2_lt nonzero).2 bound
    exact Nat.dvd_trans (Nat.pow_dvd_pow 2 (by omega)) (Nat.dvd_mul_left _ n)
  · rw [← Nat.pow_add, Nat.log2_two_pow]
    exact Nat.pow_dvd_pow 2 (by omega)

theorem spacing_dvd {n : Nat} (small : n ≤ 2 ^ 53) : spacing (n * one) ∣ n * one := by
  unfold spacing
  split
  · exact Nat.one_dvd _
  · next large =>
    have nonzero : n * one ≠ 0 := fun zero => large (zero ▸ Nat.two_pow_pos 53)
    rw [one_eq] at nonzero ⊢
    exact two_pow_log2_dvd small nonzero

theorem mul_one_lt_limit {n : Nat} (small : n ≤ 2 ^ 65) : n * one < limit :=
  Nat.lt_of_le_of_lt (Nat.mul_le_mul_right one small) lt_limit

theorem ofNat_small {n : Nat} (small : n ≤ 2 ^ 53) : ofNat n = ⟨false, n * one⟩ := by
  rw [ofNat, ofUnits?, roundUnits_of_spacing_dvd (spacing_dvd small)]
  simp only [if_pos (mul_one_lt_limit (n := n) (by omega)), Option.getD_some]

theorem whole?_eq_some {x : Binary64} {i : Int} (whole : x.whole? = some i) :
    ∃ n, n ≤ 2 ^ 53 ∧ x.units = n * one ∧ i = if x.negative then -(n : Int) else n := by
  unfold whole? at whole
  split at whole
  · next fits =>
    refine ⟨x.units / one, ?_, ?_, (Option.some.inj whole).symm⟩
    · exact Nat.div_le_of_le_mul (by rw [Nat.mul_comm]; exact fits.2)
    · exact (Nat.div_mul_cancel (Nat.dvd_of_mod_eq_zero fits.1)).symm
  · cases whole

def IsWhole (x : Binary64) : Prop :=
  ∃ n, n ≤ 2 ^ 53 ∧ x.units = n * one

theorem isWhole_iff {x : Binary64} : x.IsWhole ↔ x.whole?.isSome = true := by
  constructor
  · rintro ⟨n, small, units⟩
    have divides : x.units % one = 0 := by rw [units, Nat.mul_mod_left]
    have bound : x.units ≤ Nat.pow 2 53 * one := units ▸ Nat.mul_le_mul_right one small
    rw [whole?, if_pos ⟨divides, bound⟩]
    rfl
  · intro whole
    obtain ⟨i, whole⟩ := Option.isSome_iff_exists.1 whole
    obtain ⟨n, small, units, -⟩ := whole?_eq_some whole
    exact ⟨n, small, units⟩

instance (x : Binary64) : Decidable x.IsWhole :=
  decidable_of_iff _ isWhole_iff.symm

theorem whole?_le {x : Binary64} {i : Int} (whole : x.whole? = some i) : i.natAbs ≤ 2 ^ 53 := by
  obtain ⟨n, small, -, rfl⟩ := whole?_eq_some whole
  split <;> omega

theorem ofInt_of_whole? {x : Binary64} {i : Int} (plain : x.plain = x) (whole : x.whole? = some i) :
    ofInt i = x := by
  obtain ⟨n, small, units, rfl⟩ := whole?_eq_some whole
  obtain ⟨negative, magnitude⟩ := x
  obtain rfl : magnitude = n * one := units
  cases negative with
  | false =>
    have plus : ¬ ((n : Int) < 0) := by omega
    simp only [Bool.false_eq_true, if_false, ofInt, if_neg plus, Int.natAbs_natCast]
    exact ofNat_small small
  | true =>
    -- Zero with a sign is not plain.
    have nonzero : n ≠ 0 := by
      rintro rfl
      simp [Binary64.plain, zero] at plain
    have minus : -(n : Int) < 0 := by omega
    simp only [if_true, ofInt, if_pos minus, Int.natAbs_neg, Int.natAbs_natCast, ofNat_small small]

def value (x : Binary64) : Int :=
  if x.negative then -(x.units : Int) else x.units

theorem value_plain (x : Binary64) : x.plain.value = x.value := by
  unfold Binary64.plain value
  split
  · next divides => simp [divides, zero]
  · rfl

theorem value_of_whole? {x : Binary64} {i : Int} (whole : x.whole? = some i) :
    x.value = i * one := by
  obtain ⟨n, -, units, rfl⟩ := whole?_eq_some whole
  unfold value
  rw [units]
  split
  · rw [Int.neg_mul, Int.natCast_mul]
  · rw [Int.natCast_mul]

theorem roundQuotient_bounds (n d : Nat) :
    n / d ≤ roundQuotient n d ∧ roundQuotient n d ≤ n / d + 1 := by
  simp only [roundQuotient]
  split
  · omega
  split
  · omega
  split <;> omega

theorem spacing_le {units : Nat} (nonzero : units ≠ 0) : spacing units ≤ units := by
  unfold spacing
  split
  · omega
  · exact Nat.le_trans (Nat.pow_le_pow_right (by decide) (Nat.sub_le ..)) (Nat.log2_self_le nonzero)

theorem roundUnits_bounds {n : Nat} (nonzero : n ≠ 0) : roundUnits n 1 ≠ 0 ∧ roundUnits n 1 ≤ 2 * n := by
  have step := spacing_le nonzero
  have pos := spacing_pos n
  obtain ⟨low, high⟩ := roundQuotient_bounds n (spacing n)
  have one : 1 ≤ n / spacing n := (Nat.one_le_div_iff pos).2 step
  rw [roundUnits, Nat.div_one, Nat.one_mul]
  constructor
  · exact Nat.mul_ne_zero (by omega) (by omega)
  · calc roundQuotient n (spacing n) * spacing n
        ≤ (n / spacing n + 1) * spacing n := Nat.mul_le_mul_right _ high
      _ = n / spacing n * spacing n + spacing n := Nat.succ_mul ..
      _ ≤ n + n := Nat.add_le_add (Nat.div_mul_le_self ..) step
      _ = 2 * n := (Nat.two_mul n).symm

theorem ofNat_units_ne_zero {n : Nat} (nonzero : n ≠ 0) (small : n ≤ 2 ^ 64) :
    (ofNat n).units ≠ 0 := by
  obtain ⟨nonzero, le⟩ := roundUnits_bounds (Nat.mul_ne_zero nonzero (Nat.ne_of_gt one_pos))
  have inside : roundUnits (n * one) 1 < limit := by
    rw [← Nat.mul_assoc] at le
    exact Nat.lt_of_le_of_lt le (mul_one_lt_limit (by omega))
  rw [ofNat, ofUnits?]
  simp only [if_pos inside, Option.getD_some]
  exact nonzero

theorem plain_of_units_ne_zero {x : Binary64} (nonzero : x.units ≠ 0) : x.plain = x :=
  if_neg nonzero

theorem signed_plain {x : Binary64} (nonzero : x.units ≠ 0) (p : Prop) [Decidable p] :
    (if p then { x with negative := true } else x).plain =
      if p then { x with negative := true } else x := by
  split <;> exact plain_of_units_ne_zero nonzero

theorem ofInt_plain {i : Int} (small : i.natAbs ≤ 2 ^ 64) : (ofInt i).plain = ofInt i := by
  by_cases zero : i.natAbs = 0
  · obtain rfl := Int.natAbs_eq_zero.1 zero
    decide +kernel
  · exact signed_plain (ofNat_units_ne_zero zero small) (i < 0)

end SourceAtlas.Number.Binary64
