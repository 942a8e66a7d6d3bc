set_option autoImplicit false

/-!
# Finite double-precision numbers

A finite number of the 64-bit binary format is a sign and a count of units, a unit being the least
positive number, two to the power of -1074. So two numbers are the same datum exactly when they are
equal, zeros of different sign apart, and every operation is exact arithmetic followed by one
rounding: to the nearest number, of two that are as near to the one with an even significand.
A result beyond the largest number is no number at all.
-/

namespace SourceAtlas.Number

structure Binary64 where
  negative : Bool
  units : Nat
deriving DecidableEq, Repr

namespace Binary64

def one : Nat := Nat.pow 2 1074

def limit : Nat := Nat.pow 2 2098

/-- The distance to the next larger number: a significand has 53 bits. -/
def spacing (units : Nat) : Nat :=
  if units < Nat.pow 2 53 then 1 else Nat.pow 2 (units.log2 - 52)

def roundQuotient (n d : Nat) : Nat :=
  let q := n / d
  let r := n % d
  if 2 * r < d then q
  else if d < 2 * r then q + 1
  else if q % 2 = 0 then q else q + 1

def roundUnits (n d : Nat) : Nat :=
  let step := spacing (n / d)
  roundQuotient n (d * step) * step

def ofUnits? (negative : Bool) (n d : Nat) : Option Binary64 :=
  let units := roundUnits n d
  if units < limit then some ⟨negative, units⟩ else none

def zero : Binary64 := ⟨false, 0⟩

/-- The number nearest to a natural number that is in range, zero for others. -/
def ofNat (n : Nat) : Binary64 :=
  (ofUnits? false (n * one) 1).getD zero

def ofInt (i : Int) : Binary64 :=
  if i < 0 then { ofNat i.natAbs with negative := true } else ofNat i.natAbs

def mul? (x y : Binary64) : Option Binary64 :=
  ofUnits? (x.negative != y.negative) (x.units * y.units) one

def div? (x y : Binary64) : Option Binary64 :=
  ofUnits? (x.negative != y.negative) (x.units * one) y.units

def neg (x : Binary64) : Binary64 :=
  { x with negative := !x.negative }

def plain (x : Binary64) : Binary64 :=
  if x.units = 0 then zero else x

def whole? (x : Binary64) : Option Int :=
  if x.units % one = 0 ∧ x.units ≤ Nat.pow 2 53 * one then
    let n := x.units / one
    some (if x.negative then -(n : Int) else n)
  else none

theorem plain_plain (x : Binary64) : x.plain.plain = x.plain := by
  unfold plain
  split <;> simp_all

end Binary64

end SourceAtlas.Number
