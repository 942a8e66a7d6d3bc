import SourceAtlas.Number.Binary64
set_option autoImplicit false

/-!
# The shortest decimal that reads back

A number of the binary format is written with as few decimal digits as tell it from its neighbours;
among equally short decimals the nearest is taken. `DecimalStyle` holds what else a text format
decides: which exponents are written without one, and how an exponent looks.
-/

namespace SourceAtlas.Number

/-- The digits of a decimal and the power of ten that they are multiplied by. -/
structure Decimal where
  digits : Nat
  exponent : Int
deriving DecidableEq, Repr

/-- The reals that round to a magnitude, in quarters of a unit: both ends belong to them if the
significand is even. -/
structure Neighbourhood where
  low : Nat
  high : Nat
  closed : Bool

def neighbourhood (units : Nat) : Neighbourhood :=
  let step := Binary64.spacing units
  let below := if 1 < step ∧ units = Nat.pow 2 units.log2 then step / 2 else step
  ⟨4 * units - 2 * below, 4 * units + 2 * step, units / step % 2 = 0⟩

def powerOfTen (k : Int) : Nat × Nat :=
  (Nat.pow 10 k.toNat, Nat.pow 10 (-k).toNat)

/-- The multiple of a power of ten that lies nearest to a magnitude in its neighbourhood. -/
def nearestOnGrid? (units : Nat) (k : Int) : Option Nat :=
  let (p, q) := powerOfTen k
  let hood := neighbourhood units
  -- A multiple `a` of the power is compared in units of a quarter unit over `q`.
  let size := 4 * Binary64.one * p
  let exact := 4 * units * q
  let inside (a : Nat) : Bool :=
    let value := a * size
    if hood.closed then hood.low * q ≤ value && value ≤ hood.high * q
    else hood.low * q < value && value < hood.high * q
  let below := exact / size
  let above := below + 1
  match inside below && 0 < below, inside above with
  | true, true =>
    let down := exact - below * size
    let up := above * size - exact
    some (if down < up then below else if up < down then above
      else if below % 2 = 0 then below else above)
  | true, false => some below
  | false, true => some above
  | false, false => none

/-- The first of ever finer grids that has a point in the neighbourhood. -/
def searchGrids (units : Nat) : Nat → Int → Decimal
  | 0, k => ⟨0, k⟩
  | fuel + 1, k =>
    match nearestOnGrid? units k with
    | some a => ⟨a, k⟩
    | none => searchGrids units fuel (k - 1)

def coarseExponent (units : Nat) : Int :=
  ((units.log2 : Int) - 1074) * 1233 / 4096 + 2

def shortest (units : Nat) : Decimal :=
  searchGrids units 24 (coarseExponent units)

structure DecimalStyle where
  /-- The least exponent of a leading digit that is written out with zeros. -/
  leastPlain : Int
  /-- The greatest exponent of a leading digit that is written out with zeros. -/
  greatestPlain : Int
  /-- What a whole number written out ends with. -/
  wholeEnd : String
  /-- What stands before an exponent that is not negative. -/
  positiveMark : String
  /-- What stands before the digits of a negative exponent. -/
  negativeMark : String

def pointed (digits : List Char) : List Char :=
  match digits with
  | d :: e :: rest => d :: '.' :: e :: rest
  | _ => digits

def Decimal.write (style : DecimalStyle) (d : Decimal) : String :=
  let digits := (toString d.digits).toList
  let lead : Int := d.exponent + digits.length - 1
  if style.leastPlain ≤ lead ∧ lead ≤ style.greatestPlain then
    if 0 ≤ d.exponent then
      String.ofList (digits ++ List.replicate d.exponent.toNat '0') ++ style.wholeEnd
    else if 0 ≤ lead then
      let whole := lead.toNat + 1
      String.ofList (digits.take whole ++ '.' :: digits.drop whole)
    else String.ofList ('0' :: '.' :: List.replicate (-lead - 1).toNat '0' ++ digits)
  else
    String.ofList (pointed digits) ++
      if 0 ≤ lead then style.positiveMark ++ toString lead.toNat
      else style.negativeMark ++ toString (-lead).toNat

def Binary64.write (style : DecimalStyle) (x : Binary64) : String :=
  let magnitude :=
    if x.units = 0 then "0" ++ style.wholeEnd else (shortest x.units).write style
  if x.negative then "-" ++ magnitude else magnitude

end SourceAtlas.Number
