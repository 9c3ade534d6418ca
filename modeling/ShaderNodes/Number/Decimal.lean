import ShaderNodes.Number.Binary

/-!
# Shortest decimals

The decimal with the fewest digits among those that round to a given binary number, and of these the
one nearest to it. Coefficients are looked for on ever finer decimal grids; on each grid only the
two neighbours of the number can be nearest.
-/

namespace ShaderNodes

/-- The number `coefficient * 10 ^ exponent`. -/
structure Decimal where
  /-- The digits, as one natural number. -/
  coefficient : Nat
  /-- The power of ten. -/
  exponent : Int
deriving DecidableEq, Repr

/-- Where a number goes that lies halfway between two decimals. -/
inductive Tie
  | toEven
  | upward
deriving DecidableEq, Repr

-- Stated once, so that all uses of digits refer to the same fact.
instance neZero_ten : @NeZero Nat Zero.ofOfNat0 10 := ⟨by decide⟩

/-- Decimal digits of `n`, the most significant first, in front of `acc`. -/
def digitsOnto (n : Nat) (acc : List (Fin 10)) : List (Fin 10) :=
  let acc := Fin.ofNat 10 n :: acc
  if n < 10 then acc else digitsOnto (n / 10) acc
termination_by n
decreasing_by omega

/-- Decimal digits of `n`, the most significant first; zero has the digit zero. -/
def digits (n : Nat) : List (Fin 10) := digitsOnto n []

/-- The natural number written by a list of digits. -/
def ofDigits (ds : List (Fin 10)) : Nat := ds.foldl (fun n d => 10 * n + d.val) 0

/-- Greatest `e` with `10 ^ e ≤ a / b`, for positive `a` and `b`. -/
def floorLog10 (a b : Nat) : Int :=
  let e : Int := (digits a).length - (digits b).length
  if b * Nat.pow 10 e.toNat ≤ a * Nat.pow 10 (-e).toNat then e else e - 1

namespace Decimal

/-- The same number without zeros at the end of its coefficient. -/
def trim (d : Decimal) : Decimal :=
  if d.coefficient ≠ 0 ∧ d.coefficient % 10 = 0 then
    trim ⟨d.coefficient / 10, d.exponent + 1⟩
  else d
termination_by d.coefficient
decreasing_by omega

/-- Exponent of the leading digit. -/
def leading (d : Decimal) : Int := d.exponent + (digits d.coefficient).length - 1

end Decimal

/-- The reals that round to `mantissa * 2 ^ exponent`, in quarters of `2 ^ exponent`. -/
structure Basin where
  /-- Mantissa of the number. -/
  mantissa : Nat
  /-- Exponent of the number. -/
  exponent : Int
  /-- Lower end. -/
  low : Nat
  /-- Upper end. -/
  high : Nat
  /-- Whether the ends belong to it. -/
  closed : Bool

namespace Basin

/-- Basin of a finite number. Below a power of two the neighbour is only half as far away, and the
ends belong to the basins of even mantissas. -/
def of {f : Format} (x : Binary f) : Basin where
  mantissa := x.mantissa
  exponent := x.exponent
  low :=
    if x.mantissa = Nat.pow 2 f.fractionBits ∧ f.leastExponent < x.exponent then 4 * x.mantissa - 1
    else 4 * x.mantissa - 2
  high := 4 * x.mantissa + 2
  closed := x.mantissa % 2 = 0

/-- Factor that turns quarters into units common with multiples of `10 ^ g`. -/
def quarterFactor (b : Basin) (g : Int) : Nat :=
  Nat.pow 2 (b.exponent - 2).toNat * Nat.pow 10 (-g).toNat

/-- Factor that turns multiples of `10 ^ g` into units common with quarters. -/
def gridFactor (b : Basin) (g : Int) : Nat :=
  Nat.pow 2 (2 - b.exponent).toNat * Nat.pow 10 g.toNat

/-- Whether `k * 10 ^ g` lies in the basin. -/
def holds (b : Basin) (g : Int) (k : Nat) : Bool :=
  let low := b.low * b.quarterFactor g
  let high := b.high * b.quarterFactor g
  let point := k * b.gridFactor g
  if b.closed then low ≤ point && point ≤ high else low < point && point < high

/-- The multiple of `10 ^ g` in the basin that is nearest to the number. -/
def nearestOn (b : Basin) (tie : Tie) (g : Int) : Option Nat :=
  let value := 4 * b.mantissa * b.quarterFactor g
  let unit := b.gridFactor g
  let k := value / unit
  let r := value % unit
  match b.holds g k, b.holds g (k + 1) with
  | false, false => none
  | true, false => some k
  | false, true => some (k + 1)
  | true, true =>
    if 2 * r < unit then some k
    else if unit < 2 * r then some (k + 1)
    else match tie with
      | .toEven => some (k + k % 2)
      | .upward => some (k + 1)

/-- The number itself, written out in full. -/
def exact (b : Basin) : Decimal :=
  ⟨b.mantissa * Nat.pow 2 b.exponent.toNat * Nat.pow 5 (-b.exponent).toNat, min b.exponent 0⟩

/-- The first hit on the grids of one digit, two digits and so on; seventeen digits always suffice
for the formats in use, and the full expansion stands behind them. -/
def shortest (b : Basin) (tie : Tie) : Decimal :=
  let top :=
    floorLog10 (b.mantissa * Nat.pow 2 b.exponent.toNat) (Nat.pow 2 (-b.exponent).toNat)
  let hit := (List.range 17).findSome? fun (n : Nat) =>
    let g := top - n
    (b.nearestOn tie g).map fun k => (⟨k, g⟩ : Decimal)
  (hit.getD b.exact).trim

end Basin

end ShaderNodes
