import ShaderNodes.Number.Numeral

/-!
# The value of a numeral

A numeral without point and exponent stands for an integer as long as it fits 64 bits. Any other
numeral stands for a 64-bit floating-point number: its digits are gathered into one 64-bit
coefficient, digits that do not fit are dropped, and the coefficient is multiplied or divided once
by a power of ten. That is cheap and within a few units of the last place, but not always nearest.
-/

namespace ShaderNodes

/-- What a numeral stands for. -/
inductive Number
  /-- A natural number below `2 ^ 64`. -/
  | natural (n : Nat)
  /-- The negative integer `-n`, with `n` from 1 to `2 ^ 63`. -/
  | negative (n : Nat)
  /-- A floating-point number. -/
  | real (x : Double)
deriving DecidableEq

namespace Number

/-- Largest coefficient. -/
def coefficientMax : Nat := Nat.pow 2 64 - 1

/-- Appends digits to a coefficient as long as it fits; gives the coefficient and the digits left
over. -/
def gather (coefficient : Nat) : List (Fin 10) → Nat × List (Fin 10)
  | [] => (coefficient, [])
  | d :: ds =>
    if 10 * coefficient + d ≤ coefficientMax then gather (10 * coefficient + d) ds
    else (coefficient, d :: ds)

/-- Largest power of ten in a single step. -/
def stepMax : Nat := 308

/-- The 64-bit number nearest to `10 ^ n`. -/
def powerOfTen (n : Nat) : Double := .round .double false (Nat.pow 10 n) 1

/-- Divides by `10 ^ n`, in steps. -/
def scaleDown (x : Double) (n : Nat) : Double :=
  if n ≤ stepMax then x.div (powerOfTen n)
  else if x.isZero then x
  else scaleDown (x.div (powerOfTen stepMax)) (n - stepMax)
termination_by n
decreasing_by simp only [stepMax] at *; omega

/-- The product `coefficient * 10 ^ e`, unless it is too large. -/
def scale (coefficient : Nat) (e : Int) : Option Double :=
  let x : Double := .round .double false coefficient 1
  if e < 0 then some (scaleDown x e.natAbs)
  else if e ≤ stepMax then
    let y := x.mul (powerOfTen e.toNat)
    if y.isFinite then some y else none
  else if x.isZero then some x
  else none

/-- Largest written exponent that is looked at. -/
def exponentMax : Nat := Nat.pow 2 31 - 1

/-- The magnitude of a floating-point numeral with coefficient `coefficient * 10 ^ e` in front of
its written exponent. -/
def magnitude (coefficient : Nat) (e : Int) :
    Option (ExponentMark × List (Fin 10)) → Option Double
  | none => scale coefficient e
  | some (mark, ds) =>
    let n := ofDigits ds
    if exponentMax < n then
      if mark ≠ .minus && coefficient ≠ 0 then none else some .zero
    else scale coefficient (if mark = .minus then e - n else e + n)

end Number

namespace Numeral

/-- What the numeral stands for; nothing when it is out of range. -/
def number? (n : Numeral) : Option Number :=
  let (c, dropped) := Number.gather 0 n.whole
  if n.fraction.isEmpty && n.exponent.isNone && dropped.isEmpty then
    if !n.negative then some (.natural c)
    else if c = 0 || Nat.pow 2 63 < c then some (.real (.round .double true c 1))
    else some (.negative c)
  else
    let (c, left) := Number.gather c n.fraction
    let e : Int := dropped.length - (n.fraction.length - left.length : Nat)
    (Number.magnitude c e n.exponent).map fun x =>
      .real { x with negative := n.negative }

end Numeral

namespace Number

/-- The number in a binary format: integers are rounded directly. -/
def toBinary (f : Format) : Number → Binary f
  | natural n => .round f false n 1
  | negative n => .round f true n 1
  | real x => x.convert f

end Number

end ShaderNodes
