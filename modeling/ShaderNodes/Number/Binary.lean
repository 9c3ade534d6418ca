import ShaderNodes.Roster

/-!
# Binary floating-point numbers

Numbers of a binary interchange format, kept as a sign and a *rank*: the bit pattern without its
sign. Ranks grow with the magnitude, so a finite rank stands for a mantissa times a power of two,
and the ranks above the finite ones stand for infinity and for "not a number".

Every operation is exact arithmetic on natural numbers followed by one rounding to nearest, a tie
going to the even rank.
-/

namespace ShaderNodes

/-- Widths of the two fields of a binary format. -/
structure Format where
  /-- Bits of the stored fraction. -/
  fractionBits : Nat
  /-- Bits of the stored exponent. -/
  exponentBits : Nat
deriving DecidableEq, Repr

namespace Format

/-- The 32-bit format. -/
def single : Format := ⟨23, 8⟩

/-- The 64-bit format. -/
def double : Format := ⟨52, 11⟩

/-- Exponent of the smallest positive magnitude. -/
def leastExponent (f : Format) : Int := 2 - Nat.pow 2 (f.exponentBits - 1) - f.fractionBits

/-- Number of ranks: all bit patterns without a sign. -/
def rankBound (f : Format) : Nat := Nat.pow 2 (f.fractionBits + f.exponentBits)

/-- Rank of infinity; the smaller ranks are finite. -/
def infinityRank (f : Format) : Nat := (Nat.pow 2 f.exponentBits - 1) * Nat.pow 2 f.fractionBits

theorem infinityRank_lt (f : Format) : f.infinityRank < f.rankBound := by
  have hp : 0 < 2 ^ f.fractionBits := Nat.two_pow_pos _
  have he : 0 < 2 ^ f.exponentBits := Nat.two_pow_pos _
  rw [infinityRank, rankBound, Nat.pow_eq, Nat.pow_eq, Nat.pow_eq, Nat.pow_add,
    Nat.mul_comm (2 ^ f.fractionBits)]
  exact Nat.mul_lt_mul_of_pos_right (by omega) hp

end Format

/-- Quotient to the nearest integer, a tie going to the even one. -/
def roundDiv (a b : Nat) : Nat :=
  let q := a / b
  let r := a % b
  if 2 * r < b then q else if b < 2 * r then q + 1 else q + q % 2

/-- Numerator and denominator of `a / b / 2 ^ q`. -/
def scaledRatio (a b : Nat) (q : Int) : Nat × Nat :=
  if 0 ≤ q then (a, b * Nat.pow 2 q.toNat) else (a * Nat.pow 2 (-q).toNat, b)

/-- Greatest `e` with `2 ^ e ≤ a / b`, for positive `a` and `b`. -/
def floorLog2 (a b : Nat) : Int :=
  let e : Int := a.log2 - b.log2
  let (n, d) := scaledRatio a b e
  if d ≤ n then e else e - 1

namespace Format

/-- Rank of the number nearest to `a / b`; too large quotients go to infinity. -/
def nearestRank (f : Format) (a b : Nat) : Nat :=
  if a = 0 then 0
  else
    let q := max f.leastExponent (floorLog2 a b - f.fractionBits)
    let (n, d) := scaledRatio a b q
    min f.infinityRank (roundDiv n d + (q - f.leastExponent).toNat * Nat.pow 2 f.fractionBits)

theorem nearestRank_lt (f : Format) (a b : Nat) : f.nearestRank a b < f.rankBound := by
  have h := f.infinityRank_lt
  unfold nearestRank
  split
  · omega
  · exact Nat.lt_of_le_of_lt (Nat.min_le_left _ _) h

end Format

/-- A number of format `f`. -/
structure Binary (f : Format) where
  /-- The sign bit. -/
  negative : Bool
  /-- The bit pattern without the sign. -/
  rank : Nat
  /-- The pattern fits its fields. -/
  rank_lt : rank < f.rankBound
deriving DecidableEq

/-- Numbers of 32 bits. -/
abbrev Single := Binary .single

/-- Numbers of 64 bits. -/
abbrev Double := Binary .double

namespace Binary

variable {f : Format}

/-- The number with the given bit pattern. -/
def ofBits (f : Format) (bits : Nat) : Binary f where
  negative := bits / f.rankBound % 2 = 1
  rank := bits % f.rankBound
  rank_lt := Nat.mod_lt _ (Nat.two_pow_pos _)

/-- The bit pattern. -/
def toBits (x : Binary f) : Nat := (if x.negative then f.rankBound else 0) + x.rank

/-- Positive zero. -/
def zero : Binary f := ⟨false, 0, Nat.two_pow_pos _⟩

instance : Inhabited (Binary f) := ⟨zero⟩

/-- Neither an infinity nor "not a number". -/
def isFinite (x : Binary f) : Bool := x.rank < f.infinityRank

/-- Whether the pattern is "not a number". -/
def isNaN (x : Binary f) : Bool := f.infinityRank < x.rank

/-- Zero of either sign. -/
def isZero (x : Binary f) : Bool := x.rank = 0

/-- Integer mantissa of a finite number. -/
def mantissa (x : Binary f) : Nat :=
  if x.rank < 2 * Nat.pow 2 f.fractionBits then x.rank
  else Nat.pow 2 f.fractionBits + x.rank % Nat.pow 2 f.fractionBits

/-- Exponent of two that goes with `mantissa`. -/
def exponent (x : Binary f) : Int :=
  f.leastExponent + (x.rank / Nat.pow 2 f.fractionBits - 1 : Nat)

/-- Magnitude of a finite number as numerator and denominator. -/
def ratio (x : Binary f) : Nat × Nat :=
  (x.mantissa * Nat.pow 2 x.exponent.toNat, Nat.pow 2 (-x.exponent).toNat)

/-- The number of sign `negative` nearest to the magnitude `a / b`. -/
def round (f : Format) (negative : Bool) (a b : Nat) : Binary f :=
  ⟨negative, f.nearestRank a b, f.nearestRank_lt a b⟩

/-- The opposite number. -/
def neg (x : Binary f) : Binary f := { x with negative := !x.negative }

/-- Product of finite numbers. -/
def mul (x y : Binary f) : Binary f :=
  round f (x.negative != y.negative) (x.ratio.1 * y.ratio.1) (x.ratio.2 * y.ratio.2)

/-- Quotient of a finite number by a finite number other than zero. -/
def div (x y : Binary f) : Binary f :=
  round f (x.negative != y.negative) (x.ratio.1 * y.ratio.2) (x.ratio.2 * y.ratio.1)

/-- The nearest number of another format. Infinities keep their sign, and what is not a number
stays so. -/
def convert (x : Binary f) (g : Format) : Binary g :=
  if x.isFinite then round g x.negative x.ratio.1 x.ratio.2
  else if x.isNaN then ⟨x.negative, g.rankBound - 1, Nat.sub_one_lt_of_lt (Nat.two_pow_pos _)⟩
  else ⟨x.negative, g.infinityRank, g.infinityRank_lt⟩

/-- Numbers are alike when they compare equal: zeros of both signs are, "not a number" is like
nothing. -/
instance : Alike (Binary f) where
  alike x y := !x.isNaN && x.rank == y.rank && (x.negative == y.negative || x.rank == 0)

end Binary

end ShaderNodes
