import ShaderNodes.Number.Decimal

/-!
# Numerals

The written form of a number: sign, whole part, fraction and exponent. A style says how a binary
number becomes a numeral: how far plain notation reaches, how an exponent is marked, and where ties
between two shortest decimals go.
-/

namespace ShaderNodes

/-- The mark in front of the digits of an exponent. -/
inductive ExponentMark
  | bare
  | plus
  | minus
deriving DecidableEq, Repr

/-- A written number. -/
structure Numeral where
  /-- Whether a minus sign stands in front. -/
  negative : Bool
  /-- Digits in front of the point. -/
  whole : List (Fin 10)
  /-- Digits behind the point; without any there is no point. -/
  fraction : List (Fin 10)
  /-- Mark and digits of the exponent. -/
  exponent : Option (ExponentMark × List (Fin 10))
deriving DecidableEq, Repr

/-- The character of a digit. -/
def digitChar (d : Fin 10) : Char := Char.ofNat (48 + d)

namespace ExponentMark

/-- The mark as text. -/
def chars : ExponentMark → List Char
  | bare => []
  | plus => ['+']
  | minus => ['-']

end ExponentMark

namespace Numeral

/-- The characters of a numeral. -/
def chars (n : Numeral) : List Char :=
  (if n.negative then ['-'] else [])
    ++ n.whole.map digitChar
    ++ (if n.fraction.isEmpty then [] else '.' :: n.fraction.map digitChar)
    ++ match n.exponent with
      | none => []
      | some (mark, ds) => 'e' :: (mark.chars ++ ds.map digitChar)

/-- The text of a numeral. -/
def text (n : Numeral) : String := String.ofList n.chars

/-- A natural number. -/
def ofNat (n : Nat) : Numeral := ⟨false, digits n, [], none⟩

end Numeral

/-- A natural number as text. -/
def natText (n : Nat) : String := (Numeral.ofNat n).text

/-- How binary numbers are written. -/
structure NumeralStyle where
  /-- Smallest exponent of the leading digit in plain notation. -/
  plainFrom : Int
  /-- Largest exponent of the leading digit in plain notation. -/
  plainTo : Int
  /-- Mark of an exponent that is not negative. -/
  mark : ExponentMark
  /-- Where ties between two shortest decimals go. -/
  tie : Tie

namespace NumeralStyle

/-- Digits `ds` in plain notation, the leading one at exponent `e`. A whole number keeps one zero
behind the point. -/
def plain (negative : Bool) (ds : List (Fin 10)) (e : Int) : Numeral :=
  if e < 0 then ⟨negative, [0], List.replicate (-e - 1).toNat 0 ++ ds, none⟩
  else
    let whole := ds.take (e.toNat + 1)
    let fraction := ds.drop (e.toNat + 1)
    ⟨negative, whole ++ List.replicate (e.toNat + 1 - ds.length) 0,
      if fraction.isEmpty then [0] else fraction, none⟩

/-- Digits `ds` in scientific notation, the leading one at exponent `e`. -/
def scientific (style : NumeralStyle) (negative : Bool) (ds : List (Fin 10)) (e : Int) : Numeral :=
  ⟨negative, ds.take 1, ds.drop 1, some (if e < 0 then .minus else style.mark, digits e.natAbs)⟩

/-- A decimal of the given sign. -/
def decimal (style : NumeralStyle) (negative : Bool) (d : Decimal) : Numeral :=
  let ds := digits d.coefficient
  let e := d.leading
  if style.plainFrom ≤ e ∧ e ≤ style.plainTo then plain negative ds e
  else style.scientific negative ds e

/-- A finite number, by its shortest decimal. -/
def numeral (style : NumeralStyle) {f : Format} (x : Binary f) : Numeral :=
  if x.isZero then ⟨x.negative, [0], [0], none⟩
  else style.decimal x.negative ((Basin.of x).shortest style.tie)

end NumeralStyle

end ShaderNodes
