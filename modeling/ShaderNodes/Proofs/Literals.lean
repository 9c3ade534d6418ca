import Mathlib
import ShaderNodes.Graph.Value
import ShaderNodes.Proofs.FewestDigits

/-!
# Literals stand for exactly one number

A literal of the shading language is a text, and what it means is said by the text alone: its digits
in front of the point, behind it, and behind the exponent mark. The numeral of a number is written so
that this meaning is the number's shortest decimal, in plain notation as well as with an exponent.
That decimal is rounded to the number, so the number can be told from its literal.

* `DecimalText.form`, `DecimalText.value`: what literals look like and what they mean;
* `Numeral.mem_form`, `Numeral.value_chars`: the texts of numerals;
* `NumeralStyle.magnitude_decimal`: numerals of decimals;
* `literals_round_back`: the literals of all 32-bit numbers.
-/

namespace ShaderNodes

/-! ## Texts of decimals -/

namespace DecimalText

/-- One digit. -/
def digit : Language Char := {cs | ∃ c : Char, c.isDigit = true ∧ cs = [c]}

/-- One digit or more. -/
def run : Language Char := digit * KStar.kstar digit

/-- Digits with or without a minus sign. -/
def signedRun : Language Char := (1 + {['-']}) * run

/-- Digits, behind a minus sign or not, then or not a point and digits, then or not the letter `e`
and digits, behind a minus sign or not. -/
def form : Language Char := signedRun * ((1 + {['.']} * run) * (1 + {['e']} * signedRun))

/-- The number that digits make up. -/
def natural (cs : List Char) : Nat := cs.foldl (fun n c => 10 * n + (c.toNat - '0'.toNat)) 0

/-- Whether a minus sign stands in front. -/
def isNegative (cs : List Char) : Bool := cs.head? = some '-'

/-- The text without the minus sign in front. -/
def unsigned (cs : List Char) : List Char := if isNegative cs then cs.tail else cs

/-- What stands in front of the mark, or everything. -/
def before (mark : Char) (cs : List Char) : List Char := cs.takeWhile (· ≠ mark)

/-- What stands behind the mark, or nothing. -/
def after (mark : Char) (cs : List Char) : List Char := (cs.dropWhile (· ≠ mark)).tail

/-- The power of ten of a text without a sign. -/
def power (cs : List Char) : Int :=
  if isNegative (after 'e' cs) then -natural (unsigned (after 'e' cs))
  else natural (unsigned (after 'e' cs))

/-- The digits of a text without a sign, as a number with a fraction. -/
def significand (cs : List Char) : ℚ :=
  natural (before '.' (before 'e' cs))
    + natural (after '.' (before 'e' cs)) / 10 ^ (after '.' (before 'e' cs)).length

/-- The number that a text means. -/
def value (cs : List Char) : ℚ :=
  signed (isNegative cs) (significand (unsigned cs) * 10 ^ power (unsigned cs))

variable {ds es : List (Fin 10)}

theorem run_digits (h : ds ≠ []) : ds.map digitChar ∈ run := by
  obtain ⟨d, ds, rfl⟩ := List.exists_cons_of_ne_nil h
  have hdigit (d : Fin 10) : [digitChar d] ∈ digit := ⟨digitChar d, isDigit_digitChar d, rfl⟩
  refine Language.append_mem_mul (hdigit d) (Language.mem_kstar.2 ⟨ds.map ([digitChar ·]), ?_, ?_⟩)
  · rw [List.flatten_eq_flatMap, List.flatMap_map]
    exact List.map_eq_flatMap
  · intro cs hcs
    obtain ⟨d, -, rfl⟩ := List.mem_map.1 hcs
    exact hdigit d

theorem natural_digits (ds : List (Fin 10)) : natural (ds.map digitChar) = ofDigits ds := by
  simp only [natural, ofDigits, List.foldl_map, toNat_digitChar]

theorem isNegative_append (negative : Bool) (cs : List Char) (h : ds ≠ []) :
    isNegative ((if negative then ['-'] else []) ++ (ds.map digitChar ++ cs)) = negative ∧
      unsigned ((if negative then ['-'] else []) ++ (ds.map digitChar ++ cs)) =
        ds.map digitChar ++ cs := by
  obtain ⟨d, ds, rfl⟩ := List.exists_cons_of_ne_nil h
  have hd : ∀ d, digitChar d ≠ '-' := by decide
  cases negative <;> simp [isNegative, unsigned, hd]

theorem before_append {mark : Char} {cs : List Char} (h : mark ∉ cs) (rest : List Char) :
    before mark (cs ++ mark :: rest) = cs ∧ after mark (cs ++ mark :: rest) = rest := by
  have hall := decide_ne_of_not_mem h
  unfold before after
  rw [List.takeWhile_append_of_pos hall, List.dropWhile_append_of_pos hall]
  simp

theorem before_eq_self {mark : Char} {cs : List Char} (h : mark ∉ cs) :
    before mark cs = cs ∧ after mark cs = [] := by
  have hall := decide_ne_of_not_mem h
  unfold before after
  rw [List.takeWhile_eq_self_iff.2 hall, List.dropWhile_eq_nil_iff.2 hall]
  exact ⟨rfl, rfl⟩

end DecimalText

/-! ## Texts of numerals -/

namespace Numeral

open DecimalText Json

/-- The exponent that a numeral shows. -/
def power (n : Numeral) : Int :=
  match n.exponent with
  | none => 0
  | some (.minus, ds) => -ofDigits ds
  | some (_, ds) => ofDigits ds

/-- What a numeral stands for without its sign: all its digits, scaled. -/
def magnitude (n : Numeral) : ℚ :=
  ofDigits (n.whole ++ n.fraction) * 10 ^ (n.power - n.fraction.length)

/-- A proper numeral without a plus sign in front of the exponent. -/
structure Unmarked (n : Numeral) : Prop extends n.Proper where
  mark : ∀ mark ds, n.exponent = some (mark, ds) → mark ≠ .plus

theorem not_mem_digits (ds : List (Fin 10)) :
    '.' ∉ ds.map digitChar ∧ 'e' ∉ ds.map digitChar := by
  have hpoint : ∀ d, digitChar d ≠ '.' := by decide
  have hletter : ∀ d, digitChar d ≠ 'e' := by decide
  constructor <;> intro h <;> obtain ⟨d, -, hd⟩ := List.mem_map.1 h
  · exact hpoint d hd
  · exact hletter d hd

variable {n : Numeral}

theorem letter_mem_chars_iff : 'e' ∈ n.chars ↔ n.exponent ≠ none := by
  have hsign : 'e' ∉ if n.negative then ['-'] else [] := by split <;> decide
  have hwhole := (not_mem_digits n.whole).2
  have hfraction : 'e' ∉ fractionChars n.fraction := by
    unfold fractionChars
    split
    · simp
    · exact List.not_mem_cons_of_ne_of_not_mem (by decide) (not_mem_digits n.fraction).2
  rw [numeralChars_eq, List.mem_append, List.mem_append, List.mem_append, or_iff_right hsign,
    or_iff_right hwhole, or_iff_right hfraction]
  cases n.exponent <;> simp [exponentChars]

theorem point_mem_chars (h : n.fraction ≠ []) : '.' ∈ n.chars := by
  have hfraction : fractionChars n.fraction = '.' :: n.fraction.map digitChar :=
    if_neg (by simpa using h)
  rw [numeralChars_eq, hfraction]
  simp

theorem chars_of_ne_plus {mark : ExponentMark} (h : mark ≠ .plus) :
    mark.chars = if decide (mark = .minus) then ['-'] else [] := by
  cases mark
  · rfl
  · exact absurd rfl h
  · rfl

theorem mem_form (h : n.Unmarked) : n.chars ∈ form := by
  have hsigned (negative : Bool) {ds : List (Fin 10)} (hds : ds ≠ []) :
      (if negative then ['-'] else []) ++ ds.map digitChar ∈ signedRun := by
    refine Language.append_mem_mul ?_ (run_digits hds)
    rw [Language.mem_add]
    cases negative
    · exact .inl rfl
    · exact .inr rfl
  have hmark (c : Char) : [c] ∈ ({[c]} : Language Char) := rfl
  rw [numeralChars_eq, ← List.append_assoc]
  refine Language.append_mem_mul (hsigned n.negative h.whole) (Language.append_mem_mul ?_ ?_)
  · rw [Language.mem_add, fractionChars]
    split
    · exact .inl rfl
    · next hfraction =>
      exact .inr (Language.append_mem_mul (hmark '.') (run_digits (by simpa using hfraction)))
  · rw [Language.mem_add]
    cases he : n.exponent with
    | none => exact .inl rfl
    | some e =>
      have hds := h.exponent e.1 e.2 he
      have hrun := hsigned (decide (e.1 = .minus)) hds
      rw [← chars_of_ne_plus (h.mark e.1 e.2 he)] at hrun
      exact .inr (Language.append_mem_mul (hmark 'e') hrun)

/-- The point parts the digits of a text without an exponent. -/
theorem before_point (ws fs : List (Fin 10)) :
    before '.' (ws.map digitChar ++ fractionChars fs) = ws.map digitChar ∧
      after '.' (ws.map digitChar ++ fractionChars fs) = fs.map digitChar := by
  have hwhole := (not_mem_digits ws).1
  unfold fractionChars
  split
  · next hfraction =>
    rw [List.isEmpty_iff.1 hfraction, List.append_nil]
    exact before_eq_self hwhole
  · exact before_append hwhole _

/-- The letter parts the digits of a text from its exponent. -/
theorem before_letter {cs : List Char} (h : 'e' ∉ cs)
    (e : Option (ExponentMark × List (Fin 10))) :
    before 'e' (cs ++ exponentChars e) = cs ∧
      after 'e' (cs ++ exponentChars e) = (exponentChars e).tail := by
  cases e with
  | none =>
    rw [exponentChars, List.append_nil]
    exact before_eq_self h
  | some e => exact before_append h _

theorem significand_eq (ws fs : List (Fin 10)) :
    (ofDigits ws : ℚ) + ofDigits fs / 10 ^ (fs.map digitChar).length =
      ofDigits (ws ++ fs) * 10 ^ (-(fs.length : Int)) := by
  rw [ofDigits_append, List.length_map, zpow_neg, zpow_natCast]
  push_cast
  field_simp

/-- The text of a numeral means what the numeral stands for. -/
theorem value_chars (h : n.Unmarked) :
    isNegative n.chars = n.negative ∧ value n.chars = signed n.negative n.magnitude := by
  have hletter : 'e' ∉ n.whole.map digitChar ++ fractionChars n.fraction := by
    have hplain := @letter_mem_chars_iff ⟨false, n.whole, n.fraction, none⟩
    rw [numeralChars_eq] at hplain
    simpa [exponentChars] using hplain
  obtain ⟨hnegative, hunsigned⟩ := isNegative_append n.negative
    (fractionChars n.fraction ++ exponentChars n.exponent) h.whole
  obtain ⟨hbefore, hafter⟩ := before_letter hletter n.exponent
  obtain ⟨hwhole, hfraction⟩ := before_point n.whole n.fraction
  have hpower : DecimalText.power (n.whole.map digitChar ++
      (fractionChars n.fraction ++ exponentChars n.exponent)) = n.power := by
    unfold DecimalText.power power
    rw [← List.append_assoc, hafter]
    cases he : n.exponent with
    | none => rfl
    | some e =>
      obtain ⟨mark, ds⟩ := e
      have hsign := isNegative_append (decide (mark = .minus)) [] (h.exponent mark ds he)
      rw [List.append_nil, ← chars_of_ne_plus (h.mark mark ds he)] at hsign
      rw [show (exponentChars (some (mark, ds))).tail = mark.chars ++ ds.map digitChar from rfl,
        hsign.1, hsign.2, natural_digits]
      cases mark <;> rfl
  rw [← numeralChars_eq] at hnegative hunsigned
  refine ⟨hnegative, ?_⟩
  rw [value, hnegative, hunsigned, hpower, significand, ← List.append_assoc, hbefore, hwhole,
    hfraction, natural_digits, natural_digits, significand_eq, magnitude, mul_assoc,
    ← zpow_add₀ (by norm_num), neg_add_eq_sub]

end Numeral

/-! ## Numerals of decimals -/

namespace NumeralStyle

variable {style : NumeralStyle} {d : Decimal}

theorem magnitude_plain (negative : Bool) (d : Decimal) :
    (plain negative (digits d.coefficient) d.leading).magnitude = d.value := by
  have hleading : d.leading = d.exponent + (digits d.coefficient).length - 1 := rfl
  have hds := ofDigits_digits d.coefficient
  have hlength := length_digits d.coefficient
  unfold plain
  split
  case isTrue h =>
    -- Zeros in front of the digits only move them behind the point.
    have hzeros : ofDigits ([0] ++ (List.replicate (-d.leading - 1).toNat 0
        ++ digits d.coefficient)) = d.coefficient := by
      rw [ofDigits_append, ofDigits_append, ofDigits_replicate, hds]
      simp [ofDigits]
    unfold Numeral.magnitude Numeral.power Decimal.value
    dsimp only
    rw [hzeros]
    congr 2
    simp only [List.length_append, List.length_replicate]
    omega
  case isFalse h =>
    dsimp only
    split
    case isTrue hwhole =>
      -- All digits stand in front of the point, with zeros behind them.
      have hfits : (digits d.coefficient).length ≤ d.leading.toNat + 1 := by simpa using hwhole
      have hall : (digits d.coefficient).take (d.leading.toNat + 1) = digits d.coefficient :=
        List.take_of_length_le hfits
      obtain ⟨n, hn⟩ := Int.eq_ofNat_of_zero_le (by omega : 0 ≤ d.exponent)
      have hcount : d.leading.toNat + 1 - (digits d.coefficient).length = n := by omega
      unfold Numeral.magnitude Numeral.power Decimal.value
      dsimp only
      rw [hall, hcount, ofDigits_append, ofDigits_append, ofDigits_replicate, hds, hn]
      simp [ofDigits]
    case isFalse hfraction =>
      have hless : d.leading.toNat + 1 < (digits d.coefficient).length := by simpa using hfraction
      unfold Numeral.magnitude Numeral.power Decimal.value
      dsimp only
      rw [Nat.sub_eq_zero_of_le hless.le, List.replicate_zero, List.append_nil,
        List.take_append_drop, hds]
      congr 2
      simp only [List.length_drop]
      omega

theorem magnitude_scientific (hmark : style.mark ≠ .minus) (negative : Bool) (d : Decimal) :
    (style.scientific negative (digits d.coefficient) d.leading).magnitude = d.value := by
  have hleading : d.leading = d.exponent + (digits d.coefficient).length - 1 := rfl
  have hlength := length_digits d.coefficient
  have hpower :
      (style.scientific negative (digits d.coefficient) d.leading).power = d.leading := by
    unfold scientific Numeral.power
    dsimp only
    by_cases h : d.leading < 0
    · rw [if_pos h]
      dsimp only
      rw [ofDigits_digits]
      omega
    · rw [if_neg h]
      cases hm : style.mark with
      | minus => exact absurd hm hmark
      | bare | plus =>
        dsimp only
        rw [ofDigits_digits]
        omega
  unfold Numeral.magnitude Decimal.value
  rw [hpower]
  unfold scientific
  dsimp only
  rw [List.take_append_drop, ofDigits_digits]
  congr 2
  simp only [List.length_drop]
  omega

theorem magnitude_decimal (hmark : style.mark ≠ .minus) (negative : Bool) (d : Decimal) :
    (style.decimal negative d).magnitude = d.value := by
  unfold decimal
  dsimp only
  split
  · exact magnitude_plain negative d
  · exact magnitude_scientific hmark negative d

theorem negative_decimal (style : NumeralStyle) (negative : Bool) (d : Decimal) :
    (style.decimal negative d).negative = negative := by
  unfold decimal plain scientific
  dsimp only
  split_ifs <;> rfl

theorem exponent_plain (negative : Bool) (ds : List (Fin 10)) (e : Int) :
    (plain negative ds e).exponent = none := by
  unfold plain
  split <;> rfl

theorem exponent_decimal_eq_none_iff (negative : Bool) :
    (style.decimal negative d).exponent = none ↔
      style.plainFrom ≤ d.leading ∧ d.leading ≤ style.plainTo := by
  unfold decimal
  dsimp only
  split
  case isTrue h => exact iff_of_true (exponent_plain _ _ _) h
  case isFalse h => exact iff_of_false (by simp [scientific]) h

theorem unmarked_decimal (hmark : style.mark ≠ .plus) (negative : Bool) (hd : d.coefficient ≠ 0) :
    (style.decimal negative d).Unmarked := by
  refine ⟨style.proper_decimal negative hd, fun mark ds h => ?_⟩
  unfold decimal at h
  dsimp only at h
  split at h
  · rw [exponent_plain] at h
    cases h
  · simp only [scientific, Option.some.injEq, Prod.mk.injEq] at h
    rw [← h.1]
    split
    · decide
    · exact hmark

end NumeralStyle

/-! ## Literals -/

/-- The leading digit tells which powers of ten a decimal reaches. -/
theorem Decimal.zpow_le_value_iff {d : Decimal} (hd : d.coefficient ≠ 0) (e : Int) :
    (10 : ℚ) ^ e ≤ d.value ↔ e ≤ d.leading := by
  have hten : (1 : ℚ) < 10 := by norm_num
  obtain ⟨hlow, hhigh⟩ := d.leading_bounds hd
  constructor
  · intro h
    have hless := h.trans_lt hhigh
    rw [zpow_lt_zpow_iff_right₀ hten] at hless
    omega
  · intro h
    exact (zpow_le_zpow_right₀ hten.le h).trans hlow

section Literal

open DecimalText

variable {x : Single}

/-- The decimal that the literal of a number shows. -/
def shown (x : Single) : Decimal :=
  if x.isZero then ⟨0, 0⟩ else (Basin.of x).shortest literalStyle.tie

theorem toList_literal (hx : x.isFinite) :
    (literal x).toList = (literalStyle.numeral x).chars := by
  rw [literal, if_pos hx, Numeral.text, String.toList_ofList]

theorem coefficient_shortest (hx : x.isZero = false) (tie : Tie) :
    ((Basin.of x).shortest tie).coefficient ≠ 0 :=
  (Basin.shortest_spec tie Format.common_single.digits (Binary.mantissa_pos hx)).1

theorem numeral_spec (x : Single) :
    (literalStyle.numeral x).Unmarked ∧ (literalStyle.numeral x).negative = x.negative ∧
      (literalStyle.numeral x).magnitude = (shown x).value := by
  unfold NumeralStyle.numeral shown
  cases hx : x.isZero with
  | true =>
    refine ⟨⟨⟨by simp, fun _ => rfl, by simp⟩, by simp⟩, rfl, ?_⟩
    simp [Numeral.magnitude, ofDigits, Decimal.value]
  | false =>
    have hd := coefficient_shortest hx literalStyle.tie
    exact ⟨NumeralStyle.unmarked_decimal (by decide) _ hd, NumeralStyle.negative_decimal _ _ _,
      NumeralStyle.magnitude_decimal (by decide) _ _⟩

/-- The literal of a finite number means the decimal that it shows. -/
theorem value_literal (hx : x.isFinite) :
    isNegative (literal x).toList = x.negative ∧
      value (literal x).toList = signed x.negative (shown x).value := by
  obtain ⟨hunmarked, hnegative, hmagnitude⟩ := numeral_spec x
  rw [toList_literal hx, ← hnegative, ← hmagnitude]
  exact Numeral.value_chars hunmarked

theorem rounds_shown (hx : x.isFinite) :
    Binary.Rounds x.negative (signed x.negative (shown x).value) x := by
  unfold shown
  cases hzero : x.isZero with
  | true =>
    have hsigned : signed x.negative (Decimal.value ⟨0, 0⟩) = 0 := by
      simp [signed, Decimal.value]
    rw [if_pos rfl, hsigned]
    exact Binary.rounds_zero (of_decide_eq_true hzero) hx
  | false =>
    exact Basin.rounds_shortest (by decide) (by decide) Format.common_single.digits _ hx
      (of_decide_eq_false hzero)

theorem rounds_literal (hx : x.isFinite) :
    Binary.Rounds (isNegative (literal x).toList) (value (literal x).toList) x := by
  obtain ⟨hnegative, hvalue⟩ := value_literal hx
  rw [hnegative, hvalue]
  exact rounds_shown hx

/-- A numeral of a literal has a point or an exponent. -/
theorem fraction_or_exponent (x : Single) :
    (literalStyle.numeral x).fraction ≠ [] ∨ (literalStyle.numeral x).exponent ≠ none := by
  unfold NumeralStyle.numeral
  cases hx : x.isZero with
  | true => exact .inl (by simp)
  | false =>
    rw [if_neg Bool.false_ne_true]
    have hmantissa := Binary.mantissa_pos hx
    obtain ⟨-, hdigits, -, -⟩ :=
      Basin.shortest_spec literalStyle.tie Format.common_single.digits hmantissa
    unfold NumeralStyle.decimal
    dsimp only
    split
    case isTrue h =>
      refine .inl (NumeralStyle.plain_spec _ (digits_ne_nil _) ?_ (h.2.trans (by decide))).1
      rw [ofDigits_digits]
      exact hdigits.trans (by decide)
    case isFalse h => exact .inr (by simp [NumeralStyle.scientific])

/-- Shortest decimals are ordered as the numbers are: the leading digit reaches a power of ten where
the number reaches the one that has this power for its shortest decimal. -/
theorem le_leading_iff (hx : x.isFinite) (hzero : x.isZero = false) {y : Single} (hy : y.isFinite)
    (hrank : y.rank ≠ 0) {e : Int}
    (hpower : (Basin.of y).shortest literalStyle.tie = ⟨1, e⟩) :
    e ≤ ((Basin.of x).shortest literalStyle.tie).leading ↔ y.magnitude ≤ x.magnitude := by
  have hd := coefficient_shortest hzero literalStyle.tie
  have horder := Basin.shortest_le_iff (by decide) (by decide) Format.common_single.digits
    literalStyle.tie hy hx hrank (of_decide_eq_false hzero)
  rwa [hpower, Decimal.value, Nat.cast_one, one_mul, Decimal.zpow_le_value_iff hd] at horder

/-- Plain notation is used from the number nearest to a ten-thousandth on, up to the one nearest to
ten quadrillion. -/
theorem letter_not_mem_literal_iff (hx : x.isFinite) (hzero : x.isZero = false) :
    'e' ∉ (literal x).toList ↔
      (Binary.round .single false 1 (10 ^ 4)).magnitude ≤ x.magnitude ∧
        x.magnitude < (Binary.round .single false (10 ^ 16) 1).magnitude := by
  have hlow := le_leading_iff hx hzero (y := Binary.round .single false 1 (10 ^ 4)) (e := -4)
    (by decide +kernel) (by decide +kernel) (by decide +kernel)
  have hhigh := le_leading_iff hx hzero (y := Binary.round .single false (10 ^ 16) 1) (e := 16)
    (by decide +kernel) (by decide +kernel) (by decide +kernel)
  rw [toList_literal hx, Numeral.letter_mem_chars_iff, not_not, NumeralStyle.numeral,
    if_neg (by simp [hzero]), NumeralStyle.exponent_decimal_eq_none_iff, ← hlow, ← not_le, ← hhigh]
  dsimp only [literalStyle]
  omega

/-- The literal of a number that is not finite is that of zero. -/
theorem literal_of_not_finite (hx : ¬ x.isFinite) : literal x = literal .zero := by
  rw [literal, if_neg hx]
  decide +kernel

theorem literal_mem_form (x : Single) :
    (literal x).toList ∈ form ∧ ('.' ∈ (literal x).toList ∨ 'e' ∈ (literal x).toList) := by
  suffices hfinite : ∀ y : Single, y.isFinite →
      (literal y).toList ∈ form ∧ ('.' ∈ (literal y).toList ∨ 'e' ∈ (literal y).toList) by
    by_cases hx : x.isFinite
    · exact hfinite x hx
    · rw [literal_of_not_finite hx]
      exact hfinite .zero (by decide)
  intro y hy
  rw [toList_literal hy]
  refine ⟨Numeral.mem_form (numeral_spec y).1, ?_⟩
  exact (fraction_or_exponent y).imp Numeral.point_mem_chars Numeral.letter_mem_chars_iff.2

/-- No decimal that is rounded to the number has fewer digits than the one that is shown. -/
theorem digits_shown_le {d : Decimal}
    (h : Binary.Rounds x.negative (signed x.negative d.value) x) :
    (digits (shown x).coefficient).length ≤ (digits d.coefficient).length := by
  unfold shown
  cases hzero : x.isZero with
  | true =>
    rw [if_pos rfl, length_digits, length_digits, Nat.log_zero_right]
    omega
  | false =>
    exact Basin.digits_shortest_le (by decide) (by decide) Format.common_single.digits _
      (of_decide_eq_false hzero) h

theorem signed_abs_value (hx : x.isFinite) :
    signed (isNegative (literal x).toList) |value (literal x).toList| =
      value (literal x).toList := by
  obtain ⟨hnegative, hvalue⟩ := value_literal hx
  have hnonneg : 0 ≤ (shown x).value := by
    unfold Decimal.value
    positivity
  rw [hnegative, hvalue]
  cases x.negative <;> simp [signed, abs_of_nonneg hnonneg]

end Literal

/-- Literals are well formed and exact. Every literal is a decimal text with a point or an exponent.
That of a finite number means a decimal that is rounded to the number, sign included, and no decimal
that is rounded to it has fewer digits; so it is told apart from all other finite numbers. Plain
notation is used for zero and between the numbers nearest to a ten-thousandth and to ten quadrillion.
Values are written with the literals of their numbers, colors channel by channel. -/
theorem literals_round_back :
    (∀ x : Single, (literal x).toList ∈ DecimalText.form ∧
      ('.' ∈ (literal x).toList ∨ 'e' ∈ (literal x).toList)) ∧
    (∀ x : Single, x.isFinite →
      Binary.Rounds (DecimalText.isNegative (literal x).toList)
        (DecimalText.value (literal x).toList) x ∧
      Binary.round .single (DecimalText.isNegative (literal x).toList)
        (DecimalText.value (literal x).toList).num.natAbs
        (DecimalText.value (literal x).toList).den = x) ∧
    (∀ x y : Single, x.isFinite → y.isFinite → literal x = literal y → x = y) ∧
    (∀ x : Single, x.isFinite → ∃ d : Decimal,
      DecimalText.value (literal x).toList = signed x.negative d.value ∧
      ∀ e : Decimal, Binary.Rounds x.negative (signed x.negative e.value) x →
        (digits d.coefficient).length ≤ (digits e.coefficient).length) ∧
    (∀ x : Single, x.isFinite → ('e' ∉ (literal x).toList ↔ x.isZero ∨
      (Binary.round .single false 1 (10 ^ 4)).magnitude ≤ x.magnitude ∧
        x.magnitude < (Binary.round .single false (10 ^ 16) 1).magnitude)) ∧
    (∀ x : Single, (Value.scalar x).code = "float(" ++ literal x ++ ")") ∧
    (∀ c : Color, (Value.color c).code = "vec4(" ++ literal c.r ++ ", " ++ literal c.g ++ ", " ++
      literal c.b ++ ", " ++ literal c.a ++ ")") := by
  refine ⟨literal_mem_form, fun x hx => ⟨rounds_literal hx, ?_⟩, fun x y hx hy heq => ?_,
    fun x hx => ⟨shown x, (value_literal hx).2, fun e he => digits_shown_le he⟩,
    fun x hx => ?_, fun x => rfl, fun c => ?_⟩
  · exact (rounds_literal hx).round_eq (by decide) (by decide) (signed_abs_value hx)
  · have hfrom := rounds_literal hx
    rw [heq] at hfrom
    exact hfrom.unique (rounds_literal hy)
  · cases hzero : x.isZero with
    | true =>
      refine iff_of_true ?_ (.inl rfl)
      rw [toList_literal hx, Numeral.letter_mem_chars_iff, not_not, NumeralStyle.numeral,
        if_pos hzero]
    | false =>
      rw [letter_not_mem_literal_iff hx hzero, or_iff_right Bool.false_ne_true]
  · apply String.toList_injective
    simp [Value.code, Color.channels]

-- A zero with its sign, and the least and the greatest magnitude.
example : literal Binary.zero.neg = "-0.0" ∧ literal ⟨false, 1, by decide⟩ = "1e-45" ∧
    literal ⟨false, Format.single.infinityRank - 1, by decide⟩ = "3.4028235e38" := by
  decide +kernel

end ShaderNodes
