import Mathlib
import ShaderNodes.Number.Number
import ShaderNodes.Proofs.Lexemes
import ShaderNodes.Proofs.Names

/-!
# Numerals and what they stand for

The digits of a numeral are gathered into one coefficient. As long as they fit, nothing is dropped:
the numeral stands for its digits, scaled by its exponent and by the length of its fraction. Whether
a decimal is written plainly or with an exponent, the same coefficient and the same power of ten are
gathered from its numeral, up to zeros at the end.

* `length_digits`, `head_digits`: how many digits there are, and that the first one is not zero;
* `Numeral.number?_ofNat`, `Numeral.number?_eq`: numerals whose digits fit;
* `NumeralStyle.proper_decimal`: decimals are written as proper numerals;
* `NumeralStyle.isSome_number?_decimal`: when the numeral of a decimal can be read.
-/

namespace ShaderNodes

/-! ## Digits -/

theorem length_digitsOnto (n : Nat) (acc : List (Fin 10)) :
    (digitsOnto n acc).length = Nat.log 10 n + 1 + acc.length := by
  fun_induction digitsOnto n acc with
  | case1 n acc acc' hn =>
    rw [Nat.log_of_lt hn]
    simp only [acc', List.length_cons]
    omega
  | case2 n acc acc' hn ih =>
    rw [ih, Nat.log_of_one_lt_of_le (by norm_num) (by omega : 10 ≤ n)]
    simp only [acc', List.length_cons]
    omega

theorem length_digits (n : Nat) : (digits n).length = Nat.log 10 n + 1 := length_digitsOnto n []

theorem head_digitsOnto {n : Nat} (h : n ≠ 0) (acc : List (Fin 10)) :
    ∃ d ds, digitsOnto n acc = d :: ds ∧ d ≠ 0 := by
  fun_induction digitsOnto n acc with
  | case1 n acc acc' hn =>
    refine ⟨_, acc, rfl, fun hd => h ?_⟩
    have := congrArg Fin.val hd
    simp only [Fin.ofNat] at this
    omega
  | case2 n acc acc' hn ih => exact ih (by omega)

/-- A number other than zero does not start with the digit zero. -/
theorem head_digits {n : Nat} (h : n ≠ 0) : ∃ d ds, digits n = d :: ds ∧ d ≠ 0 :=
  head_digitsOnto h []

theorem digits_ne_nil (n : Nat) : digits n ≠ [] := by
  have := length_digits n
  intro hnil
  simp [hnil] at this

theorem exists_digitChar {c : Char} (h : c.isDigit = true) : ∃ d, c = digitChar d := by
  simp only [Char.isDigit, Bool.and_eq_true, decide_eq_true_eq, ge_iff_le, UInt32.le_iff_toNat_le]
    at h
  have hlow : 48 ≤ c.toNat := h.1
  have hhigh : c.toNat ≤ 57 := h.2
  refine ⟨⟨c.toNat - 48, by omega⟩, ?_⟩
  have hsum : 48 + (c.toNat - 48) = c.toNat := by omega
  simp only [digitChar, hsum, Char.ofNat_toNat]

theorem toNat_digitChar (d : Fin 10) : (digitChar d).toNat - '0'.toNat = d.val := by
  revert d
  decide

/-! ## Gathering digits -/

theorem le_foldl_digits (c : Nat) (ds : List (Fin 10)) :
    c ≤ ds.foldl (fun n d => 10 * n + d.val) c := by
  induction ds generalizing c with
  | nil => exact le_rfl
  | cons d ds ih => exact le_trans (by omega) (ih (10 * c + d.val))

/-- Digits are gathered without loss as long as they fit. -/
theorem Number.gather_eq {c : Nat} {ds : List (Fin 10)}
    (h : ds.foldl (fun n d => 10 * n + d.val) c ≤ coefficientMax) :
    gather c ds = (ds.foldl (fun n d => 10 * n + d.val) c, []) := by
  induction ds generalizing c with
  | nil => rfl
  | cons d ds ih =>
    have hfits : 10 * c + d.val ≤ coefficientMax := le_trans (le_foldl_digits _ ds) h
    rw [gather, if_pos hfits]
    exact ih h

theorem foldl_digits_eq (c : Nat) (ds : List (Fin 10)) :
    ds.foldl (fun n d => 10 * n + d.val) c = c * 10 ^ ds.length + ofDigits ds := by
  induction ds generalizing c with
  | nil => simp [ofDigits]
  | cons d ds ih =>
    rw [ofDigits, List.foldl_cons, List.foldl_cons, ih, ih (10 * 0 + d.val), List.length_cons]
    ring

theorem ofDigits_append (ds es : List (Fin 10)) :
    ofDigits (ds ++ es) = ofDigits ds * 10 ^ es.length + ofDigits es := by
  rw [ofDigits, List.foldl_append, foldl_digits_eq]
  rfl

theorem ofDigits_lt (ds : List (Fin 10)) : ofDigits ds < 10 ^ ds.length := by
  induction ds with
  | nil => simp [ofDigits]
  | cons d ds ih =>
    rw [ofDigits, List.foldl_cons, foldl_digits_eq, List.length_cons, pow_succ]
    have hd := d.isLt
    nlinarith

theorem ofDigits_replicate (n : Nat) : ofDigits (List.replicate n 0) = 0 := by
  induction n with
  | zero => rfl
  | succ n ih => rwa [List.replicate_succ, ofDigits, List.foldl_cons]

namespace Numeral

theorem number?_ofNat {n : Nat} (h : n ≤ Number.coefficientMax) :
    (ofNat n).number? = some (.natural n) := by
  have hgather : Number.gather 0 (digits n) = (n, []) := by
    have hfold : (digits n).foldl (fun n d => 10 * n + d.val) 0 = n := ofDigits_digits n
    rw [Number.gather_eq (by rwa [hfold]), hfold]
  simp [number?, ofNat, hgather]

/-- A numeral with a point or an exponent whose digits fit. -/
theorem number?_eq {n : Numeral} (hreal : n.fraction ≠ [] ∨ n.exponent ≠ none)
    (h : ofDigits (n.whole ++ n.fraction) ≤ Number.coefficientMax) :
    n.number? = (Number.magnitude (ofDigits (n.whole ++ n.fraction)) (-n.fraction.length)
      n.exponent).map fun x => .real { x with negative := n.negative } := by
  have hall : n.fraction.foldl (fun n d => 10 * n + d.val)
      (n.whole.foldl (fun n d => 10 * n + d.val) 0) = ofDigits (n.whole ++ n.fraction) := by
    rw [ofDigits, List.foldl_append]
  have hwhole := Number.gather_eq (le_trans (le_foldl_digits _ n.fraction) (hall.trans_le h))
  have hfraction := Number.gather_eq (hall.trans_le h)
  have hform : ¬ (n.fraction.isEmpty && n.exponent.isNone
      && ([] : List (Fin 10)).isEmpty) = true := by
    simpa [imp_iff_not_or] using hreal
  unfold number?
  rw [hwhole]
  dsimp only
  rw [if_neg hform, hfraction, hall]
  simp

theorem proper_ofNat (n : Nat) : (ofNat n).Proper where
  whole := digits_ne_nil n
  zero h := by
    obtain rfl | hn := eq_or_ne n 0
    · exact length_digits 0
    · obtain ⟨d, ds, hds, hd⟩ := head_digits hn
      simp [ofNat, hds, hd] at h
  exponent := by rintro _ _ ⟨⟩

end Numeral

/-! ## Decimals -/

namespace NumeralStyle

theorem proper_plain (negative : Bool) {d : Fin 10} (hd : d ≠ 0) (ds : List (Fin 10)) (e : Int) :
    (plain negative (d :: ds) e).Proper := by
  unfold plain
  split
  · exact ⟨by simp, fun _ => rfl, by simp⟩
  · exact ⟨by simp, by simp [hd], by simp⟩

theorem proper_scientific (style : NumeralStyle) (negative : Bool) (d : Fin 10)
    (ds : List (Fin 10)) (e : Int) : (style.scientific negative (d :: ds) e).Proper where
  whole := by simp [scientific]
  zero _ := by simp [scientific]
  exponent := by
    rintro mark es h
    simp only [scientific, Option.some.injEq, Prod.mk.injEq] at h
    exact h.2 ▸ digits_ne_nil _

/-- Decimals other than zero are written as proper numerals. -/
theorem proper_decimal (style : NumeralStyle) (negative : Bool) {d : Decimal}
    (hd : d.coefficient ≠ 0) : (style.decimal negative d).Proper := by
  obtain ⟨first, ds, hds, hfirst⟩ := head_digits hd
  unfold decimal
  rw [hds]
  dsimp only
  split
  · exact proper_plain negative hfirst ds _
  · exact style.proper_scientific negative first ds _

end NumeralStyle

namespace Number

theorem isSome_scale_of_neg (c : Nat) {e : Int} (h : e < 0) : (scale c e).isSome := by
  simp [scale, h]

end Number

namespace NumeralStyle

/-- In plain notation the fraction is never empty, and no digits are lost as long as there is room
for them. -/
theorem plain_spec (negative : Bool) {ds : List (Fin 10)} {e : Int} (hnil : ds ≠ [])
    (hds : ofDigits ds ≤ Number.coefficientMax) (he : e ≤ 17) :
    (plain negative ds e).fraction ≠ [] ∧ (plain negative ds e).exponent = none ∧
      ofDigits ((plain negative ds e).whole ++ (plain negative ds e).fraction)
        ≤ Number.coefficientMax := by
  unfold plain
  split
  case isTrue =>
    refine ⟨by simp [hnil], rfl, ?_⟩
    rw [← List.append_assoc, ofDigits_append, ← List.replicate_one, List.replicate_append_replicate,
      ofDigits_replicate]
    simpa using hds
  case isFalse hpos =>
    dsimp only
    split
    case isTrue hwhole =>
      refine ⟨by simp, rfl, ?_⟩
      have hlength : ds.length ≤ e.toNat + 1 := by simpa using hwhole
      have hroom : (10 : Nat) ^ (e.toNat + 2) ≤ 10 ^ 19 :=
        Nat.pow_le_pow_right (by norm_num) (by omega)
      have hmax : (10 : Nat) ^ 19 ≤ Number.coefficientMax := by decide
      refine (ofDigits_lt _).le.trans ((Eq.trans_le ?_ hroom).trans hmax)
      congr 1
      simp only [List.length_append, List.length_take, List.length_replicate, List.length_singleton]
      omega
    case isFalse hfraction =>
      have hlength : e.toNat + 1 < ds.length := by simpa using hfraction
      refine ⟨by simpa using hlength, rfl, ?_⟩
      rw [Nat.sub_eq_zero_of_le hlength.le]
      simpa using hds

theorem isSome_number?_plain (negative : Bool) {ds : List (Fin 10)} {e : Int} (hnil : ds ≠ [])
    (hds : ofDigits ds ≤ Number.coefficientMax) (he : e ≤ 17) :
    (plain negative ds e).number?.isSome := by
  obtain ⟨hfraction, hexponent, hfits⟩ := plain_spec negative hnil hds he
  have hlength := List.length_pos_of_ne_nil hfraction
  rw [Numeral.number?_eq (.inl hfraction) hfits, hexponent, Option.isSome_map]
  exact Number.isSome_scale_of_neg _ (by omega)

/-- The numeral of a decimal is read by scaling its coefficient. -/
theorem number?_scientific (style : NumeralStyle) (hmark : style.mark ≠ .minus) (negative : Bool)
    {d : Decimal} (hd : d.coefficient ≤ Number.coefficientMax)
    (he : d.leading.natAbs ≤ Number.exponentMax) :
    (style.scientific negative (digits d.coefficient) d.leading).number? =
      (Number.scale d.coefficient d.exponent).map fun x =>
        .real { x with negative := negative } := by
  have hds : ofDigits ((digits d.coefficient).take 1 ++ (digits d.coefficient).drop 1)
      = d.coefficient := by
    rw [List.take_append_drop, ofDigits_digits]
  rw [Numeral.number?_eq (.inr (by simp [scientific])) (by rwa [scientific, hds])]
  congr 1
  unfold scientific Number.magnitude
  dsimp only
  rw [hds, ofDigits_digits, if_neg (by omega)]
  -- The written exponent is that of the leading digit, the digits behind it are counted back.
  have hlength : (digits d.coefficient).length = Nat.log 10 d.coefficient + 1 := length_digits _
  have hleading : d.leading = d.exponent + (digits d.coefficient).length - 1 := rfl
  congr 1
  by_cases hneg : d.leading < 0
  · rw [if_pos (by simp [hneg])]
    simp only [List.length_drop]
    omega
  · rw [if_neg (by simp [hneg, hmark])]
    simp only [List.length_drop]
    omega

/-- The numeral of a decimal can be read if its coefficient can be scaled. -/
theorem isSome_number?_decimal (style : NumeralStyle) (hmark : style.mark ≠ .minus)
    (hplain : style.plainTo ≤ 17) (negative : Bool) {d : Decimal}
    (hd : d.coefficient ≤ Number.coefficientMax) (he : d.leading.natAbs ≤ Number.exponentMax)
    (hscale : (Number.scale d.coefficient d.exponent).isSome) :
    (style.decimal negative d).number?.isSome := by
  unfold decimal
  dsimp only
  split
  case isTrue h =>
    have hds : ofDigits (digits d.coefficient) ≤ Number.coefficientMax := by rwa [ofDigits_digits]
    exact isSome_number?_plain negative (digits_ne_nil _) hds (h.2.trans hplain)
  case isFalse =>
    rw [number?_scientific style hmark negative hd he, Option.isSome_map]
    exact hscale

end NumeralStyle

end ShaderNodes
