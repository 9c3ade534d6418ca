import Mathlib
import ShaderNodes.Proofs.Echoes
import ShaderNodes.Proofs.ShortestDecimals

/-!
# Written numbers can be read

A numeral is read in floating point: the coefficient and the power of ten are each rounded, and so
is their product. The three roundings could push a number that is close to the largest one beyond
all finite numbers; they never do so for the shortest decimal of a finite number. Whatever numeral
is read, the number is finite.

* `Numeral.isFinite_toBinary`: numbers that are read are finite;
* `NumeralStyle.isSome_number?_numeral`: when the numerals of finite numbers can be read;
* `Codec.echo_word`, `Codec.exists_echo_single`, `Codec.exists_echo_double`: what the codecs read of
  what they wrote.
-/

namespace ShaderNodes

namespace Format

/-- Digits of a format that seventeen decimal digits can tell apart, with exponents no wider than
those of 64-bit numbers. -/
structure Common (f : Format) : Prop where
  digits : 2 * 2 ^ f.fractionBits ≤ 10 ^ 16
  least : -1074 ≤ f.leastExponent
  greatest : f.greatestExponent ≤ 971

theorem common_single : Common .single := ⟨by decide, by decide, by decide⟩

theorem common_double : Common .double := ⟨by decide, by decide, by decide⟩

theorem limit_double : double.limit = (2 ^ 53 - 1 / 2) * 2 ^ 971 := by
  rw [limit, show double.greatestExponent = (971 : Nat) from rfl, zpow_natCast,
    show double.fractionBits = 52 from rfl, ← pow_succ']

theorem limit_double_nat : double.limit = ((2 ^ 54 - 1) * 2 ^ 970 : Nat) := by
  rw [limit_double, pow_succ (2 : ℚ) 970, Nat.cast_mul, Nat.cast_pow, Nat.cast_ofNat]
  generalize (2 : ℚ) ^ 970 = unit
  norm_num
  ring

end Format

/-! ## Numbers that are read are finite -/

namespace Number

theorem lt_limit {c : Nat} (h : c ≤ 10 ^ stepMax) : (c : ℚ) < Format.double.limit := by
  rw [Format.limit_double_nat, Nat.cast_lt]
  exact h.trans_lt (by decide +kernel)

theorem limit_lt : Format.double.limit < (10 ^ (stepMax + 1) : Nat) := by
  rw [Format.limit_double_nat, Nat.cast_lt]
  decide +kernel

theorem coefficientMax_le : coefficientMax ≤ 10 ^ stepMax := by decide +kernel

theorem isFinite_round {c : Nat} (negative : Bool) (h : (c : ℚ) < Format.double.limit) :
    (Binary.round .double negative c 1).isFinite :=
  Binary.isFinite_round (by decide) negative one_pos (by rwa [Nat.cast_one, div_one])

theorem magnitude_round_bounds {c : Nat} (hc : 1 ≤ c) (h : (c : ℚ) < Format.double.limit) :
    c * (1 - 1 / 2 ^ 53) ≤ (Binary.round .double false c 1).magnitude ∧
      (Binary.round .double false c 1).magnitude ≤ c * (1 + 1 / 2 ^ 53) := by
  have hc' : (1 : ℚ) ≤ (c : ℚ) / (1 : Nat) := by rw [Nat.cast_one, div_one]; exact_mod_cast hc
  have hbounds := Binary.magnitude_round_bounds (f := .double) false (by decide) one_pos hc'
    (by rwa [Nat.cast_one, div_one])
  rwa [Nat.cast_one, div_one, show Format.double.fractionBits = 52 from rfl, ← pow_succ'] at hbounds

theorem one_le_powerOfTen {n : Nat} (hn : 1 ≤ n) (hmax : n ≤ stepMax) :
    1 ≤ (powerOfTen n).magnitude := by
  have hten : 10 ^ 1 ≤ 10 ^ n := Nat.pow_le_pow_right (by norm_num) hn
  have hten' : (10 : ℚ) ≤ (10 ^ n : Nat) := by exact_mod_cast hten
  have hlimit := lt_limit (Nat.pow_le_pow_right (by norm_num : 0 < 10) hmax)
  refine le_trans ?_ (magnitude_round_bounds (le_trans (by norm_num) hten) hlimit).1
  linarith

theorem isFinite_scaleDown {x : Double} {n : Nat} (hn : 1 ≤ n) (hx : x.isFinite) :
    (scaleDown x n).isFinite := by
  fun_induction scaleDown x n with
  | case1 x n hmax => exact Binary.isFinite_div (by decide) hx (one_le_powerOfTen hn hmax)
  | case2 x n hmax hzero => exact hx
  | case3 x n hmax hzero ih =>
    have hpower : 1 ≤ (powerOfTen stepMax).magnitude := one_le_powerOfTen (by decide) le_rfl
    exact ih (by omega) (Binary.isFinite_div (by decide) hx hpower)

theorem isFinite_scale {c : Nat} {e : Int} {y : Double} (hc : c ≤ coefficientMax)
    (h : scale c e = some y) : y.isFinite := by
  have hx := isFinite_round false (lt_limit (hc.trans coefficientMax_le))
  unfold scale at h
  dsimp only at h
  split_ifs at h with hneg hmax hfinite hzero <;> cases h
  · exact isFinite_scaleDown (by omega) hx
  · exact hfinite
  · exact hx

theorem isFinite_magnitude {c : Nat} {e : Int} {mark : Option (ExponentMark × List (Fin 10))}
    {y : Double} (hc : c ≤ coefficientMax) (h : magnitude c e mark = some y) : y.isFinite := by
  cases mark with
  | none => exact isFinite_scale hc h
  | some mark =>
    unfold magnitude at h
    dsimp only at h
    split_ifs at h
    · cases h
      decide
    · exact isFinite_scale hc h
    · exact isFinite_scale hc h

theorem gather_le {c : Nat} (hc : c ≤ coefficientMax) (ds : List (Fin 10)) :
    (gather c ds).1 ≤ coefficientMax := by
  fun_induction gather c ds with
  | case1 c => exact hc
  | case2 c d ds h ih => exact ih h
  | case3 c d ds h => exact hc

end Number

/-- Whatever a numeral stands for, it is finite among the 64-bit numbers. -/
theorem Numeral.isFinite_toBinary {n : Numeral} {y : Number} (h : n.number? = some y) :
    (y.toBinary .double).isFinite := by
  have hwhole : (Number.gather 0 n.whole).1 ≤ Number.coefficientMax :=
    Number.gather_le (Nat.zero_le _) _
  have hround (negative : Bool) {c : Nat} (hc : c ≤ Number.coefficientMax) :
      (Binary.round .double negative c 1).isFinite :=
    Number.isFinite_round negative (Number.lt_limit (hc.trans Number.coefficientMax_le))
  unfold number? at h
  dsimp only at h
  split_ifs at h
  · cases h
    exact hround false hwhole
  · cases h
    exact Binary.isFinite_convert (by decide) (hround true hwhole)
  · cases h
    exact hround true hwhole
  · obtain ⟨x, hx, rfl⟩ := Option.map_eq_some_iff.1 h
    have hfinite := Number.isFinite_magnitude (Number.gather_le hwhole _) hx
    exact Binary.isFinite_convert (by decide) hfinite

/-! ## Numerals of finite numbers can be read -/

namespace Number

/-- A coefficient is scaled with two roundings in front of the last one. -/
theorem isSome_scale {c n : Nat} (hc : c ≠ 0)
    (h : (c : ℚ) * (10 ^ n : Nat) * (1 + 1 / 2 ^ 53) ^ 2 < Format.double.limit) :
    (scale c n).isSome := by
  have hc' : (1 : ℚ) ≤ c := by exact_mod_cast Nat.one_le_iff_ne_zero.2 hc
  have hpower : 1 ≤ 10 ^ n := Nat.one_le_pow _ _ (by norm_num)
  have hpower' : (1 : ℚ) ≤ (10 ^ n : Nat) := by exact_mod_cast hpower
  have hproduct : (c : ℚ) * (10 ^ n : Nat) < Format.double.limit :=
    (le_mul_of_one_le_right (by positivity) (by norm_num)).trans_lt h
  have hc_limit := (le_mul_of_one_le_right (by positivity) hpower').trans_lt hproduct
  have hn_limit := (le_mul_of_one_le_left (by positivity) hc').trans_lt hproduct
  have hn : n < stepMax + 1 := by
    rw [← Nat.pow_lt_pow_iff_right (by norm_num : 1 < 10), ← @Nat.cast_lt ℚ]
    exact hn_limit.trans limit_lt
  -- Both factors are below the limit, so neither of them becomes infinite on its own.
  have hx := (magnitude_round_bounds (Nat.one_le_iff_ne_zero.2 hc) hc_limit).2
  have hy := (magnitude_round_bounds hpower hn_limit).2
  have hfinite : ((Binary.round .double false c 1).mul (powerOfTen n)).isFinite := by
    refine Binary.isFinite_mul (by decide) (lt_of_le_of_lt ?_ h)
    calc (Binary.round .double false c 1).magnitude * (powerOfTen n).magnitude
        ≤ (c * (1 + 1 / 2 ^ 53)) * ((10 ^ n : Nat) * (1 + 1 / 2 ^ 53)) :=
          mul_le_mul hx hy (Binary.magnitude_nonneg _) (by positivity)
      _ = c * (10 ^ n : Nat) * (1 + 1 / 2 ^ 53) ^ 2 := by ring
  unfold scale
  dsimp only
  rw [if_neg (by omega), if_pos (by omega), Int.toNat_natCast, if_pos hfinite]
  rfl

theorem isSome_scale_of_value {d : Decimal} (hd : d.coefficient ≠ 0)
    (h : d.value * (1 + 1 / 2 ^ 53) ^ 2 < Format.double.limit) :
    (scale d.coefficient d.exponent).isSome := by
  obtain hneg | hpos := lt_or_ge d.exponent 0
  · exact isSome_scale_of_neg _ hneg
  · obtain ⟨n, hn⟩ := Int.eq_ofNat_of_zero_le hpos
    rw [Decimal.value, hn, zpow_natCast] at h
    rw [hn]
    exact isSome_scale hd (by exact_mod_cast h)

end Number

variable {f : Format} {x : Binary f}

theorem Binary.mantissa_pos (hx : x.isZero = false) : 0 < x.mantissa := by
  have hrank : x.rank ≠ 0 := of_decide_eq_false hx
  have hpos := Nat.two_pow_pos f.fractionBits
  unfold mantissa
  split
  · omega
  · exact Nat.add_pos_left hpos _

namespace Basin

/-- The shortest decimal is scaled without overflow, unless the number is one of the two largest
64-bit numbers. -/
theorem isSome_scale_shortest (hf : f.Common) (hx : 0 < x.mantissa) (tie : Tie)
    (h : ((x.mantissa : ℚ) + 1 / 2) * 2 ^ x.exponent ≤ (2 ^ 53 - 5 / 2) * 2 ^ 971) :
    (Number.scale ((of x).shortest tie).coefficient ((of x).shortest tie).exponent).isSome := by
  obtain ⟨hzero, -, -, hvalue⟩ := shortest_spec tie hf.digits hx
  refine Number.isSome_scale_of_value hzero ?_
  have hroom : ((2 : ℚ) ^ 53 - 5 / 2) * (1 + 1 / 2 ^ 53) ^ 2 < 2 ^ 53 - 1 / 2 := by norm_num
  calc ((of x).shortest tie).value * (1 + 1 / 2 ^ 53) ^ 2
      ≤ (2 ^ 53 - 5 / 2) * 2 ^ 971 * (1 + 1 / 2 ^ 53) ^ 2 := by
        gcongr
        exact hvalue.trans h
    _ = (2 ^ 53 - 5 / 2) * (1 + 1 / 2 ^ 53) ^ 2 * 2 ^ 971 := by rw [mul_right_comm]
    _ < (2 ^ 53 - 1 / 2) * 2 ^ 971 := mul_lt_mul_of_pos_right hroom (by positivity)
    _ = Format.double.limit := Format.limit_double.symm

theorem room_of_exponent {m : Nat} {e : Int} (hm : m < 2 ^ 53) (he : e ≤ 970) :
    ((m : ℚ) + 1 / 2) * 2 ^ e ≤ (2 ^ 53 - 5 / 2) * 2 ^ 971 := by
  have hm' : (m : ℚ) + 1 ≤ 2 ^ 53 := by exact_mod_cast hm
  have he' : (2 : ℚ) ^ e ≤ 2 ^ 970 := by
    rw [← zpow_natCast]
    exact zpow_le_zpow_right₀ one_le_two he
  calc ((m : ℚ) + 1 / 2) * 2 ^ e
      ≤ (2 ^ 53 - 5 / 2) * 2 * 2 ^ 970 := by
        refine mul_le_mul ?_ he' (by positivity) (by norm_num)
        linarith
    _ = (2 ^ 53 - 5 / 2) * 2 ^ 971 := by rw [mul_assoc, ← pow_succ']

theorem isSome_scale_shortest_single {x : Single} (hx : x.isFinite) (hzero : 0 < x.mantissa)
    (tie : Tie) :
    (Number.scale ((of x).shortest tie).coefficient ((of x).shortest tie).exponent).isSome := by
  have hmantissa : x.mantissa < 2 * 2 ^ 23 := x.mantissa_lt
  have hexponent : x.exponent ≤ 104 := Binary.exponent_le hx
  exact isSome_scale_shortest Format.common_single hzero tie
    (room_of_exponent (by omega) (by omega))

/-- The two largest 64-bit numbers are so close to the limit that their decimals are looked at. -/
theorem isSome_scale_shortest_largest {x : Double} (he : x.exponent = 971)
    (hm : x.mantissa = 2 ^ 53 - 2 ∨ x.mantissa = 2 ^ 53 - 1) (tie : Tie) :
    (Number.scale ((of x).shortest tie).coefficient ((of x).shortest tie).exponent).isSome := by
  have hbasin : of x = ⟨x.mantissa, 971, 4 * x.mantissa - 2, 4 * x.mantissa + 2,
      x.mantissa % 2 = 0⟩ := by
    have hpower : ¬ x.mantissa = 2 ^ 52 := by omega
    rw [of, he, if_neg (fun h => hpower h.1)]
  rw [hbasin]
  obtain hm | hm := hm <;> rw [hm] <;> cases tie <;> decide +kernel

theorem isSome_scale_shortest_double {x : Double} (hx : x.isFinite) (hzero : 0 < x.mantissa)
    (tie : Tie) :
    (Number.scale ((of x).shortest tie).coefficient ((of x).shortest tie).exponent).isSome := by
  have hmantissa : x.mantissa < 2 * 2 ^ 52 := x.mantissa_lt
  have hexponent : x.exponent ≤ 971 := Binary.exponent_le hx
  by_cases hlargest : x.exponent = 971 ∧ 2 ^ 53 - 2 ≤ x.mantissa
  · exact isSome_scale_shortest_largest hlargest.1 (by omega) tie
  · refine isSome_scale_shortest Format.common_double hzero tie ?_
    obtain hless | hequal := hexponent.lt_or_eq
    · exact room_of_exponent (by omega) (by omega)
    · have hm : (x.mantissa : ℚ) + 3 ≤ 2 ^ 53 := by
        exact_mod_cast (by omega : x.mantissa + 3 ≤ 2 ^ 53)
      rw [hequal]
      refine mul_le_mul_of_nonneg_right ?_ (by positivity)
      linarith

end Basin

namespace NumeralStyle

/-- The leading digit of a number of a common format is never out of the range of exponents. -/
theorem natAbs_leading_le (hf : f.Common) (hx : x.isFinite) (hzero : 0 < x.mantissa) (tie : Tie) :
    ((Basin.of x).shortest tie).leading.natAbs ≤ Number.exponentMax := by
  obtain ⟨hcoefficient, -, hlow, hhigh⟩ := Basin.shortest_spec tie hf.digits hzero
  obtain ⟨hfirst, hlast⟩ := Decimal.leading_bounds _ hcoefficient
  have hten : (1 : ℚ) < 10 := by norm_num
  -- Powers of two are compared with the same powers of ten; the range of exponents is far wider.
  have hupper : ((Basin.of x).shortest tie).leading ≤ 16 + 971 := by
    have hmantissa : (x.mantissa : ℚ) + 1 / 2 ≤ 10 ^ (16 : Int) := by
      have hdigits : (x.mantissa : ℚ) + 1 ≤ 10 ^ 16 := by
        exact_mod_cast (Nat.succ_le_of_lt x.mantissa_lt).trans hf.digits
      rw [zpow_ofNat]
      linarith
    have hexponent : (2 : ℚ) ^ x.exponent ≤ 10 ^ (971 : Int) :=
      (zpow_le_zpow_right₀ one_le_two ((Binary.exponent_le hx).trans hf.greatest)).trans
        (zpow_le_zpow_left₀ (by norm_num) (by norm_num) (by norm_num))
    rw [← zpow_le_zpow_iff_right₀ hten, zpow_add₀ (by norm_num)]
    refine hfirst.trans (hhigh.trans ?_)
    exact mul_le_mul hmantissa hexponent (by positivity) (by positivity)
  have hlower : -1076 < ((Basin.of x).shortest tie).leading + 1 := by
    have hexponent : -1074 ≤ x.exponent := hf.least.trans (by unfold Binary.exponent; omega)
    rw [← zpow_lt_zpow_iff_right₀ hten]
    refine lt_of_le_of_lt ?_ (hlow.trans_lt hlast)
    refine le_trans ?_ (zpow_le_zpow_right₀ one_le_two (by omega : -1076 ≤ x.exponent - 2))
    rw [zpow_neg, zpow_neg]
    exact inv_anti₀ (by positivity) (zpow_le_zpow_left₀ (by norm_num) (by norm_num) (by norm_num))
  unfold Number.exponentMax
  rw [Nat.pow_eq]
  omega

/-- Numerals of finite numbers can be read if their shortest decimals can be scaled. -/
theorem isSome_number?_numeral (style : NumeralStyle) (hmark : style.mark ≠ .minus)
    (hplain : style.plainTo ≤ 17) (hf : f.Common) (hx : x.isFinite)
    (hscale : 0 < x.mantissa → (Number.scale ((Basin.of x).shortest style.tie).coefficient
      ((Basin.of x).shortest style.tie).exponent).isSome) :
    (style.numeral x).number?.isSome := by
  unfold numeral
  split
  case isTrue =>
    exact @isSome_number?_plain x.negative [0] 0 (by simp) (by decide) (by decide)
  case isFalse h =>
    have hzero := Binary.mantissa_pos (Bool.eq_false_iff.2 h)
    obtain ⟨-, hdigits, -, -⟩ := Basin.shortest_spec style.tie hf.digits hzero
    exact isSome_number?_decimal style hmark hplain _ (hdigits.trans (by decide))
      (natAbs_leading_le hf hx hzero _) (hscale hzero)

theorem proper_numeral (style : NumeralStyle) (hf : f.Common) (x : Binary f) :
    (style.numeral x).Proper := by
  unfold numeral
  split
  case isTrue => exact ⟨by simp, fun _ => rfl, by simp⟩
  case isFalse h =>
    have hzero := Binary.mantissa_pos (Bool.eq_false_iff.2 h)
    exact style.proper_decimal _ (Basin.shortest_spec style.tie hf.digits hzero).1

end NumeralStyle

/-! ## Codecs of numbers -/

namespace Codec

open Json Json.Reading

theorem complete_word : word.Complete := fun n => Numeral.proper_ofNat n.toNat

theorem echo_word (n : UInt32) : word.echo n = pure n := by
  have hsize : n.toNat < UInt32.size := n.toNat_lt
  have hnumber : (Numeral.ofNat n.toNat).number? = some (.natural n.toNat) :=
    Numeral.number?_ofNat (hsize.le.trans (by decide))
  have hread : readNumber (Numeral.ofNat n.toNat) = pure (.natural n.toNat) := by
    rw [readNumber, hnumber]
  change (readNumber (Numeral.ofNat n.toNat) >>= _) = _
  rw [hread, pure_bind]
  calc _ = pure (UInt32.ofNat n.toNat) := if_pos hsize
    _ = pure n := by rw [UInt32.ofNat_toNat]

theorem complete_binary (hf : f.Common) (style : NumeralStyle) (wanted : String) :
    (binary f style wanted).Complete := by
  intro x
  unfold binary
  dsimp only
  split
  · exact style.proper_numeral hf x
  · trivial

theorem echo_binary_of_finite (style : NumeralStyle) (wanted : String) (hx : x.isFinite) :
    (binary f style wanted).echo x = (·.toBinary f) <$> readNumber (style.numeral x) := by
  unfold echo binary
  dsimp only
  rw [if_pos hx]
  rfl

/-- A number that is not finite is written as `null`, which is no number. -/
theorem echo_binary_of_not_finite (style : NumeralStyle) (wanted : String)
    (hx : x.isFinite = false) :
    (binary f style wanted).echo x = refuse (.wrongKind .null wanted) := by
  unfold echo binary
  dsimp only
  rw [if_neg (by simp [hx])]
  rfl

theorem exists_echo_of_isSome {style : NumeralStyle} (wanted : String) (hx : x.isFinite)
    (h : (style.numeral x).number?.isSome) :
    ∃ y, (binary f style wanted).echo x = pure y := by
  obtain ⟨n, hn⟩ := Option.isSome_iff_exists.1 h
  refine ⟨n.toBinary f, ?_⟩
  rw [echo_binary_of_finite style wanted hx, readNumber, hn]
  rfl

/-- Finite numbers can be read again. -/
theorem exists_echo_single {x : Single} (hx : x.isFinite) : ∃ y, single.echo x = pure y :=
  exists_echo_of_isSome _ hx (singleStyle.isSome_number?_numeral (by decide) (by decide)
    Format.common_single hx fun h => Basin.isSome_scale_shortest_single hx h _)

theorem exists_echo_double {x : Double} (hx : x.isFinite) : ∃ y, double.echo x = pure y :=
  exists_echo_of_isSome _ hx (doubleStyle.isSome_number?_numeral (by decide) (by decide)
    Format.common_double hx fun h => Basin.isSome_scale_shortest_double hx h _)

end Codec

end ShaderNodes
