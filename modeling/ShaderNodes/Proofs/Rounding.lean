import Mathlib
import ShaderNodes.Number.Binary

/-!
# Rounding

Finite binary numbers have a rational magnitude. A quotient is scaled until its mantissa fits,
rounded to the nearest integer, and the rank of the result stands for exactly that integer, scaled
back; a mantissa that is rounded up to a power of two moves on to the next exponent by itself.

* `Binary.magnitude`: what a finite number stands for, up to its sign;
* `Binary.magnitude_round`: a rounded quotient, as long as it stays finite;
* `Format.limit`, `Format.nearestRank_lt_infinityRank`: what stays finite;
* `Binary.magnitude_round_bounds`: quotients of one or more are rounded by half a unit of their last
  place at most.
-/

namespace ShaderNodes

/-! ## Powers and logarithms -/

/-- A power with an integer exponent, by the powers for its positive and its negative part. -/
theorem zpow_mul_pow_toNat_neg {a : ℚ} (ha : a ≠ 0) (n : Int) :
    a ^ n * a ^ (-n).toNat = a ^ n.toNat := by
  rw [← zpow_natCast, ← zpow_natCast, ← zpow_add₀ ha]
  congr 1
  omega

/-- The comparison of a quotient with a power of its base, made on natural numbers. -/
theorem zpow_le_div_iff {base a b : Nat} (hbase : 0 < base) (hb : 0 < b) (e : Int) :
    (base : ℚ) ^ e ≤ a / b ↔ b * base ^ e.toNat ≤ a * base ^ (-e).toNat := by
  have hbase' : (0 : ℚ) < base := by exact_mod_cast hbase
  have hb' : (0 : ℚ) < b := by exact_mod_cast hb
  rw [le_div_iff₀ hb', ← mul_le_mul_iff_left₀ (pow_pos hbase' (-e).toNat), mul_right_comm,
    zpow_mul_pow_toNat_neg hbase'.ne', mul_comm _ (b : ℚ)]
  exact_mod_cast Iff.rfl

/-- The logarithm of a quotient is the difference of the logarithms or one less. -/
theorem zpow_log_bounds {base a b : Nat} (hbase : 1 < base) (ha : a ≠ 0) (hb : b ≠ 0) :
    (base : ℚ) ^ ((Nat.log base a : Int) - Nat.log base b - 1) ≤ a / b ∧
      (a : ℚ) / b < base ^ ((Nat.log base a : Int) - Nat.log base b + 1) := by
  have hbase' : (0 : ℚ) < base := by exact_mod_cast (by omega : 0 < base)
  have hb' : (0 : ℚ) < b := by exact_mod_cast Nat.pos_of_ne_zero hb
  have hlowa : (base : ℚ) ^ Nat.log base a ≤ a := by exact_mod_cast Nat.pow_log_le_self base ha
  have hhigha : (a : ℚ) < base ^ (Nat.log base a + 1) := by
    exact_mod_cast Nat.lt_pow_succ_log_self hbase a
  have hlowb : (base : ℚ) ^ Nat.log base b ≤ b := by exact_mod_cast Nat.pow_log_le_self base hb
  have hhighb : (b : ℚ) < base ^ (Nat.log base b + 1) := by
    exact_mod_cast Nat.lt_pow_succ_log_self hbase b
  constructor
  · have hsplit : (base : ℚ) ^ ((Nat.log base a : Int) - Nat.log base b - 1)
        = base ^ Nat.log base a / base ^ (Nat.log base b + 1) := by
      rw [← zpow_natCast, ← zpow_natCast, ← zpow_sub₀ hbase'.ne']
      congr 1
      push_cast
      ring
    rw [hsplit]
    exact div_le_div₀ (by positivity) hlowa hb' hhighb.le
  · have hsplit : (base : ℚ) ^ ((Nat.log base a : Int) - Nat.log base b + 1)
        = base ^ (Nat.log base a + 1) / base ^ Nat.log base b := by
      rw [← zpow_natCast, ← zpow_natCast, ← zpow_sub₀ hbase'.ne']
      congr 1
      push_cast
      ring
    rw [hsplit]
    exact div_lt_div₀ hhigha hlowb (by positivity) (by positivity)

/-- Numerator and denominator of a scaled quotient. -/
theorem scaledRatio_spec (a : Nat) {b : Nat} (hb : 0 < b) (q : Int) :
    0 < (scaledRatio a b q).2 ∧
      ((scaledRatio a b q).1 : ℚ) / (scaledRatio a b q).2 = a / b / 2 ^ q := by
  have hb' : (b : ℚ) ≠ 0 := by exact_mod_cast hb.ne'
  unfold scaledRatio
  simp only [Nat.pow_eq]
  split
  case isTrue hq =>
    refine ⟨by positivity, ?_⟩
    push_cast
    rw [← zpow_natCast, Int.toNat_of_nonneg hq, div_div]
  case isFalse hq =>
    refine ⟨hb, ?_⟩
    push_cast
    rw [← zpow_natCast, Int.toNat_of_nonneg (by omega), zpow_neg]
    field_simp

theorem floorLog2_spec {a b : Nat} (ha : 0 < a) (hb : 0 < b) :
    (2 : ℚ) ^ floorLog2 a b ≤ a / b ∧ (a : ℚ) / b < 2 ^ (floorLog2 a b + 1) := by
  obtain ⟨hlow, hhigh⟩ := zpow_log_bounds (by norm_num : 1 < 2) ha.ne' hb.ne'
  obtain ⟨hd, hratio⟩ := scaledRatio_spec a hb (a.log2 - b.log2)
  rw [← Nat.log2_eq_log_two, ← Nat.log2_eq_log_two] at hlow hhigh
  have hd' : (0 : ℚ) < (scaledRatio a b (a.log2 - b.log2)).2 := by exact_mod_cast hd
  have htest : (scaledRatio a b (a.log2 - b.log2)).2 ≤ (scaledRatio a b (a.log2 - b.log2)).1 ↔
      (2 : ℚ) ^ ((a.log2 : Int) - b.log2) ≤ a / b := by
    rw [← @Nat.cast_le ℚ, ← one_le_div hd', hratio, one_le_div (by positivity)]
  unfold floorLog2
  dsimp only
  split
  case isTrue h => exact ⟨htest.1 h, hhigh⟩
  case isFalse h =>
    rw [htest, not_le] at h
    exact ⟨hlow, by rwa [sub_add_cancel]⟩

/-- Rounding to an integer moves a quotient by one half at most. -/
theorem roundDiv_spec (a : Nat) {b : Nat} (hb : 0 < b) :
    (a : ℚ) / b - 1 / 2 ≤ roundDiv a b ∧ (roundDiv a b : ℚ) ≤ a / b + 1 / 2 := by
  have hb' : (0 : ℚ) < b := by exact_mod_cast hb
  suffices h : 2 * a ≤ 2 * (roundDiv a b * b) + b ∧ 2 * (roundDiv a b * b) ≤ 2 * a + b by
    have hlow : 2 * (a : ℚ) ≤ 2 * (roundDiv a b * b) + b := by exact_mod_cast h.1
    have hhigh : 2 * (roundDiv a b * b) ≤ 2 * (a : ℚ) + b := by exact_mod_cast h.2
    constructor
    · rw [sub_le_iff_le_add, div_le_iff₀ hb']
      linarith
    · rw [← sub_le_iff_le_add, le_div_iff₀ hb']
      linarith
  have hdiv := Nat.div_add_mod a b
  have hmod := Nat.mod_lt a hb
  rw [mul_comm] at hdiv
  unfold roundDiv
  dsimp only
  split_ifs
  · omega
  · rw [add_mul]
    omega
  · rw [add_mul]
    obtain heven | hodd := Nat.mod_two_eq_zero_or_one (a / b)
    · rw [heven]
      omega
    · rw [hodd]
      omega

/-! ## Magnitudes -/

namespace Binary

variable {f : Format}

/-- What a finite number stands for, without its sign. -/
def magnitude (x : Binary f) : ℚ := x.mantissa * 2 ^ x.exponent

theorem magnitude_nonneg (x : Binary f) : 0 ≤ x.magnitude := by unfold magnitude; positivity

theorem ratio_snd_pos (x : Binary f) : 0 < x.ratio.2 := Nat.two_pow_pos _

theorem ratio_eq_magnitude (x : Binary f) : (x.ratio.1 : ℚ) / x.ratio.2 = x.magnitude := by
  unfold ratio magnitude
  simp only [Nat.pow_eq]
  push_cast
  rw [div_eq_iff (by positivity), mul_assoc, zpow_mul_pow_toNat_neg two_ne_zero]

/-- A rank stands for a mantissa and an exponent; the mantissa may also be the power of two with
which the next exponent begins. -/
theorem magnitude_of_rank {x : Binary f} {r k : Nat} (hrank : x.rank = r + k * 2 ^ f.fractionBits)
    (hr : r ≤ 2 * 2 ^ f.fractionBits) (hk : k = 0 ∨ 2 ^ f.fractionBits ≤ r) :
    x.magnitude = r * 2 ^ (f.leastExponent + k) := by
  have hpos : 0 < 2 ^ f.fractionBits := Nat.two_pow_pos _
  unfold magnitude mantissa exponent
  simp only [Nat.pow_eq]
  obtain hsmall | hlarge := lt_or_ge r (2 ^ f.fractionBits)
  · -- Below the least normal number the rank is the mantissa.
    obtain rfl : k = 0 := hk.resolve_right (by omega)
    obtain rfl : r = x.rank := by omega
    rw [if_pos (by omega), Nat.div_eq_of_lt hsmall]
  · obtain ⟨r, rfl⟩ := Nat.exists_eq_add_of_le hlarge
    obtain hnormal | hcarry := Nat.lt_or_ge r (2 ^ f.fractionBits)
    · have hrank' : x.rank = r + 2 ^ f.fractionBits * (k + 1) := by rw [hrank]; ring
      have hdiv : x.rank / 2 ^ f.fractionBits = k + 1 := by
        rw [hrank', Nat.add_mul_div_left _ _ hpos, Nat.div_eq_of_lt hnormal, Nat.zero_add]
      have hmod : x.rank % 2 ^ f.fractionBits = r := by
        rw [hrank', Nat.add_mul_mod_self_left, Nat.mod_eq_of_lt hnormal]
      rw [hdiv, hmod, Nat.add_sub_cancel]
      split
      case isTrue h =>
        obtain rfl : k = 0 := by
          by_contra hk0
          have : 2 ^ f.fractionBits ≤ k * 2 ^ f.fractionBits := Nat.le_mul_of_pos_left _ (by omega)
          omega
        rw [hrank, Nat.zero_mul, Nat.add_zero]
      case isFalse => rfl
    · -- A mantissa rounded up to a power of two.
      obtain rfl : r = 2 ^ f.fractionBits := by omega
      have hrank' : x.rank = 2 ^ f.fractionBits * (k + 2) := by rw [hrank]; ring
      have hlarge : ¬ x.rank < 2 * 2 ^ f.fractionBits := by
        rw [hrank', not_lt, mul_comm]
        exact Nat.mul_le_mul_left _ (by omega)
      rw [if_neg hlarge, hrank', Nat.mul_div_cancel_left _ hpos, Nat.mul_mod_right,
        show k + 2 - 1 = k + 1 from rfl]
      push_cast
      rw [← add_assoc, zpow_add_one₀ two_ne_zero]
      ring

end Binary

/-! ## Rounded quotients -/

namespace Format

variable {f : Format} {a b : Nat}

/-- The exponent of the last place to which `a / b` is rounded. -/
def place (f : Format) (a b : Nat) : Int := max f.leastExponent (floorLog2 a b - f.fractionBits)

/-- The quotient `a / b` in units of its last place, rounded. -/
def units (f : Format) (a b : Nat) : Nat :=
  roundDiv (scaledRatio a b (f.place a b)).1 (scaledRatio a b (f.place a b)).2

theorem nearestRank_eq (ha : 0 < a) : f.nearestRank a b = min f.infinityRank
    (f.units a b + (f.place a b - f.leastExponent).toNat * 2 ^ f.fractionBits) := by
  rw [nearestRank, if_neg ha.ne']
  rfl

theorem units_spec (f : Format) (a : Nat) (hb : 0 < b) :
    (a : ℚ) / b / 2 ^ f.place a b - 1 / 2 ≤ f.units a b ∧
      (f.units a b : ℚ) ≤ a / b / 2 ^ f.place a b + 1 / 2 := by
  obtain ⟨hd, hratio⟩ := scaledRatio_spec a hb (f.place a b)
  rw [← hratio]
  exact roundDiv_spec _ hd

theorem units_le (ha : 0 < a) (hb : 0 < b) : f.units a b ≤ 2 * 2 ^ f.fractionBits := by
  have hplace : floorLog2 a b + 1 ≤ (f.fractionBits + 1 : Nat) + f.place a b := by
    unfold place
    omega
  have hbound : (a : ℚ) / b / 2 ^ f.place a b < 2 ^ (f.fractionBits + 1) := by
    rw [div_lt_iff₀ (by positivity), ← zpow_natCast, ← zpow_add₀ two_ne_zero]
    exact (floorLog2_spec ha hb).2.trans_le (zpow_le_zpow_right₀ one_le_two hplace)
  have hunits : (f.units a b : ℚ) < (2 * 2 ^ f.fractionBits + 1 : Nat) := by
    push_cast
    rw [pow_succ] at hbound
    linarith [(units_spec f a hb).2]
  exact Nat.le_of_lt_succ (by exact_mod_cast hunits)

/-- Above the least exponent a rounded quotient has all its digits. -/
theorem le_units (ha : 0 < a) (hb : 0 < b) (h : f.leastExponent < f.place a b) :
    2 ^ f.fractionBits ≤ f.units a b := by
  have hplace : (f.fractionBits : Int) + f.place a b = floorLog2 a b := by
    unfold place at h ⊢
    omega
  have hbound : 2 ^ f.fractionBits ≤ (a : ℚ) / b / 2 ^ f.place a b := by
    rw [le_div_iff₀ (by positivity), ← zpow_natCast, ← zpow_add₀ two_ne_zero, hplace]
    exact (floorLog2_spec ha hb).1
  have hunits : ((2 ^ f.fractionBits : Nat) : ℚ) < (f.units a b + 1 : Nat) := by
    push_cast
    linarith [(units_spec f a hb).1]
  exact Nat.le_of_lt_succ (by exact_mod_cast hunits)

/-- The exponent of the largest finite numbers. -/
def greatestExponent (f : Format) : Int := f.leastExponent + (2 ^ f.exponentBits - 3 : Nat)

/-- The quotients below the limit are rounded to finite numbers: it lies half a unit above the
largest of them. -/
def limit (f : Format) : ℚ := (2 * 2 ^ f.fractionBits - 1 / 2) * 2 ^ f.greatestExponent

theorem nearestRank_lt_infinityRank (he : 2 ≤ f.exponentBits) (hb : 0 < b)
    (h : (a : ℚ) / b < f.limit) : f.nearestRank a b < f.infinityRank := by
  have hpos : 0 < 2 ^ f.fractionBits := Nat.two_pow_pos _
  have hfour : 2 ^ 2 ≤ 2 ^ f.exponentBits := Nat.pow_le_pow_right (by norm_num) he
  have hinfinity : f.infinityRank = (2 ^ f.exponentBits - 1) * 2 ^ f.fractionBits := rfl
  obtain rfl | ha := Nat.eq_zero_or_pos a
  · rw [nearestRank, if_pos rfl, hinfinity]
    exact Nat.mul_pos (by omega) hpos
  rw [nearestRank_eq ha]
  refine (min_le_right _ _).trans_lt ?_
  obtain ⟨k, hk⟩ := Nat.exists_eq_add_of_le (show 4 ≤ 2 ^ f.exponentBits from hfour)
  have hunits := units_le (f := f) ha hb
  have hleast : f.leastExponent ≤ f.place a b := le_max_left _ _
  have hgreatest : f.greatestExponent = f.leastExponent + (k + 1 : Nat) := by
    unfold greatestExponent
    rw [hk]
    congr 2
    omega
  rw [hinfinity, hk, show 4 + k - 1 = 2 + (k + 1) by omega, Nat.add_mul]
  obtain hbelow | hat | habove := lt_trichotomy (f.place a b) f.greatestExponent
  · have hshift : (f.place a b - f.leastExponent).toNat < k + 1 := by omega
    exact Nat.add_lt_add_of_le_of_lt hunits (Nat.mul_lt_mul_of_pos_right hshift hpos)
  · -- Half a unit below the next power of two, the mantissa is not rounded up to it.
    have hshift : (f.place a b - f.leastExponent).toNat = k + 1 := by omega
    have hscaled : (a : ℚ) / b / 2 ^ f.place a b < 2 * 2 ^ f.fractionBits - 1 / 2 := by
      rwa [div_lt_iff₀ (by positivity), hat]
    have hless : (f.units a b : ℚ) < (2 * 2 ^ f.fractionBits : Nat) := by
      push_cast
      linarith [(units_spec f a hb).2]
    rw [hshift]
    exact Nat.add_lt_add_right (by exact_mod_cast hless) _
  · -- Beyond the largest exponent the quotient is above the limit.
    exfalso
    have hlog : (f.fractionBits : Int) + 1 + f.greatestExponent ≤ floorLog2 a b := by
      unfold place at habove hleast
      omega
    have hlow : (2 : ℚ) ^ ((f.fractionBits : Int) + 1 + f.greatestExponent) ≤ a / b :=
      (zpow_le_zpow_right₀ one_le_two hlog).trans (floorLog2_spec ha hb).1
    rw [zpow_add₀ two_ne_zero, zpow_add_one₀ two_ne_zero, zpow_natCast] at hlow
    have hunit : (0 : ℚ) < 2 ^ f.greatestExponent := by positivity
    unfold limit at h
    linarith

end Format

namespace Binary

variable {f : Format} {a b : Nat}

theorem isFinite_round (he : 2 ≤ f.exponentBits) (negative : Bool) (hb : 0 < b)
    (h : (a : ℚ) / b < f.limit) : (round f negative a b).isFinite :=
  decide_eq_true (Format.nearestRank_lt_infinityRank he hb h)

/-- A quotient that is rounded to a finite number is rounded to a multiple of its last place. -/
theorem magnitude_round {negative : Bool} (ha : 0 < a) (hb : 0 < b)
    (h : (round f negative a b).isFinite) :
    (round f negative a b).magnitude = f.units a b * 2 ^ f.place a b := by
  have hleast : f.leastExponent ≤ f.place a b := le_max_left _ _
  have hrank : (round f negative a b).rank =
      f.units a b + (f.place a b - f.leastExponent).toNat * 2 ^ f.fractionBits := by
    have hfinite : f.nearestRank a b < f.infinityRank := of_decide_eq_true h
    rw [Format.nearestRank_eq ha, min_lt_iff, or_iff_right (lt_irrefl _)] at hfinite
    exact (Format.nearestRank_eq ha).trans (min_eq_right hfinite.le)
  have hk : (f.place a b - f.leastExponent).toNat = 0 ∨ 2 ^ f.fractionBits ≤ f.units a b := by
    obtain heq | hlt := hleast.eq_or_lt
    · exact .inl (by omega)
    · exact .inr (Format.le_units ha hb hlt)
  rw [magnitude_of_rank hrank (Format.units_le ha hb) hk]
  congr 2
  omega

theorem mantissa_lt (x : Binary f) : x.mantissa < 2 * 2 ^ f.fractionBits := by
  have hmod := Nat.mod_lt x.rank (Nat.two_pow_pos f.fractionBits)
  unfold mantissa
  simp only [Nat.pow_eq]
  split <;> omega

theorem exponent_le {x : Binary f} (hx : x.isFinite) : x.exponent ≤ f.greatestExponent := by
  have hrank : x.rank < (2 ^ f.exponentBits - 1) * 2 ^ f.fractionBits := of_decide_eq_true hx
  have hdiv := Nat.div_lt_of_lt_mul (mul_comm _ (2 ^ f.fractionBits) ▸ hrank)
  unfold exponent Format.greatestExponent
  simp only [Nat.pow_eq]
  omega

/-- Finite numbers lie below the limit. -/
theorem magnitude_lt_limit {x : Binary f} (hx : x.isFinite) : x.magnitude < f.limit := by
  have hmantissa : (x.mantissa : ℚ) ≤ 2 * 2 ^ f.fractionBits - 1 := by
    rw [le_sub_iff_add_le]
    exact_mod_cast x.mantissa_lt
  have hpower : (2 : ℚ) ^ x.exponent ≤ 2 ^ f.greatestExponent :=
    zpow_le_zpow_right₀ one_le_two (exponent_le hx)
  calc x.magnitude
      ≤ x.mantissa * 2 ^ f.greatestExponent := by unfold magnitude; gcongr
    _ ≤ (2 * 2 ^ f.fractionBits - 1) * 2 ^ f.greatestExponent := by gcongr
    _ < f.limit := by
      unfold Format.limit
      gcongr
      norm_num

theorem pos_of_one_le_div (h : 1 ≤ (a : ℚ) / b) : 0 < a := by
  by_contra ha
  norm_num [Nat.eq_zero_of_not_pos ha] at h

/-- The last place of a quotient of one or more is at most a fixed part of the quotient. -/
theorem place_le (he : 2 ≤ f.exponentBits) (hb : 0 < b) (h : 1 ≤ (a : ℚ) / b) :
    (2 : ℚ) ^ f.place a b ≤ a / b / 2 ^ f.fractionBits := by
  have ha := pos_of_one_le_div h
  obtain ⟨hlow, hhigh⟩ := floorLog2_spec ha hb
  have hlog : 0 < floorLog2 a b + 1 := by
    rw [← one_lt_zpow_iff_right₀ (by norm_num : (1 : ℚ) < 2)]
    exact h.trans_lt hhigh
  have htwo : (2 : Int) ^ 1 ≤ 2 ^ (f.exponentBits - 1) :=
    pow_le_pow_right₀ (by norm_num) (by omega)
  have hplace : f.place a b = floorLog2 a b - f.fractionBits := by
    unfold Format.place Format.leastExponent
    simp only [Nat.pow_eq]
    push_cast
    omega
  rw [hplace, zpow_sub₀ two_ne_zero, zpow_natCast]
  gcongr

/-- Quotients of one or more are rounded by half a unit of their last place at most. -/
theorem magnitude_round_bounds (negative : Bool) (he : 2 ≤ f.exponentBits) (hb : 0 < b)
    (h : 1 ≤ (a : ℚ) / b) (hlimit : (a : ℚ) / b < f.limit) :
    a / b * (1 - 1 / (2 * 2 ^ f.fractionBits)) ≤ (round f negative a b).magnitude ∧
      (round f negative a b).magnitude ≤ a / b * (1 + 1 / (2 * 2 ^ f.fractionBits)) := by
  have ha := pos_of_one_le_div h
  have hplace := place_le he hb h
  obtain ⟨hlow, hhigh⟩ := Format.units_spec f a hb
  rw [magnitude_round ha hb (isFinite_round he negative hb hlimit)]
  have hpos : (0 : ℚ) < 2 ^ f.place a b := by positivity
  have hhalf : (a : ℚ) / b * (1 / (2 * 2 ^ f.fractionBits)) = a / b / 2 ^ f.fractionBits / 2 := by
    ring
  rw [sub_le_iff_le_add, div_le_iff₀ hpos] at hlow
  rw [← sub_le_iff_le_add, le_div_iff₀ hpos] at hhigh
  constructor <;> linarith

/-! ## Arithmetic -/

variable {x y : Binary f}

theorem isFinite_mul (he : 2 ≤ f.exponentBits) (h : x.magnitude * y.magnitude < f.limit) :
    (x.mul y).isFinite := by
  refine isFinite_round he _ (Nat.mul_pos x.ratio_snd_pos y.ratio_snd_pos) ?_
  rw [← ratio_eq_magnitude, ← ratio_eq_magnitude, div_mul_div_comm] at h
  exact_mod_cast h

/-- A quotient by one or more is not larger than what is divided. -/
theorem isFinite_div (he : 2 ≤ f.exponentBits) (hx : x.isFinite) (hy : 1 ≤ y.magnitude) :
    (x.div y).isFinite := by
  have hpos : 0 < y.ratio.1 := by
    rw [← ratio_eq_magnitude] at hy
    exact pos_of_one_le_div hy
  refine isFinite_round he _ (Nat.mul_pos x.ratio_snd_pos hpos) ?_
  have hquotient : ((x.ratio.1 * y.ratio.2 : Nat) : ℚ) / (x.ratio.2 * y.ratio.1 : Nat)
      = x.magnitude / y.magnitude := by
    rw [← ratio_eq_magnitude, ← ratio_eq_magnitude, div_div_div_eq]
    push_cast
    rfl
  rw [hquotient]
  exact (div_le_self x.magnitude_nonneg hy).trans_lt (magnitude_lt_limit hx)

/-- A finite number stays finite in its own format. -/
theorem isFinite_convert (he : 2 ≤ f.exponentBits) (hx : x.isFinite) : (x.convert f).isFinite := by
  rw [convert, if_pos hx]
  refine isFinite_round he _ x.ratio_snd_pos ?_
  rw [ratio_eq_magnitude]
  exact magnitude_lt_limit hx

end Binary

end ShaderNodes
