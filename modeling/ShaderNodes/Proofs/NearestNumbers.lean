import Mathlib
import ShaderNodes.Proofs.WrittenNumbers

/-!
# Nearest numbers

Which number of a format a rational number is rounded to is said without a function that rounds: no
finite number is nearer, of two that are equally near the even one is meant, and the sign of zero is
that which was given. Ranks grow with the magnitude, so two even numbers are never neighbours, and
rounding has one result only.

Two functions turn out to go by this relation. Quotients are scaled until they can be rounded to an
integer, and no number lies nearer than the multiple of the unit that comes out. And the basin of a
number, in which its shortest decimal is looked for, holds what is rounded to the number: it ends
halfway to the neighbours, and the ends belong to it if the number is even.

* `Binary.magnitude_succ`, `Binary.magnitude_lt`: neighbours, and how ranks grow;
* `Binary.Rounds`, `Binary.Rounds.unique`, `Binary.Rounds.lt_of_rank_lt`: rounding to nearest;
* `Binary.rounds_round`, `Binary.Rounds.round_eq`: rounded quotients;
* `Basin.holds_iff_rounds`: basins.
-/

namespace ShaderNodes

namespace Binary

variable {f : Format} {x y : Binary f}

/-! ## Neighbours -/

/-- A rank is a mantissa and a number of steps of the exponent. -/
theorem rank_eq (x : Binary f) :
    x.rank = x.mantissa + (x.rank / 2 ^ f.fractionBits - 1) * 2 ^ f.fractionBits ∧
      (x.rank / 2 ^ f.fractionBits - 1 = 0 ∨ 2 ^ f.fractionBits ≤ x.mantissa) := by
  have hpos : 0 < 2 ^ f.fractionBits := Nat.two_pow_pos _
  have hdiv := Nat.div_add_mod x.rank (2 ^ f.fractionBits)
  unfold mantissa
  simp only [Nat.pow_eq]
  split
  case isTrue h =>
    have hless : x.rank / 2 ^ f.fractionBits < 2 := Nat.div_lt_of_lt_mul (by omega)
    have hzero : x.rank / 2 ^ f.fractionBits - 1 = 0 := by omega
    rw [hzero]
    omega
  case isFalse h =>
    have hle : 2 ≤ x.rank / 2 ^ f.fractionBits := (Nat.le_div_iff_mul_le hpos).2 (by omega)
    obtain ⟨k, hk⟩ := Nat.exists_eq_add_of_le' hle
    rw [hk] at hdiv ⊢
    refine ⟨?_, .inr (by omega)⟩
    rw [show k + 2 - 1 = k + 1 from rfl]
    linarith

theorem magnitude_eq_of_rank (h : x.rank = y.rank) : x.magnitude = y.magnitude := by
  unfold magnitude mantissa exponent
  rw [h]

/-- From one number to the next there is one unit of the last place of the former. -/
theorem magnitude_succ (h : y.rank = x.rank + 1) : y.magnitude = x.magnitude + 2 ^ x.exponent := by
  obtain ⟨hrank, hk⟩ := x.rank_eq
  have hrank' : y.rank = (x.mantissa + 1)
      + (x.rank / 2 ^ f.fractionBits - 1) * 2 ^ f.fractionBits := by omega
  rw [magnitude_of_rank hrank' x.mantissa_lt (by omega)]
  unfold magnitude exponent
  simp only [Nat.pow_eq]
  push_cast
  ring

/-- Ranks grow with the magnitude. -/
theorem magnitude_lt (h : x.rank < y.rank) : x.magnitude < y.magnitude := by
  obtain ⟨n, hn⟩ := Nat.exists_eq_add_of_lt h
  clear h
  induction n generalizing y with
  | zero =>
    rw [magnitude_succ hn]
    exact lt_add_of_pos_right _ (by positivity)
  | succ n ih =>
    have hlast := y.rank_lt
    let z : Binary f := ⟨false, x.rank + n + 1, by omega⟩
    have hz : x.magnitude < z.magnitude := ih rfl
    rw [magnitude_succ (x := z) hn]
    exact hz.trans (lt_add_of_pos_right _ (by positivity))

theorem magnitude_le (h : x.rank ≤ y.rank) : x.magnitude ≤ y.magnitude := by
  obtain heq | hlt := h.eq_or_lt
  · exact (magnitude_eq_of_rank heq).le
  · exact (magnitude_lt hlt).le

end Binary

/-! ## Rounding to nearest -/

/-- A number given by its sign and its magnitude. -/
def signed (negative : Bool) (q : ℚ) : ℚ := if negative then -q else q

namespace Binary

variable {f : Format} {x y : Binary f} {negative : Bool} {q r : ℚ}

/-- What a finite number stands for. -/
def value (x : Binary f) : ℚ := signed x.negative x.magnitude

/-- A number with the given sign is rounded to `x`: no finite number is nearer to it, and `x` is even
if another one is as near. Zero keeps its sign, and numbers from the limit on are not rounded to
finite ones. -/
structure Rounds (negative : Bool) (q : ℚ) (x : Binary f) : Prop where
  finite : x.isFinite
  sign : x.negative = negative
  inside : |q| < f.limit
  nearest : ∀ y : Binary f, y.isFinite → |x.value - q| ≤ |y.value - q|
  even : ∀ y : Binary f, y.isFinite → y.value ≠ x.value → |y.value - q| = |x.value - q| →
    x.rank % 2 = 0

theorem value_neg (x : Binary f) : x.neg.value = -x.value := by
  obtain ⟨negative, rank, hrank⟩ := x
  cases negative
  · rfl
  · exact (neg_neg _).symm

theorem neg_involutive : Function.Involutive (neg : Binary f → Binary f) := by
  intro x
  obtain ⟨negative, rank, hrank⟩ := x
  cases negative <;> rfl

theorem Rounds.neg (h : Rounds negative q x) : Rounds (!negative) (-q) x.neg := by
  have hdist (y : Binary f) : |y.value - -q| = |y.neg.value - q| := by
    rw [value_neg, ← abs_neg]
    congr 1
    ring
  refine ⟨h.finite, congrArg not h.sign, by rw [abs_neg]; exact h.inside, fun y hy => ?_,
    fun y hy hne heq => h.even y.neg hy ?_ ?_⟩
  · rw [hdist, hdist, neg_involutive]
    exact h.nearest y.neg hy
  · intro hsame
    apply hne
    rw [value_neg, ← hsame, value_neg, neg_neg]
  · rwa [hdist, hdist, neg_involutive] at heq

theorem rounds_neg_iff : Rounds (!negative) (-q) x.neg ↔ Rounds negative q x := by
  constructor
  · intro h
    have hback := h.neg
    rwa [Bool.not_not, neg_neg, neg_involutive] at hback
  · exact Rounds.neg

/-- What is nearer to the smaller of two numbers lies below their middle. -/
theorem two_mul_le_of_abs_le {a b : ℚ} (hab : a < b) (h : |a - q| ≤ |b - q|) :
    2 * q ≤ a + b := by
  obtain ⟨ha, ha'⟩ | ⟨ha, ha'⟩ := abs_cases (a - q) <;>
    obtain ⟨hb, hb'⟩ | ⟨hb, hb'⟩ := abs_cases (b - q) <;> linarith

theorem le_two_mul_of_abs_le {a b : ℚ} (hab : a < b) (h : |b - q| ≤ |a - q|) :
    a + b ≤ 2 * q := by
  obtain ⟨ha, ha'⟩ | ⟨ha, ha'⟩ := abs_cases (a - q) <;>
    obtain ⟨hb, hb'⟩ | ⟨hb, hb'⟩ := abs_cases (b - q) <;> linarith

theorem value_of_positive (h : x.negative = false) : x.value = x.magnitude := by
  simp [value, signed, h]

/-- Two even numbers have one between them, so they are never the two that are nearest. -/
theorem Rounds.rank_not_lt (hx : Rounds false q x) (hy : Rounds false q y) :
    ¬ x.rank < y.rank := by
  intro h
  have hlast := y.rank_lt
  have hfinite : y.rank < f.infinityRank := of_decide_eq_true hy.finite
  have hxy := hx.nearest y hy.finite
  have hyx := hy.nearest x hx.finite
  have hlt := magnitude_lt h
  have hne : x.value ≠ y.value := by
    rw [value_of_positive hx.sign, value_of_positive hy.sign]
    exact hlt.ne
  have hxeven := hx.even y hy.finite hne.symm (le_antisymm hyx hxy)
  have hyeven := hy.even x hx.finite hne (le_antisymm hxy hyx)
  let z : Binary f := ⟨false, x.rank + 1, by omega⟩
  have hz : z.rank = x.rank + 1 := rfl
  have hzfinite : z.isFinite := decide_eq_true (by omega)
  have hxz : x.magnitude < z.magnitude := magnitude_lt (by omega)
  have hzy : z.magnitude < y.magnitude := magnitude_lt (by omega)
  have hnear := hx.nearest z hzfinite
  rw [value_of_positive hx.sign, value_of_positive rfl] at hnear
  rw [value_of_positive hx.sign, value_of_positive hy.sign] at hyx
  have hbelow := two_mul_le_of_abs_le hxz hnear
  have habove := le_two_mul_of_abs_le hlt hyx
  linarith

/-- A number is rounded in one way only. -/
theorem Rounds.unique (hx : Rounds negative q x) (hy : Rounds negative q y) : x = y := by
  have hrank : x.rank = y.rank := by
    cases negative with
    | false =>
      have hxy := hx.rank_not_lt hy
      have hyx := hy.rank_not_lt hx
      omega
    | true =>
      have hxy := hx.neg.rank_not_lt hy.neg
      have hyx := hy.neg.rank_not_lt hx.neg
      exact le_antisymm (not_lt.1 hyx) (not_lt.1 hxy)
  have hsign : x.negative = y.negative := hx.sign.trans hy.sign.symm
  obtain ⟨negative, rank, hlt⟩ := x
  obtain ⟨negative', rank', hlt'⟩ := y
  obtain rfl : negative = negative' := hsign
  obtain rfl : rank = rank' := hrank
  rfl

/-- Larger numbers come from larger ones. -/
theorem Rounds.lt_of_rank_lt (hx : Rounds false q x) (hy : Rounds false r y)
    (h : x.rank < y.rank) : q < r := by
  have hlt := magnitude_lt h
  have hxy := hx.nearest y hy.finite
  have hyx := hy.nearest x hx.finite
  rw [value_of_positive hx.sign, value_of_positive hy.sign] at hxy hyx
  have hq := two_mul_le_of_abs_le hlt hxy
  have hr := le_two_mul_of_abs_le hlt hyx
  refine lt_of_le_of_ne (by linarith) ?_
  rintro rfl
  exact hx.rank_not_lt hy h

/-! ## What is rounded to a number -/

/-- Numbers other than a positive one lie at its neighbours or beyond them. -/
theorem value_cases (hx : x.negative = false) {z : Binary f} (hz : x.rank = z.rank + 1)
    (y : Binary f) : y.value = x.value ∨ y.value ≤ z.magnitude ∨
      x.magnitude + 2 ^ x.exponent ≤ y.value := by
  by_cases hnegative : y.negative
  · have hy := y.magnitude_nonneg
    have hz := z.magnitude_nonneg
    refine .inr (.inl ?_)
    simp only [value, signed, hnegative, if_true]
    linarith
  rw [Bool.not_eq_true] at hnegative
  rw [value_of_positive hx, value_of_positive hnegative]
  obtain hlt | heq | hgt := lt_trichotomy y.rank x.rank
  · exact .inr (.inl (magnitude_le (by omega)))
  · exact .inl (magnitude_eq_of_rank heq)
  · refine .inr (.inr ?_)
    have hlast := y.rank_lt
    let w : Binary f := ⟨false, x.rank + 1, by omega⟩
    rw [← magnitude_succ (y := w) rfl]
    exact magnitude_le hgt

/-- Where the fraction has bits, the last one of them is the last one of the rank. -/
theorem mantissa_mod_two (hf : 0 < f.fractionBits) (x : Binary f) :
    x.mantissa % 2 = x.rank % 2 := by
  obtain ⟨n, hn⟩ := Nat.exists_eq_add_of_lt hf
  have hrank := x.rank_eq.1
  rw [hn, Nat.zero_add, pow_succ, ← mul_assoc] at hrank
  omega

/-- What lies no further than half a unit above a number, and nearer if that is odd, is below the
limit. -/
theorem lt_limit_of_le (hf : 0 < f.fractionBits) (hfinite : x.isFinite)
    (hhigh : 2 * q ≤ 2 * x.magnitude + 2 ^ x.exponent)
    (hodd : x.rank % 2 = 1 → 2 * q < 2 * x.magnitude + 2 ^ x.exponent) : q < f.limit := by
  have hpower : (2 : ℚ) ^ x.exponent ≤ 2 ^ f.greatestExponent :=
    zpow_le_zpow_right₀ one_le_two (exponent_le hfinite)
  have hunit : (0 : ℚ) < 2 ^ x.exponent := by positivity
  have hmantissa := x.mantissa_lt
  have hfactor : (0 : ℚ) ≤ 2 * 2 ^ f.fractionBits - 1 / 2 := by
    have : (1 : ℚ) ≤ 2 ^ f.fractionBits := one_le_pow₀ one_le_two
    linarith
  suffices h : q < (2 * 2 ^ f.fractionBits - 1 / 2) * 2 ^ x.exponent from
    h.trans_le (mul_le_mul_of_nonneg_left hpower hfactor)
  unfold magnitude at hhigh hodd
  by_cases hlast : x.mantissa + 1 = 2 * 2 ^ f.fractionBits
  · have hparity := x.mantissa_mod_two hf
    have hlast' : (x.mantissa : ℚ) + 1 = 2 * 2 ^ f.fractionBits := by exact_mod_cast hlast
    rw [← hlast']
    linarith [hodd (by omega)]
  · have hless : (x.mantissa : ℚ) + 2 ≤ 2 * 2 ^ f.fractionBits := by
      exact_mod_cast (by omega : x.mantissa + 2 ≤ 2 * 2 ^ f.fractionBits)
    nlinarith

/-- Everything up to the middles between a positive number and its neighbours is rounded to it; the
middles themselves are if it is even. -/
theorem rounds_of_between (hf : 0 < f.fractionBits) (hfinite : x.isFinite)
    (hx : x.negative = false) {z : Binary f} (hz : x.rank = z.rank + 1)
    (hlow : z.magnitude + x.magnitude ≤ 2 * q)
    (hhigh : 2 * q ≤ 2 * x.magnitude + 2 ^ x.exponent)
    (hodd : x.rank % 2 = 1 →
      z.magnitude + x.magnitude < 2 * q ∧ 2 * q < 2 * x.magnitude + 2 ^ x.exponent) :
    Rounds false q x := by
  have hlt : z.magnitude < x.magnitude := magnitude_lt (by omega)
  have hunit : (0 : ℚ) < 2 ^ x.exponent := by positivity
  have hq : 0 ≤ q := by linarith [z.magnitude_nonneg]
  refine ⟨hfinite, hx, ?_, fun y _ => ?_, fun y _ hne heq => ?_⟩
  · rw [abs_of_nonneg hq]
    exact lt_limit_of_le hf hfinite hhigh fun h => (hodd h).2
  · obtain heq | hbelow | habove := value_cases hx hz y
    · rw [heq]
    · rw [value_of_positive hx, abs_of_nonpos (by linarith : y.value - q ≤ 0), abs_le]
      constructor <;> linarith
    · rw [value_of_positive hx, abs_of_nonneg (by linarith : 0 ≤ y.value - q), abs_le]
      constructor <;> linarith
  · -- A number as near as this one puts `q` on one of the two middles.
    by_contra hparity
    obtain ⟨hlow', hhigh'⟩ := hodd (by omega)
    rw [value_of_positive hx] at heq
    obtain hsame | hbelow | habove := value_cases hx hz y
    · exact hne hsame
    · rw [abs_of_nonpos (by linarith : y.value - q ≤ 0)] at heq
      obtain ⟨ha, -⟩ | ⟨ha, -⟩ := abs_cases (x.magnitude - q) <;> linarith
    · rw [abs_of_nonneg (by linarith : 0 ≤ y.value - q)] at heq
      obtain ⟨ha, -⟩ | ⟨ha, -⟩ := abs_cases (x.magnitude - q) <;> linarith

/-- The largest finite number has all its digits and the greatest exponent. -/
theorem two_mul_limit (he : 2 ≤ f.exponentBits)
    (hx : x.rank + 1 = f.infinityRank) : 2 * f.limit = 2 * x.magnitude + 2 ^ x.exponent := by
  have hpos : 0 < 2 ^ f.fractionBits := Nat.two_pow_pos _
  have hfour : 2 ^ 2 ≤ 2 ^ f.exponentBits := Nat.pow_le_pow_right (by norm_num) he
  have hlast : f.infinityRank = (2 ^ f.exponentBits - 1) * 2 ^ f.fractionBits := rfl
  obtain ⟨n, hn⟩ := Nat.exists_eq_add_of_le' hfour
  have hdiv : x.rank / 2 ^ f.fractionBits - 1 = n + 1 := by
    have hquotient : x.rank / 2 ^ f.fractionBits = n + 2 := by
      apply Nat.div_eq_of_lt_le
      · rw [hn, show n + 2 ^ 2 - 1 = n + 2 + 1 from rfl, add_mul _ 1, one_mul] at hlast
        omega
      · rw [hn, show n + 2 ^ 2 - 1 = n + 2 + 1 from rfl] at hlast
        omega
    omega
  have hmantissa : x.mantissa + 1 = 2 * 2 ^ f.fractionBits := by
    have hrank := x.rank_eq.1
    rw [hdiv] at hrank
    rw [hn, show n + 2 ^ 2 - 1 = n + 1 + 2 from rfl, add_mul _ 2] at hlast
    omega
  have hexponent : x.exponent = f.greatestExponent := by
    have hhalf : 2 ^ f.exponentBits = 2 * 2 ^ (f.exponentBits - 1) := by
      rw [← pow_succ', Nat.sub_add_cancel (by omega)]
    unfold exponent Format.greatestExponent Format.leastExponent
    simp only [Nat.pow_eq]
    rw [hdiv]
    omega
  have hmantissa' : (x.mantissa : ℚ) + 1 = 2 * 2 ^ f.fractionBits := by exact_mod_cast hmantissa
  rw [magnitude, Format.limit, hexponent, ← hmantissa']
  ring

/-- What is rounded to a positive number lies between the middles to its neighbours. -/
theorem Rounds.between (he : 2 ≤ f.exponentBits) {z : Binary f} (h : Rounds false q x) (hz : x.rank = z.rank + 1) (hsign : z.negative = false) :
    (z.magnitude + x.magnitude ≤ 2 * q ∧ 2 * q ≤ 2 * x.magnitude + 2 ^ x.exponent) ∧
      (x.rank % 2 = 1 →
        z.magnitude + x.magnitude < 2 * q ∧ 2 * q < 2 * x.magnitude + 2 ^ x.exponent) := by
  have hfinite : x.rank < f.infinityRank := of_decide_eq_true h.finite
  have hodd {y : Binary f} (hy : y.isFinite) (hne : y.value ≠ x.value)
      (hmiddle : 2 * q = y.value + x.value) : x.rank % 2 = 0 := by
    refine h.even y hy hne ?_
    rw [← abs_neg]
    congr 1
    linarith
  have hbelow : z.magnitude < x.magnitude := magnitude_lt (by omega)
  have hzfinite : z.isFinite := decide_eq_true (by omega)
  have hx := value_of_positive h.sign
  have hzvalue := value_of_positive hsign
  have hlow : z.magnitude + x.magnitude ≤ 2 * q := by
    have hnear := h.nearest z hzfinite
    rw [hx, hzvalue] at hnear
    exact le_two_mul_of_abs_le hbelow hnear
  have hlow' (hparity : x.rank % 2 = 1) : z.magnitude + x.magnitude < 2 * q := by
    refine lt_of_le_of_ne hlow fun hmiddle => ?_
    have := hodd hzfinite (by rw [hx, hzvalue]; exact hbelow.ne) (by rw [hx, hzvalue, hmiddle])
    omega
  -- Above the largest finite number the limit stands in for the middle.
  by_cases hlast : x.rank + 1 = f.infinityRank
  · have hlimit := two_mul_limit he hlast
    have hinside := lt_of_abs_lt h.inside
    exact ⟨⟨hlow, by linarith⟩, fun hparity => ⟨hlow' hparity, by linarith⟩⟩
  · have hbound := f.infinityRank_lt
    let w : Binary f := ⟨false, x.rank + 1, by omega⟩
    have hw : w.magnitude = x.magnitude + 2 ^ x.exponent := magnitude_succ rfl
    have hunit : (0 : ℚ) < 2 ^ x.exponent := by positivity
    have hwfinite : w.isFinite := decide_eq_true (show x.rank + 1 < f.infinityRank by omega)
    have hwvalue : w.value = w.magnitude := value_of_positive rfl
    have hhigh : 2 * q ≤ 2 * x.magnitude + 2 ^ x.exponent := by
      have hnear := h.nearest w hwfinite
      rw [hx, hwvalue] at hnear
      have := two_mul_le_of_abs_le (by linarith) hnear
      linarith
    refine ⟨⟨hlow, hhigh⟩, fun hparity => ⟨hlow' hparity, lt_of_le_of_ne hhigh fun hmiddle => ?_⟩⟩
    have := hodd hwfinite (by rw [hx, hwvalue, hw]; linarith) (by rw [hx, hwvalue, hw]; linarith)
    omega

theorem rounds_zero (hx : x.rank = 0) (hfinite : x.isFinite) : Rounds x.negative 0 x := by
  have hzero : x.value = 0 := by
    have hm : x.magnitude = 0 := by
      have hmantissa : x.mantissa = 0 := by
        have := x.rank_eq.1
        omega
      rw [magnitude, hmantissa, Nat.cast_zero, zero_mul]
    simp [value, signed, hm]
  refine ⟨hfinite, rfl, ?_, fun y _ => ?_, fun y _ hne heq => ?_⟩
  · rw [abs_zero]
    exact lt_of_le_of_lt x.magnitude_nonneg (magnitude_lt_limit hfinite)
  · rw [hzero, sub_zero, abs_zero]
    exact abs_nonneg _
  · rw [hzero, sub_zero, sub_zero, abs_zero, abs_eq_zero] at heq
    exact absurd (heq.trans hzero.symm) hne

/-! ## Rounded quotients are nearest -/

/-- Every number is a multiple of the unit, unless it is too small to be rounded to it. -/
theorem magnitude_grid {e : Int} (he : f.leastExponent ≤ e) (y : Binary f) :
    (∃ k : Nat, y.magnitude = k * 2 ^ e) ∨
      f.leastExponent < e ∧ y.magnitude < 2 ^ f.fractionBits * 2 ^ e := by
  have hleast : f.leastExponent ≤ y.exponent := by
    unfold exponent
    omega
  obtain hle | hlt := le_or_gt e y.exponent
  · obtain ⟨n, hn⟩ := Int.eq_ofNat_of_zero_le (sub_nonneg.2 hle)
    refine .inl ⟨y.mantissa * 2 ^ n, ?_⟩
    have hsum : y.exponent = n + e := by omega
    rw [magnitude, hsum, zpow_add₀ two_ne_zero, zpow_natCast]
    push_cast
    ring
  · refine .inr ⟨by omega, ?_⟩
    have hmantissa : (y.mantissa : ℚ) < 2 * 2 ^ f.fractionBits := by exact_mod_cast y.mantissa_lt
    calc y.magnitude
        < 2 * 2 ^ f.fractionBits * 2 ^ y.exponent := by
          unfold magnitude
          gcongr
      _ = 2 ^ f.fractionBits * 2 ^ (y.exponent + 1) := by
          rw [zpow_add_one₀ two_ne_zero]
          ring
      _ ≤ 2 ^ f.fractionBits * 2 ^ e := by
          gcongr
          · exact one_le_two
          · exact hlt

end Binary

/-- A quotient that is rounded to an odd number lies nearer than one half. -/
theorem roundDiv_odd (a : Nat) {b : Nat} (hb : 0 < b) (hodd : roundDiv a b % 2 = 1) :
    |(roundDiv a b : ℚ) - a / b| < 1 / 2 := by
  have hb' : (0 : ℚ) < b := by exact_mod_cast hb
  have hdiv := Nat.div_add_mod a b
  have hmod := Nat.mod_lt a hb
  rw [mul_comm] at hdiv
  suffices h : 2 * a < 2 * (roundDiv a b * b) + b ∧ 2 * (roundDiv a b * b) < 2 * a + b by
    have hlow : 2 * (a : ℚ) < 2 * (roundDiv a b * b) + b := by exact_mod_cast h.1
    have hhigh : 2 * (roundDiv a b * b) < 2 * (a : ℚ) + b := by exact_mod_cast h.2
    rw [abs_sub_lt_iff]
    constructor
    · rw [sub_lt_comm, lt_div_iff₀ hb']
      linarith
    · rw [sub_lt_iff_lt_add, div_lt_iff₀ hb']
      linarith
  unfold roundDiv at hodd ⊢
  dsimp only at hodd ⊢
  split_ifs at hodd ⊢
  · omega
  · rw [add_mul]
    omega
  · omega

namespace Binary

variable {f : Format} {a b : Nat}

/-- No multiple of the unit is nearer to a quotient than its rounded value. -/
theorem units_nearest (f : Format) (a : Nat) (hb : 0 < b) (k : Nat) :
    |(f.units a b : ℚ) - a / b / 2 ^ f.place a b| ≤ |(k : ℚ) - a / b / 2 ^ f.place a b| ∧
      (k ≠ f.units a b →
        |(k : ℚ) - a / b / 2 ^ f.place a b| = |(f.units a b : ℚ) - a / b / 2 ^ f.place a b| →
        f.units a b % 2 = 0) := by
  obtain ⟨hlow, hhigh⟩ := Format.units_spec f a hb
  have hodd : f.units a b % 2 = 1 → |(f.units a b : ℚ) - a / b / 2 ^ f.place a b| < 1 / 2 := by
    obtain ⟨hd, hratio⟩ := scaledRatio_spec a hb (f.place a b)
    rw [← hratio]
    exact roundDiv_odd _ hd
  generalize (a : ℚ) / b / 2 ^ f.place a b = v at *
  generalize f.units a b = n at *
  have hhalf : |(n : ℚ) - v| ≤ 1 / 2 := abs_sub_le_iff.2 ⟨by linarith, by linarith⟩
  by_cases hk : k = n
  · subst hk
    exact ⟨le_rfl, fun h => absurd rfl h⟩
  · -- Another multiple is a whole unit away from the rounded value.
    have hunit : (1 : ℚ) ≤ |(k : ℚ) - n| := by
      have hne : ((k : Int) - n) ≠ 0 := by omega
      exact_mod_cast Int.one_le_abs hne
    have htriangle : |(k : ℚ) - n| ≤ |(k : ℚ) - v| + |(n : ℚ) - v| := by
      rw [abs_sub_comm (n : ℚ) v]
      exact abs_sub_le _ _ _
    refine ⟨by linarith, fun _ heq => ?_⟩
    by_contra hparity
    linarith [hodd (by omega)]

/-- For every number there is a multiple of the unit that is at least as near to the quotient. -/
theorem exists_multiple (ha : 0 < a) (hb : 0 < b) (y : Binary f) :
    ∃ k : Nat, |(k : ℚ) * 2 ^ f.place a b - a / b| ≤ |y.value - a / b| ∧
      (|(k : ℚ) * 2 ^ f.place a b - a / b| = |y.value - a / b| →
        y.value = k * 2 ^ f.place a b) := by
  have hq : (0 : ℚ) ≤ a / b := by positivity
  by_cases hnegative : y.negative
  · have hy := y.magnitude_nonneg
    have hvalue : y.value = -y.magnitude := by simp only [value, signed, hnegative, if_true]
    have hdist : |y.value - a / b| = y.magnitude + a / b := by
      rw [hvalue, abs_of_nonpos (by linarith)]
      ring
    refine ⟨0, ?_⟩
    rw [hdist, Nat.cast_zero, zero_mul, zero_sub, abs_neg, abs_of_nonneg hq]
    refine ⟨by linarith, fun heq => ?_⟩
    rw [hvalue]
    linarith
  rw [Bool.not_eq_true] at hnegative
  rw [value_of_positive hnegative]
  have hplace : f.leastExponent ≤ f.place a b := le_max_left _ _
  obtain ⟨k, hk⟩ | ⟨hleast, hsmall⟩ := magnitude_grid hplace y
  · exact ⟨k, by rw [hk], fun _ => hk⟩
  · -- The quotient has all its digits, so the least number that has them lies between.
    have hlog : (f.fractionBits : Int) + f.place a b = floorLog2 a b := by
      unfold Format.place at hleast ⊢
      omega
    have hlow : (2 : ℚ) ^ f.fractionBits * 2 ^ f.place a b ≤ a / b := by
      rw [← zpow_natCast, ← zpow_add₀ two_ne_zero, hlog]
      exact (floorLog2_spec ha hb).1
    refine ⟨2 ^ f.fractionBits, ?_⟩
    push_cast
    rw [abs_of_nonpos (by linarith), abs_of_nonpos (by linarith : y.magnitude - a / b ≤ 0)]
    exact ⟨by linarith, fun heq => by linarith⟩

theorem rank_round_mod_two (hf : 0 < f.fractionBits) (ha : 0 < a)
    (hfinite : (round f false a b).isFinite) :
    (round f false a b).rank % 2 = f.units a b % 2 := by
  have hless : f.nearestRank a b < f.infinityRank := of_decide_eq_true hfinite
  rw [Format.nearestRank_eq ha, min_lt_iff, or_iff_right (lt_irrefl _)] at hless
  have hrank : (round f false a b).rank = f.units a b
      + (f.place a b - f.leastExponent).toNat * 2 ^ f.fractionBits :=
    (Format.nearestRank_eq ha).trans (min_eq_right hless.le)
  obtain ⟨n, hn⟩ := Nat.exists_eq_add_of_lt hf
  rw [hn, Nat.zero_add, pow_succ, ← mul_assoc] at hrank
  omega

/-- A quotient below the limit is rounded to the nearest number, a tie going to the even one. -/
theorem rounds_round_positive (hf : 0 < f.fractionBits) (he : 2 ≤ f.exponentBits) (hb : 0 < b)
    (h : (a : ℚ) / b < f.limit) : Rounds false (a / b) (round f false a b) := by
  have hfinite := isFinite_round he false hb h
  obtain rfl | ha := Nat.eq_zero_or_pos a
  · have hzero : (round f false 0 b).rank = 0 := by simp [round, Format.nearestRank]
    rw [Nat.cast_zero, zero_div]
    exact rounds_zero hzero hfinite
  have hunit : (0 : ℚ) < 2 ^ f.place a b := by positivity
  have hvalue : (round f false a b).value = f.units a b * 2 ^ f.place a b := by
    rw [value_of_positive rfl, magnitude_round ha hb hfinite]
  have hdist (k : Nat) : |(k : ℚ) * 2 ^ f.place a b - a / b| =
      |(k : ℚ) - a / b / 2 ^ f.place a b| * 2 ^ f.place a b := by
    rw [← abs_of_pos hunit, ← abs_mul, sub_mul, abs_of_pos hunit, div_mul_cancel₀ _ hunit.ne']
  have hle (k : Nat) : |(round f false a b).value - a / b| ≤
      |(k : ℚ) * 2 ^ f.place a b - a / b| := by
    rw [hvalue, hdist, hdist]
    exact mul_le_mul_of_nonneg_right (units_nearest f a hb k).1 hunit.le
  refine ⟨hfinite, rfl, ?_, fun y _ => ?_, fun y _ hne heq => ?_⟩
  · rwa [abs_of_nonneg (by positivity)]
  · obtain ⟨k, hk, -⟩ := exists_multiple ha hb y
    exact (hle k).trans hk
  · obtain ⟨k, hk, hsame⟩ := exists_multiple ha hb y
    have hequal := le_antisymm hk (heq.trans_le (hle k))
    have hy := hsame hequal
    rw [rank_round_mod_two hf ha hfinite]
    refine (units_nearest f a hb k).2 ?_ ?_
    · rintro rfl
      exact hne (hy.trans hvalue.symm)
    · rw [hy, hvalue, hdist, hdist] at heq
      exact mul_right_cancel₀ hunit.ne' heq

theorem rounds_round (hf : 0 < f.fractionBits) (he : 2 ≤ f.exponentBits) (negative : Bool)
    (hb : 0 < b) (h : (a : ℚ) / b < f.limit) :
    Rounds negative (signed negative (a / b)) (round f negative a b) := by
  have hpositive := rounds_round_positive hf he hb h
  cases negative with
  | false => exact hpositive
  | true => exact hpositive.neg

/-- Rounding the fraction of a number gives what it is rounded to. -/
theorem Rounds.round_eq {negative : Bool} {q : ℚ} {x : Binary f} (hf : 0 < f.fractionBits)
    (he : 2 ≤ f.exponentBits) (hq : signed negative |q| = q) (h : Rounds negative q x) :
    round f negative q.num.natAbs q.den = x := by
  have hratio : (q.num.natAbs : ℚ) / q.den = |q| := by
    rw [Nat.cast_natAbs, Int.cast_abs]
    nth_rewrite 3 [← Rat.num_div_den q]
    rw [abs_div, Nat.abs_cast]
  have hround := rounds_round hf he negative q.den_pos (by rw [hratio]; exact h.inside)
  rw [hratio, hq] at hround
  exact hround.unique h

end Binary

/-! ## Basins -/

/-- The number below a power of two has the exponent below, unless there is none. -/
theorem Binary.exponent_pred {f : Format} {x z : Binary f} (hz : x.rank = z.rank + 1) :
    z.exponent =
      if x.mantissa = 2 ^ f.fractionBits ∧ f.leastExponent < x.exponent then x.exponent - 1
      else x.exponent := by
  have hpos : 0 < 2 ^ f.fractionBits := Nat.two_pow_pos _
  have hdiv := Nat.div_add_mod x.rank (2 ^ f.fractionBits)
  have hmod := Nat.mod_lt x.rank hpos
  have hrank := x.rank_eq.1
  have hz' : z.rank = x.rank - 1 := by omega
  unfold exponent
  simp only [Nat.pow_eq]
  rw [hz']
  generalize x.rank / 2 ^ f.fractionBits = d at *
  generalize x.rank % 2 ^ f.fractionBits = r at *
  generalize 2 ^ f.fractionBits = unit at *
  by_cases hr : r = 0
  · obtain ⟨d, rfl⟩ : ∃ d', d = d' + 1 := by
      refine Nat.exists_eq_succ_of_ne_zero ?_
      rintro rfl
      omega
    have hpred : (x.rank - 1) / unit = d := by
      apply Nat.div_eq_of_lt_le
      · rw [mul_comm]
        rw [mul_add] at hdiv
        omega
      · rw [mul_comm]
        omega
    have hmantissa : x.mantissa = unit := by
      rw [mul_add] at hdiv
      rw [Nat.add_sub_cancel, mul_comm] at hrank
      omega
    rw [hpred, Nat.add_sub_cancel]
    split_ifs with h
    · omega
    · obtain rfl : d = 0 := by
        by_contra hd
        exact h ⟨hmantissa, by omega⟩
      rfl
  · have hpred : (x.rank - 1) / unit = d := by
      apply Nat.div_eq_of_lt_le
      · rw [mul_comm]
        omega
      · rw [add_mul, mul_comm d]
        omega
    rw [hpred, if_neg]
    rintro ⟨hmantissa, -⟩
    cases d with
    | zero => omega
    | succ d =>
      rw [mul_add] at hdiv
      rw [Nat.add_sub_cancel, mul_comm] at hrank
      omega

namespace Basin

variable {f : Format} {x : Binary f} {g : Int} {k : Nat}

/-- The lower end lies in the middle between the number and the one below. -/
theorem low_eq {z : Binary f} (hz : x.rank = z.rank + 1) :
    2 * ((of x).low * 2 ^ (x.exponent - 2)) = z.magnitude + x.magnitude := by
  have hquarters := four_quarters x.exponent
  have hgap := Binary.magnitude_succ hz
  have hpred := Binary.exponent_pred hz
  have hx : x.magnitude = x.mantissa * 2 ^ x.exponent := rfl
  have hpos : 0 < x.mantissa := Binary.mantissa_pos (decide_eq_false (by omega))
  unfold of
  simp only [Nat.pow_eq]
  split
  case isTrue h =>
    rw [hpred, if_pos h, zpow_sub_one₀ two_ne_zero] at hgap
    rw [← hquarters] at hgap hx
    rw [Nat.cast_sub (by omega)]
    push_cast
    linarith
  case isFalse h =>
    rw [hpred, if_neg h] at hgap
    rw [← hquarters] at hgap hx
    rw [Nat.cast_sub (by omega)]
    push_cast
    linarith

/-- The upper end lies half a unit above the number. -/
theorem high_eq (x : Binary f) :
    2 * ((of x).high * 2 ^ (x.exponent - 2)) = 2 * x.magnitude + 2 ^ x.exponent := by
  rw [Binary.magnitude, ← four_quarters x.exponent, show (of x).high = 4 * x.mantissa + 2 from rfl]
  push_cast
  ring

theorem holds_iff {b : Basin} : b.holds g k ↔
    ((b.low : ℚ) * 2 ^ (b.exponent - 2) ≤ k * 10 ^ g ∧
      (k : ℚ) * 10 ^ g ≤ b.high * 2 ^ (b.exponent - 2)) ∧
    (b.closed = false → (b.low : ℚ) * 2 ^ (b.exponent - 2) < k * 10 ^ g ∧
      (k : ℚ) * 10 ^ g < b.high * 2 ^ (b.exponent - 2)) := by
  simp only [← not_le, ← mul_quarterFactor_le_iff, ← mul_gridFactor_le_iff]
  unfold holds
  cases b.closed
  · simp only [Bool.false_eq_true, if_false, Bool.and_eq_true, decide_eq_true_eq,
      true_implies]
    omega
  · simp

/-- The basin of a number holds what is rounded to it, and nothing else. -/
theorem holds_iff_rounds (hf : 0 < f.fractionBits) (he : 2 ≤ f.exponentBits)
    (hfinite : x.isFinite) (hx : x.rank ≠ 0) :
    (of x).holds g k ↔ Binary.Rounds x.negative (signed x.negative (k * 10 ^ g)) x := by
  -- The basin does not depend on the sign, so that of a positive number is looked at.
  suffices hpositive : ∀ y : Binary f, y.negative = false → y.isFinite → y.rank ≠ 0 →
      ((of y).holds g k ↔ Binary.Rounds false (k * 10 ^ g) y) by
    cases hsign : x.negative with
    | false => exact hpositive x hsign hfinite hx
    | true =>
      have hneg := hpositive x.neg (by simp [Binary.neg, hsign]) hfinite hx
      rw [signed, if_pos rfl, ← Binary.rounds_neg_iff, neg_neg]
      exact hneg
  intro y hy hfinite hy0
  obtain ⟨n, hn⟩ := Nat.exists_eq_succ_of_ne_zero hy0
  have hlast := y.rank_lt
  let z : Binary f := ⟨false, n, by omega⟩
  have hz : y.rank = z.rank + 1 := hn
  have hlow := low_eq hz
  have hhigh := high_eq y
  have hparity := y.mantissa_mod_two hf
  have hclosed : (of y).closed = false ↔ y.rank % 2 = 1 := by
    rw [show (of y).closed = decide (y.mantissa % 2 = 0) from rfl, decide_eq_false_iff_not]
    omega
  rw [holds_iff, hclosed, show (of y).exponent = y.exponent from rfl]
  constructor
  · rintro ⟨⟨hfrom, hto⟩, hstrict⟩
    refine Binary.rounds_of_between hf hfinite hy hz (by linarith) (by linarith) fun hodd => ?_
    obtain ⟨hfrom', hto'⟩ := hstrict hodd
    exact ⟨by linarith, by linarith⟩
  · intro h
    obtain ⟨⟨hfrom, hto⟩, hstrict⟩ := h.between he hz rfl
    refine ⟨⟨by linarith, by linarith⟩, fun hodd => ?_⟩
    obtain ⟨hfrom', hto'⟩ := hstrict hodd
    exact ⟨by linarith, by linarith⟩

end Basin

end ShaderNodes
