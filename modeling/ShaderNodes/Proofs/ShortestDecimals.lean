import Mathlib
import ShaderNodes.Proofs.Numerals
import ShaderNodes.Proofs.Rounding

/-!
# Shortest decimals are close

Whatever grid the shortest decimal of a binary number is found on, it lies in the basin of the
number. On the grid of seventeen digits there is always a hit: its spacing is less than the width of
the basin. So the full expansion that stands behind the search is never needed, and coefficients
have seventeen digits at most.

* `floorLog10_spec`: the exponent of the leading digit;
* `Basin.holds_of_nearestOn`, `Basin.isSome_nearestOn`: hits on one grid;
* `Basin.shortest_spec`: the shortest decimal lies in the basin and has seventeen digits at most.
-/

namespace ShaderNodes

theorem floorLog10_spec {a b : Nat} (ha : 0 < a) (hb : 0 < b) :
    (10 : ℚ) ^ floorLog10 a b ≤ a / b ∧ (a : ℚ) / b < 10 ^ (floorLog10 a b + 1) := by
  obtain ⟨hlow, hhigh⟩ := zpow_log_bounds (by norm_num : 1 < 10) ha.ne' hb.ne'
  have hstart : ((digits a).length : Int) - (digits b).length = Nat.log 10 a - Nat.log 10 b := by
    rw [length_digits, length_digits]
    push_cast
    ring
  have htest := zpow_le_div_iff (by norm_num : 0 < 10) hb (a := a) (Nat.log 10 a - Nat.log 10 b)
  unfold floorLog10
  simp only [Nat.pow_eq, hstart]
  split
  case isTrue h => exact ⟨htest.2 h, hhigh⟩
  case isFalse h =>
    rw [← htest, not_le] at h
    exact ⟨hlow, by rwa [sub_add_cancel]⟩

/-! ## Decimals -/

namespace Decimal

/-- The number that a decimal stands for. -/
def value (d : Decimal) : ℚ := d.coefficient * 10 ^ d.exponent

/-- Zeros at the end do not matter. -/
theorem trim_spec (d : Decimal) (h : d.coefficient ≠ 0) :
    d.trim.value = d.value ∧ d.trim.coefficient ≠ 0 ∧ d.trim.coefficient ≤ d.coefficient := by
  fun_induction trim d with
  | case1 d hd ih =>
    obtain ⟨hvalue, hzero, hle⟩ := ih (by dsimp only; omega)
    refine ⟨hvalue.trans ?_, hzero, hle.trans (Nat.div_le_self _ _)⟩
    have hten : ((d.coefficient / 10 : Nat) : ℚ) * 10 = d.coefficient := by
      exact_mod_cast Nat.div_mul_cancel (Nat.dvd_of_mod_eq_zero hd.2)
    unfold value
    rw [zpow_add_one₀ (by norm_num), ← hten]
    ring
  | case2 d hd => exact ⟨rfl, h, le_rfl⟩

/-- The leading digit tells the size. -/
theorem leading_bounds (d : Decimal) (h : d.coefficient ≠ 0) :
    (10 : ℚ) ^ d.leading ≤ d.value ∧ d.value < 10 ^ (d.leading + 1) := by
  have hleading : d.leading = Nat.log 10 d.coefficient + d.exponent := by
    unfold leading
    rw [length_digits]
    push_cast
    ring
  have hlow : (10 : ℚ) ^ Nat.log 10 d.coefficient ≤ d.coefficient := by
    exact_mod_cast Nat.pow_log_le_self 10 h
  have hhigh : (d.coefficient : ℚ) < 10 ^ (Nat.log 10 d.coefficient + 1) := by
    exact_mod_cast Nat.lt_pow_succ_log_self (by norm_num) d.coefficient
  unfold value
  rw [hleading]
  constructor
  · rw [zpow_add₀ (by norm_num), zpow_natCast]
    gcongr
  · rw [add_right_comm, zpow_add₀ (by norm_num)]
    gcongr
    exact_mod_cast hhigh

end Decimal

/-! ## One grid -/

namespace Basin

variable {b : Basin} {tie : Tie} {g : Int} {k : Nat}

theorem quarterFactor_pos (b : Basin) (g : Int) : 0 < b.quarterFactor g :=
  Nat.mul_pos (Nat.two_pow_pos _) (Nat.pow_pos (by norm_num))

theorem gridFactor_pos (b : Basin) (g : Int) : 0 < b.gridFactor g :=
  Nat.mul_pos (Nat.two_pow_pos _) (Nat.pow_pos (by norm_num))

/-- Quarters and multiples of a power of ten have a common unit. -/
theorem gridFactor_div (b : Basin) (g : Int) :
    (b.gridFactor g : ℚ) / b.quarterFactor g = 10 ^ g / 2 ^ (b.exponent - 2) := by
  have hq : (0 : ℚ) < b.quarterFactor g := by exact_mod_cast b.quarterFactor_pos g
  have htwo := zpow_mul_pow_toNat_neg (two_ne_zero : (2 : ℚ) ≠ 0) (b.exponent - 2)
  have hten := zpow_mul_pow_toNat_neg (by norm_num : (10 : ℚ) ≠ 0) g
  rw [div_eq_div_iff hq.ne' (by positivity)]
  unfold gridFactor quarterFactor
  simp only [Nat.pow_eq]
  push_cast
  rw [← htwo, ← hten, neg_sub]
  ring

/-- Quarters and multiples of a power of ten are compared as the numbers that they stand for. -/
theorem mul_quarterFactor_le_iff (b : Basin) (g : Int) (n k : Nat) :
    n * b.quarterFactor g ≤ k * b.gridFactor g ↔ (n : ℚ) * 2 ^ (b.exponent - 2) ≤ k * 10 ^ g := by
  have hq : (0 : ℚ) < b.quarterFactor g := by exact_mod_cast b.quarterFactor_pos g
  have hp : (0 : ℚ) < 2 ^ (b.exponent - 2) := by positivity
  rw [← le_div_iff₀ hp, mul_div_assoc, ← gridFactor_div, ← mul_div_assoc, le_div_iff₀ hq]
  exact_mod_cast Iff.rfl

theorem mul_gridFactor_le_iff (b : Basin) (g : Int) (n k : Nat) :
    k * b.gridFactor g ≤ n * b.quarterFactor g ↔ (k : ℚ) * 10 ^ g ≤ n * 2 ^ (b.exponent - 2) := by
  have hq : (0 : ℚ) < b.quarterFactor g := by exact_mod_cast b.quarterFactor_pos g
  have hp : (0 : ℚ) < 2 ^ (b.exponent - 2) := by positivity
  rw [← div_le_iff₀ hp, mul_div_assoc, ← gridFactor_div, ← mul_div_assoc, div_le_iff₀ hq]
  exact_mod_cast Iff.rfl

theorem le_of_holds (h : b.holds g k) :
    b.low * b.quarterFactor g ≤ k * b.gridFactor g ∧
      k * b.gridFactor g ≤ b.high * b.quarterFactor g := by
  unfold holds at h
  dsimp only at h
  split at h <;> simp only [Bool.and_eq_true, decide_eq_true_eq] at h <;> omega

theorem holds_of_lt (hlow : b.low * b.quarterFactor g < k * b.gridFactor g)
    (hhigh : k * b.gridFactor g < b.high * b.quarterFactor g) : b.holds g k := by
  unfold holds
  dsimp only
  split <;> simp only [Bool.and_eq_true, decide_eq_true_eq] <;> omega

/-- A point of the basin, as a number. -/
theorem bounds_of_holds (h : b.holds g k) :
    (b.low : ℚ) * 2 ^ (b.exponent - 2) ≤ k * 10 ^ g ∧
      (k : ℚ) * 10 ^ g ≤ b.high * 2 ^ (b.exponent - 2) := by
  obtain ⟨hlow, hhigh⟩ := le_of_holds h
  exact ⟨(b.mul_quarterFactor_le_iff g _ k).1 hlow, (b.mul_gridFactor_le_iff g _ k).1 hhigh⟩

/-- A hit lies in the basin and next to the number. -/
theorem holds_of_nearestOn (h : b.nearestOn tie g = some k) :
    b.holds g k ∧ k ≤ 4 * b.mantissa * b.quarterFactor g / b.gridFactor g + 1 := by
  unfold nearestOn at h
  dsimp only at h
  generalize 4 * b.mantissa * b.quarterFactor g / b.gridFactor g = n at h ⊢
  cases hn : b.holds g n <;> cases hn' : b.holds g (n + 1) <;> simp only [hn, hn'] at h
  case false.false => cases h
  case true.false => cases h; exact ⟨hn, by omega⟩
  case false.true => cases h; exact ⟨hn', le_rfl⟩
  case true.true =>
    have hk : k = n ∨ k = n + 1 := by
      have hmod := Nat.mod_two_eq_zero_or_one n
      cases tie <;> split_ifs at h <;> cases h <;> omega
    obtain rfl | rfl := hk
    · exact ⟨hn, by omega⟩
    · exact ⟨hn', le_rfl⟩

theorem isSome_nearestOn (h : b.holds g (4 * b.mantissa * b.quarterFactor g / b.gridFactor g) ∨
    b.holds g (4 * b.mantissa * b.quarterFactor g / b.gridFactor g + 1)) :
    (b.nearestOn tie g).isSome := by
  unfold nearestOn
  dsimp only
  generalize 4 * b.mantissa * b.quarterFactor g / b.gridFactor g = n at h ⊢
  cases hn : b.holds g n <;> cases hn' : b.holds g (n + 1) <;> dsimp only
  case false.false => simp [hn, hn'] at h
  case true.false => rfl
  case false.true => rfl
  case true.true => cases tie <;> split_ifs <;> rfl

variable {f : Format} {x : Binary f}

/-- The basin begins half a unit below the number, or a quarter below a power of two. -/
theorem low_cases (hx : 0 < x.mantissa) : (of x).low + 2 = 4 * (of x).mantissa ∨
    x.mantissa = 2 ^ f.fractionBits ∧ (of x).low + 1 = 4 * (of x).mantissa := by
  unfold of
  dsimp only
  split
  case isTrue h => exact .inr ⟨h.1, by omega⟩
  case isFalse => exact .inl (by omega)

theorem one_le_low (hx : 0 < x.mantissa) : 1 ≤ (of x).low := by
  have hmantissa : (of x).mantissa = x.mantissa := rfl
  obtain h | ⟨-, h⟩ := low_cases hx <;> omega

theorem ne_zero_of_holds (hx : 0 < x.mantissa) (h : (of x).holds g k) : k ≠ 0 := by
  rintro rfl
  have hle := (le_of_holds h).1
  rw [Nat.zero_mul] at hle
  exact absurd hle (Nat.mul_pos (one_le_low hx) ((of x).quarterFactor_pos g)).not_ge

/-- A grid whose spacing is less than the basin is wide has a point in the basin. Below a power of
two the basin is narrower. -/
theorem isSome_nearestOn_of (hx : 0 < x.mantissa)
    (hunit : (of x).gridFactor g < 4 * (of x).quarterFactor g)
    (hpower : x.mantissa = 2 ^ f.fractionBits →
      (of x).gridFactor g ≤ 2 * (of x).quarterFactor g) :
    ((of x).nearestOn tie g).isSome := by
  have hq := (of x).quarterFactor_pos g
  have hhigh : (of x).high * (of x).quarterFactor g
      = 4 * (of x).mantissa * (of x).quarterFactor g + 2 * (of x).quarterFactor g := add_mul _ _ _
  have hlow : (of x).low * (of x).quarterFactor g
      < 4 * (of x).mantissa * (of x).quarterFactor g ∧
      (of x).low * (of x).quarterFactor g + (of x).gridFactor g
        < (of x).high * (of x).quarterFactor g := by
    obtain h | ⟨hm, h⟩ := low_cases hx
    · rw [hhigh, ← h, add_mul]
      omega
    · have hnarrow := hpower hm
      rw [hhigh, ← h, add_mul]
      omega
  have hbelow := Nat.div_mul_le_self (4 * (of x).mantissa * (of x).quarterFactor g)
    ((of x).gridFactor g)
  have habove : 4 * (of x).mantissa * (of x).quarterFactor g
      < 4 * (of x).mantissa * (of x).quarterFactor g / (of x).gridFactor g * (of x).gridFactor g
        + (of x).gridFactor g := Nat.lt_div_mul_add ((of x).gridFactor_pos g)
  apply isSome_nearestOn
  generalize 4 * (of x).mantissa * (of x).quarterFactor g / (of x).gridFactor g = k at *
  -- The neighbour below lies in the basin, or the basin reaches past the neighbour above.
  by_cases hnear : (of x).low * (of x).quarterFactor g < k * (of x).gridFactor g
  · exact .inl (holds_of_lt hnear (by omega))
  · refine .inr (holds_of_lt ?_ ?_) <;> rw [add_mul] <;> omega

/-! ## All grids -/

/-- The exponent of the leading digit of the number. -/
def top (b : Basin) : Int :=
  floorLog10 (b.mantissa * Nat.pow 2 b.exponent.toNat) (Nat.pow 2 (-b.exponent).toNat)

theorem top_spec (hb : 0 < b.mantissa) :
    (10 : ℚ) ^ b.top ≤ b.mantissa * 2 ^ b.exponent ∧
      (b.mantissa : ℚ) * 2 ^ b.exponent < 10 ^ (b.top + 1) := by
  have hratio : ((b.mantissa * Nat.pow 2 b.exponent.toNat : Nat) : ℚ)
      / (Nat.pow 2 (-b.exponent).toNat : Nat) = b.mantissa * 2 ^ b.exponent := by
    simp only [Nat.pow_eq]
    push_cast
    rw [div_eq_iff (by positivity), mul_assoc, zpow_mul_pow_toNat_neg two_ne_zero]
  rw [← hratio]
  exact floorLog10_spec (Nat.mul_pos hb (Nat.two_pow_pos _)) (Nat.two_pow_pos _)

theorem four_quarters (e : Int) : (4 : ℚ) * 2 ^ (e - 2) = 2 ^ e := by
  rw [zpow_sub₀ two_ne_zero]
  ring

/-- On the grid of seventeen digits there is a hit, for formats with few enough digits. -/
theorem isSome_nearestOn_top (tie : Tie) (hf : 2 * 2 ^ f.fractionBits ≤ 10 ^ 16)
    (hx : 0 < x.mantissa) : ((of x).nearestOn tie ((of x).top - 16)).isSome := by
  have hf' : 2 * 2 ^ f.fractionBits ≤ (10 : ℚ) ^ 16 := by exact_mod_cast hf
  have hq : (0 : ℚ) < (of x).quarterFactor ((of x).top - 16) := by
    exact_mod_cast (of x).quarterFactor_pos _
  have hpos : (0 : ℚ) < 2 ^ ((of x).exponent - 2) := by positivity
  -- The spacing is at most a part in `10 ^ 16` of the number, which has fewer units than that.
  have hstep : (10 : ℚ) ^ ((of x).top - 16) * 10 ^ 16
      ≤ x.mantissa * (4 * 2 ^ ((of x).exponent - 2)) := by
    rw [← zpow_natCast, ← zpow_add₀ (by norm_num), Nat.cast_ofNat, sub_add_cancel, four_quarters]
    exact (top_spec (b := of x) hx).1
  apply isSome_nearestOn_of hx
  · rw [← @Nat.cast_lt ℚ, Nat.cast_mul, ← div_lt_iff₀ hq, gridFactor_div, div_lt_iff₀ hpos]
    have hmantissa : (x.mantissa : ℚ) < 10 ^ 16 :=
      lt_of_lt_of_le (by exact_mod_cast x.mantissa_lt) hf'
    push_cast
    nlinarith
  · intro hm
    rw [← @Nat.cast_le ℚ, Nat.cast_mul, ← div_le_iff₀ hq, gridFactor_div, div_le_iff₀ hpos]
    rw [hm] at hstep
    push_cast at hstep ⊢
    nlinarith

/-- The search ends on the first of the grids that has a hit. -/
theorem exists_hit (tie : Tie) (hf : 2 * 2 ^ f.fractionBits ≤ 10 ^ 16) (hx : 0 < x.mantissa) :
    ∃ n k : Nat, n < 17 ∧ (of x).nearestOn tie ((of x).top - n) = some k ∧
      (∀ i : Nat, ((of x).nearestOn tie ((of x).top - i)).isSome → n ≤ i) ∧
      (of x).shortest tie = (⟨k, (of x).top - n⟩ : Decimal).trim := by
  have hsome : ((List.range 17).findSome? fun (n : Nat) =>
      ((of x).nearestOn tie ((of x).top - n)).map
        fun k => (⟨k, (of x).top - n⟩ : Decimal)).isSome := by
    rw [List.findSome?_isSome_iff]
    refine ⟨16, by decide, ?_⟩
    rw [Option.isSome_map]
    exact isSome_nearestOn_top tie hf hx
  obtain ⟨d, hd⟩ := Option.isSome_iff_exists.1 hsome
  obtain ⟨before, n, after, hrange, hmap, hnone⟩ := List.findSome?_eq_some_iff.1 hd
  obtain ⟨k, hk, rfl⟩ := Option.map_eq_some_iff.1 hmap
  have hn : n < 17 := by
    rw [← List.mem_range, hrange]
    simp
  have hsorted := List.pairwise_lt_range (n := 17)
  rw [hrange, List.pairwise_append, List.pairwise_cons] at hsorted
  refine ⟨n, k, hn, hk, fun i hi => ?_,
    congrArg (fun hit : Option Decimal => (hit.getD (of x).exact).trim) hd⟩
  by_contra! hless
  have hmem : i ∈ before ++ n :: after := by
    rw [← hrange, List.mem_range]
    omega
  obtain hbefore | heq | hafter : i ∈ before ∨ i = n ∨ i ∈ after := by simpa using hmem
  · rw [Option.map_eq_none_iff.1 (hnone i hbefore)] at hi
    cases hi
  · omega
  · exact absurd (hsorted.2.1.1 i hafter) hless.not_gt

/-- A hit has as many digits as its grid. -/
theorem le_of_nearestOn {n : Nat} (hb : 0 < b.mantissa)
    (h : b.nearestOn tie (b.top - n) = some k) : k ≤ 10 ^ (n + 1) := by
  have hq : (0 : ℚ) < b.quarterFactor (b.top - n) := by exact_mod_cast b.quarterFactor_pos _
  have hsum : b.top - n + (n + 1 : Nat) = b.top + 1 := by omega
  have hbelow : 4 * b.mantissa * b.quarterFactor (b.top - n)
      < b.gridFactor (b.top - n) * 10 ^ (n + 1) := by
    rw [← @Nat.cast_lt ℚ]
    push_cast
    rw [← lt_div_iff₀ hq, mul_div_right_comm, gridFactor_div, ← mul_div_right_comm,
      lt_div_iff₀ (by positivity), mul_right_comm, four_quarters, mul_comm, ← zpow_natCast,
      ← zpow_add₀ (by norm_num), hsum]
    exact (top_spec hb).2
  exact (holds_of_nearestOn h).2.trans (Nat.div_lt_of_lt_mul hbelow)

/-- The shortest decimal lies in the basin, and has seventeen digits at most. -/
theorem shortest_spec (tie : Tie) (hf : 2 * 2 ^ f.fractionBits ≤ 10 ^ 16) (hx : 0 < x.mantissa) :
    ((of x).shortest tie).coefficient ≠ 0 ∧ ((of x).shortest tie).coefficient ≤ 10 ^ 17 ∧
      (2 : ℚ) ^ (x.exponent - 2) ≤ ((of x).shortest tie).value ∧
      ((of x).shortest tie).value ≤ (x.mantissa + 1 / 2) * 2 ^ x.exponent := by
  obtain ⟨n, k, hn, hk, -, hshortest⟩ := exists_hit tie hf hx
  have hholds := (holds_of_nearestOn hk).1
  obtain ⟨hlow, hhigh⟩ := bounds_of_holds hholds
  have hstart := one_le_low hx
  have hzero := ne_zero_of_holds hx hholds
  have hdigits : k ≤ 10 ^ 17 :=
    (le_of_nearestOn hx hk).trans (Nat.pow_le_pow_right (by norm_num) (by omega))
  obtain ⟨hvalue, htrim, hle⟩ := Decimal.trim_spec ⟨k, (of x).top - n⟩ hzero
  rw [hshortest, hvalue]
  refine ⟨htrim, hle.trans hdigits, ?_, ?_⟩
  · have hstart' : (1 : ℚ) ≤ (of x).low := by exact_mod_cast hstart
    exact (le_mul_of_one_le_left (by positivity) hstart').trans hlow
  · refine hhigh.trans_eq ?_
    rw [← four_quarters x.exponent, show (of x).high = 4 * x.mantissa + 2 from rfl]
    push_cast
    rw [show (of x).exponent = x.exponent from rfl]
    ring

end Basin

end ShaderNodes
