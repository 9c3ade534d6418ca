import Mathlib
import ShaderNodes.Proofs.NearestNumbers

/-!
# Shortest decimals have the fewest digits

The basin of a number holds what is rounded to the number. So any decimal that is rounded to it
gives a point of the basin on one of the grids that are searched, no finer than the decimal has
digits, and the search stops there at the latest.

* `Basin.exists_coarse`: decimals with few digits, on coarse grids;
* `Basin.rounds_shortest`: the shortest decimal is rounded to the number;
* `Basin.digits_shortest_le`: no decimal that is rounded to the number has fewer digits;
* `Basin.shortest_le_iff`: shortest decimals are ordered as the numbers are.
-/

namespace ShaderNodes

namespace Basin

variable {f : Format} {x : Binary f} {g : Int} {k : Nat}

/-! ## The search -/

/-- The number lies inside its basin. -/
theorem low_lt_high (hx : 0 < x.mantissa) :
    (of x).low < 4 * (of x).mantissa ∧ 4 * (of x).mantissa < (of x).high := by
  have hhigh : (of x).high = 4 * (of x).mantissa + 2 := rfl
  obtain h | ⟨-, h⟩ := low_cases hx <;> omega

/-- What lies between a point of the basin and the inside belongs to the basin. -/
theorem holds_of_between {b : Basin} {j : Nat} (h : b.holds g k)
    (hlow : k * b.gridFactor g ≤ j * b.gridFactor g ∨
      b.low * b.quarterFactor g < j * b.gridFactor g)
    (hhigh : j * b.gridFactor g ≤ k * b.gridFactor g ∨
      j * b.gridFactor g < b.high * b.quarterFactor g) : b.holds g j := by
  unfold holds at h ⊢
  cases hclosed : b.closed
  all_goals
    simp only [hclosed, if_true, Bool.false_eq_true, if_false, Bool.and_eq_true,
      decide_eq_true_eq] at h ⊢
    omega

/-- A grid that has any point in the basin has one next to the number. -/
theorem isSome_nearestOn_of_holds (tie : Tie) (hx : 0 < x.mantissa) (h : (of x).holds g k) :
    ((of x).nearestOn tie g).isSome := by
  obtain ⟨hlow, hhigh⟩ := low_lt_high hx
  have hq := (of x).quarterFactor_pos g
  have hbelow := Nat.div_mul_le_self (4 * (of x).mantissa * (of x).quarterFactor g)
    ((of x).gridFactor g)
  have habove : 4 * (of x).mantissa * (of x).quarterFactor g
      < 4 * (of x).mantissa * (of x).quarterFactor g / (of x).gridFactor g * (of x).gridFactor g
        + (of x).gridFactor g := Nat.lt_div_mul_add ((of x).gridFactor_pos g)
  have hlow' := Nat.mul_lt_mul_of_pos_right hlow hq
  have hhigh' := Nat.mul_lt_mul_of_pos_right hhigh hq
  apply isSome_nearestOn
  generalize 4 * (of x).mantissa * (of x).quarterFactor g / (of x).gridFactor g = n at *
  -- The neighbour of the number on the side of the point is no further away than the point.
  obtain hle | hlt := le_or_gt k n
  · have hmul := Nat.mul_le_mul_right ((of x).gridFactor g) hle
    exact .inl (holds_of_between h (.inl hmul) (.inr (by omega)))
  · have hmul := Nat.mul_le_mul_right ((of x).gridFactor g) (Nat.succ_le_of_lt hlt)
    refine .inr (holds_of_between h (.inr ?_) (.inl hmul))
    rw [add_mul]
    omega

/-- A point of the basin with few digits gives a point on a coarse grid. -/
theorem exists_coarse (hx : 0 < x.mantissa) (h : (of x).holds g k) :
    ∃ n j : Nat, n < (digits k).length ∧ (of x).holds ((of x).top - n) j := by
  have hten : (10 : ℚ) ≠ 0 := by norm_num
  obtain hfine | hcoarse := lt_or_ge (g + (digits k).length) ((of x).top + 1)
  · -- The point lies below the power of ten below the number, which is then in the basin as well.
    refine ⟨0, 1, by rw [length_digits]; omega, ?_⟩
    have hpoint : (k : ℚ) * 10 ^ g ≤ 10 ^ (of x).top := by
      have hless : (k : ℚ) ≤ 10 ^ (digits k).length := by
        rw [length_digits]
        exact_mod_cast (Nat.lt_pow_succ_log_self (by norm_num) k).le
      calc (k : ℚ) * 10 ^ g
          ≤ 10 ^ (digits k).length * 10 ^ g := by gcongr
        _ = 10 ^ (g + (digits k).length) := by rw [zpow_add₀ hten, zpow_natCast, mul_comm]
        _ ≤ 10 ^ (of x).top := zpow_le_zpow_right₀ (by norm_num) (by omega)
    have hnumber : (10 : ℚ) ^ (of x).top < (of x).high * 2 ^ ((of x).exponent - 2) := by
      refine (top_spec (b := of x) hx).1.trans_lt ?_
      have hhigh : ((4 * (of x).mantissa : Nat) : ℚ) < (of x).high := by
        exact_mod_cast (low_lt_high hx).2
      rw [← four_quarters, ← mul_assoc]
      push_cast at hhigh
      gcongr
      linarith
    obtain ⟨hbounds, hstrict⟩ := holds_iff.1 h
    rw [holds_iff, Nat.cast_zero, sub_zero, Nat.cast_one, one_mul]
    refine ⟨⟨by linarith, hnumber.le⟩, fun hopen => ?_⟩
    obtain ⟨hlow, -⟩ := hstrict hopen
    exact ⟨by linarith, hnumber⟩
  · -- The point lies on a grid that is searched, or on one that is coarser than all of these.
    refine ⟨((of x).top - g).toNat, k * 10 ^ (g - (of x).top).toNat, ?_, ?_⟩
    · have hlength := length_digits k
      omega
    · have hsum : g = (g - (of x).top).toNat + ((of x).top - ((of x).top - g).toNat) := by omega
      have hsame : (k : ℚ) * 10 ^ g = ((k * 10 ^ (g - (of x).top).toNat : Nat) : ℚ)
          * 10 ^ ((of x).top - ((of x).top - g).toNat) := by
        rw [Nat.cast_mul, mul_assoc, Nat.cast_pow, Nat.cast_ofNat, ← zpow_natCast, ← zpow_add₀ hten,
          ← hsum]
      rw [holds_iff] at h ⊢
      rwa [← hsame]

/-! ## Fewest digits -/

end Basin

/-- A power of ten loses all its zeros. -/
theorem Decimal.trim_pow_ten (n : Nat) (e : Int) :
    (⟨10 ^ n, e⟩ : Decimal).trim.coefficient = 1 := by
  induction n generalizing e with
  | zero =>
    rw [trim, if_neg (by simp)]
    rfl
  | succ n ih =>
    have hpos : 10 ^ n ≠ 0 := by positivity
    rw [trim, if_pos ⟨by positivity, by simp [pow_succ]⟩]
    dsimp only
    rw [pow_succ, Nat.mul_div_cancel _ (by norm_num)]
    exact ih (e + 1)

namespace Basin

variable {f : Format} (hf : 0 < f.fractionBits) (he : 2 ≤ f.exponentBits)
  (hdigits : 2 * 2 ^ f.fractionBits ≤ 10 ^ 16) (tie : Tie) {x y : Binary f}

include hf he hdigits

/-- The shortest decimal is rounded to the number. -/
theorem rounds_shortest (hfinite : x.isFinite) (hx : x.rank ≠ 0) :
    Binary.Rounds x.negative (signed x.negative ((of x).shortest tie).value) x := by
  have hmantissa := Binary.mantissa_pos (decide_eq_false hx)
  obtain ⟨n, k, -, hk, -, hshortest⟩ := exists_hit tie hdigits hmantissa
  have hholds := (holds_of_nearestOn hk).1
  have hvalue := (Decimal.trim_spec ⟨k, (of x).top - n⟩ (ne_zero_of_holds hmantissa hholds)).1
  rw [hshortest, hvalue]
  exact (holds_iff_rounds hf he hfinite hx).1 hholds

/-- No decimal that is rounded to the number has fewer digits than the shortest one. -/
theorem digits_shortest_le (hx : x.rank ≠ 0) {d : Decimal}
    (hd : Binary.Rounds x.negative (signed x.negative d.value) x) :
    (digits ((of x).shortest tie).coefficient).length ≤ (digits d.coefficient).length := by
  have hmantissa := Binary.mantissa_pos (decide_eq_false hx)
  obtain ⟨n, k, -, hk, hfirst, hshortest⟩ := exists_hit tie hdigits hmantissa
  have hpoint := (holds_iff_rounds hf he hd.finite hx).2 hd
  obtain ⟨i, j, hi, hj⟩ := exists_coarse hmantissa hpoint
  have hn : n ≤ i := hfirst i (isSome_nearestOn_of_holds tie hmantissa hj)
  have hzero := ne_zero_of_holds hmantissa (holds_of_nearestOn hk).1
  have hle := (Decimal.trim_spec ⟨k, (of x).top - n⟩ hzero).2.2
  rw [hshortest, length_digits]
  -- A hit on its grid has one digit too many only if it is a power of ten.
  obtain rfl | hless := (le_of_nearestOn hmantissa hk).eq_or_lt
  · rw [Decimal.trim_pow_ten, Nat.log_one_right]
    omega
  · have hlog : Nat.log 10 (⟨k, (of x).top - n⟩ : Decimal).trim.coefficient < n + 1 :=
      Nat.log_lt_of_lt_pow' (by omega) (hle.trans_lt hless)
    omega

/-- Shortest decimals grow with the magnitude. -/
theorem shortest_lt (hfinite : y.isFinite) (hx : x.rank ≠ 0) (h : x.rank < y.rank) :
    ((of x).shortest tie).value < ((of y).shortest tie).value := by
  have hless : y.rank < f.infinityRank := of_decide_eq_true hfinite
  -- Without their signs the numbers have the same basins.
  let u : Binary f := ⟨false, x.rank, x.rank_lt⟩
  let v : Binary f := ⟨false, y.rank, y.rank_lt⟩
  have hu : u.isFinite := decide_eq_true (h.trans hless)
  have hv : v.isFinite := decide_eq_true hless
  have hy : v.rank ≠ 0 := Nat.ne_zero_of_lt h
  have hfrom : Binary.Rounds false ((of x).shortest tie).value u :=
    rounds_shortest hf he hdigits tie hu hx
  have hto : Binary.Rounds false ((of y).shortest tie).value v :=
    rounds_shortest hf he hdigits tie hv hy
  exact hfrom.lt_of_rank_lt hto h

theorem shortest_le_iff (hxfinite : x.isFinite) (hyfinite : y.isFinite) (hx : x.rank ≠ 0)
    (hy : y.rank ≠ 0) :
    ((of x).shortest tie).value ≤ ((of y).shortest tie).value ↔ x.magnitude ≤ y.magnitude := by
  obtain hlt | heq | hgt := lt_trichotomy x.rank y.rank
  · have hless := shortest_lt hf he hdigits tie hyfinite hx hlt
    exact iff_of_true hless.le (Binary.magnitude_lt hlt).le
  · have hsame : of x = of y := by
      unfold of Binary.mantissa Binary.exponent
      rw [heq]
    rw [hsame, Binary.magnitude_eq_of_rank heq]
    exact iff_of_true le_rfl le_rfl
  · have hless := shortest_lt hf he hdigits tie hxfinite hy hgt
    exact iff_of_false hless.not_ge (Binary.magnitude_lt hgt).not_ge

end Basin

end ShaderNodes
