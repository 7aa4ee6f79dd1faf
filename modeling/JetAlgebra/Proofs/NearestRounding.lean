import JetAlgebra.Proofs.DoubleFields

/-!
# The error of rounding

A number is written `x * 2 ^ e` with 53 digits before the point of `x`, and rounded by taking the
natural number nearest to `x` (`IsRounded`).  The relative error is at most `2 ^ -53`, except
near zero, where there are fewer digits, and the absolute one at most `2 ^ -1075`
(`IsRounded.isNear`).  A number that is not beyond the largest double is rounded to a finite one
(`round_approximates`), and an integer of 53 digits to itself
(`toRat?_roundToIntegral`).
-/
namespace JetAlgebra.Binary64
open Float.Model UnpackedFloat

/-! ## The nearest integer -/

/-- **The integer nearest to a number**, a tie going to the even one. -/
structure IsNearestInt (k : Int) (q : Rat) : Prop where
  near : |(k : Rat) - q| ≤ 1 / 2
  tie : |(k : Rat) - q| = 1 / 2 → Even k

namespace IsNearestInt
variable {k n : Int} {q : Rat}

theorem of_lt (h : |(k : Rat) - q| < 1 / 2) : IsNearestInt k q :=
  ⟨h.le, fun tie => absurd tie h.ne⟩

theorem neg (h : IsNearestInt k q) : IsNearestInt (-k) (-q) := by
  have same : |((-k : Int) : Rat) - -q| = |(k : Rat) - q| := by
    rw [Int.cast_neg, neg_sub_neg, abs_sub_comm]
  exact ⟨same ▸ h.near, fun tie => (h.tie (same ▸ tie)).neg⟩

/-- Only one integer is less than a half away. -/
theorem eq_of_lt (h : IsNearestInt k q) (near : |q - n| < 1 / 2) : k = n := by
  have close : |((k - n : Int) : Rat)| < 1 := by
    calc |((k - n : Int) : Rat)| = |(k - q) + (q - n)| := by push_cast; ring_nf
      _ ≤ |(k : Rat) - q| + |q - n| := abs_add_le _ _
      _ < 1 / 2 + 1 / 2 := add_lt_add_of_le_of_lt h.near near
      _ = 1 := by norm_num
  have none : |k - n| < 1 := by exact_mod_cast close
  have := Int.abs_lt_one_iff.mp none
  omega

end IsNearestInt

section Fractions
variable {r d : Nat} (hd : 0 < d)
include hd

/-- A quotient is its integer part and a fraction. -/
theorem natCast_div_eq (n : Nat) : (n : Rat) / d = (n / d : Nat) + (n % d : Nat) / d := by
  have positive : (0 : Rat) < d := Nat.cast_pos.mpr hd
  have parts : (d : Rat) * (n / d : Nat) + (n % d : Nat) = n := by
    exact_mod_cast Nat.div_add_mod n d
  rw [← parts, add_div, mul_div_cancel_left₀ _ positive.ne']

theorem div_lt_half_iff : (r : Rat) / d < 1 / 2 ↔ 2 * r < d := by
  rw [div_lt_div_iff₀ (Nat.cast_pos.mpr hd) two_pos, one_mul, mul_comm]
  exact_mod_cast Iff.rfl

theorem half_lt_div_iff : 1 / 2 < (r : Rat) / d ↔ d < 2 * r := by
  rw [div_lt_div_iff₀ two_pos (Nat.cast_pos.mpr hd), one_mul, mul_comm]
  exact_mod_cast Iff.rfl

theorem div_eq_half (h : 2 * r = d) : (r : Rat) / d = 1 / 2 := by
  rw [div_eq_div_iff (Nat.cast_pos.mpr hd).ne' two_ne_zero, one_mul, mul_comm]
  exact_mod_cast h

theorem isNearestInt_nearestQuotient (n : Nat) :
    IsNearestInt (nearestQuotient n d) ((n : Rat) / d) := by
  have zero_le : (0 : Rat) ≤ (n % d : Nat) / d := by positivity
  have lt_one : ((n % d : Nat) : Rat) / d < 1 :=
    (div_lt_one (Nat.cast_pos.mpr hd)).mpr (by exact_mod_cast Nat.mod_lt n hd)
  have floor : |((n / d : Nat) : Rat) - n / d| = (n % d : Nat) / d := by
    rw [natCast_div_eq hd, sub_add_cancel_left, abs_neg, abs_of_nonneg zero_le]
  have ceiling : |((n / d + 1 : Nat) : Rat) - n / d| = 1 - (n % d : Nat) / d := by
    rw [natCast_div_eq hd, Nat.cast_succ, add_sub_add_left_eq_sub, abs_of_pos (sub_pos.mpr lt_one)]
  simp only [nearestQuotient, beq_iff_eq]
  split_ifs with less more even
  · refine .of_lt ?_
    rw [Int.cast_natCast, floor]
    exact (div_lt_half_iff hd).mpr less
  · refine .of_lt ?_
    rw [Int.cast_natCast, ceiling]
    linarith [(half_lt_div_iff hd).mpr more]
  all_goals
    have half := div_eq_half hd (show 2 * (n % d) = d by omega)
  · refine ⟨?_, fun _ => ?_⟩
    · rw [Int.cast_natCast, floor, half]
    · exact_mod_cast Nat.even_iff.mpr even
  · refine ⟨?_, fun _ => ?_⟩
    · rw [Int.cast_natCast, ceiling, half]
      norm_num
    · have even : (n / d + 1) % 2 = 0 := by omega
      exact_mod_cast Nat.even_iff.mpr even

end Fractions

theorem isNearestInt_nearestInt (q : Rat) : IsNearestInt (nearestInt q) q := by
  have h := isNearestInt_nearestQuotient q.den_pos q.num.natAbs
  have whole := Rat.num_div_den q
  simp only [nearestInt]
  by_cases negative : q.num < 0
  · have size : ((q.num.natAbs : Nat) : Rat) = -q.num := by
      rw [Nat.cast_natAbs, abs_of_neg negative, Int.cast_neg]
    rw [if_pos negative]
    rw [size, neg_div, whole] at h
    have opposite := h.neg
    rwa [neg_neg] at opposite
  · have size : ((q.num.natAbs : Nat) : Rat) = q.num := by
      rw [Nat.cast_natAbs, abs_of_nonneg (Int.not_lt.mp negative)]
    rw [if_neg negative]
    rwa [size, whole] at h

/-! ## Rounding to 53 digits -/

/-- The largest double. -/
def largest : Rat := (2 ^ 53 - 1) * (2 : Rat) ^ (971 : Int)

theorem le_largest {q : Rat} {n : Int} (h : q ≤ 7 / 4 * (2 : Rat) ^ n) (hn : n ≤ 1023) :
    q ≤ largest := by
  have power : (2 : Rat) ^ n ≤ 2 ^ 52 * (2 : Rat) ^ (971 : Int) := by
    calc (2 : Rat) ^ n ≤ (2 : Rat) ^ (52 + 971 : Int) := zpow_le_zpow_right₀ one_le_two (by omega)
      _ = 2 ^ 52 * (2 : Rat) ^ (971 : Int) := by
          rw [zpow_add₀ two_ne_zero]
          norm_num
  have top : 7 / 4 * 2 ^ 52 * (2 : Rat) ^ (971 : Int) ≤ largest :=
    mul_le_mul_of_nonneg_right (by norm_num) (by positivity)
  linarith

theorem le_largest_of_le {q : Rat} (h : q ≤ (2 : Rat) ^ (1023 : Int)) : q ≤ largest := by
  have positive : (0 : Rat) ≤ (2 : Rat) ^ (1023 : Int) := by positivity
  exact le_largest (h.trans (le_mul_of_one_le_left positive (by norm_num))) le_rfl

/-- **The error of one rounding**, relative or next to zero absolute. -/
def IsNear (v q : Rat) : Prop :=
  |v - q| ≤ |q| * (2 : Rat) ^ (-53 : Int) + (2 : Rat) ^ (-1075 : Int)

/-- **Rounding**: the number `x * 2 ^ e` becomes `m * 2 ^ e`, for a natural number `m` nearest to
`x`, which has 53 digits before the point unless `e` is the least exponent. -/
structure IsRounded (x : Rat) (m : Nat) (e : Int) : Prop where
  near : |(m : Rat) - x| ≤ 1 / 2
  least : -1074 ≤ e
  below : x < 2 ^ 53
  normal : e = -1074 ∨ 2 ^ 52 ≤ x

/-- A significand that was rounded up to 54 digits loses the last one, which is zero. -/
def carry (m : Nat) (e : Int) : Nat × Int := if m < 2 ^ 53 then (m, e) else (2 ^ 52, e + 1)

/-- The exponent of a number that is not too large. -/
theorem exponent_lt {x : Rat} {e : Int} (bound : x * (2 : Rat) ^ e ≤ largest) {a : Rat} {n : Int}
    (positive : 0 ≤ a) (lower : a ≤ x) (large : largest < a * (2 : Rat) ^ n) : e < n := by
  by_contra beyond
  have steps : (2 : Rat) ^ n ≤ (2 : Rat) ^ e :=
    zpow_le_zpow_right₀ one_le_two (Int.not_lt.mp beyond)
  have := mul_le_mul lower steps (by positivity) (positive.trans lower)
  linarith

namespace IsRounded
variable {x : Rat} {m : Nat} {e : Int} (h : IsRounded x m e)
include h

theorem le : m ≤ 2 ^ 53 := by
  have upper := (abs_le.mp h.near).2
  have below := h.below
  have : (m : Rat) < 2 ^ 53 + 1 := by linarith
  have : m < 2 ^ 53 + 1 := by exact_mod_cast this
  omega

theorem significand : e = -1074 ∨ 2 ^ 52 ≤ m := by
  refine h.normal.imp_right fun normal => ?_
  have lower := (abs_le.mp h.near).1
  have : (2 ^ 52 : Rat) < m + 1 := by linarith
  have : 2 ^ 52 < m + 1 := by exact_mod_cast this
  omega

theorem carry_value :
    ((carry m e).1 : Rat) * (2 : Rat) ^ (carry m e).2 = m * (2 : Rat) ^ e := by
  have le := h.le
  rw [carry]
  by_cases small : m < 2 ^ 53
  · rw [if_pos small]
  · obtain rfl : m = 2 ^ 53 := by omega
    rw [if_neg small, zpow_add_one₀ two_ne_zero]
    push_cast
    ring

theorem signed_carry_value (s : Sign) :
    s.apply (carry m e).1 * (2 : Rat) ^ (carry m e).2 = s.apply m * (2 : Rat) ^ e := by
  rw [signed_eq s (carry m e).1, signed_eq s m, mul_assoc, mul_assoc]
  exact congrArg _ h.carry_value

theorem carry_bits : ((carry m e).2 + 1074).toNat * 2 ^ 52 + (carry m e).1 =
    (e + 1074).toNat * 2 ^ 52 + m := by
  have le := h.le
  have least := h.least
  rw [carry]
  by_cases small : m < 2 ^ 53
  · rw [if_pos small]
  · have next : (e + 1 + 1074).toNat = (e + 1074).toNat + 1 := by omega
    rw [if_neg small, next]
    omega

/-- Bits below those of infinity are those of a finite double. -/
theorem fits_of_bits (bits : (e + 1074).toNat * 2 ^ 52 + m < 2047 * 2 ^ 52) :
    Fits (carry m e).1 (carry m e).2 := by
  have le := h.le
  have least := h.least
  have significand := h.significand
  rw [carry]
  by_cases small : m < 2 ^ 53
  · rw [if_pos small]
    exact ⟨small, least, by omega, significand⟩
  · rw [if_neg small]
    exact ⟨by norm_num, by omega, by omega, .inr le_rfl⟩

/-- **A number that is not too large** is rounded to a finite double. -/
theorem fits (bound : x * (2 : Rat) ^ e ≤ largest) : Fits (carry m e).1 (carry m e).2 := by
  have le := h.le
  have least := h.least
  rw [carry]
  by_cases small : m < 2 ^ 53
  · rw [if_pos small]
    refine ⟨small, least, ?_, h.significand⟩
    rcases h.normal with rfl | normal
    · exact (by decide : (-1074 : Int) ≤ 971)
    · refine Int.lt_add_one_iff.mp (exponent_lt bound (by norm_num) normal ?_)
      calc largest < 2 ^ 53 * (2 : Rat) ^ (971 : Int) :=
            mul_lt_mul_of_pos_right (by norm_num) (by positivity)
        _ = 2 ^ 52 * (2 : Rat) ^ (971 + 1 : Int) := by
            rw [zpow_add_one₀ two_ne_zero]
            ring
  · obtain rfl : m = 2 ^ 53 := by omega
    rw [if_neg small]
    refine ⟨by norm_num, by omega, ?_, .inr le_rfl⟩
    have lower : 2 ^ 53 - 1 / 2 ≤ x := by
      have upper := (abs_le.mp h.near).2
      push_cast at upper
      linarith
    have large : largest < (2 ^ 53 - 1 / 2) * (2 : Rat) ^ (971 : Int) :=
      mul_lt_mul_of_pos_right (by norm_num) (by positivity)
    exact exponent_lt bound (by norm_num) lower large

/-- An integer is rounded to itself. -/
theorem eq_of_natCast {n : Nat} (whole : x = n) : m = n := by
  have near := h.near
  rw [whole] at near
  have close : |(((m : Int) - n : Int) : Rat)| < 1 := by
    push_cast
    linarith
  have none : |(m : Int) - n| < 1 := by exact_mod_cast close
  have := Int.abs_lt_one_iff.mp none
  omega

/-- A number of at most 53 digits before the point has its last place there, or behind. -/
theorem exponent_nonpos (small : x * (2 : Rat) ^ e < 2 ^ 53) : e ≤ 0 := by
  rcases h.normal with rfl | normal
  · exact (by decide : (-1074 : Int) ≤ 0)
  · by_contra high
    have step : (2 : Rat) ^ (1 : Int) ≤ (2 : Rat) ^ e := zpow_le_zpow_right₀ one_le_two (by omega)
    have := mul_le_mul normal step (by positivity) (by linarith)
    norm_num at this
    linarith

/-- **The error of rounding** is half of the last place. -/
theorem isNear (s : Sign) (positive : 0 ≤ x) :
    IsNear (s.apply m * (2 : Rat) ^ e) (s.apply 1 * (x * (2 : Rat) ^ e)) := by
  have step : (0 : Rat) < (2 : Rat) ^ e := by positivity
  have half : |s.apply m * (2 : Rat) ^ e - s.apply 1 * (x * (2 : Rat) ^ e)| ≤
      1 / 2 * (2 : Rat) ^ e := by
    rw [signed_eq, ← mul_assoc, ← sub_mul, ← mul_sub, abs_mul, abs_mul, Int.cast_natCast,
      abs_signed_one, one_mul, abs_of_pos step]
    exact mul_le_mul_of_nonneg_right h.near step.le
  rw [IsNear, abs_mul, abs_signed_one, one_mul, abs_mul, abs_of_pos step, abs_of_nonneg positive]
  refine half.trans ?_
  rcases h.normal with rfl | normal
  · have last : 1 / 2 * (2 : Rat) ^ (-1074 : Int) = (2 : Rat) ^ (-1075 : Int) := by
      rw [show (-1075 : Int) = -1074 - 1 from rfl, zpow_sub_one₀ two_ne_zero]
      ring
    rw [last]
    exact le_add_of_nonneg_left (by positivity)
  · have relative : 1 / 2 ≤ x * (2 : Rat) ^ (-53 : Int) := by
      have unit : (2 : Rat) ^ (-53 : Int) = 1 / 2 / 2 ^ 52 := by norm_num
      rw [unit, mul_div_assoc', le_div_iff₀ (by norm_num)]
      linarith
    refine le_add_of_le_of_nonneg ?_ (by positivity)
    calc 1 / 2 * (2 : Rat) ^ e ≤ x * (2 : Rat) ^ (-53 : Int) * (2 : Rat) ^ e :=
          mul_le_mul_of_nonneg_right relative step.le
      _ = x * (2 : Rat) ^ e * (2 : Rat) ^ (-53 : Int) := by ring

end IsRounded

/-- **A double approximates a number**: it is finite, and one rounding away. -/
def Approximates (x : Float) (q : Rat) : Prop := ∃ v, toRat? x = some v ∧ IsNear v q

/-! ## The nearest double -/

/-- A quotient lies between two powers of two, by the lengths of its operands. -/
theorem quotient_bounds {n d : Nat} (hn : 0 < n) (hd : 0 < d) :
    (2 : Rat) ^ ((n.log2 : Int) - d.log2 - 1) < (n : Rat) / d ∧
      (n : Rat) / d < (2 : Rat) ^ ((n.log2 : Int) - d.log2 + 1) := by
  have two : (2 : Rat) ≠ 0 := two_ne_zero
  have positive : (0 : Rat) < d := Nat.cast_pos.mpr hd
  have n_lower : (2 : Rat) ^ n.log2 ≤ n := by exact_mod_cast Nat.log2_self_le hn.ne'
  have n_upper : (n : Rat) < 2 ^ (n.log2 + 1) := by exact_mod_cast Nat.lt_log2_self
  have d_lower : (2 : Rat) ^ d.log2 ≤ d := by exact_mod_cast Nat.log2_self_le hd.ne'
  have d_upper : (d : Rat) < 2 ^ (d.log2 + 1) := by exact_mod_cast Nat.lt_log2_self
  constructor
  · rw [lt_div_iff₀ positive]
    calc (2 : Rat) ^ ((n.log2 : Int) - d.log2 - 1) * d
        < (2 : Rat) ^ ((n.log2 : Int) - d.log2 - 1) * 2 ^ (d.log2 + 1) :=
          mul_lt_mul_of_pos_left d_upper (by positivity)
      _ = 2 ^ n.log2 := by
          rw [← zpow_natCast, ← zpow_natCast, ← zpow_add₀ two]
          congr 1
          omega
      _ ≤ n := n_lower
  · rw [div_lt_iff₀ positive]
    calc (n : Rat) < 2 ^ (n.log2 + 1) := n_upper
      _ = (2 : Rat) ^ ((n.log2 : Int) - d.log2 + 1) * 2 ^ d.log2 := by
          rw [← zpow_natCast, ← zpow_natCast, ← zpow_add₀ two]
          congr 1
          omega
      _ ≤ (2 : Rat) ^ ((n.log2 : Int) - d.log2 + 1) * d :=
          mul_le_mul_of_nonneg_left d_lower (by positivity)

/-- Comparing a quotient with a power of two, in natural numbers. -/
theorem quotient_lt_iff {n d : Nat} (hd : 0 < d) (k : Int) :
    (if 0 ≤ k then n < d * twoPower k.toNat else n * twoPower (-k).toNat < d) ↔
      (n : Rat) / d < (2 : Rat) ^ k := by
  have positive : (0 : Rat) < d := Nat.cast_pos.mpr hd
  split_ifs with hk
  · obtain ⟨j, rfl⟩ := Int.eq_ofNat_of_zero_le hk
    rw [div_lt_iff₀ positive, Int.toNat_natCast, zpow_natCast, mul_comm d]
    exact_mod_cast Iff.rfl
  · obtain ⟨j, hj⟩ := Int.eq_ofNat_of_zero_le (show 0 ≤ -k by omega)
    obtain rfl : k = -(j : Int) := by omega
    rw [div_lt_iff₀ positive, neg_neg, Int.toNat_natCast, zpow_neg, zpow_natCast, inv_mul_eq_div,
      lt_div_iff₀ (by positivity)]
    exact_mod_cast Iff.rfl

/-- **The exponent of the last place**: a quotient has 53 digits before it, unless it is the
least one. -/
theorem lastPlace_spec {n d : Nat} (hn : 0 < n) (hd : 0 < d) :
    -1074 ≤ lastPlace n d ∧ (n : Rat) / d < (2 : Rat) ^ (53 + lastPlace n d) ∧
      (lastPlace n d = -1074 ∨ (2 : Rat) ^ (52 + lastPlace n d) ≤ (n : Rat) / d) := by
  have power {i j : Int} (h : i ≤ j) : (2 : Rat) ^ i ≤ (2 : Rat) ^ j :=
    zpow_le_zpow_right₀ one_le_two h
  obtain ⟨lower, upper⟩ := quotient_bounds hn hd
  have order := quotient_lt_iff (n := n) hd ((n.log2 : Int) - d.log2 - 52 + 52)
  simp only [lastPlace]
  by_cases below : (n : Rat) / d < (2 : Rat) ^ ((n.log2 : Int) - d.log2 - 52 + 52)
  · rw [if_pos (order.mpr below)]
    refine ⟨le_max_left _ _, below.trans_le (power (by omega)), ?_⟩
    rcases max_choice (-1074) ((n.log2 : Int) - d.log2 - 52 - 1) with least | other
    · exact .inl least
    · rw [other]
      exact .inr ((power (by omega)).trans lower.le)
  · rw [if_neg (mt order.mp below)]
    refine ⟨le_max_left _ _, upper.trans_le (power (by omega)), ?_⟩
    rcases max_choice (-1074) ((n.log2 : Int) - d.log2 - 52) with least | other
    · exact .inl least
    · rw [other]
      exact .inr ((power (by omega)).trans (not_lt.mp below))

/-- Rounding a quotient in units of the last place. -/
theorem nearestQuotient_scaled (n : Nat) {d : Nat} (hd : 0 < d) (e : Int) :
    |((if 0 ≤ e then nearestQuotient n (d * twoPower e.toNat)
      else nearestQuotient (n * twoPower (-e).toNat) d : Nat) : Rat) -
        (n : Rat) / d / (2 : Rat) ^ e| ≤ 1 / 2 := by
  split_ifs with he
  · obtain ⟨j, rfl⟩ := Int.eq_ofNat_of_zero_le he
    have near := (isNearestInt_nearestQuotient (Nat.mul_pos hd (one_le_twoPower j)) n).near
    have scale : ((d * twoPower j : Nat) : Rat) = d * (2 : Rat) ^ (j : Int) := by
      rw [zpow_natCast]
      exact_mod_cast rfl
    rwa [scale, ← div_div] at near
  · obtain ⟨j, hj⟩ := Int.eq_ofNat_of_zero_le (show 0 ≤ -e by omega)
    obtain rfl : e = -(j : Int) := by omega
    have near := (isNearestInt_nearestQuotient hd (n * twoPower j)).near
    have scale : ((n * twoPower j : Nat) : Rat) / d = n / d / (2 : Rat) ^ (-(j : Int)) := by
      have power : ((n * twoPower j : Nat) : Rat) = n * 2 ^ j := by exact_mod_cast rfl
      rw [power, zpow_neg, zpow_natCast, div_inv_eq_mul, div_mul_eq_mul_div]
    rw [scale] at near
    rwa [neg_neg]

theorem magnitudeBits_eq {n d : Nat} (hn : 0 < n) (hd : 0 < d) : ∃ x m e, IsRounded x m e ∧
    x * (2 : Rat) ^ e = (n : Rat) / d ∧
    magnitudeBits n d = min ((e + 1074).toNat * 2 ^ 52 + m) (2047 * 2 ^ 52) := by
  obtain ⟨least, below, normal⟩ := lastPlace_spec hn hd
  have step : (0 : Rat) < (2 : Rat) ^ lastPlace n d := by positivity
  rw [zpow_add₀ two_ne_zero, ← div_lt_iff₀ step] at below
  rw [zpow_add₀ two_ne_zero, ← le_div_iff₀ step] at normal
  have nonzero : (n == 0) = false := beq_false_of_ne hn.ne'
  simp only [magnitudeBits, nonzero, Bool.false_eq_true, if_false]
  refine ⟨(n : Rat) / d / (2 : Rat) ^ lastPlace n d, _, lastPlace n d, ⟨?_, least, ?_, ?_⟩,
    div_mul_cancel₀ _ step.ne', rfl⟩
  · exact nearestQuotient_scaled n hd _
  · exact_mod_cast below
  · exact_mod_cast normal

theorem toRat?_of_bits {x : Rat} {m : Nat} {e : Int} (h : IsRounded x m e)
    (fits : Fits (carry m e).1 (carry m e).2) (negative : Bool) :
    toRat? (ofSignedBits negative (min ((e + 1074).toNat * 2 ^ 52 + m) (2047 * 2 ^ 52))) =
      some ((signOf negative).apply m * (2 : Rat) ^ e) := by
  have finite : min ((e + 1074).toNat * 2 ^ 52 + m) (2047 * 2 ^ 52) =
      ((carry m e).2 + 1074).toNat * 2 ^ 52 + (carry m e).1 := by
    have room := fits.greatest
    have digits := fits.significand
    rw [← h.carry_bits]
    omega
  rw [finite, fits.toRat?_ofSignedBits, h.signed_carry_value]

/-- **The nearest double** to a quotient that is not too large is finite. -/
theorem toRat?_magnitudeBits {n d : Nat} (hn : 0 < n) (hd : 0 < d) (negative : Bool)
    (bound : (n : Rat) / d ≤ largest) : ∃ x m e, IsRounded x m e ∧
      x * (2 : Rat) ^ e = (n : Rat) / d ∧
      toRat? (ofSignedBits negative (magnitudeBits n d)) =
        some ((signOf negative).apply m * (2 : Rat) ^ e) := by
  obtain ⟨x, m, e, rounded, value, bits⟩ := magnitudeBits_eq hn hd
  exact ⟨x, m, e, rounded, value,
    bits ▸ toRat?_of_bits rounded (rounded.fits (value ▸ bound)) negative⟩

/-- **Rounding a rational** that is not beyond the largest double. -/
theorem round_approximates {q : Rat} (bound : |q| ≤ largest) : Approximates (round q) q := by
  by_cases zero : q = 0
  · subst zero
    exact ⟨0, by decide +kernel, by rw [IsNear, sub_zero, abs_zero]; positivity⟩
  have size : (q.num.natAbs : Rat) / q.den = |q| := by
    rw [Nat.cast_natAbs, Int.cast_abs, ← Nat.abs_cast q.den, ← abs_div, Rat.num_div_den]
  have sign : ((signOf (q.num < 0)).apply 1 : Rat) * |q| = q := by
    by_cases negative : q.num < 0
    · rw [decide_eq_true negative, abs_of_neg (Rat.num_neg.mp negative)]
      simp [signOf, Sign.apply]
    · rw [decide_eq_false negative, abs_of_nonneg (Rat.num_nonneg.mp (Int.not_lt.mp negative))]
      simp [signOf, Sign.apply]
  have positive : 0 < q.num.natAbs := Int.natAbs_pos.mpr (mt Rat.num_eq_zero.mp zero)
  obtain ⟨x, m, e, rounded, value, rounds⟩ :=
    toRat?_magnitudeBits positive q.den_pos (q.num < 0) (size ▸ bound)
  have x_nonneg : 0 ≤ x := by
    have step : (0 : Rat) < (2 : Rat) ^ e := by positivity
    exact nonneg_of_mul_nonneg_left (value ▸ size ▸ abs_nonneg q) step
  have near := rounded.isNear (signOf (q.num < 0)) x_nonneg
  rw [value, size, sign] at near
  exact ⟨_, rounds, near⟩

/-! ## Integers -/

/-- **Rounding an integer** leaves an integer, and one of 53 digits as it is. -/
theorem IsRounded.exists_natCast {x : Rat} {m n : Nat} {e : Int} (h : IsRounded x m e)
    (value : x * (2 : Rat) ^ e = n) :
    ∃ k : Nat, (m : Rat) * (2 : Rat) ^ e = k ∧ (n < 2 ^ 53 → k = n) := by
  rcases le_or_gt e 0 with low | high
  · -- No digit stands behind the last place, so there is nothing to round.
    obtain ⟨j, rfl⟩ : ∃ j : Nat, e = -j := ⟨(-e).toNat, by omega⟩
    have power : (2 : Rat) ^ (-(j : Int)) * 2 ^ j = 1 := by
      rw [zpow_neg, zpow_natCast]
      exact inv_mul_cancel₀ (by positivity)
    have whole : x = (n * 2 ^ j : Nat) := by
      calc x = x * ((2 : Rat) ^ (-(j : Int)) * 2 ^ j) := by rw [power, mul_one]
        _ = n * 2 ^ j := by rw [← mul_assoc, value]
        _ = (n * 2 ^ j : Nat) := by push_cast; rfl
    obtain rfl := h.eq_of_natCast whole
    exact ⟨n, whole ▸ value, fun _ => rfl⟩
  · obtain ⟨j, rfl⟩ : ∃ j : Nat, e = j := ⟨e.toNat, by omega⟩
    refine ⟨m * 2 ^ j, by rw [zpow_natCast]; push_cast; rfl, fun small => ?_⟩
    have bound : (n : Rat) < 2 ^ 53 := by exact_mod_cast small
    have := h.exponent_nonpos (value ▸ bound)
    omega

theorem exists_int_of_bits {negative : Bool} {n : Nat} {q : Rat}
    (h : toRat? (ofSignedBits negative (magnitudeBits n 1)) = some q) : ∃ k : Int, q = k := by
  by_cases zero : n = 0
  · subst zero
    have none : toRat? (ofSignedBits negative (magnitudeBits 0 1)) = some 0 := by
      cases negative <;> decide +kernel
    exact ⟨0, (Option.some.inj (none.symm.trans h)).symm⟩
  obtain ⟨x, m, e, rounded, value, bits⟩ := magnitudeBits_eq (Nat.pos_of_ne_zero zero) one_pos
  rw [Nat.cast_one, div_one] at value
  rw [bits] at h
  by_cases finite : (e + 1074).toNat * 2 ^ 52 + m < 2047 * 2 ^ 52
  · obtain ⟨k, whole, -⟩ := rounded.exists_natCast value
    rw [toRat?_of_bits rounded (rounded.fits_of_bits finite)] at h
    refine ⟨(signOf negative).apply k, ?_⟩
    rw [← Option.some.inj h, signed_eq, signed_eq _ k, mul_assoc, Int.cast_natCast, whole]
    rfl
  · have infinite : toRat? (ofSignedBits negative (2047 * 2 ^ 52)) = none := by
      cases negative <;> decide +kernel
    rw [min_eq_right (not_lt.mp finite), infinite] at h
    cases h

/-- **An integer of 53 digits** is a double. -/
theorem toRat?_ofSignedBits_natCast (negative : Bool) {n : Nat} (hn : n < 2 ^ 53) :
    toRat? (ofSignedBits negative (magnitudeBits n 1)) =
      some (((signOf negative).apply n : Int) : Rat) := by
  by_cases zero : n = 0
  · subst zero
    cases negative <;> decide +kernel
  have small : (n : Rat) < 2 ^ 53 := by exact_mod_cast hn
  have bound : (n : Rat) / (1 : Nat) ≤ largest := by
    rw [Nat.cast_one, div_one]
    refine le_largest (?_ : (n : Rat) ≤ 7 / 4 * (2 : Rat) ^ (53 : Int)) (by norm_num)
    norm_num
    linarith
  obtain ⟨x, m, e, rounded, value, rounds⟩ :=
    toRat?_magnitudeBits (Nat.pos_of_ne_zero zero) one_pos negative bound
  rw [Nat.cast_one, div_one] at value
  obtain ⟨k, whole, same⟩ := rounded.exists_natCast value
  rw [rounds, signed_eq, signed_eq _ n, mul_assoc, Int.cast_natCast, Int.cast_natCast, whole,
    same hn]

/-- The sign bit of a double is the sign of its number. -/
theorem signBit_of_toRat? {x : Float} {v : Rat} (h : toRat? x = some v) (hv : v ≠ 0) :
    signBit x = decide (v < 0) := by
  obtain ⟨s, biased, fraction, fields⟩ := exists_fields x
  have unsigned : ∃ q : Rat, 0 ≤ q ∧ v = s.apply 1 * q := by
    have finite := fields.finite_of_toRat? h
    rw [fields.toRat?_eq finite] at h
    split at h
    · obtain rfl := Option.some.inj h
      exact ⟨fraction * (2 : Rat) ^ (-1074 : Int), by positivity, by rw [signed_eq, mul_assoc]; rfl⟩
    · obtain rfl := Option.some.inj h
      refine ⟨(2 ^ 52 + fraction : Nat) * (2 : Rat) ^ (biased - 1075 : Int), by positivity, ?_⟩
      rw [signed_eq, mul_assoc]
      push_cast
      rfl
  obtain ⟨q, nonneg, rfl⟩ := unsigned
  rw [fields.signBit_eq]
  cases s with
  | positive =>
    have : ¬ ((Sign.positive.apply 1 : Int) : Rat) * q < 0 := by simpa [Sign.apply] using nonneg
    rw [decide_eq_false this]
    rfl
  | negative =>
    have positive : 0 < q := nonneg.lt_of_ne' fun zero => hv (by rw [zero, mul_zero])
    have : ((Sign.negative.apply 1 : Int) : Rat) * q < 0 := by simpa [Sign.apply] using positive
    rw [decide_eq_true this]
    rfl

/-- **Rounding to an integer** leaves an integer, if it leaves a number. -/
theorem exists_int_of_roundToIntegral {x : Float} {q : Rat}
    (h : toRat? (roundToIntegral x) = some q) : ∃ k : Int, q = k := by
  cases hx : toRat? x with
  | none =>
    simp only [roundToIntegral, hx] at h
    cases h
  | some v =>
    simp only [roundToIntegral, hx] at h
    exact exists_int_of_bits h

/-- **Rounding to an integer**, exact if it has at most 53 digits. -/
theorem toRat?_roundToIntegral {x : Float} {v : Rat} (h : toRat? x = some v)
    (small : (nearestInt v).natAbs < 2 ^ 53) :
    toRat? (roundToIntegral x) = some (nearestInt v : Rat) := by
  have sign : (signOf (signBit x)).apply (nearestInt v).natAbs = nearestInt v := by
    by_cases zero : v = 0
    · subst zero
      cases signBit x <;> rfl
    rw [signBit_of_toRat? h zero]
    by_cases negative : v < 0
    · rw [decide_eq_true negative, nearestInt, if_pos (Rat.num_neg.mpr negative), Int.natAbs_neg]
      rfl
    · rw [decide_eq_false negative, nearestInt, if_neg (mt Rat.num_neg.mp negative)]
      rfl
  simp only [roundToIntegral, h]
  rw [toRat?_ofSignedBits_natCast _ small, sign]

end JetAlgebra.Binary64
