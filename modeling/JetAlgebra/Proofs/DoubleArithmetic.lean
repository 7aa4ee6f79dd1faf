import JetAlgebra.Proofs.NearestRounding

/-!
# Differences and quotients of doubles

Arithmetic on doubles computes a significand that may be cut off, together with what is known of
the part that is missing: whether it is nothing, less than a half, a half, or more (`Cut`).  That
is kept when digits are shifted out (`Cut.shiftRight`), and it is enough to round as if nothing
were missing (`Cut.near`).  So the difference and the quotient of two doubles are one rounding
away from those of their numbers (`sub_approximates`, `div_approximates`).
-/
namespace JetAlgebra.Binary64
open Float.Model UnpackedFloat

/-! ## What is cut off -/

/-- **What is known of the part that was cut off.** -/
inductive Cut : Rat → Accuracy → Prop
  | exact : Cut 0 .exact
  | less {f : Rat} (positive : 0 < f) (small : f < 1 / 2) : Cut f (.inexact .lt)
  | half : Cut (1 / 2) (.inexact .eq)
  | more {f : Rat} (large : 1 / 2 < f) (proper : f < 1) : Cut f (.inexact .gt)

namespace Cut
variable {x f : Rat} {m : Nat} {a : Accuracy} {em : ExtendedMantissa}

theorem bounds (h : Cut f a) : 0 ≤ f ∧ f < 1 := by
  cases h with
  | exact => norm_num
  | less positive small => exact ⟨positive.le, by linarith⟩
  | half => norm_num
  | more large proper => exact ⟨by linarith, proper⟩

/-- It is enough to round to the nearest integer. -/
theorem near (h : Cut (x - m) a) :
    |((Accuracy.roundToNearestEven m a : Nat) : Rat) - x| ≤ 1 / 2 := by
  generalize hf : x - m = f at h
  obtain rfl : x = m + f := by linarith
  rw [abs_le]
  cases h with
  | exact => constructor <;> norm_num [Accuracy.roundToNearestEven]
  | less positive small =>
    simp only [Accuracy.roundToNearestEven]
    constructor <;> linarith
  | half =>
    rcases Nat.mod_two_eq_zero_or_one m with even | odd
    · simp only [Accuracy.roundToNearestEven, even]
      constructor <;> push_cast <;> linarith
    · simp only [Accuracy.roundToNearestEven, odd]
      constructor <;> push_cast <;> linarith
  | more large proper =>
    simp only [Accuracy.roundToNearestEven]
    constructor <;> push_cast <;> linarith

theorem of_remainder {r d : Nat} (h : r < d) : Cut ((r : Rat) / d) (accuracyOfFraction r d) := by
  have hd : 0 < d := by omega
  rw [accuracyOfFraction]
  by_cases zero : r = 0
  · rw [if_pos zero, zero, Nat.cast_zero, zero_div]
    exact .exact
  · rw [if_neg zero]
    rcases lt_trichotomy (2 * r) d with less | half | more
    · rw [Nat.compare_eq_lt.mpr less]
      have positive : (0 : Rat) < r := Nat.cast_pos.mpr (by omega)
      exact .less (div_pos positive (Nat.cast_pos.mpr hd)) ((div_lt_half_iff hd).mpr less)
    · rw [Nat.compare_eq_eq.mpr half, div_eq_half hd half]
      exact .half
    · rw [Nat.compare_eq_gt.mpr more]
      have proper : (r : Rat) / d < 1 :=
        (div_lt_one (Nat.cast_pos.mpr hd)).mpr (by exact_mod_cast h)
      exact .more ((half_lt_div_iff hd).mpr more) proper

/-- **One more digit** is cut off. -/
theorem shiftRightOne (h : Cut (x - em.mantissa) em.accuracy) :
    Cut (x / 2 - em.shiftRightOne.mantissa) em.shiftRightOne.accuracy := by
  obtain ⟨m, roundBit, stickyBit⟩ := em
  have halves : (m : Rat) = 2 * (m / 2 : Nat) + (m % 2 : Nat) := by
    exact_mod_cast (Nat.div_add_mod m 2).symm
  have fraction : x / 2 - (m / 2 : Nat) = ((m % 2 : Nat) + (x - m)) / 2 := by
    rw [halves]
    ring
  simp only [ExtendedMantissa.shiftRightOne, fraction] at h ⊢
  generalize x - (m : Rat) = f at h ⊢
  rcases Nat.mod_two_eq_zero_or_one m with even | odd
  · rw [even, Nat.cast_zero, zero_add]
    cases roundBit <;> cases stickyBit <;> cases h
    · rw [zero_div]
      exact .exact
    all_goals exact .less (by linarith) (by linarith)
  · rw [odd, Nat.cast_one]
    cases roundBit <;> cases stickyBit <;> cases h
    · rw [add_zero]
      exact .half
    all_goals exact .more (by linarith) (by linarith)

theorem shiftRight (h : Cut (x - em.mantissa) em.accuracy) (n : Nat) :
    Cut (x / 2 ^ n - (em >>> n).mantissa) (em >>> n).accuracy := by
  induction n with
  | zero =>
    rw [pow_zero, div_one]
    exact h
  | succ n ih =>
    rw [pow_succ, ← div_div]
    exact ih.shiftRightOne

theorem ofMantissaAndAccuracy (h : Cut (x - m) a) :
    Cut (x - (ExtendedMantissa.ofMantissaAndAccuracy m a).mantissa)
      (ExtendedMantissa.ofMantissaAndAccuracy m a).accuracy := by
  cases a with
  | exact => exact h
  | inexact order => cases order <;> exact h

end Cut

/-! ## Rounding a significand -/

theorem IsNear.refl (q : Rat) : IsNear q q := by
  rw [IsNear, sub_self, abs_zero]
  positivity

theorem targetExponent_eq (n : Int) :
    Format.targetExponent .binary64 n = max (n - 53) (-1074) := rfl

/-- **The digits behind the last place** are shifted out, and the rest is rounded. -/
theorem exists_isRounded {x : Rat} {m : Nat} {e : Int} {a : Accuracy} (h : Cut (x - m) a)
    (hm : 0 < m ∨ e ≤ -1074)
    (he : e ≤ Format.targetExponent .binary64 (totalExponent m e)) :
    ∃ y em E, shiftToTargetExponent .binary64 m e a = (em, E) ∧
      IsRounded y em.roundedMantissa E ∧ y * (2 : Rat) ^ E = x * (2 : Rat) ^ e := by
  obtain ⟨lower, upper⟩ := h.bounds
  rw [targetExponent_eq, totalExponent] at he
  obtain ⟨n, hn⟩ := Int.eq_ofNat_of_zero_le (sub_nonneg.mpr he)
  have shift : (max ((m.log2 : Int) + 1 + e - 53) (-1074) - e).toNat = n := by omega
  have power : (0 : Rat) < 2 ^ n := by positivity
  refine ⟨x / 2 ^ n, _, e + n, ?_,
    ⟨(h.ofMantissaAndAccuracy.shiftRight n).near, by omega, ?below, ?normal⟩, ?value⟩
  · simp only [shiftToTargetExponent, shiftToExponent, targetExponent_eq, totalExponent, shift]
  case below =>
    have digits : (m : Rat) + 1 ≤ 2 ^ (m.log2 + 1) := by exact_mod_cast Nat.lt_log2_self (n := m)
    have room : (2 : Rat) ^ (m.log2 + 1) ≤ 2 ^ 53 * 2 ^ n := by
      rw [← pow_add]
      exact pow_le_pow_right₀ one_le_two (by omega)
    rw [div_lt_iff₀ power]
    linarith
  case normal =>
    by_cases least : e + n = -1074
    · exact .inl least
    · have positive : 0 < m := by
        refine Nat.pos_of_ne_zero fun zero => least ?_
        have log : m.log2 = 0 := zero ▸ Nat.log2_zero
        have low := hm.resolve_left (by omega)
        omega
      have digits : (2 : Rat) ^ m.log2 ≤ m := by exact_mod_cast Nat.log2_self_le positive.ne'
      have all : m.log2 = 52 + n := by omega
      rw [all, pow_add] at digits
      refine .inr ((le_div_iff₀ power).mpr ?_)
      linarith
  case value =>
    rw [zpow_add₀ two_ne_zero, zpow_natCast, div_mul_eq_mul_div, mul_div_assoc,
      mul_div_cancel_right₀ _ power.ne']

theorem shiftToTargetExponent_carry {m : Nat} {e : Int} (hm : m ≤ 2 ^ 53) (he : -1074 ≤ e) :
    shiftToTargetExponent .binary64 m e .exact =
      (⟨(carry m e).1, false, false⟩, (carry m e).2) := by
  simp only [shiftToTargetExponent, shiftToExponent, targetExponent_eq, totalExponent, carry]
  by_cases small : m < 2 ^ 53
  · have log : m.log2 ≤ 52 := by
      by_cases zero : m = 0
      · rw [zero, Nat.log2_zero]
        omega
      · exact Nat.lt_succ_iff.mp ((Nat.log2_lt zero).mpr small)
    have stay : (max ((m.log2 : Int) + 1 + e - 53) (-1074) - e).toNat = 0 := by omega
    rw [if_pos small, stay, Nat.cast_zero, add_zero]
    rfl
  · obtain rfl : m = 2 ^ 53 := by omega
    have shift : (max (((2 ^ 53 : Nat).log2 : Int) + 1 + e - 53) (-1074) - e).toNat = 1 := by
      rw [Nat.log2_two_pow]
      omega
    rw [if_neg small, shift]
    rfl

/-- **A significand that was cut off** is rounded as if it were not. -/
theorem pack_roundWithAccuracy_approximates {x : Rat} {m : Nat} {e : Int} {a : Accuracy}
    (h : Cut (x - m) a) (hm : 0 < m ∨ e ≤ -1074)
    (he : e ≤ Format.targetExponent .binary64 (totalExponent m e))
    (bound : x * (2 : Rat) ^ e ≤ largest) (s : Sign) :
    Approximates (.ofModel (.pack (roundWithAccuracy .binary64 s m e a)))
      (s.apply 1 * (x * (2 : Rat) ^ e)) := by
  obtain ⟨y, em, E, first, rounded, value⟩ := exists_isRounded h hm he
  have fits := rounded.fits (value ▸ bound)
  have y_nonneg : 0 ≤ y := by
    have step : (0 : Rat) < (2 : Rat) ^ E := by positivity
    have digits : (0 : Rat) ≤ m := Nat.cast_nonneg m
    have whole : 0 ≤ x := by linarith [h.bounds.1]
    exact nonneg_of_mul_nonneg_left (value ▸ by positivity) step
  refine ⟨_, ?_, value ▸ rounded.isNear s y_nonneg⟩
  rw [← rounded.signed_carry_value]
  simp only [roundWithAccuracy, first, shiftToTargetExponent_carry rounded.le rounded.least]
  by_cases zero : (carry em.roundedMantissa E).1 = 0
  · rw [dif_pos zero, toRat?_pack_zero, zero, signed_eq, Nat.cast_zero, Int.cast_zero, mul_zero,
      zero_mul]
  · rw [dif_neg zero]
    exact fits.toRat?_pack s _

theorem log2_shiftLeft {m : Nat} (hm : 0 < m) (n : Nat) : (m <<< n).log2 = m.log2 + n := by
  have lower := Nat.log2_self_le hm.ne'
  have upper := Nat.lt_log2_self (n := m)
  rw [Nat.shiftLeft_eq]
  refine (Nat.log2_eq_iff (by positivity)).mpr ⟨?_, ?_⟩
  · rw [pow_add]
    exact Nat.mul_le_mul_right _ lower
  · rw [Nat.add_right_comm, pow_add]
    exact Nat.mul_lt_mul_of_pos_right upper (by positivity)

/-- Digits that are put behind the last place do not change a number. -/
theorem shiftLeft_value (m n : Nat) (e : Int) :
    ((m <<< n : Nat) : Rat) * (2 : Rat) ^ (e - n) = m * (2 : Rat) ^ e := by
  rw [Nat.shiftLeft_eq, zpow_sub₀ two_ne_zero, zpow_natCast]
  push_cast
  field_simp

/-- **Rounding a significand** of any length. -/
theorem pack_round_approximates {m : Nat} {e : Int} (hm : 0 < m)
    (bound : m * (2 : Rat) ^ e ≤ largest) (s : Sign) :
    Approximates (.ofModel (.pack (UnpackedFloat.round .binary64 s m e)))
      (s.apply 1 * (m * (2 : Rat) ^ e)) := by
  have total : totalExponent (m <<< (e - Format.targetExponent .binary64 (totalExponent m e)).toNat)
      (e - (e - Format.targetExponent .binary64 (totalExponent m e)).toNat) =
        totalExponent m e := by
    rw [totalExponent, log2_shiftLeft hm, totalExponent]
    omega
  have value := shiftLeft_value m (e - Format.targetExponent .binary64 (totalExponent m e)).toNat e
  rw [← value] at bound ⊢
  refine pack_roundWithAccuracy_approximates ?_ (.inl ?_) ?_ bound s
  · rw [sub_self]
    exact .exact
  · exact Nat.shiftLeft_pos_iff.mpr hm
  · rw [total]
    omega

theorem pack_normalize_approximates {M e : Int} (bound : |M * (2 : Rat) ^ e| ≤ largest) (s : Sign) :
    Approximates (.ofModel (.pack (UnpackedFloat.normalize .binary64 M e s)))
      (M * (2 : Rat) ^ e) := by
  have step : (0 : Rat) < (2 : Rat) ^ e := by positivity
  rw [abs_mul, abs_of_pos step] at bound
  rw [UnpackedFloat.normalize]
  rcases lt_trichotomy M 0 with negative | rfl | positive
  · have size : ((-M).toNat : Rat) = -M := by exact_mod_cast Int.toNat_of_nonneg (by omega)
    rw [abs_of_neg (by exact_mod_cast negative), ← size] at bound
    have rounded := pack_round_approximates (by omega) bound .negative
    rw [size] at rounded
    rw [Int.compare_eq_lt.mpr negative]
    simpa [Sign.apply] using rounded
  · rw [Int.cast_zero, zero_mul]
    exact ⟨0, toRat?_pack_zero s, .refl 0⟩
  · have size : (M.toNat : Rat) = M := by exact_mod_cast Int.toNat_of_nonneg positive.le
    rw [abs_of_pos (by exact_mod_cast positive), ← size] at bound
    have rounded := pack_round_approximates (by omega) bound .positive
    rw [size] at rounded
    rw [Int.compare_eq_gt.mpr positive]
    simpa [Sign.apply] using rounded

/-! ## Differences -/

theorem sub_eq_pack (x y : Float) :
    x - y = .ofModel (.pack (UnpackedFloat.sub .binary64 x.toModel.unpack y.toModel.unpack)) := rfl

/-- A significand with the exponent of another number. -/
theorem aligned_value (s : Sign) (m : Nat) {e t : Int} (h : t ≤ e) :
    s.apply (m <<< (e - t).toNat : Nat) * (2 : Rat) ^ t = s.apply m * (2 : Rat) ^ e := by
  have value := shiftLeft_value m (e - t).toNat e
  have common : e - (e - t).toNat = t := by omega
  rw [common] at value
  rw [signed_eq, signed_eq s m, mul_assoc, mul_assoc, Int.cast_natCast, Int.cast_natCast, value]

/-- **The difference of two doubles** is one rounding away from that of their numbers. -/
theorem sub_approximates {x y : Float} {a b : Rat} (hx : toRat? x = some a) (hy : toRat? y = some b)
    (bound : |a - b| ≤ largest) : Approximates (x - y) (a - b) := by
  rw [sub_eq_pack]
  rcases unpack_of_toRat? hx with ⟨s, ux, rfl⟩ | ⟨s, m, e, hm, ux, fx, rfl⟩
  · rcases unpack_of_toRat? hy with ⟨t, uy, rfl⟩ | ⟨t, n, d, hn, uy, fy, rfl⟩
    · rw [ux, uy, sub_self]
      refine ⟨0, ?_, .refl 0⟩
      cases s <;> cases t <;> exact toRat?_pack_zero _
    · rw [ux, uy, zero_sub]
      refine ⟨_, ?_, .refl _⟩
      refine (fy.toRat?_pack (-t) hn).trans (congrArg some ?_)
      cases t <;> simp [Sign.apply]
  · rcases unpack_of_toRat? hy with ⟨t, uy, rfl⟩ | ⟨t, n, d, hn, uy, fy, rfl⟩
    · rw [ux, uy, sub_zero]
      exact ⟨_, fx.toRat?_pack s hm, .refl _⟩
    · have value := congrArg₂ (· - ·) (aligned_value s m (min_le_left e d))
        (aligned_value t n (min_le_right e d))
      simp only [← sub_mul, ← Int.cast_sub] at value
      rw [ux, uy, ← value]
      exact pack_normalize_approximates (value ▸ bound) _

/-! ## Quotients -/

theorem div_eq_pack (x y : Float) :
    x / y = .ofModel (.pack (UnpackedFloat.div .binary64 x.toModel.unpack y.toModel.unpack)) := rfl

/-- The digits of an integer quotient, by the lengths of its operands. -/
theorem le_log2_quotient {m n k : Nat} (hm : 0 < m) (hn : 0 < n)
    (long : 53 + n.log2 ≤ m.log2 + k) : 52 ≤ ((m <<< k) / n).log2 := by
  have enough : 2 ^ 52 ≤ (m <<< k) / n := by
    rw [Nat.le_div_iff_mul_le hn, Nat.shiftLeft_eq]
    calc 2 ^ 52 * n ≤ 2 ^ 52 * 2 ^ (n.log2 + 1) := Nat.mul_le_mul_left _ Nat.lt_log2_self.le
      _ = 2 ^ (53 + n.log2) := by
          rw [← pow_add]
          congr 1
          omega
      _ ≤ 2 ^ (m.log2 + k) := Nat.pow_le_pow_right two_pos long
      _ = 2 ^ m.log2 * 2 ^ k := pow_add _ _ _
      _ ≤ m * 2 ^ k := Nat.mul_le_mul_right _ (Nat.log2_self_le hm.ne')
  exact (Nat.le_log2 (by omega)).mpr enough

/-- **The digits of a quotient** are enough to round it, and the rest is what was cut off. -/
theorem divCore_spec {m n : Nat} (hm : 0 < m) (hn : 0 < n) (e d : Int) : ∃ x q E a,
    divCore .binary64 m e n d = (q, E, a) ∧ Cut (x - q) a ∧ (0 < q ∨ E ≤ -1074) ∧
      E ≤ Format.targetExponent .binary64 (totalExponent q E) ∧
      x * (2 : Rat) ^ E = m * (2 : Rat) ^ e / (n * (2 : Rat) ^ d) := by
  obtain ⟨E, hE⟩ : ∃ E, E = min (e - d)
      (Format.targetExponent .binary64 (totalExponent m e - totalExponent n d)) := ⟨_, rfl⟩
  obtain ⟨k, hk⟩ : ∃ k : Nat, (k : Int) = e - d - E := ⟨(e - d - E).toNat, by omega⟩
  have shift : (e - d - E).toNat = k := by omega
  rw [targetExponent_eq, totalExponent, totalExponent] at hE
  -- If the exponent is not the least one, the quotient has 53 digits.
  have digits : -1074 < E → 52 ≤ ((m <<< k) / n).log2 := fun normal =>
    le_log2_quotient hm hn (by omega)
  refine ⟨((m <<< k : Nat) : Rat) / n, (m <<< k) / n, E, _, ?core,
    (?cut : Cut _ (accuracyOfFraction ((m <<< k) % n) n)), ?nonzero, ?room, ?value⟩
  case core => rw [divCore, targetExponent_eq, totalExponent, totalExponent, ← hE, shift]
  case cut =>
    rw [natCast_div_eq hn, add_sub_cancel_left]
    exact .of_remainder (Nat.mod_lt _ hn)
  case nonzero =>
    by_cases normal : -1074 < E
    · refine .inl (Nat.pos_of_ne_zero fun zero => ?_)
      have := digits normal
      rw [zero, Nat.log2_zero] at this
      omega
    · exact .inr (by omega)
  case room =>
    rw [targetExponent_eq, totalExponent]
    by_cases normal : -1074 < E
    · have := digits normal
      omega
    · omega
  case value =>
    have positive : (0 : Rat) < n := Nat.cast_pos.mpr hn
    have value := shiftLeft_value m k e
    have exponent : e - k = E + d := by omega
    rw [exponent, zpow_add₀ two_ne_zero] at value
    rw [← value]
    field_simp

/-- **The quotient of two doubles** is one rounding away from that of their numbers. -/
theorem div_approximates {x y : Float} {a b : Rat} (hx : toRat? x = some a) (hy : toRat? y = some b)
    (hb : b ≠ 0) (bound : |a / b| ≤ largest) : Approximates (x / y) (a / b) := by
  rw [div_eq_pack]
  rcases unpack_of_toRat? hy with ⟨t, uy, rfl⟩ | ⟨t, n, d, hn, uy, fy, rfl⟩
  · exact absurd rfl hb
  rcases unpack_of_toRat? hx with ⟨s, ux, rfl⟩ | ⟨s, m, e, hm, ux, fx, rfl⟩
  · rw [ux, uy, zero_div]
    exact ⟨0, toRat?_pack_zero _, .refl 0⟩
  · obtain ⟨v, q, E, a, core, cut, nonzero, room, value⟩ := divCore_spec hm hn e d
    have quotient : s.apply m * (2 : Rat) ^ e / (t.apply n * (2 : Rat) ^ d) =
        (s / t).apply 1 * (v * (2 : Rat) ^ E) := by
      have signs : (s / t).apply 1 = s.apply 1 * t.apply 1 := by cases s <;> cases t <;> rfl
      rw [value, signs, signed_eq, signed_eq t]
      cases s <;> cases t <;> simp [Sign.apply, neg_div, div_neg]
    rw [quotient, abs_mul, abs_signed_one, one_mul] at bound
    rw [ux, uy, quotient]
    simp only [UnpackedFloat.div, core]
    exact pack_roundWithAccuracy_approximates cut nonzero room (le_of_abs_le bound) (s / t)

end JetAlgebra.Binary64
