import JetAlgebra.Jet.Power
import JetAlgebra.Proofs.TaylorSum

/-!
# Natural powers of exact jets

`Outer.integerPower` writes down the derivatives of `x^n` up to the order of a jet, with zeros
from the derivative on that vanishes (`IsExactField.integerPower`).  Composing with them is the
binomial theorem for the value and the rest of the jet, so it gives what multiplying the jet by
itself again and again would give: `IsExactField.powInt_complete`.

`IsExactField` is what recipes need besides sums and products; exact rationals have it
(`Scalar.isExactField_rat`).
-/
namespace JetAlgebra
open Arithmetic Tables Exponent

/-- **Exact numbers that can be divided**: besides sums and products, the numbers `lift x` have
the differences and the natural powers of a field, and mix with the integers that a recipe
writes down. -/
structure IsExactField {K E : Type} [Field K] [Arithmetic E] (lift : K → E) : Prop
    extends IsExact lift where
  sub : ∀ x y, Arithmetic.sub (lift x) (lift y) = .ok (lift (x - y))
  zeroLike : ∀ x, Arithmetic.zeroLike (lift x) = .ok (lift 0)
  mul_ofInt : ∀ x (n : Int), Arithmetic.mul (lift x) (ofInt n) = .ok (lift (x * n))
  div_ofInt : ∀ x (n : Int), (n : K) ≠ 0 → Arithmetic.div (lift x) (ofInt n) = .ok (lift (x / n))
  pow_ofNat : ∀ x (n : Nat), Arithmetic.pow (lift x) (ofInt n) = .ok (lift (x ^ n))
  ofInt_mul : ∀ m n : Int, Arithmetic.mul (ofInt m : E) (ofInt n) = .ok (ofInt (m * n))
  ofInt_sub : ∀ m n : Int, Arithmetic.sub (ofInt m : E) (ofInt n) = .ok (ofInt (m - n))

namespace Exact

theorem powNat_eq (a n : Nat) : powNat a n = a ^ n := by
  rw [powNat]
  split
  · next h => rw [h, one_pow]
  · split
    · next h => rw [h, zero_pow_eq]
    · rfl

theorem powInt_eq (a : Int) (n : Nat) : powInt a n = a ^ n := by
  rw [powInt, powNat_eq, Nat.cast_pow, Int.natCast_natAbs]
  split
  · next h => rw [abs_of_neg h.1, Odd.neg_pow (Nat.odd_iff.mpr h.2), neg_neg]
  · next h =>
    rcases lt_or_ge a 0 with ha | ha
    · have even : Even n := Nat.even_iff.mpr (by omega)
      rw [even.pow_abs]
    · rw [abs_of_nonneg ha]

/-- **A natural power of a rational** is the power. -/
theorem pow_eq (q : Rat) (n : Nat) : pow q n = q ^ n := by
  rw [pow, powInt_eq, powNat_eq, Rat.mkRat_eq_div, Int.cast_pow, Nat.cast_pow, ← div_pow,
    Rat.num_div_den]

theorem power_natCast (q : Rat) (n : Nat) : power q (n : Rat) = .ok (q ^ n) := by
  rw [power, if_pos (Rat.den_natCast n), Rat.num_natCast, zpow, if_pos (Int.natCast_nonneg n),
    Int.toNat_natCast, pow_eq]

end Exact

theorem Scalar.isExactField_rat : IsExactField Scalar.rat where
  toIsExact := Scalar.isExact_rat
  sub _ _ := rfl
  zeroLike _ := congrArg (fun q => Except.ok (Scalar.rat q)) Int.cast_zero
  mul_ofInt _ _ := rfl
  div_ofInt x n hn := by
    have quotient : Exact.div x n = .ok (x / n) := if_neg hn
    exact bind_eq_ok quotient rfl
  pow_ofNat x n := by
    have exact : Arithmetic.pow (rat x) (ofInt n) =
        (Exact.power x ((n : Int) : Rat) >>= fun q => .ok (rat q)) := rfl
    rw [exact, Int.cast_natCast, Exact.power_natCast]
    rfl
  ofInt_mul _ _ := rfl
  ofInt_sub _ _ := rfl

/-! ## The derivatives of a power -/

section Derivatives
variable {K : Type} [Field K]

/-- The derivatives of `x^n` up to an order. -/
def Outer.powerDerivatives (n : Nat) (x : K) (order : Nat) : List K :=
  (List.range (order + 1)).map fun k => x ^ (n - k) * n.descFactorial k

/-- An entry of a list of derivatives, up to the order. -/
theorem getD_map_range {o : Nat} (f : Nat → K) {k : Nat} (hk : k ≤ o) :
    ((List.range (o + 1)).map f).getD k 0 = f k := by
  rw [List.getD_eq_getElem?_getD, List.getElem?_map, List.getElem?_range (Nat.lt_succ_of_le hk)]
  rfl

theorem Outer.getD_powerDerivatives (n : Nat) (x : K) {order k : Nat} (hk : k ≤ order) :
    (powerDerivatives n x order).getD k 0 = x ^ (n - k) * n.descFactorial k := getD_map_range _ hk

/-- The product of `k` factors that fall from `n` on. -/
noncomputable def Outer.falling (n : Int) (k : Nat) : Int := (descPochhammer ℤ k).eval n

theorem Outer.falling_zero (n : Int) : falling n 0 = 1 := by
  rw [falling, descPochhammer_zero, Polynomial.eval_one]

theorem Outer.falling_succ (n : Int) (k : Nat) : falling n (k + 1) = falling n k * (n - k) :=
  descPochhammer_succ_eval k n

theorem Outer.falling_one (n : Int) : falling n 1 = n := by
  rw [falling_succ, falling_zero, one_mul, Nat.cast_zero, sub_zero]

/-- **From a natural number on the factors fall to zero.** -/
theorem Outer.falling_natCast (n k : Nat) : falling n k = n.descFactorial k :=
  descPochhammer_eval_eq_descFactorial ℤ n k

/-- **Integers that a recipe multiplies by**, as it has them: written down, or as numbers of the
same kind as the operand. -/
structure IsFactor {E : Type} [Arithmetic E] (lift : K → E) (factor : Int → E) : Prop where
  times : ∀ x n, Arithmetic.mul (lift x) (factor n) = .ok (lift (x * n))
  mul : ∀ m n, Arithmetic.mul (factor m) (factor n) = .ok (factor (m * n))
  sub : ∀ m n, Arithmetic.sub (factor m) (ofInt n) = .ok (factor (m - n))

section Scaling
variable {E : Type} [Arithmetic E] {lift : K → E} {factor : Int → E}

theorem IsFactor.fallingFactors (h : IsFactor lift factor) (n : Int) (v : Nat → K) (i m : Nat) :
    Outer.fallingFactors (factor n) i (factor (Outer.falling n i))
        ((List.range' i m).map fun k => lift (v k)) =
      .ok ((List.range' i m).map fun k => lift (v k * Outer.falling n k)) := by
  induction m generalizing i with
  | zero => rfl
  | succ m ih =>
    have next : Arithmetic.mul (factor (Outer.falling n i)) (factor (n - i)) =
        .ok (factor (Outer.falling n (i + 1))) := by rw [h.mul, Outer.falling_succ]
    rw [List.range'_succ, List.map_cons, List.map_cons, Outer.fallingFactors]
    exact bind_eq_ok (h.times _ _) (bind_eq_ok (h.sub _ _)
      (bind_eq_ok next (bind_eq_ok (ih (i + 1)) rfl)))

/-- **Powers times falling factors.** -/
theorem IsFactor.scalePowers (h : IsFactor lift factor) (n : Int) (v : Nat → K) (order : Nat) :
    Outer.scalePowers (factor n) ((List.range (order + 1)).map fun k => lift (v k)) =
      .ok ((List.range (order + 1)).map fun k => lift (v k * Outer.falling n k)) := by
  have factors := h.fallingFactors n v 1 order
  rw [Outer.falling_one] at factors
  rw [List.range_eq_range', List.range'_succ, List.map_cons, List.map_cons, Outer.falling_zero,
    Int.cast_one, mul_one]
  exact bind_eq_ok factors rfl

end Scaling

namespace IsExactField
variable {E : Type} [Arithmetic E] {lift : K → E} (exact : IsExactField lift)
include exact

theorem isFactor_ofInt : IsFactor lift ofInt :=
  ⟨exact.mul_ofInt, exact.ofInt_mul, exact.ofInt_sub⟩

/-- From a number upwards, in front of what follows. -/
theorem powersDown (x y : K) (m : Nat) (tail : List E) :
    Outer.powersDown (lift x) m (lift y) tail =
      .ok ((List.range (m + 1)).map (fun k => lift (y * x ^ (m - k))) ++ tail) := by
  induction m generalizing y tail with
  | zero =>
    rw [List.range_one, List.map_singleton, Nat.sub_self, pow_zero, mul_one]
    rfl
  | succ m ih =>
    refine bind_eq_ok (exact.mul _ _) ?_
    rw [ih, List.range_succ (n := m + 1), List.map_append, List.append_assoc, List.map_singleton,
      Nat.sub_self, pow_zero, mul_one]
    refine congrArg (fun vs => Except.ok (vs ++ _)) (List.map_congr_left fun k hk => ?_)
    have next : m + 1 - k = m - k + 1 := Nat.succ_sub (Nat.lt_succ_iff.mp (List.mem_range.mp hk))
    rw [next, pow_succ', mul_assoc]

/-- **The powers below `x^n`**, and zeros after the last one. -/
theorem positivePowers (n : Nat) (x : K) (order : Nat) :
    Outer.positivePowers n (lift x) (lift 0) order =
      .ok ((List.range (order + 1)).map fun k => lift (if k ≤ n then x ^ (n - k) else 0)) := by
  refine bind_eq_ok (exact.pow_ofNat _ _) ?_
  have parts : List.range (order + 1) = List.range (min order n + 1) ++
      (List.range (order - min order n)).map (min order n + 1 + ·) := by
    rw [← List.range_add]
    exact congrArg List.range (by omega)
  rw [exact.powersDown, parts, List.map_append, List.map_map]
  refine congrArg Except.ok (congrArg₂ (· ++ ·) (List.map_congr_left fun k hk => ?_) ?_)
  · rw [List.mem_range] at hk
    have whole : n - min order n + (min order n - k) = n - k := by omega
    rw [if_pos (by omega), ← pow_add, whole]
  · refine (List.eq_replicate_iff.mpr ⟨by simp, fun v hv => ?_⟩).symm
    obtain ⟨i, hi, rfl⟩ := List.mem_map.mp hv
    rw [List.mem_range] at hi
    rw [Function.comp_apply, if_neg (by omega)]

/-- **The recipe of a power** lists its derivatives. -/
theorem integerPower {n : Nat} (hn : n ≠ 0) (x : K) (order : Nat) :
    Outer.integerPower n (lift x) order =
      .ok (.compose ((Outer.powerDerivatives n x order).map lift)) := by
  have positive : (0 : Int) < n := by omega
  have scaled := exact.isFactor_ofInt.scalePowers n (fun k => if k ≤ n then x ^ (n - k) else 0)
    order
  have derivatives : ((List.range (order + 1)).map fun k =>
      lift ((if k ≤ n then x ^ (n - k) else 0) * Outer.falling n k)) =
        (Outer.powerDerivatives n x order).map lift := by
    rw [Outer.powerDerivatives, List.map_map]
    refine List.map_congr_left fun k _ => ?_
    rw [Outer.falling_natCast, Int.cast_natCast, Function.comp_apply]
    -- Where there is no power any more the falling factor is zero as well.
    rcases Nat.lt_or_ge n k with hk | hk
    · rw [if_neg (Nat.not_le.mpr hk), Nat.descFactorial_of_lt hk, Nat.cast_zero, mul_zero, mul_zero]
    · rw [if_pos hk]
  rw [Outer.integerPower]
  simp only [Int.natCast_eq_zero, if_neg hn, if_pos positive, Int.toNat_natCast]
  exact bind_eq_ok (exact.zeroLike _) (bind_eq_ok (exact.positivePowers n x order)
    (bind_eq_ok (scaled.trans (congrArg _ derivatives)) rfl))

end IsExactField

end Derivatives

/-! ## Powers of jets -/

section Jets
variable {K : Type} [Field K] [CharZero K] {p o : Nat}

/-- **The binomial theorem**: composing with a power gives a power of the expansion. -/
theorem expansion_composeExact_power (n : Nat) (g : List K) :
    expansion p o ((complete p o).composeExact g (Outer.powerDerivatives n (g.getD 0 0) o)) =
      expansion p o g ^ n := by
  -- Derivatives beyond `n` vanish, and powers beyond the order do.
  have term : ∀ k ∈ Finset.range (o + 1), ((Outer.powerDerivatives n (g.getD 0 0) o).getD k 0 /
      (k.factorial : K)) • expansion p o (g.set 0 0) ^ k =
        expansion p o (g.set 0 0) ^ k * algebraMap K _ (g.getD 0 0) ^ (n - k) * n.choose k := by
    intro k hk
    have quotient : (n.descFactorial k : K) / k.factorial = n.choose k := by
      rw [Nat.descFactorial_eq_factorial_mul_choose, Nat.cast_mul,
        mul_div_cancel_left₀ _ (Nat.cast_ne_zero.mpr k.factorial_ne_zero)]
    rw [Outer.getD_powerDerivatives _ _ (Nat.lt_succ_iff.mp (Finset.mem_range.mp hk)),
      mul_div_assoc, quotient, Expansion.smul_eq, map_mul, map_pow, map_natCast]
    ring
  have beyond_order : ∑ k ∈ Finset.range (o + 1), expansion p o (g.set 0 0) ^ k *
      algebraMap K _ (g.getD 0 0) ^ (n - k) * n.choose k = ∑ k ∈ Finset.range (max o n + 1),
        expansion p o (g.set 0 0) ^ k * algebraMap K _ (g.getD 0 0) ^ (n - k) * n.choose k := by
    refine Finset.sum_subset (Finset.range_mono (by omega)) fun k _ hk => ?_
    rw [expansion_set_zero_pow g (by simpa using hk), zero_mul, zero_mul]
  have beyond_power : ∑ k ∈ Finset.range (n + 1), expansion p o (g.set 0 0) ^ k *
      algebraMap K _ (g.getD 0 0) ^ (n - k) * n.choose k = ∑ k ∈ Finset.range (max o n + 1),
        expansion p o (g.set 0 0) ^ k * algebraMap K _ (g.getD 0 0) ^ (n - k) * n.choose k := by
    refine Finset.sum_subset (Finset.range_mono (by omega)) fun k _ hk => ?_
    rw [Nat.choose_eq_zero_of_lt (by simpa using hk), Nat.cast_zero, mul_zero]
  rw [expansion_composeExact, Finset.sum_congr rfl term, beyond_order, ← beyond_power, ← add_pow,
    expansion_set_zero, sub_add_cancel]

theorem composeExact_power (n : Nat) (g : List K) :
    (complete p o).composeExact g (Outer.powerDerivatives n (g.getD 0 0) o) =
      (complete p o).powerExact g n := by
  refine eq_of_expansion_eq (length_composeExact p o _ _) (length_powerExact p o _ _) ?_
  rw [expansion_composeExact_power, expansion_powerExact]

variable {E : Type} [Arithmetic E] {lift : K → E} (exact : IsExactField lift)
include exact

omit [CharZero K] in
theorem IsExactField.constant_complete (like c : K) :
    Jet.constant (complete p o).calculus (lift like) (lift c) =
      .ok ((c :: List.replicate ((complete p o).size - 1) 0).map lift) := by
  refine bind_eq_ok (exact.zeroLike _) ?_
  rw [List.map_cons, List.map_replicate]
  rfl

/-- **A natural power of a jet is a repeated product.** -/
theorem IsExactField.powInt_complete {g : List K} (hg : g.length = (complete p o).size) (n : Nat) :
    Jet.powInt (complete p o).calculus .faithful (g.map lift) n =
      .ok (((complete p o).powerExact g n).map lift) := by
  have value : Jet.value .faithful (g.map lift) = .ok (lift (g.getD 0 0)) :=
    Jet.value_map (hg ▸ size_pos p o)
  refine bind_eq_ok value ?_
  by_cases hn : n = 0
  · subst hn
    have recipe : Outer.integerPower (0 : Nat) (lift (g.getD 0 0)) (complete p o).calculus.order =
        .ok (.constant (lift 1)) := bind_eq_ok (exact.oneLike _) rfl
    exact bind_eq_ok recipe (bind_eq_ok value (exact.constant_complete _ _))
  · have order : (complete p o).calculus.order = o := order_complete p o
    refine bind_eq_ok (exact.integerPower hn _ _) ?_
    rw [order, ← composeExact_power]
    refine bind_eq_ok (Storage.mapM_store _) ?_
    rw [exact.compose_complete hg]
    rw [Outer.powerDerivatives, List.length_map, List.length_range]
    exact Nat.lt_succ_self o

end Jets

end JetAlgebra
