import JetAlgebra.Proofs.Differentiation
import JetAlgebra.Proofs.InverseFunctions
import JetAlgebra.Proofs.TangentQuotients

/-!
# Arc tangents of jets

The derivatives of the arc tangent are polynomials over powers of `1 + x^2`.  The rule that makes
the next polynomial from the one before also says what its derivative is
(`derivative_polynomial_atan`), and so three consecutive ones are in a linear relation
(`polynomial_atan_relation`).  That relation is Leibniz' rule for `(1 + x^2) * atan' = 1`.

So the derivative of the arc tangent of a jet, times one more than the square of the jet, is the
derivative of the jet: `derivative_atanExact`.
-/
namespace JetAlgebra
open Arithmetic Tables Exponent

/-! ## Three polynomials -/

namespace InverseFunction
open Polynomial
variable {K : Type} [Field K]

theorem polynomial_atan_one : atan.polynomial (K := K) 1 = 1 := by
  rw [polynomial, InverseFunction.first, Int.cast_one, map_one]

theorem polynomial_atan_succ (n : Nat) : atan.polynomial (K := K) (n + 2) =
    (1 + X ^ 2) * Polynomial.derivative (atan.polynomial (n + 1)) -
      (2 * (n + 1) : K[X]) * X * atan.polynomial (n + 1) := by
  rw [polynomial, Outer.DifferentialRule.next, rule]
  push_cast
  simp only [map_one, map_neg, map_mul, map_sub, map_add, map_natCast, map_ofNat]
  ring

/-- **The derivative of a polynomial** is a multiple of the one before. -/
theorem derivative_polynomial_atan (n : Nat) :
    Polynomial.derivative (atan.polynomial (K := K) (n + 2)) =
      -(((n + 1) * (n + 2) : K[X]) * atan.polynomial (n + 1)) := by
  induction n with
  | zero =>
    rw [polynomial_atan_succ, zero_add, polynomial_atan_one]
    simp only [derivative_sub, derivative_mul, derivative_add, derivative_zero, derivative_one,
      derivative_X, derivative_X_sq, derivative_natCast, derivative_ofNat, map_ofNat]
    push_cast
    ring
  | succ n ih =>
    have before := polynomial_atan_succ (K := K) n
    rw [polynomial_atan_succ, derivative_sub, derivative_mul, derivative_mul, ih]
    simp only [derivative_neg, derivative_mul, derivative_add, derivative_one, derivative_X,
      derivative_X_sq, derivative_natCast, derivative_ofNat, map_ofNat]
    push_cast
    linear_combination (((n : K[X]) + 1) * (n + 2)) * before

/-- **Three consecutive polynomials** are in a linear relation. -/
theorem polynomial_atan_relation (n : Nat) : atan.polynomial (K := K) (n + 2) +
    (2 * (n + 1) : K[X]) * X * atan.polynomial (n + 1) +
      (n * (n + 1) : K[X]) * (1 + X ^ 2) * atan.polynomial n = 0 := by
  cases n with
  | zero =>
    rw [polynomial_atan_succ, zero_add, polynomial_atan_one, derivative_one, Nat.cast_zero]
    ring
  | succ n =>
    rw [polynomial_atan_succ, derivative_polynomial_atan]
    push_cast
    ring

theorem denominator_atan (x : K) : atan.denominator x = 1 + x ^ 2 := by simp [denominator, rule]

/-- The first derivative is what it should be. -/
theorem derivative_atan_one {x : K} (hx : 1 + x ^ 2 ≠ 0) (v : K) :
    (1 + x ^ 2) * atan.derivative x v (1 + x ^ 2)⁻¹ 1 = 1 := by
  rw [derivative, zero_add, polynomial_atan_one, pow_zero, mul_one, eval_one, mul_one,
    mul_inv_cancel₀ hx]

/-- **Leibniz' rule** for the derivatives of the arc tangent, of which the first one times
`1 + x^2` is one. -/
theorem derivative_atan_relation {x : K} (hx : 1 + x ^ 2 ≠ 0) (v : K) (i : Nat) :
    (1 + x ^ 2) * atan.derivative x v (1 + x ^ 2)⁻¹ (i + 2) +
      2 * (i + 1) * x * atan.derivative x v (1 + x ^ 2)⁻¹ (i + 1) +
        i * (i + 1) * atan.derivative x v (1 + x ^ 2)⁻¹ i = 0 := by
  have relation := congrArg (Polynomial.eval x) (polynomial_atan_relation (K := K) i)
  simp only [eval_add, eval_mul, eval_one, eval_X, eval_pow, eval_natCast, eval_ofNat,
    eval_zero] at relation
  have cancel : (1 + x ^ 2)⁻¹ * (1 + x ^ 2) = 1 := inv_mul_cancel₀ hx
  cases i with
  | zero =>
    rw [derivative, derivative, derivative, denominator_atan]
    push_cast at relation ⊢
    linear_combination (1 + x ^ 2)⁻¹ * relation +
      (1 + x ^ 2)⁻¹ * (atan.polynomial 2).eval x * cancel
  | succ i =>
    rw [derivative, derivative, derivative, denominator_atan]
    push_cast at relation ⊢
    linear_combination (1 + x ^ 2)⁻¹ ^ (i + 2) * relation +
      ((1 + x ^ 2)⁻¹ ^ (i + 2) * (atan.polynomial (i + 3)).eval x -
        (i + 1) * (i + 2) * (1 + x ^ 2)⁻¹ ^ (i + 1) * (atan.polynomial (i + 1)).eval x) * cancel

/-- The derivatives of `x * f`, from those of `f`. -/
def argumentTimes (x : K) (f : Nat → K) (i : Nat) : K := x * f i + i * f (i - 1)

/-- The derivatives of the first derivative, where the arc tangent has the value `v`. -/
noncomputable def atanSlope (x v : K) (i : Nat) : K := atan.derivative x v (1 + x ^ 2)⁻¹ (i + 1)

theorem atanSlope_pred (x v : K) (i : Nat) :
    i * atanSlope x v (i - 1) = i * atan.derivative x v (1 + x ^ 2)⁻¹ i := by
  cases i with
  | zero => rw [Nat.cast_zero, zero_mul, zero_mul]
  | succ i => rfl

/-- **One more than the square, times the first derivative, is one**, with all derivatives. -/
theorem argumentTimes_atanSlope {x : K} (hx : 1 + x ^ 2 ≠ 0) (v : K) (i : Nat) :
    argumentTimes x (argumentTimes x (atanSlope x v)) i + atanSlope x v i =
      if i = 0 then 1 else 0 := by
  cases i with
  | zero =>
    have first := derivative_atan_one hx v
    rw [if_pos rfl, argumentTimes, argumentTimes, atanSlope, Nat.cast_zero]
    linear_combination first
  | succ i =>
    have relation := derivative_atan_relation hx v i
    have before := atanSlope_pred x v i
    rw [if_neg (Nat.succ_ne_zero i), argumentTimes, argumentTimes, argumentTimes,
      Nat.add_sub_cancel, atanSlope, atanSlope]
    push_cast
    linear_combination relation + (i + 1) * before

end InverseFunction

/-! ## Jets -/

section Jets
open Expansion
variable {K : Type} [Field K] {p o : Nat}

/-- **The arc tangent of a jet**, with the value `v`. -/
noncomputable def Tables.atanExact (t : Tables) (v : K) (g : List K) : List K :=
  t.composeExact g ((List.range (t.order + 1)).map
    (InverseFunction.atan.derivative (g.getD 0 0) v (1 + g.getD 0 0 ^ 2)⁻¹))

theorem length_atanExact (v : K) (g : List K) :
    ((complete p o).atanExact v g).length = (complete p o).size := length_composeExact p o _ _

/-- **The arc tangent of a jet** is what is computed, from its value. -/
theorem IsExactElement.atan_complete {E : Type} [Arithmetic E] {lift : K → E}
    (exact : IsExactElement lift) {g : List K} (hg : g.length = (complete p o).size)
    (hx : 1 + g.getD 0 0 ^ 2 ≠ 0) {v : K}
    (value : apply .atan (lift (g.getD 0 0)) = .ok (lift v)) :
    Jet.through (complete p o).calculus .faithful (g.map lift) Outer.atan =
      .ok (((complete p o).atanExact v g).map lift) := by
  have quadratic := InverseFunction.denominator_atan (g.getD 0 0)
  have listed := InverseFunction.atan.derivativesOf_eq_ok exact (quadratic ▸ hx) value rfl o
  rw [quadratic] at listed
  rw [atanExact, order_complete]
  refine exact.toIsExact.through_complete hg (listed.trans ?_) (by simp)
  rw [List.map_map]
  rfl

variable [CharZero K]

theorem getD_zero_atanExact (v : K) (g : List K) :
    ((complete p o).atanExact v g).getD 0 0 = v := by
  rw [atanExact, getD_zero_composeExact, getD_map_range _ (Nat.zero_le _)]
  rfl

/-- A composition with `x * f` is one with `f`, times its jet. -/
theorem expansion_argumentTimes (f : Nat → K) (g : List K) :
    expansion p o ((complete p o).composeExact g
        ((List.range (o + 1)).map (InverseFunction.argumentTimes (g.getD 0 0) f))) =
      expansion p o ((complete p o).composeExact g ((List.range (o + 1)).map f)) *
        expansion p o g := by
  rw [expansion_composeExact_mul g fun i => (one_mul _).symm, one_smul]
  rfl

/-- The first derivative of the arc tangent, at a jet. -/
theorem expansion_atanSlope {g : List K} (hx : 1 + g.getD 0 0 ^ 2 ≠ 0) (v : K) :
    (1 + expansion p o g ^ 2) * expansion p o ((complete p o).composeExact g
      ((List.range (o + 1)).map (InverseFunction.atanSlope (g.getD 0 0) v))) = 1 := by
  have sum : expansion p o ((complete p o).composeExact g ((List.range (o + 1)).map
      (InverseFunction.argumentTimes (g.getD 0 0) (InverseFunction.argumentTimes (g.getD 0 0)
        (InverseFunction.atanSlope (g.getD 0 0) v))))) +
        expansion p o ((complete p o).composeExact g ((List.range (o + 1)).map
          (InverseFunction.atanSlope (g.getD 0 0) v))) = 1 := by
    -- Nothing but the first summand is left of the Taylor sum.
    rw [expansion_composeExact_map, expansion_composeExact_map, ← Finset.sum_add_distrib,
      Finset.sum_range_succ', Finset.sum_eq_zero]
    · rw [← add_smul, ← add_div, InverseFunction.argumentTimes_atanSlope hx, if_pos rfl,
        Nat.factorial_zero, Nat.cast_one, div_one, one_smul, pow_zero, zero_add]
    · intro i _
      rw [← add_smul, ← add_div, InverseFunction.argumentTimes_atanSlope hx,
        if_neg (Nat.succ_ne_zero i), zero_div, zero_smul]
  rw [expansion_argumentTimes, expansion_argumentTimes] at sum
  linear_combination sum

/-- **The derivative of the arc tangent of a jet**, times one more than the square of the jet, is
the derivative of the jet. -/
theorem derivative_atanExact {k : Nat} (hk : k < o) (j : Fin p) {g : List K}
    (hx : 1 + g.getD 0 0 ^ 2 ≠ 0) (v : K) :
    (1 + upTo hk.le (expansion p o g) ^ 2) *
        derivative hk j (expansion p o ((complete p o).atanExact v g)) =
      derivative hk j (expansion p o g) := by
  have slope := congrArg (upTo hk.le) (expansion_atanSlope (p := p) (o := o) hx v)
  rw [map_mul, map_add, map_pow, map_one] at slope
  rw [atanExact, order_complete, derivative_composeExact hk j (c := 1) (fun i hi => ?_) g, one_smul,
    ← mul_assoc, slope, one_mul]
  rw [one_mul, getD_map_range _ hi, getD_map_range _ hi.le]
  rfl

end Jets

end JetAlgebra
