import JetAlgebra.Proofs.PolynomialSweeps

/-!
# Derivatives of the tangents

The derivative of a tangent `t` is `1 + s * t^2`, with the sign `s` that tells the circular from
the hyperbolic one, so its derivatives are polynomials in `t` that obey a differential rule.  The
recipe evaluates them: `tangent_eq_ok`, over exact elements and for every order.

Sine and cosine are a polynomial in `t` times the cosine, and so are their derivatives; what
becomes of the polynomial is a differential rule as well (`cosineRule`).  The product rule for
the two (`next_mul`) is that of a product with the tangent as one factor, and repeated it says
how the derivatives of tangent and cosine make those of the sine (`sum_choose_mul`).
-/
namespace JetAlgebra.Outer
open Arithmetic Polynomial
open Finset.HasAntidiagonal (antidiagonal mem_antidiagonal)

/-- How the derivatives of a tangent come from each other. -/
def tangentRule (s : Int) : DifferentialRule where
  constant := 1
  square := s
  factor _ := 0

section Recipe
variable {K E : Type} [CommRing K] [Arithmetic E] {lift : K → E} (exact : IsExactRing lift)

/-- **The polynomials of a tangent**: the first is the variable, and each is the derivative of the
one before times `1 + s * X^2`. -/
noncomputable def tangentPolynomial (s : Int) : Nat → K[X]
  | 0 => X
  | n + 1 => (tangentRule s).next 0 (tangentPolynomial s n)

theorem tangentPolynomial_succ (s : Int) (n : Nat) : (tangentPolynomial s (n + 1) : K[X]) =
    (1 + C (s : K) * X ^ 2) * derivative (tangentPolynomial s n) := by
  rw [tangentPolynomial]
  simp [DifferentialRule.next, tangentRule]

theorem alternates_tangentPolynomial (s : Int) (n : Nat) :
    Alternates (n + 1) (tangentPolynomial s n : K[X]) := by
  induction n with
  | zero =>
    intro j hj
    rw [tangentPolynomial, coeff_X, if_neg (by omega)]
  | succ n ih => exact ih.next 0

theorem tangentRecurrence_computes (s : Int) :
    (tangentRecurrence s).Computes (tangentRule s) 0 := by
  constructor
  case negated => rfl
  all_goals intros; simp only [tangentRecurrence, tangentRule]; ring

include exact

/-- **One derivative** and the list of coefficients for the one after it. -/
theorem tangentStep_eq_ok (s : Int) {n order : Nat} {p : List E}
    (carried : Carries lift p (tangentPolynomial s n : K[X]) (n + 1))
    (length : p.length = order + 2) (hn : n < order) (t : K) :
    ∃ q, tangentStep s (lift t) (lift (t * t)) (lift 0) (n + 1, p) =
        .ok (lift ((tangentPolynomial s (n + 1)).eval t), n + 2, q) ∧
      q.length = order + 2 ∧ Carries lift q (tangentPolynomial s (n + 1) : K[X]) (n + 2) := by
  have computes := tangentRecurrence_computes s
  have alternates := alternates_tangentPolynomial (K := K) s n
  have degree : ((n + 1 : Nat) : Int) - 0 = (n + 1 : Nat) := sub_zero _
  obtain ⟨top, ht, scaled⟩ :=
    bind_eq_ok_iff.mp (leading_eq_ok exact computes alternates carried degree)
  obtain ⟨q, advanced, kept, carries⟩ := advance_eq_ok exact computes alternates carried
    (n := n + 1) (by omega) rfl t
  exact ⟨q, bind_eq_ok ht (bind_eq_ok scaled (bind_eq_ok advanced rfl)), kept.trans length,
    carries⟩

/-- **The derivatives of a tangent** with the value `t`. -/
theorem tangent_eq_ok (s : Int) (t : K) (order : Nat) : tangent s (lift t) order =
    .ok ((List.range (order + 1)).map fun n => lift ((tangentPolynomial s n).eval t)) := by
  by_cases h : order = 0
  · subst h
    rw [tangent, if_pos rfl, List.range_one, List.map_singleton, tangentPolynomial, eval_X]
    rfl
  have coefficients : (List.replicate (order + 2) (ofFloat 0.0)).set 1 one =
      lift 0 :: lift 1 :: List.replicate order (lift 0) := by
    rw [exact.ofFloat_zero, exact.one_eq]
    rfl
  have start : Carries lift (lift 0 :: lift 1 :: List.replicate order (lift 0))
      (tangentPolynomial s 0 : K[X]) 1 := by
    refine ⟨by simp, fun j hj parity => ?_⟩
    rw [show j = 1 by omega, tangentPolynomial, coeff_X_one]
    rfl
  -- Before derivative `n + 1` the list carries polynomial `n`.
  have rest := trail_eq_ok (fun n => lift ((tangentPolynomial s (n + 1)).eval t))
    (fun n (state : Nat × List E) => state.1 = n + 1 ∧ state.2.length = order + 2 ∧
      Carries lift state.2 (tangentPolynomial s n : K[X]) (n + 1)) order
    (by
      rintro n ⟨_, p⟩ hn ⟨rfl, length, carried⟩
      obtain ⟨q, run, kept, carries⟩ := tangentStep_eq_ok exact s carried length hn t
      exact ⟨_, run, rfl, kept, carries⟩)
    order (i := 0) (s := (1, lift 0 :: lift 1 :: List.replicate order (lift 0))) (by omega)
    ⟨rfl, by simp, start⟩
  rw [← tangentFrom_eq, ← List.range_eq_range'] at rest
  rw [tangent, if_neg h, coefficients]
  refine bind_eq_ok (exact.zeroLike t) (bind_eq_ok (exact.mul t t) (bind_eq_ok rest ?_))
  rw [List.range_succ_eq_map, List.map_cons, List.map_map, tangentPolynomial, eval_X]
  rfl

end Recipe

/-- A list that repeats after two steps, up to a sign. -/
theorem cycle_eq_ok {K E : Type} [CommRing K] [Arithmetic E] {lift : K → E}
    (neg : ∀ x, Arithmetic.neg (lift x) = .ok (lift (-x))) {alternating : Bool} {w : Nat → K}
    (repeats : ∀ k, w (k + 2) = if alternating then -w k else w k) (n : Nat) :
    cycle alternating n (lift (w 0)) (lift (w 1)) =
      .ok ((List.range n).map fun k => lift (w k)) := by
  rw [cycle_eq, List.range_eq_range']
  refine trail_eq_ok (fun k => lift (w k)) (fun k state => state = (lift (w k), lift (w (k + 1)))) n
    ?_ n (by omega) rfl
  rintro k _ - rfl
  refine ⟨_, ?_, rfl⟩
  rw [repeats]
  cases alternating
  · rfl
  · exact bind_eq_ok (neg (w k)) rfl

/-! ## Tangent, sine and cosine -/

section ProductRule
variable {K : Type} [CommRing K] (s : Int)

/-- How the derivatives of a polynomial in the tangent, times the cosine, come from each other: the
cosine has the derivative `-s * t` times itself. -/
def cosineRule (s : Int) : DifferentialRule where
  constant := 1
  square := s
  factor _ := -s

theorem DifferentialRule.next_add (rule : DifferentialRule) (n : Int) (P Q : K[X]) :
    rule.next n (P + Q) = rule.next n P + rule.next n Q := by
  simp only [next, derivative_add]
  ring

/-- **The product rule.** -/
theorem next_mul (P Q : K[X]) : (cosineRule s).next 0 (P * Q) =
    (tangentRule s).next 0 P * Q + P * (cosineRule s).next 0 Q := by
  simp only [DifferentialRule.next, cosineRule, tangentRule, derivative_mul, Int.cast_zero, C_0]
  ring

/-- The derivatives of a polynomial in the tangent times the cosine, each over the cosine. -/
noncomputable def overCosine (P : K[X]) (n : Nat) : K[X] := ((cosineRule s).next 0)^[n] P

theorem overCosine_succ (P : K[X]) (n : Nat) :
    overCosine s P (n + 1) = overCosine s ((cosineRule s).next 0 P) n :=
  Function.iterate_succ_apply _ _ _

theorem overCosine_next (P : K[X]) (n : Nat) :
    overCosine s P (n + 1) = (cosineRule s).next 0 (overCosine s P n) :=
  Function.iterate_succ_apply' _ _ _

/-- **The product rule, repeated**: the derivatives of the tangent and those of the cosine make
the derivatives of their product. -/
theorem sum_choose_mul (n : Nat) : overCosine s (X : K[X]) n = ∑ ij ∈ antidiagonal n,
    n.choose ij.1 • (tangentPolynomial s ij.1 * overCosine s 1 ij.2) := by
  induction n with
  | zero => simp [overCosine, tangentPolynomial]
  | succ n ih =>
    let step : K[X] →+ K[X] := AddMonoidHom.mk' ((cosineRule s).next 0) ((cosineRule s).next_add 0)
    have next : overCosine s (X : K[X]) (n + 1) = step (overCosine s X n) := overCosine_next s X n
    rw [Finset.sum_antidiagonal_choose_succ_nsmul
      (fun i j => tangentPolynomial s i * overCosine s 1 j) n, next, ih, map_sum,
      ← Finset.sum_add_distrib]
    refine Finset.sum_congr rfl fun ij hij => ?_
    have product : step (tangentPolynomial s ij.1 * overCosine s 1 ij.2) =
        tangentPolynomial s (ij.1 + 1) * overCosine s 1 ij.2 +
          tangentPolynomial s ij.1 * overCosine s 1 (ij.2 + 1) := by
      rw [overCosine_next]
      exact next_mul s _ _
    rw [map_nsmul, product, smul_add, n.choose_symm_of_eq_add (mem_antidiagonal.mp hij).symm,
      add_comm]

theorem next_X : (cosineRule s).next 0 (X : K[X]) = 1 := by
  simp only [DifferentialRule.next, cosineRule, derivative_X, Int.cast_one, Int.cast_neg, C_1,
    C_neg]
  ring

theorem next_one : (cosineRule s).next 0 (1 : K[X]) = C (-s : K) * X := by
  simp [DifferentialRule.next, cosineRule]

theorem overCosine_X_one : overCosine s (X : K[X]) 1 = 1 := next_X s

theorem overCosine_one_one : overCosine s (1 : K[X]) 1 = C (-s : K) * X := next_one s

theorem next_C_mul (c : K) (P : K[X]) :
    (cosineRule s).next 0 (C c * P) = C c * (cosineRule s).next 0 P := by
  simp only [DifferentialRule.next, derivative_C_mul]
  ring

theorem overCosine_C_mul (c : K) (P : K[X]) (n : Nat) :
    overCosine s (C c * P) n = C c * overCosine s P n := by
  induction n with
  | zero => rfl
  | succ n ih => rw [overCosine_next, overCosine_next, ih, next_C_mul]

/-- **The second derivative of sine and cosine** is a multiple of the function. -/
theorem overCosine_add_two {P : K[X]} (h : P = 1 ∨ P = X) (n : Nat) :
    overCosine s P (n + 2) = C (-s : K) * overCosine s P n := by
  have twice : (cosineRule s).next 0 ((cosineRule s).next 0 P) = C (-s : K) * P := by
    rcases h with rfl | rfl
    · rw [next_one, next_C_mul, next_X]
    · rw [next_X, next_one]
  rw [overCosine_succ, overCosine_succ, twice, overCosine_C_mul]

end ProductRule

end JetAlgebra.Outer
